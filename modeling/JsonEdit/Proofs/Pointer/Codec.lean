import JsonEdit.Proofs.Pointer.Escape

/-!
# The codec of names

A name is written by two global replacements, and a segment is read by two others.  Either pair
could spoil its own work, since the second replacement runs over what the first one has put in.
The order of the two is what prevents it: each pair does what one pass over the text would do.

There are three groups.

* Global replacement.  `replaceAll` replaces a text wherever it is found, and `eq_replaceAll` says
  which functions do the same.
* Two passes.  `unescape_eq_replaceAll` and `escape_eq_replaceAll` are the two pairs.
* One pass.  `decode` reads a segment from left to right, `unescape_eq_decode` says that this is
  how segments are read, and `replacements_are_codec` is the assembly.
-/

namespace JsonEdit

namespace Text

/-! ## Global replacement -/

/-- Puts `new` in place of each occurrence of `old`, a text that is not empty.  Occurrences are
found from left to right, and the search goes on behind the one that was found. -/
def replaceAll (old new : List Char) : List Char → List Char
  | [] => []
  | c :: rest =>
    if old.isPrefixOf (c :: rest) then new ++ replaceAll old new (rest.drop (old.length - 1))
    else c :: replaceAll old new rest
termination_by cs => cs.length

/-- A function that treats occurrences, and the characters where none begins, as the global
replacement does is the global replacement. -/
theorem eq_replaceAll (f : List Char → List Char) {first : Char} {others new : List Char}
    (hnil : f [] = []) (hfound : ∀ rest, f (first :: others ++ rest) = new ++ f rest)
    (hother : ∀ c rest, ¬ first :: others <+: c :: rest → f (c :: rest) = c :: f rest)
    (cs : List Char) : f cs = replaceAll (first :: others) new cs := by
  fun_induction replaceAll (first :: others) new cs with
  | case1 => exact hnil
  | case2 c rest hprefix ih =>
    obtain ⟨behind, hbehind⟩ := List.isPrefixOf_iff_prefix.mp hprefix
    have hleft : rest.drop ((first :: others).length - 1) = behind := by
      rw [List.length_cons, Nat.add_sub_cancel, ← List.drop_succ_cons (a := c), ← hbehind,
        ← List.length_cons (a := first), List.drop_left]
    rw [hleft] at ih ⊢
    rw [← ih, ← hbehind]
    exact hfound behind
  | case3 c rest hprefix ih =>
    rw [← ih]
    exact hother c rest fun h => hprefix (List.isPrefixOf_iff_prefix.mpr h)

/-- To replace a single character is to write something else for it. -/
theorem replaceAll_singleton (old : Char) (new cs : List Char) :
    replaceAll [old] new cs = cs.flatMap fun c => if c = old then new else [c] := by
  refine (eq_replaceAll (List.flatMap fun c => if c = old then new else [c]) rfl ?_ ?_ cs).symm
  · intro rest
    simp
  · intro c rest hother
    have hne : c ≠ old := fun hc => hother (by simp [hc])
    simp [hne]

end Text

namespace Pointer

open Text

/-! ## Two passes -/

/-- A function that replaces one escape and keeps all other characters is a global replacement. -/
theorem eq_replaceAll_escape (f : List Char → List Char) {digit : Char} {new : List Char}
    (hnil : f [] = []) (hescape : ∀ rest, f ('~' :: digit :: rest) = new ++ f rest)
    (htilde : ∀ rest, rest.head? ≠ some digit → f ('~' :: rest) = '~' :: f rest)
    (hcons : ∀ c rest, c ≠ '~' → f (c :: rest) = c :: f rest) (cs : List Char) :
    f cs = replaceAll ['~', digit] new cs := by
  refine eq_replaceAll f hnil ?_ ?_ cs
  · intro rest
    exact hescape rest
  · intro c rest hother
    by_cases hc : c = '~'
    · rw [hc]
      refine htilde rest fun hhead => hother ?_
      obtain ⟨tail, htail⟩ := List.head?_eq_some_iff.mp hhead
      rw [hc, htail]
      exact ⟨tail, rfl⟩
    · exact hcons c rest hc

theorem restoreSlashes_eq_replaceAll (cs : List Char) :
    restoreSlashes cs = replaceAll ['~', '1'] ['/'] cs :=
  eq_replaceAll_escape restoreSlashes rfl (fun _ => rfl) (fun _ => restoreSlashes_tilde_cons)
    (fun _ rest hc => restoreSlashes_cons hc rest) cs

theorem restoreTildes_eq_replaceAll (cs : List Char) :
    restoreTildes cs = replaceAll ['~', '0'] ['~'] cs :=
  eq_replaceAll_escape restoreTildes rfl (fun _ => rfl) (fun _ => restoreTildes_tilde_cons)
    (fun _ rest hc => restoreTildes_cons hc rest) cs

/-- A segment is read by putting the slashes back, and the tildes after them. -/
theorem unescape_eq_replaceAll (segment : List Char) :
    unescape segment = replaceAll ['~', '0'] ['~'] (replaceAll ['~', '1'] ['/'] segment) := by
  rw [unescape, restoreTildes_eq_replaceAll, restoreSlashes_eq_replaceAll]

/-- A name is written by replacing its tildes, and its slashes after them.  The second pass finds
no slash in what the first one has written for a tilde. -/
theorem escape_eq_replaceAll (name : List Char) :
    escape name = replaceAll ['/'] ['~', '1'] (replaceAll ['~'] ['~', '0'] name) := by
  rw [replaceAll_singleton, replaceAll_singleton, List.flatMap_assoc, escape]
  refine congrArg (name.flatMap ·) (funext fun c => ?_)
  unfold escapeChar
  split
  · rfl
  · rw [List.flatMap_singleton]

/-! ## One pass -/

/-- Reads a segment in one pass from left to right: a tilde with a one behind it is a slash, a
tilde with a zero behind it is a tilde, and any other character stands for itself. -/
def decode : List Char → List Char
  | '~' :: '1' :: rest => '/' :: decode rest
  | '~' :: '0' :: rest => '~' :: decode rest
  | c :: rest => c :: decode rest
  | [] => []

theorem unescape_eq_decode (segment : List Char) : unescape segment = decode segment := by
  fun_induction decode segment with
  | case1 rest ih => rw [unescape_one, ih]
  | case2 rest ih => rw [unescape_zero, ih]
  | case3 c rest hone hzero ih =>
    rw [← ih]
    by_cases hc : c = '~'
    · subst hc
      refine unescape_tilde_cons (fun h => ?_) fun h => ?_
      · obtain ⟨tail, htail⟩ := List.head?_eq_some_iff.mp h
        exact hzero tail rfl htail
      · obtain ⟨tail, htail⟩ := List.head?_eq_some_iff.mp h
        exact hone tail rfl htail
    · exact unescape_cons hc rest
  | case4 => rfl

/-- Reading a segment and writing a name are done by two global replacements each, on any text.
What they read is what one pass from left to right reads.  What they write has no slash in it and a
zero or a one behind every tilde, and is read back as the name.  A segment is written again for the
name that it stands for exactly if it has this form. -/
theorem replacements_are_codec :
    (∀ segment,
      unescape segment = replaceAll ['~', '0'] ['~'] (replaceAll ['~', '1'] ['/'] segment) ∧
        unescape segment = decode segment) ∧
      (∀ name,
        escape name = replaceAll ['/'] ['~', '1'] (replaceAll ['~'] ['~', '0'] name) ∧
          '/' ∉ escape name ∧ Escaped (escape name) ∧ unescape (escape name) = name) ∧
      ∀ segment, escape (unescape segment) = segment ↔ '/' ∉ segment ∧ Escaped segment := by
  refine ⟨?_, ?_, fun segment => escape_unescape_iff⟩
  · intro segment
    exact ⟨unescape_eq_replaceAll segment, unescape_eq_decode segment⟩
  · intro name
    exact ⟨escape_eq_replaceAll name, slash_not_mem_escape name, escaped_escape name,
      unescape_escape name⟩

/-- A tilde in front of an escape, a written tilde in front of a one, and tildes that begin no
escape.  Only the first three words have the form that names are written in. -/
theorem replacements_are_codec_of_five_words :
    replaceAll ['~', '0'] ['~'] (replaceAll ['~', '1'] ['/'] "~~1 ~01 ~0~1 ~2 ~".toList) =
        "~/ ~1 ~/ ~2 ~".toList ∧
      '/' ∉ escape "~/ ~1 ~/ ~2 ~".toList ∧
      unescape (escape "~/ ~1 ~/ ~2 ~".toList) = "~/ ~1 ~/ ~2 ~".toList ∧
      escape (unescape "~01 ~0~1".toList) = "~01 ~0~1".toList ∧
      ¬ escape (unescape "~2".toList) = "~2".toList := by
  obtain ⟨hread, hwrite, hback⟩ := replacements_are_codec
  obtain ⟨hpasses, hone⟩ := hread "~~1 ~01 ~0~1 ~2 ~".toList
  obtain ⟨-, hslash, -, hname⟩ := hwrite "~/ ~1 ~/ ~2 ~".toList
  refine ⟨hpasses.symm.trans (hone.trans (by decide)), hslash, hname, ?_, ?_⟩
  · exact (hback _).mpr ⟨by decide, by simp [escaped_cons]⟩
  · exact fun h => absurd ((hback _).mp h).2 (by simp [escaped_cons])

end Pointer

end JsonEdit
