import JsonEdit.Proofs.Pointer.Strict
import Mathlib.Order.Bounds.Basic

/-!
# The grammar of strict reading

Strict reading accepts the texts of a grammar that can be said without reading: nothing, or a
slash in front of escaped text, within two bounds.  A text outside the grammar is refused for
the first of four reasons that applies to it.  The last reason names a place in the text, and
that place is counted in bytes, while the text is read character by character.

There are four groups.

* Bytes.  In the UTF-8 form of a text a byte below 128 is a character of its own
  (`toNat_eq_of_mem_utf8EncodeChar`), so a search for a tilde may skip whole characters.
* Stray tildes.  `StrayAt` says of the bytes alone where one is, and `strayTilde?_eq_some_iff`
  says that the search finds the first.
* Refusals.  `Refused` lists the four reasons, each with those that do not apply.
* The whole law.  The accepted texts, the number of their steps, and the refusals.
-/

namespace JsonEdit

namespace Text

/-! ## Bytes -/

/-- The bytes of a text in UTF-8. -/
def bytes (cs : List Char) : List UInt8 := cs.flatMap String.utf8EncodeChar

theorem bytes_toList (s : String) : bytes s.toList = s.toUTF8.data.toList := by
  rw [String.toUTF8, ← String.utf8Encode_toList]
  simp [List.utf8Encode, bytes]

theorem bytes_cons (c : Char) (rest : List Char) :
    bytes (c :: rest) = String.utf8EncodeChar c ++ bytes rest := rfl

/-- A byte below 128 is the whole form of the character with this code point, because every byte
of a longer form has its highest bit set. -/
theorem toNat_eq_of_mem_utf8EncodeChar {c : Char} {b : UInt8} (hb : b.toNat < 128)
    (h : b ∈ String.utf8EncodeChar c) : c.toNat = b.toNat := by
  have hcode : c.val.toNat = c.toNat := rfl
  have hbyte : ∀ n : Nat, b = UInt8.ofNat n → b.toNat = n % 256 := by
    intro n hn
    rw [hn, UInt8.toNat_ofNat']
  simp only [String.utf8EncodeChar] at h
  split_ifs at h <;> simp only [List.mem_cons, List.not_mem_nil, or_false] at h
  · have := hbyte _ h
    omega
  · rcases h with h | h <;> have := hbyte _ h <;> omega
  · rcases h with h | h | h <;> have := hbyte _ h <;> omega
  · rcases h with h | h | h | h <;> have := hbyte _ h <;> omega

theorem toNat_toUInt8 {d : Char} (hd : d.toNat < 128) : d.toUInt8.toNat = d.toNat := by
  show d.toNat % 256 = d.toNat
  omega

theorem eq_of_mem_utf8EncodeChar {c d : Char} (hd : d.toNat < 128)
    (h : d.toUInt8 ∈ String.utf8EncodeChar c) : c = d := by
  have hbyte : d.toUInt8.toNat = d.toNat := toNat_toUInt8 hd
  have hcode : c.toNat = d.toNat := by
    rw [toNat_eq_of_mem_utf8EncodeChar (by omega) h, hbyte]
  rw [← Char.ofNat_toNat c, hcode, Char.ofNat_toNat]

theorem utf8EncodeChar_of_lt {d : Char} (hd : d.toNat < 128) :
    String.utf8EncodeChar d = [d.toUInt8] := by
  have hle : d.val.toNat ≤ 127 := Nat.le_of_lt_succ hd
  rw [String.utf8EncodeChar]
  simp only [hle, if_true]
  rfl

/-- The first byte of a text is that of a character below 128 exactly if the character is the
first of the text. -/
theorem getElem?_bytes_zero {d : Char} (hd : d.toNat < 128) (cs : List Char) :
    (bytes cs)[0]? = some d.toUInt8 ↔ cs.head? = some d := by
  cases cs with
  | nil => simp [bytes]
  | cons c rest =>
    rw [bytes_cons, List.head?_cons, Option.some.injEq]
    constructor
    · intro h
      have hlength : 0 < (String.utf8EncodeChar c).length := by
        rw [String.length_utf8EncodeChar]
        exact c.utf8Size_pos
      rw [List.getElem?_append_left hlength] at h
      exact eq_of_mem_utf8EncodeChar hd (List.mem_of_getElem? h)
    · intro h
      rw [h, utf8EncodeChar_of_lt hd]
      rfl

end Text

namespace Pointer

open Text

/-! ## Stray tildes -/

/-- The byte at this offset is a tilde, and the next one is neither a zero nor a one. -/
def StrayAt (bytes : List UInt8) (offset : Nat) : Prop :=
  bytes[offset]? = some '~'.toUInt8 ∧
    bytes[offset + 1]? ≠ some '0'.toUInt8 ∧ bytes[offset + 1]? ≠ some '1'.toUInt8

theorem not_strayAt_nil (offset : Nat) : ¬ StrayAt [] offset := by
  simp [StrayAt]

/-- Behind a character that is no tilde, stray tildes are those of the rest. -/
theorem strayAt_bytes_cons {c : Char} (hc : c ≠ '~') (rest : List Char) (offset : Nat) :
    StrayAt (bytes (c :: rest)) offset ↔
      c.utf8Size ≤ offset ∧ StrayAt (bytes rest) (offset - c.utf8Size) := by
  have hlength : (String.utf8EncodeChar c).length = c.utf8Size := String.length_utf8EncodeChar c
  rw [bytes_cons]
  by_cases hin : offset < c.utf8Size
  · refine iff_of_false ?_ (fun h => Nat.not_le_of_lt hin h.1)
    intro h
    have hbyte := h.1
    rw [List.getElem?_append_left (by omega)] at hbyte
    exact hc (eq_of_mem_utf8EncodeChar (by decide) (List.mem_of_getElem? hbyte))
  · have hle : c.utf8Size ≤ offset := Nat.le_of_not_lt hin
    have hnext : offset + 1 - c.utf8Size = offset - c.utf8Size + 1 := by omega
    unfold StrayAt
    rw [List.getElem?_append_right (by omega), List.getElem?_append_right (by omega), hlength,
      hnext]
    exact ⟨fun h => ⟨hle, h⟩, fun h => h.2⟩

theorem bytes_tilde_cons (rest : List Char) :
    bytes ('~' :: rest) = '~'.toUInt8 :: bytes rest := by
  rw [bytes_cons, utf8EncodeChar_of_lt (by decide)]
  rfl

/-- A tilde at the front is stray if the rest begins with neither a zero nor a one. -/
theorem strayAt_tilde_zero (rest : List Char) :
    StrayAt (bytes ('~' :: rest)) 0 ↔ rest.head? ≠ some '0' ∧ rest.head? ≠ some '1' := by
  have hzero := (getElem?_bytes_zero (d := '0') (by decide) rest).not
  have hone := (getElem?_bytes_zero (d := '1') (by decide) rest).not
  unfold StrayAt
  rw [bytes_tilde_cons, List.getElem?_cons_zero, List.getElem?_cons_succ]
  exact ⟨fun h => ⟨hzero.mp h.2.1, hone.mp h.2.2⟩, fun h => ⟨rfl, hzero.mpr h.1, hone.mpr h.2⟩⟩

/-- Behind a tilde that is not stray, stray tildes are those of the rest. -/
theorem strayAt_tilde_cons {rest : List Char} (h : rest.head? = some '0' ∨ rest.head? = some '1')
    (offset : Nat) :
    StrayAt (bytes ('~' :: rest)) offset ↔ 1 ≤ offset ∧ StrayAt (bytes rest) (offset - 1) := by
  cases offset with
  | zero =>
    rw [strayAt_tilde_zero]
    rcases h with h | h <;> simp [h]
  | succ offset =>
    rw [bytes_tilde_cons]
    simp [StrayAt]

/-- The least place of a set that begins so much later is so much later. -/
theorem isLeast_shift {S T : Nat → Prop} {n : Nat} (h : ∀ k, S k ↔ n ≤ k ∧ T (k - n)) (j : Nat) :
    IsLeast {k | S k} j ↔ ∃ i, j = n + i ∧ IsLeast {k | T k} i := by
  constructor
  · intro hj
    obtain ⟨hle, hT⟩ := (h j).mp hj.1
    refine ⟨j - n, by omega, hT, ?_⟩
    intro k hk
    have hnk : S (n + k) := (h (n + k)).mpr ⟨by omega, by rwa [Nat.add_sub_cancel_left]⟩
    have hjk : j ≤ n + k := hj.2 hnk
    omega
  · rintro ⟨i, hji, hi⟩
    subst hji
    refine ⟨(h (n + i)).mpr ⟨by omega, by rw [Nat.add_sub_cancel_left]; exact hi.1⟩, ?_⟩
    intro k hk
    obtain ⟨hnk, hT⟩ := (h k).mp hk
    have hik : i ≤ k - n := hi.2 hT
    omega

/-- The search for a stray tilde finds the first one. -/
theorem strayTilde?_eq_some_iff (offset : Nat) {cs : List Char} {i : Nat} :
    strayTilde? offset cs = some i ↔
      ∃ j, i = offset + j ∧ IsLeast {k | StrayAt (bytes cs) k} j := by
  have hshift : ∀ {offset n : Nat} {as bs : List Char},
      (∀ k, StrayAt (bytes as) k ↔ n ≤ k ∧ StrayAt (bytes bs) (k - n)) →
      ((∃ j, i = offset + n + j ∧ IsLeast {k | StrayAt (bytes bs) k} j) ↔
        ∃ j, i = offset + j ∧ IsLeast {k | StrayAt (bytes as) k} j) := by
    intro offset n as bs h
    simp only [isLeast_shift h]
    constructor
    · rintro ⟨j, hi, hleast⟩
      exact ⟨n + j, by omega, j, rfl, hleast⟩
    · rintro ⟨k, hi, j, hk, hleast⟩
      exact ⟨j, by omega, hleast⟩
  fun_induction strayTilde? offset cs with
  | case1 =>
    refine iff_of_false (by simp) ?_
    rintro ⟨j, -, hleast⟩
    exact not_strayAt_nil j hleast.1
  | case2 offset tail ih => exact ih.trans (hshift (strayAt_tilde_cons (.inl rfl)))
  | case3 offset tail ih => exact ih.trans (hshift (strayAt_tilde_cons (.inr rfl)))
  | case4 offset rest hzero hone =>
    have hstray : StrayAt (bytes ('~' :: rest)) 0 := by
      rw [strayAt_tilde_zero, ne_eq, ne_eq, List.head?_eq_some_iff, List.head?_eq_some_iff,
        not_exists, not_exists]
      exact ⟨hzero, hone⟩
    have hleast : IsLeast {k | StrayAt (bytes ('~' :: rest)) k} 0 :=
      ⟨hstray, fun k _ => Nat.zero_le k⟩
    constructor
    · intro h
      exact ⟨0, (Option.some.inj h).symm, hleast⟩
    · rintro ⟨j, hi, hj⟩
      rw [hi, hj.unique hleast, Nat.add_zero]
  | case5 offset c rest hc ih => exact ih.trans (hshift (strayAt_bytes_cons hc rest))

/-! ## Refusals -/

/-- Why a text is outside the grammar: the first of the four reasons that applies. -/
inductive Refused (limits : Limits) (s : String) : Invalid → Prop
  | notAbsolute (hne : s ≠ "") (hhead : s.toList.head? ≠ some '/') : Refused limits s .notAbsolute
  | tooLong (hhead : s.toList.head? = some '/') (hbytes : limits.bytes < s.utf8ByteSize) :
    Refused limits s .tooLong
  | tooManySteps (hhead : s.toList.head? = some '/') (hbytes : s.utf8ByteSize ≤ limits.bytes)
    (hsteps : limits.steps < s.toList.count '/') : Refused limits s .tooManySteps
  | badEscape (offset : Nat) (hhead : s.toList.head? = some '/')
    (hbytes : s.utf8ByteSize ≤ limits.bytes) (hsteps : s.toList.count '/' ≤ limits.steps)
    (hstray : IsLeast {i | StrayAt s.toUTF8.data.toList i} offset) :
    Refused limits s (.badEscape offset)

/-- The search from the front of a text counts from the first byte of it. -/
theorem strayTilde?_zero_eq_some_iff {s : String} {offset : Nat} :
    strayTilde? 0 s.toList = some offset ↔ IsLeast {i | StrayAt s.toUTF8.data.toList i} offset := by
  rw [strayTilde?_eq_some_iff, bytes_toList]
  simp

/-- A text that starts with a slash is held against the two bounds before it is searched. -/
theorem validate_slash {limits : Limits} {cs : List Char} (hhead : cs.head? = some '/') :
    validate limits cs =
      if limits.bytes < Text.byteSize cs then .error .tooLong
      else if limits.steps < cs.count '/' then .error .tooManySteps
      else match strayTilde? 0 cs with
        | some offset => .error (.badEscape offset)
        | none => .ok () := by
  cases cs with
  | nil => cases hhead
  | cons c rest =>
    have hc : c = '/' := Option.some.inj hhead
    exact if_neg (not_not_intro hc)

theorem validate_of_not_slash {limits : Limits} {cs : List Char} (hne : cs ≠ [])
    (hhead : cs.head? ≠ some '/') : validate limits cs = .error .notAbsolute := by
  cases cs with
  | nil => exact absurd rfl hne
  | cons c rest => exact if_pos (fun hc => hhead (congrArg some hc))

/-- Strict reading refuses a text for the first reason that applies. -/
theorem validate_eq_error_iff {limits : Limits} {s : String} {cause : Invalid} :
    validate limits s.toList = .error cause ↔ Refused limits s cause := by
  have hsize : Text.byteSize s.toList = s.utf8ByteSize := by
    rw [Text.byteSize_eq_utf8ByteSize, String.ofList_toList]
  constructor
  · intro h
    by_cases hhead : s.toList.head? = some '/'
    · rw [validate_slash hhead, hsize] at h
      split_ifs at h with hbytes hsteps
      · cases h
        exact .tooLong hhead hbytes
      · cases h
        exact .tooManySteps hhead (Nat.le_of_not_lt hbytes) hsteps
      · split at h
        · next offset hstray =>
          cases h
          exact .badEscape offset hhead (Nat.le_of_not_lt hbytes) (Nat.le_of_not_lt hsteps)
            (strayTilde?_zero_eq_some_iff.mp hstray)
        · cases h
    · have hne : s ≠ "" := by
        intro hs
        rw [hs] at h
        cases h
      rw [validate_of_not_slash (mt String.toList_eq_nil_iff.mp hne) hhead] at h
      cases h
      exact .notAbsolute hne hhead
  · intro h
    cases h with
    | notAbsolute hne hhead =>
      exact validate_of_not_slash (mt String.toList_eq_nil_iff.mp hne) hhead
    | tooLong hhead hbytes => rw [validate_slash hhead, hsize, if_pos hbytes]
    | tooManySteps hhead hbytes hsteps =>
      rw [validate_slash hhead, hsize, if_neg (Nat.not_lt_of_le hbytes), if_pos hsteps]
    | badEscape offset hhead hbytes hsteps hstray =>
      rw [validate_slash hhead, hsize, if_neg (Nat.not_lt_of_le hbytes),
        if_neg (Nat.not_lt_of_le hsteps), strayTilde?_zero_eq_some_iff.mpr hstray]

theorem parseWithin_eq_error_iff {limits : Limits} {s : String} {cause : Invalid} :
    parseWithin limits s = .error cause ↔ validate limits s.toList = .error cause := by
  rw [parseWithin, parseChars]
  cases validate limits s.toList <;> simp [Except.map]

/-! ## The whole law -/

/-- A text is accepted exactly if it is empty, or starts with a slash, is within both bounds and
has a zero or a one behind every tilde.  It is then read as every text is, into as many steps
as it has slashes.  A text that is not accepted is refused for the first reason that applies,
and the place of a bad escape is that of the first stray tilde in the bytes of the text. -/
theorem parseWithin_follows_bounded_grammar (limits : Limits) (s : String) :
    ((∃ p, parseWithin limits s = .ok p) ↔
      s = "" ∨ (s.toList.head? = some '/' ∧ s.utf8ByteSize ≤ limits.bytes ∧
        s.toList.count '/' ≤ limits.steps ∧ Escaped s.toList)) ∧
    (∀ p, parseWithin limits s = .ok p →
      p = compile s ∧ p.length = s.toList.count '/' ∧ p.length ≤ limits.steps) ∧
    ∀ cause, parseWithin limits s = .error cause ↔ Refused limits s cause := by
  have haccepts : validate limits s.toList = .ok () ↔
      s = "" ∨ (s.toList.head? = some '/' ∧ s.utf8ByteSize ≤ limits.bytes ∧
        s.toList.count '/' ≤ limits.steps ∧ Escaped s.toList) := by
    rw [validate_eq_ok_iff, String.toList_eq_nil_iff, Text.byteSize_eq_utf8ByteSize,
      String.ofList_toList]
  refine ⟨?_, ?_, ?_⟩
  · rw [← haccepts]
    constructor
    · rintro ⟨p, hp⟩
      exact (parseWithin_eq_ok_iff.mp hp).1
    · intro h
      exact ⟨compile s, parseWithin_eq_ok_iff.mpr ⟨h, rfl⟩⟩
  · intro p hp
    have hlength : p.length = s.toList.count '/' := by
      rw [← count_slash_text, ← render_of_parseWithin hp, render, String.toList_ofList]
    refine ⟨(parseWithin_eq_ok_iff.mp hp).2.symm, hlength, ?_⟩
    rw [hlength]
    cases haccepts.mp (parseWithin_eq_ok_iff.mp hp).1 with
    | inl hempty =>
      rw [hempty]
      exact Nat.zero_le _
    | inr hbounded => exact hbounded.2.2.1
  · intro cause
    rw [parseWithin_eq_error_iff, validate_eq_error_iff]

/-- A character of three bytes, a good escape and a bad one: the bad one is six bytes into the
text but four characters.  With a slash in its place the text is accepted. -/
theorem parseWithin_follows_bounded_grammar_wide_name :
    parseWithin ⟨12, 1⟩ "/€~0~€" = .error (.badEscape 6) ∧
      Refused ⟨12, 1⟩ "/€~0~€" (.badEscape 6) ∧
      parseWithin ⟨12, 2⟩ "/€~0/1" = .ok [.key "€~", .index 1] ∧
      ([.key "€~", .index 1] : Pointer).length = "/€~0/1".toList.count '/' := by
  have hbad : parseWithin ⟨12, 1⟩ "/€~0~€" = .error (.badEscape 6) := rfl
  have hgood : parseWithin ⟨12, 2⟩ "/€~0/1" = .ok [.key "€~", .index 1] := rfl
  exact ⟨hbad, ((parseWithin_follows_bounded_grammar _ _).2.2 _).mp hbad, hgood,
    ((parseWithin_follows_bounded_grammar _ _).2.1 _ hgood).2.1⟩

end Pointer

end JsonEdit
