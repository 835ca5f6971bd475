import JsonEdit.Proofs.Pointer.Text

/-!
# Canonical pointers

A pointer is sent as text, and its text says nothing about the kinds of its steps.  A name
that is spelt like a hyphen or like an index comes back as another step, and so does an
index that is too great for one.  All other steps come back as they were.  This module
proves that these are exactly the steps that text cannot carry, and that no text is read as
a pointer with such a step in it.

There are four groups.

* Plain texts.  A text without tildes and slashes stands for itself (`unescape_of_plain`),
  and no other segment stands for it (`plain_of_plain_unescape`).
* Segments.  `classify_cases` says once what a segment stands for, and `asKey?_classify` that
  it keeps its name whatever it is read as.  The segments that do not stand for a name, the
  reserved ones, are plain, so an escape neither hides one nor makes one up.
* Steps.  `Step.reread` is a step after it was written and read, `reread_eq_self_iff` says
  which steps come back, and `canonical_classify` that the steps of a text do.
* Pointers.  `compile_render` reads a written pointer step by step.  A `TextPointer` carries the
  proof that all of its steps come back, every text is read as one, and
  `compile_render_eq_self_iff` is the assembly.
-/

namespace JsonEdit

namespace Pointer

/-! ## Plain texts -/

/-- Nothing in a text needs an escape. -/
def Plain (cs : List Char) : Prop := '~' ∉ cs ∧ '/' ∉ cs

theorem plain_cons {c : Char} {rest : List Char} :
    Plain (c :: rest) ↔ (c ≠ '~' ∧ c ≠ '/') ∧ Plain rest := by
  simp only [Plain, List.mem_cons, not_or, ne_eq, eq_comm (a := c)]
  exact and_and_and_comm

/-- A plain segment stands for itself. -/
theorem unescape_of_plain {segment : List Char} (h : Plain segment) :
    unescape segment = segment := by
  induction segment with
  | nil => rfl
  | cons c rest ih =>
    have hc := plain_cons.mp h
    rw [unescape_cons hc.1.1, ih hc.2]

/-- A tilde in front leaves a tilde or a slash behind, whatever follows it. -/
theorem not_plain_unescape_tilde_cons (rest : List Char) : ¬ Plain (unescape ('~' :: rest)) := by
  intro h
  by_cases hone : rest.head? = some '1'
  · obtain ⟨tail, rfl⟩ := List.head?_eq_some_iff.mp hone
    rw [unescape_one] at h
    exact (plain_cons.mp h).1.2 rfl
  · by_cases hzero : rest.head? = some '0'
    · obtain ⟨tail, rfl⟩ := List.head?_eq_some_iff.mp hzero
      rw [unescape_zero] at h
      exact (plain_cons.mp h).1.1 rfl
    · rw [unescape_tilde_cons hzero hone] at h
      exact (plain_cons.mp h).1.1 rfl

/-- Only a plain segment stands for a plain text. -/
theorem plain_of_plain_unescape {segment : List Char} (h : Plain (unescape segment)) :
    Plain segment := by
  induction segment with
  | nil => exact h
  | cons c rest ih =>
    by_cases hc : c = '~'
    · subst hc
      exact absurd h (not_plain_unescape_tilde_cons rest)
    · rw [unescape_cons hc] at h
      have hrest := plain_cons.mp h
      exact plain_cons.mpr ⟨hrest.1, ih hrest.2⟩

end Pointer

/-! ## Segments -/

namespace Text

/-- The shortest decimal form of a number has no zero in front of another digit. -/
theorem isDecimal_decimal (n : Nat) : isDecimal (decimal n) = true := by
  obtain rfl | hn := Nat.eq_zero_or_pos n
  · rfl
  · have hhead := head?_decimal_ne_zero hn
    unfold isDecimal
    split
    · next hnil => exact absurd hnil (decimal_ne_nil n)
    · rfl
    · next hzero => simp [hzero] at hhead
    · exact List.all_eq_true.mpr fun c hc => isDigit_of_mem_decimal hc

end Text

namespace Step

open Pointer

/-- The segments that do not stand for a name: a hyphen, and the shortest decimal form of
each number below `2 ^ 64`. -/
def Reserved (segment : List Char) : Prop :=
  segment = ['-'] ∨ ∃ n ≤ greatestIndex, segment = Text.decimal n

theorem reserved_iff {segment : List Char} :
    Reserved segment ↔
      segment = ['-'] ∨
        (Text.isDecimal segment = true ∧ Text.decimalValue segment ≤ greatestIndex) := by
  refine or_congr_right ⟨?_, fun h => ⟨_, h.2, (Text.decimal_decimalValue h.1).symm⟩⟩
  rintro ⟨n, hn, rfl⟩
  exact ⟨Text.isDecimal_decimal n, by rwa [Text.decimalValue_decimal]⟩

instance : DecidablePred Reserved := fun _ => decidable_of_iff _ reserved_iff.symm

/-- What a segment stands for. -/
theorem classify_cases (segment : List Char) :
    (segment = ['-'] ∧ classify segment = pastEnd) ∨
      (∃ n ≤ greatestIndex, segment = Text.decimal n ∧ classify segment = index n) ∨
      (¬ Reserved segment ∧ classify segment = key (String.ofList (unescape segment))) := by
  unfold classify
  split
  · next hhyphen => exact .inl ⟨hhyphen, rfl⟩
  · next hhyphen =>
    simp only [Bool.and_eq_true, decide_eq_true_eq]
    split
    · next hnumeral =>
      exact .inr (.inl ⟨_, hnumeral.2, (Text.decimal_decimalValue hnumeral.1).symm, rfl⟩)
    · next hnumeral =>
      exact .inr (.inr ⟨fun h => (reserved_iff.mp h).elim hhyphen hnumeral, rfl⟩)

theorem plain_decimal (n : Nat) : Plain (Text.decimal n) :=
  ⟨not_mem_decimal (by decide) n, not_mem_decimal (by decide) n⟩

theorem decimal_ne_hyphen (n : Nat) : Text.decimal n ≠ ['-'] := by
  intro h
  have hmem : '-' ∈ Text.decimal n := by simp [h]
  exact not_mem_decimal (by decide) n hmem

theorem plain_of_reserved {segment : List Char} (h : Reserved segment) : Plain segment := by
  rcases h with rfl | ⟨n, -, rfl⟩
  · exact ⟨by decide, by decide⟩
  · exact plain_decimal n

/-- Whatever a segment is read as, it leads to the member whose name it stands for. -/
theorem asKey?_classify {segment : List Char} (h : segment ≠ ['-']) :
    (classify segment).asKey? = some (String.ofList (unescape segment)) := by
  rcases classify_cases segment with ⟨hhyphen, -⟩ | ⟨n, -, rfl, hindex⟩ | ⟨-, hkey⟩
  · exact absurd hhyphen h
  · rw [hindex, asKey?, unescape_of_plain (plain_decimal n)]
  · rw [hkey, asKey?]

theorem classify_decimal {n : Nat} (hn : n ≤ greatestIndex) :
    classify (Text.decimal n) = index n := by
  rw [classify, if_neg (decimal_ne_hyphen n), Text.isDecimal_decimal, Text.decimalValue_decimal,
    Bool.true_and, if_pos (decide_eq_true hn)]

theorem classify_of_not_reserved {segment : List Char} (h : ¬ Reserved segment) :
    classify segment = key (String.ofList (unescape segment)) := by
  rcases classify_cases segment with ⟨hhyphen, -⟩ | ⟨n, hn, hdecimal, -⟩ | ⟨-, hkey⟩
  · exact absurd (.inl hhyphen) h
  · exact absurd (.inr ⟨n, hn, hdecimal⟩) h
  · exact hkey

/-- An escape does not make up a reserved segment. -/
theorem reserved_of_reserved_escape {name : List Char} (h : Reserved (escape name)) :
    escape name = name ∧ Reserved name := by
  have hself : escape name = name := by
    rw [← unescape_of_plain (plain_of_reserved h), unescape_escape]
  exact ⟨hself, hself ▸ h⟩

/-- An escape does not hide a reserved segment. -/
theorem reserved_of_reserved_unescape {segment : List Char} (h : Reserved (unescape segment)) :
    Reserved segment := by
  have hplain : Plain segment := plain_of_plain_unescape (plain_of_reserved h)
  rwa [unescape_of_plain hplain] at h

/-! ## Steps -/

/-- An index is below `2 ^ 64`. -/
def InRange : Step → Prop
  | index position => position ≤ greatestIndex
  | key _ | pastEnd => True

/-- A name is neither a hyphen nor the shortest decimal form of a number below `2 ^ 64`. -/
def Canonical : Step → Prop
  | key name => ¬ Reserved name.toList
  | index _ | pastEnd => True

instance : DecidablePred InRange
  | index position => inferInstanceAs (Decidable (position ≤ greatestIndex))
  | key _ | pastEnd => inferInstanceAs (Decidable True)

instance : DecidablePred Canonical
  | key name => inferInstanceAs (Decidable ¬ Reserved name.toList)
  | index _ | pastEnd => inferInstanceAs (Decidable True)

/-- The step that the text of a step stands for. -/
def reread (step : Step) : Step := classify step.text

theorem inRange_classify (segment : List Char) : (classify segment).InRange := by
  rcases classify_cases segment with ⟨-, h⟩ | ⟨n, hn, -, h⟩ | ⟨-, h⟩
  · rw [h]
    trivial
  · rw [h]
    exact hn
  · rw [h]
    trivial

theorem canonical_classify (segment : List Char) : (classify segment).Canonical := by
  rcases classify_cases segment with ⟨-, h⟩ | ⟨n, -, -, h⟩ | ⟨hname, h⟩
  · rw [h]
    trivial
  · rw [h]
    trivial
  · rw [h]
    intro hreserved
    rw [String.toList_ofList] at hreserved
    exact hname (reserved_of_reserved_unescape hreserved)

/-- The steps that come back from their text.  The escaped form of a name is reserved only if the
name itself is. -/
theorem reread_eq_self_iff {step : Step} : step.reread = step ↔ step.InRange ∧ step.Canonical := by
  constructor
  · intro h
    rw [← h]
    exact ⟨inRange_classify _, canonical_classify _⟩
  · rintro ⟨hrange, hname⟩
    cases step with
    | index n => exact classify_decimal hrange
    | key name =>
      have hsegment : ¬ Reserved (escape name.toList) := fun h =>
        hname (reserved_of_reserved_escape h).2
      change classify (escape name.toList) = key name
      rw [classify_of_not_reserved hsegment, unescape_escape, String.ofList_toList]
    | pastEnd => rfl

end Step

namespace Pointer

/-! ## Pointers -/

/-- A written pointer is read step by step. -/
theorem compile_render (p : Pointer) : compile p.render = p.map Step.reread := by
  rw [compile, render, String.toList_ofList]
  by_cases hp : p = []
  · subst hp
    rfl
  · have hslash : ∀ segment ∈ p.map Step.text, '/' ∉ segment := by
      intro segment hsegment
      obtain ⟨step, -, rfl⟩ := List.mem_map.mp hsegment
      exact step.slash_not_mem_text
    have hne : p.map Step.text ≠ [] := by simpa using hp
    rw [text_eq_flatMap_map, flatMap_eq_cons_intercalate hne, compileChars_slash,
      List.splitOn_intercalate '/' hslash hne, List.map_map]
    rfl

/-- The names come back as the place behind the last item and as an index. -/
example : compile (render [.key "a/b", .key "-", .key "0"]) = [.key "a/b", .pastEnd, .index 0] := by
  rfl

/-- Every step of a text was read from a segment of it. -/
theorem exists_classify_of_mem_compile {s : String} {step : Step} (h : step ∈ compile s) :
    ∃ segment, Step.classify segment = step := by
  rw [compile, compileChars] at h
  split at h
  · simp at h
  · obtain ⟨segment, -, hstep⟩ := List.mem_map.mp h
    exact ⟨segment, hstep⟩

/-- A pointer that carries the proof that text can carry it: its indices are below `2 ^ 64`, and
none of its names is a hyphen or the shortest decimal form of such an index. -/
abbrev TextPointer := {p : Pointer // ∀ step ∈ p, step.InRange ∧ step.Canonical}

/-- The pointer of a text. -/
def TextPointer.ofText (s : String) : TextPointer where
  val := compile s
  property := by
    intro step hstep
    obtain ⟨segment, rfl⟩ := exists_classify_of_mem_compile hstep
    exact ⟨Step.inRange_classify segment, Step.canonical_classify segment⟩

/-- The pointers all of whose steps come back. -/
theorem map_reread_eq_self_iff {p : Pointer} :
    p.map Step.reread = p ↔ ∀ step ∈ p, step.InRange ∧ step.Canonical := by
  calc p.map Step.reread = p
    _ ↔ p.map Step.reread = p.map id := by rw [List.map_id]
    _ ↔ ∀ step ∈ p, step.reread = step := List.map_inj_left
    _ ↔ ∀ step ∈ p, step.InRange ∧ step.Canonical := by simp only [Step.reread_eq_self_iff]

/-- A pointer comes back from its text exactly if its indices are below `2 ^ 64`, as those of
an array are, and none of its names is a hyphen or the shortest decimal form of such an index.
The pointer of a text, whatever the text is, is one of these, so it comes back. -/
theorem compile_render_eq_self_iff :
    (∀ p : Pointer, compile p.render = p ↔ ∀ step ∈ p, step.InRange ∧ step.Canonical) ∧
      (∀ s : String, ∀ step ∈ compile s, step.InRange ∧ step.Canonical) ∧
      ∀ s : String, compile (compile s).render = compile s := by
  have hself : ∀ p : Pointer,
      compile p.render = p ↔ ∀ step ∈ p, step.InRange ∧ step.Canonical := by
    intro p
    rw [compile_render]
    exact map_reread_eq_self_iff
  have hcompile : ∀ s : String, ∀ step ∈ compile s, step.InRange ∧ step.Canonical :=
    fun s => (TextPointer.ofText s).2
  exact ⟨hself, hcompile, fun s => (hself _).mpr (hcompile s)⟩

/-- A text without a slash in front and with a stray tilde. -/
theorem compile_render_eq_self_iff_malformed_text :
    compile "~2/01/-" = [.key "~2", .key "01", .pastEnd] ∧
      (Step.key "01").InRange ∧ (Step.key "01").Canonical ∧
      compile (compile "~2/01/-").render = compile "~2/01/-" ∧
      compile (render [.key "~2", .key "01", .pastEnd]) = [.key "~2", .key "01", .pastEnd] := by
  have hmem : Step.key "01" ∈ compile "~2/01/-" := by decide
  have hcanonical := compile_render_eq_self_iff.2.1 "~2/01/-" (.key "01") hmem
  exact ⟨by decide, hcanonical.1, hcanonical.2, compile_render_eq_self_iff.2.2 _,
    (compile_render_eq_self_iff.1 _).mpr (by decide)⟩

end Pointer

end JsonEdit
