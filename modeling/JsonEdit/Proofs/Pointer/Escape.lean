import JsonEdit.Pointer.Escape

/-!
# Escaped text

A text is *escaped* if every tilde in it has a zero or a one right behind it.  Names are
written as escaped texts without a slash (`escaped_escape`, `slash_not_mem_escape`), and
these are the only segments that come back when the name they stand for is written
(`escape_unescape_iff`).  A text can be cut in front of a slash without cutting an escape
in two (`escaped_append_iff`).  A tilde that begins no escape stays, although the two passes
that read a segment both look at it (`unescape_tilde_cons`).
-/

namespace JsonEdit.Pointer

/-- Every tilde has a zero or a one right behind it. -/
def Escaped (cs : List Char) : Prop :=
  ∀ i : Nat, cs[i]? = some '~' → cs[i + 1]? = some '0' ∨ cs[i + 1]? = some '1'

/-! ## Escaped texts -/

@[simp]
theorem escaped_nil : Escaped [] := by
  simp [Escaped]

theorem escaped_cons {c : Char} {rest : List Char} :
    Escaped (c :: rest) ↔
      (c = '~' → rest.head? = some '0' ∨ rest.head? = some '1') ∧ Escaped rest := by
  rw [List.head?_eq_getElem?]
  constructor
  · intro h
    exact ⟨fun hc => h 0 (by rw [hc]; rfl), fun i hi => h (i + 1) hi⟩
  · rintro ⟨hfirst, hrest⟩ (_ | i) hi
    · exact hfirst (by simpa using hi)
    · exact hrest i hi

theorem escaped_cons_of_ne {c : Char} (hc : c ≠ '~') {rest : List Char} :
    Escaped (c :: rest) ↔ Escaped rest := by
  rw [escaped_cons]
  exact ⟨And.right, fun h => ⟨fun htilde => absurd htilde hc, h⟩⟩

/-- A tilde at the front is the first half of an escape. -/
theorem escaped_tilde_cons {rest : List Char} :
    Escaped ('~' :: rest) ↔
      ∃ digit tail, (digit = '0' ∨ digit = '1') ∧ rest = digit :: tail ∧ Escaped tail := by
  rw [escaped_cons]
  constructor
  · rintro ⟨hdigit, hrest⟩
    obtain _ | ⟨digit, tail⟩ := rest
    · simp at hdigit
    · have hdigit : digit = '0' ∨ digit = '1' := by simpa using hdigit
      have hne : digit ≠ '~' := by rcases hdigit with rfl | rfl <;> decide
      exact ⟨digit, tail, hdigit, rfl, (escaped_cons_of_ne hne).mp hrest⟩
  · rintro ⟨digit, tail, hdigit, rfl, htail⟩
    have hne : digit ≠ '~' := by rcases hdigit with rfl | rfl <;> decide
    exact ⟨fun _ => by simpa using hdigit, (escaped_cons_of_ne hne).mpr htail⟩

theorem escaped_of_not_mem {cs : List Char} (h : '~' ∉ cs) : Escaped cs :=
  fun _ hi => absurd (List.mem_of_getElem? hi) h

/-- No escape reaches across the front of a slash. -/
theorem escaped_append_iff {front back : List Char} (hback : back = [] ∨ back.head? = some '/') :
    Escaped (front ++ back) ↔ Escaped front ∧ Escaped back := by
  have hnone : ∀ digit, digit ≠ '/' → back.head? ≠ some digit := by
    rcases hback with rfl | hback
    · simp
    · simp [hback, eq_comm]
  induction front with
  | nil => simp
  | cons c rest ih =>
    have hhead : ∀ digit, digit ≠ '/' →
        ((rest ++ back).head? = some digit ↔ rest.head? = some digit) := by
      intro digit hdigit
      obtain _ | ⟨d, rest⟩ := rest
      · simp [hnone digit hdigit]
      · simp
    rw [List.cons_append, escaped_cons, escaped_cons, hhead '0' (by decide),
      hhead '1' (by decide), and_assoc]
    exact and_congr_right fun _ => ih

/-- Segments that are each written behind a slash are escaped one by one. -/
theorem escaped_flatMap_iff {segments : List (List Char)} :
    Escaped (segments.flatMap ('/' :: ·)) ↔ ∀ segment ∈ segments, Escaped segment := by
  induction segments with
  | nil => simp
  | cons segment rest ih =>
    have hrest : rest.flatMap ('/' :: ·) = [] ∨
        (rest.flatMap ('/' :: ·)).head? = some '/' := by
      cases rest <;> simp
    rw [List.flatMap_cons, List.cons_append, escaped_cons_of_ne (by decide),
      escaped_append_iff hrest, ih, List.forall_mem_cons]

/-! ## Tildes that begin no escape -/

theorem restoreSlashes_tilde_cons {rest : List Char} (h : rest.head? ≠ some '1') :
    restoreSlashes ('~' :: rest) = '~' :: restoreSlashes rest :=
  restoreSlashes.eq_2 '~' rest fun tail _ htail => h (by rw [htail, List.head?_cons])

theorem restoreTildes_tilde_cons {rest : List Char} (h : rest.head? ≠ some '0') :
    restoreTildes ('~' :: rest) = '~' :: restoreTildes rest :=
  restoreTildes.eq_2 '~' rest fun tail _ htail => h (by rw [htail, List.head?_cons])

/-- Nothing but a slash comes to the front while slashes are put back. -/
theorem head?_of_restoreSlashes {cs : List Char} {c : Char} (hc : c ≠ '/')
    (h : (restoreSlashes cs).head? = some c) : cs.head? = some c := by
  rw [restoreSlashes.eq_def] at h
  split at h
  · rw [List.head?_cons, Option.some.injEq] at h
    exact absurd h.symm hc
  · exact h
  · exact h

/-- A tilde with no zero or one behind it stands for itself.  The second pass looks at what the
first one has left, and finds no zero there that was not there before. -/
theorem unescape_tilde_cons {rest : List Char} (hzero : rest.head? ≠ some '0')
    (hone : rest.head? ≠ some '1') : unescape ('~' :: rest) = '~' :: unescape rest := by
  have hsecond : (restoreSlashes rest).head? ≠ some '0' := fun h =>
    hzero (head?_of_restoreSlashes (by decide) h)
  rw [unescape, restoreSlashes_tilde_cons hone, restoreTildes_tilde_cons hsecond, unescape]

/-! ## Names and their escaped form -/

theorem slash_not_mem_escape (name : List Char) : '/' ∉ escape name := by
  simp only [escape, List.mem_flatMap, not_exists, not_and]
  intro c _
  unfold escapeChar
  split
  · decide
  · split
    · decide
    · next hslash => simpa [eq_comm] using hslash

theorem escaped_escape (name : List Char) : Escaped (escape name) := by
  induction name with
  | nil => simp [escape]
  | cons c rest ih =>
    rw [escape_cons, escapeChar]
    split
    · exact escaped_tilde_cons.mpr ⟨'0', _, .inl rfl, rfl, ih⟩
    · next htilde =>
      split
      · exact escaped_tilde_cons.mpr ⟨'1', _, .inr rfl, rfl, ih⟩
      · exact (escaped_cons_of_ne htilde).mpr ih

/-- Writing the name that an escaped segment stands for gives the segment back.  The induction
takes a tilde alone, because the digit behind it is written for itself. -/
theorem escape_unescape {segment : List Char} (hslash : '/' ∉ segment)
    (hescaped : Escaped segment) : escape (unescape segment) = segment := by
  induction segment with
  | nil => rfl
  | cons c rest ih =>
    rw [List.mem_cons, not_or] at hslash
    have hrest := ih hslash.2 (escaped_cons.mp hescaped).2
    by_cases hc : c = '~'
    · subst hc
      obtain ⟨digit, tail, rfl | rfl, rfl, -⟩ := escaped_tilde_cons.mp hescaped
      · rw [unescape_cons (by decide)] at hrest
        rw [unescape_zero]
        exact congrArg ('~' :: ·) hrest
      · rw [unescape_cons (by decide)] at hrest
        rw [unescape_one]
        exact congrArg ('~' :: ·) hrest
    · rw [unescape_cons hc, escape_cons, hrest, escapeChar, if_neg hc,
        if_neg fun h => hslash.1 h.symm]
      rfl

/-- The segments that are the written form of a name. -/
theorem escape_unescape_iff {segment : List Char} :
    escape (unescape segment) = segment ↔ '/' ∉ segment ∧ Escaped segment := by
  constructor
  · intro h
    rw [← h]
    exact ⟨slash_not_mem_escape _, escaped_escape _⟩
  · rintro ⟨hslash, hescaped⟩
    exact escape_unescape hslash hescaped

end JsonEdit.Pointer
