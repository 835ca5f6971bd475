import JsonEdit.Proofs.Json.Advance
import JsonEdit.Proofs.Json.Outline
import JsonEdit.Proofs.Text.Trim
import Mathlib.Tactic.SplitIfs

/-!
# The margins of a text

White space means two things.  Trimming removes all that Unicode calls so, while the reader skips
four characters only and refuses the others.  A text that is read nevertheless stays the text of
the same value when it is trimmed: a blank at one of its ends is one that the reader has skipped.

There are three groups.

* Blanks.  Outside of strings, no character that the reader takes for a part of a value is a
  blank: `across_of_isBlank`, and `take?_of_isBlank` for the characters of a number.
* The front.  Nothing has begun, so the reader skips a blank or refuses it (`run_dropWhile`).
* The back.  A state at the end of a text is followed by a blank.  If there is a value at the end
  of the longer text, it was there before (`finish_of_advance`), unless the blank completes a
  literal.  `State.Lettered` excludes that and is kept by each step, so by induction on the text
  the blank may go, and then all those in front of it.
-/

namespace JsonEdit.Json.Reader

open Text

variable {c : Char}

/-! ## Blanks -/

theorem ne_of_isBlank (hc : isBlank c = true) (d : Char) (hd : isBlank d = false) : c ≠ d := by
  intro heq
  rw [heq, hd] at hc
  cases hc

theorem isDigit_of_isBlank (hc : isBlank c = true) : c.isDigit = false := by
  cases hdigit : c.isDigit with
  | false => rfl
  | true =>
    rw [isBlank_of_isDigit hdigit] at hc
    cases hc

/-- No number goes on with a blank. -/
theorem take?_of_isBlank (hc : isBlank c = true) (numeral longer : Numeral) :
    numeral.take? c ≠ some (.ok longer) := by
  have hdigit := isDigit_of_isBlank hc
  have hzero := ne_of_isBlank hc '0' rfl
  have hpoint := ne_of_isBlank hc '.' rfl
  have hlower := ne_of_isBlank hc 'e' rfl
  have hupper := ne_of_isBlank hc 'E' rfl
  have hplus := ne_of_isBlank hc '+' rfl
  have hminus := ne_of_isBlank hc '-' rfl
  rcases numeral with ⟨negative, digits⟩
  cases digits <;>
    simp [Numeral.take?, Digits.take?, Digits.afterDigits?, Digits.afterFraction?, refuse,
      Except.map, hdigit, hzero, hpoint, hlower, hupper, hplus, hminus]

/-- No value begins with a blank. -/
theorem begin_of_isBlank (hc : isBlank c = true) (frames : List Frame) :
    begin c frames = refuse .notValue := by
  have hdigit := isDigit_of_isBlank hc
  simp [begin, Numeral.start?, hdigit, ne_of_isBlank hc '"' rfl, ne_of_isBlank hc '[' rfl,
    ne_of_isBlank hc '\x7b' rfl, ne_of_isBlank hc 'n' rfl, ne_of_isBlank hc 't' rfl,
    ne_of_isBlank hc 'f' rfl, ne_of_isBlank hc '-' rfl, ne_of_isBlank hc '0' rfl]

/-- A gap is not left with a blank. -/
theorem across_of_isBlank (hc : isBlank c = true) (gap : Gap) (next : State) :
    across c gap ≠ .ok next := by
  have hbegin := begin_of_isBlank hc
  have hquote := ne_of_isBlank hc '"' rfl
  have hcomma := ne_of_isBlank hc ',' rfl
  have hcolon := ne_of_isBlank hc ':' rfl
  have hbracket := ne_of_isBlank hc ']' rfl
  have hbrace := ne_of_isBlank hc '\x7d' rfl
  cases gap <;> simp [across, refuse, hbegin, hquote, hcomma, hcolon, hbracket, hbrace]

/-- A blank that is taken in a gap is skipped. -/
theorem eq_of_advance_gap (hc : isBlank c = true) {gap : Gap} {next : State}
    (h : Advance c (.gap gap) next) : next = .gap gap := by
  cases h with
  | space => rfl
  | across _ hacross => exact absurd hacross (across_of_isBlank hc gap next)

/-! ## The front -/

/-- Blanks in front of a value have been skipped. -/
theorem run_dropWhile {x : Json} {gap : Gap} {cs : List Char} (h : run (.gap gap) cs = .ok x) :
    run (.gap gap) (cs.dropWhile isBlank) = .ok x := by
  induction cs with
  | nil => exact h
  | cons c rest ih =>
    cases hc : isBlank c with
    | false => rwa [List.dropWhile_cons_of_neg (by rw [hc]; exact Bool.false_ne_true)]
    | true =>
      obtain ⟨next, hadvance, hrest⟩ := run_cons_eq_ok_iff.mp h
      rw [eq_of_advance_gap hc hadvance] at hrest
      rw [List.dropWhile_cons_of_pos hc]
      exact ih hrest

/-! ## The back -/

/-- The letters that a state waits for are no blanks. -/
def State.Lettered : State → Prop
  | .literal letter letters _ _ => (letter :: letters).any isBlank = false
  | .gap _ | .number _ _ | .string _ _ _ => True

theorem lettered_opening {frames : List Frame} {gap : Gap} {next : State}
    (h : opening frames gap = .ok next) : next.Lettered := by
  rw [opening] at h
  split at h
  · cases h
    trivial
  · cases h

theorem lettered_begin {frames : List Frame} {next : State} (h : begin c frames = .ok next) :
    next.Lettered := by
  rw [begin] at h
  split_ifs at h with hquote hbracket hbrace hnull htrue hfalse
  · cases h
    trivial
  · exact lettered_opening h
  · exact lettered_opening h
  · cases h
    rfl
  · cases h
    rfl
  · cases h
    rfl
  · split at h
    · cases h
      trivial
    · cases h

theorem lettered_across {gap : Gap} {next : State} (h : across c gap = .ok next) :
    next.Lettered := by
  cases gap with
  | value frames => exact lettered_begin h
  | arrayStart frames =>
    rw [across] at h
    split at h
    · cases h
      trivial
    · exact lettered_begin h
  | item items frames =>
    rw [across] at h
    split at h
    · cases h
    · exact lettered_begin h
  | afterItem _ _ | objectStart _ | member _ _ | afterName _ _ _ | afterMember _ _ =>
    rw [across] at h
    split_ifs at h <;> cases h <;> trivial
  | done value => cases h

/-- Each step leads to a state that waits for no blank. -/
theorem lettered_advance {state next : State} (hstate : state.Lettered)
    (h : Advance c state next) : next.Lettered := by
  induction h with
  | across _ hacross => exact lettered_across hacross
  | letter =>
    rw [State.Lettered, List.any_cons, Bool.or_eq_false_iff] at hstate
    exact hstate.2
  | behindNumber _ _ _ ih => exact ih trivial
  | space | lastLetter | digit | quoted | endQuote => trivial

/-- A quote is what ends a string. -/
theorem eq_quote_of_take {quotation : Quotation} {text : String}
    (h : quotation.take c = .ok (.closed text)) : c = '"' := by
  cases quotation with
  | plain read =>
    rw [Quotation.take] at h
    split_ifs at h with hquote
    · exact hquote
    all_goals cases h
  | escape read =>
    rw [Quotation.take] at h
    split_ifs at h
    · cases h
    · split at h <;> cases h
  | code read lead digits bytes =>
    rw [Quotation.take] at h
    cases htaken : Quotation.takeDigit read lead digits bytes c with
    | ok longer =>
      rw [htaken] at h
      cases h
    | error refusal =>
      rw [htaken] at h
      cases h
  | lead read surrogate =>
    rw [Quotation.take] at h
    split_ifs at h <;> cases h
  | leadEscape read surrogate =>
    rw [Quotation.take] at h
    split_ifs at h <;> cases h

/-- A value that stands at the end behind a blank stood there before the blank. -/
theorem finish_of_advance (hc : isBlank c = true) {state next : State} {x : Json}
    (hstate : state.Lettered) (h : Advance c state next) (hx : finish next = .ok x) :
    finish state = .ok x := by
  induction h with
  | space => exact hx
  | across _ hacross => exact absurd hacross (across_of_isBlank hc _ _)
  | letter | lastLetter =>
    rw [State.Lettered, List.any_cons, hc] at hstate
    cases hstate
  | digit htake => exact absurd htake (take?_of_isBlank hc _ _)
  | behindNumber _ hfinish _ ih =>
    rw [finish, hfinish]
    exact ih trivial hx
  | quoted => cases hx
  | endQuote htake => exact absurd (eq_quote_of_take htake) (ne_of_isBlank hc '"' rfl)

/-- A blank at the end has been skipped. -/
theorem run_of_run_concat (hc : isBlank c = true) {state : State} {cs : List Char} {x : Json}
    (hstate : state.Lettered) (h : run state (cs ++ [c]) = .ok x) : run state cs = .ok x := by
  induction cs generalizing state with
  | nil =>
    obtain ⟨next, hadvance, hend⟩ := run_cons_eq_ok_iff.mp h
    exact run_nil_eq_ok_iff.mpr (finish_of_advance hc hstate hadvance (run_nil_eq_ok_iff.mp hend))
  | cons d rest ih =>
    obtain ⟨next, hadvance, hrest⟩ := run_cons_eq_ok_iff.mp h
    exact run_cons_eq_ok_iff.mpr ⟨next, hadvance, ih (lettered_advance hstate hadvance) hrest⟩

/-- Blanks at the end have been skipped. -/
theorem run_rdropWhile {state : State} {cs : List Char} {x : Json} (hstate : state.Lettered)
    (h : run state cs = .ok x) : run state (cs.rdropWhile isBlank) = .ok x := by
  induction cs using List.reverseRecOn with
  | nil => exact h
  | append_singleton rest c ih =>
    cases hc : isBlank c with
    | false => rwa [List.rdropWhile_concat_neg _ _ _ (by rw [hc]; exact Bool.false_ne_true)]
    | true =>
      rw [List.rdropWhile_concat_pos _ _ _ hc]
      exact ih (run_of_run_concat hc hstate h)

end JsonEdit.Json.Reader

namespace JsonEdit.Json

/-- A text that is read is the text of the same value when it is trimmed. -/
theorem parse_trim {s : String} {x : Json} (h : parse s = .ok x) : parse (Text.trim s) = .ok x := by
  rw [parse_eq_ok_iff] at h ⊢
  rw [Text.trim, String.toList_ofList, Text.trimChars_eq_rdropWhile]
  exact Reader.run_rdropWhile trivial (Reader.run_dropWhile h)

end JsonEdit.Json
