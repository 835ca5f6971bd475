import JsonEdit.Json.Reader
import Mathlib.Tactic.SplitIfs

/-!
# Steps of the reading machine

`Advance` lists the ways in which a character takes the machine from one state to the next.  What
a step keeps is proved by induction on it, one case for each of them.  The only case that refers
to another step is the end of a number, which is seen at the character behind it: that character
stands in the gap behind the number, so the machine takes a step from there.

A text that is read is a chain of such steps: `run_nil_eq_ok_iff` and `run_cons_eq_ok_iff` take it
apart in an induction on the text, and `parse_eq_ok_iff` says where it starts.
-/

namespace JsonEdit.Json

namespace Reader

/-- What a character does to a state where it shows no fault. -/
inductive Advance (c : Char) : State → State → Prop where
  /-- White space in a gap. -/
  | space {gap : Gap} (hspace : isSpace c = true) : Advance c (.gap gap) (.gap gap)
  /-- The character behind a gap. -/
  | across {gap : Gap} {next : State} (hspace : isSpace c = false)
      (hacross : across c gap = .ok next) : Advance c (.gap gap) next
  /-- A letter of a literal that others follow. -/
  | letter {following : Char} {letters : List Char} {value : Json} {frames : List Frame} :
      Advance c (.literal c (following :: letters) value frames)
        (.literal following letters value frames)
  /-- The last letter of a literal. -/
  | lastLetter {value : Json} {frames : List Frame} :
      Advance c (.literal c [] value frames) (.gap (deliver value frames))
  /-- A character of a number. -/
  | digit {numeral longer : Numeral} {frames : List Frame}
      (htake : numeral.take? c = some (.ok longer)) :
      Advance c (.number numeral frames) (.number longer frames)
  /-- The character behind a number. -/
  | behindNumber {numeral : Numeral} {n : Number} {frames : List Frame} {next : State}
      (htake : numeral.take? c = none) (hfinish : numeral.finish = .ok n)
      (hbehind : Advance c (.gap (deliver (.number n) frames)) next) :
      Advance c (.number numeral frames) next
  /-- A character of a string. -/
  | quoted {quotation longer : Quotation} {role : Role} {frames : List Frame}
      (htake : quotation.take c = .ok (.more longer)) :
      Advance c (.string quotation role frames) (.string longer role frames)
  /-- The quote at the end of a string. -/
  | endQuote {quotation : Quotation} {text : String} {role : Role} {frames : List Frame}
      (htake : quotation.take c = .ok (.closed text)) :
      Advance c (.string quotation role frames) (.gap (role.close text frames))

theorem advance_of_stepGap {c : Char} {gap : Gap} {next : State} (h : stepGap c gap = .ok next) :
    Advance c (.gap gap) next := by
  rw [stepGap] at h
  split_ifs at h with hspace
  · cases h
    exact .space hspace
  · exact .across (Bool.eq_false_iff.mpr hspace) h

theorem advance_of_step {c : Char} {state next : State} (h : step c state = .ok next) :
    Advance c state next := by
  cases state with
  | gap gap => exact advance_of_stepGap h
  | literal letter letters value frames =>
    simp only [step] at h
    split_ifs at h with hletter
    · subst hletter
      cases letters with
      | nil =>
        cases h
        exact .lastLetter
      | cons following letters =>
        cases h
        exact .letter
    · cases h
  | number numeral frames =>
    simp only [step] at h
    split at h
    next longer htake =>
      cases h
      exact .digit htake
    next => cases h
    next htake =>
      split at h
      next n hfinish => exact .behindNumber htake hfinish (advance_of_stepGap h)
      next => cases h
  | string quotation role frames =>
    simp only [step] at h
    split at h
    next longer htake =>
      cases h
      exact .quoted htake
    next text htake =>
      cases h
      exact .endQuote htake
    next => cases h

/-- These are the steps of the machine that show no fault. -/
theorem step_eq_ok_iff {c : Char} {state next : State} :
    step c state = .ok next ↔ Advance c state next := by
  constructor
  · exact advance_of_step
  · intro h
    induction h with
    | space hspace => simp [step, stepGap, hspace]
    | across hspace hacross => simp [step, stepGap, hspace, hacross]
    | letter => simp [step]
    | lastLetter => simp [step]
    | digit htake => simp [step, htake]
    | behindNumber htake hfinish hbehind ih =>
      simp only [step, htake, hfinish]
      exact ih
    | quoted htake => simp [step, htake]
    | endQuote htake => simp [step, htake]

theorem run_nil_eq_ok_iff {state : State} {x : Json} :
    run state [] = .ok x ↔ finish state = .ok x := by
  rw [run]
  cases finish state <;> simp [Except.mapError]

theorem run_cons_eq_ok_iff {c : Char} {rest : List Char} {state : State} {x : Json} :
    run state (c :: rest) = .ok x ↔ ∃ next, Advance c state next ∧ run next rest = .ok x := by
  simp only [← step_eq_ok_iff]
  rw [run]
  cases step c state <;> simp

end Reader

theorem parse_eq_ok_iff {s : String} {x : Json} :
    parse s = .ok x ↔ Reader.run (.gap (.value [])) s.toList = .ok x := by
  rw [parse, parseChars]
  cases Reader.run (.gap (.value [])) s.toList <;> simp [Except.mapError]

end JsonEdit.Json
