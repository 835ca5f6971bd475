import JsonEdit.Json.Reader.Machine
import JsonEdit.Json.Writer
import Mathlib.Algebra.Group.Int.Defs
import Mathlib.Algebra.Group.Nat.Defs

/-!
# Reading the tokens that are written

The reading machine takes one character at a time.  This module follows it through the
parts of a written text that hold no other values: white space, strings and numbers.
Every statement is about `run` on a token with an arbitrary text behind it, so that the
statements can be put one after the other.

There are four groups.

* Gaps.  `run_spaces` skips white space, and `step_gap` says that a value begins alike in
  the three gaps that it can stand in.
* Strings.  `run_escapeChar` reads one written character back, and `run_stringText` the
  whole string.
* Numbers.  `Digits.takeAll?` is what a number takes of a text, apart from the machine.  A
  number has no end of its own: it ends where a character follows that cannot belong to it.
  `Delimited` names the texts that end a number, and `run_number` is the result for a number
  whose characters are all taken.
* Integers.  `takeAll?_whole` collects the digits of a significand, and `run_decimalInt` is the
  result for the integers that 64 bits hold, with or without a sign.
-/

namespace JsonEdit.Json.Reader

/-! ## Gaps -/

theorem run_cons {c : Char} {state next : State} (h : step c state = .ok next)
    (rest : List Char) : run state (c :: rest) = run next rest := by
  rw [run, h]

theorem run_spaces {cs : List Char} (hspace : cs.all isSpace = true) (gap : Gap)
    (rest : List Char) : run (.gap gap) (cs ++ rest) = run (.gap gap) rest := by
  induction cs with
  | nil => rfl
  | cons c cs ih =>
    rw [List.all_cons, Bool.and_eq_true] at hspace
    rw [List.cons_append, run_space hspace.1, ih hspace.2]

theorem all_isSpace_lineBreak (layout : Layout) (depth : Nat) :
    (layout.lineBreak depth).all isSpace = true := by
  cases layout with
  | compact => rfl
  | indented => simp [Layout.lineBreak, isSpace]

/-- The containers around a value that begins in a gap, with those that the value is put
into; no value begins in any other gap. -/
def Gap.around? : Gap → Option (List Frame)
  | value frames => some frames
  | arrayStart frames => some (.array [] :: frames)
  | item items frames => some (.array items :: frames)
  | _ => none

/-- A value begins alike in all gaps that it can stand in. -/
theorem step_gap {gap : Gap} {frames : List Frame} (hgap : gap.around? = some frames) {c : Char}
    (hspace : isSpace c = false) (hclose : c ≠ ']') : step c (.gap gap) = begin c frames := by
  cases gap <;> simp_all [Gap.around?, step, stepGap, across]

/-! ## Strings -/

theorem hexValue?_digitChar : ∀ k, k < 16 → Quotation.hexValue? k.digitChar = some k := by
  decide

theorem utf8Size_digitChar : ∀ k, k < 16 → k.digitChar.utf8Size = 1 := by
  decide

/-- The four hexadecimal digits of a control are read as its code point. -/
theorem fourDigits?_control {n : Nat} (hn : n < 0x20) :
    Quotation.fourDigits? ['0', '0', (n / 16).digitChar, (n % 16).digitChar] = some n := by
  have hzero : Quotation.hexValue? '0' = some 0 := by decide
  have hhigh := hexValue?_digitChar (n / 16) (by omega)
  have hlow := hexValue?_digitChar (n % 16) (by omega)
  simp only [Quotation.fourDigits?, hzero, hhigh, hlow, Option.pure_def, Option.bind_eq_bind,
    Option.bind_some, Option.some.injEq]
  omega

/-- A control that is written by its code point is read back. -/
theorem run_control {c : Char} (hc : c.toNat < 0x20) (read : List Char) (role : Role)
    (frames : List Frame) (rest : List Char) :
    run (.string (.plain read) role frames)
        ('\\' :: 'u' :: '0' :: '0' :: (c.toNat / 16).digitChar :: (c.toNat % 16).digitChar ::
          rest) =
      run (.string (.plain (c :: read)) role frames) rest := by
  have hopen : run (.string (.plain read) role frames)
        ('\\' :: 'u' :: '0' :: '0' :: (c.toNat / 16).digitChar :: (c.toNat % 16).digitChar ::
          rest) =
      run (.string (.code read none ['0', '0'] 2) role frames)
        ((c.toNat / 16).digitChar :: (c.toNat % 16).digitChar :: rest) := rfl
  have hthird : step (c.toNat / 16).digitChar
        (.string (.code read none ['0', '0'] 2) role frames) =
      .ok (.string (.code read none ['0', '0', (c.toNat / 16).digitChar] 3) role frames) := by
    have hsize := utf8Size_digitChar (c.toNat / 16) (by omega)
    simp [step, Quotation.take, Quotation.takeDigit, hsize, Except.map]
  have hfourth : step (c.toNat % 16).digitChar
        (.string (.code read none ['0', '0', (c.toNat / 16).digitChar] 3) role frames) =
      .ok (.string (.plain (c :: read)) role frames) := by
    have hsize := utf8Size_digitChar (c.toNat % 16) (by omega)
    have htrailing : Quotation.isTrailing c.toNat = false := by
      simp only [Quotation.isTrailing, Bool.and_eq_false_iff, decide_eq_false_iff_not]
      omega
    have hleading : Quotation.isLeading c.toNat = false := by
      simp only [Quotation.isLeading, Bool.and_eq_false_iff, decide_eq_false_iff_not]
      omega
    simp [step, Quotation.take, Quotation.takeDigit, hsize, fourDigits?_control hc,
      Quotation.afterCode, htrailing, hleading, Except.map, Char.ofNat_toNat]
  rw [hopen, run_cons hthird, run_cons hfourth]

/-- Every character is read as it was written. -/
theorem run_escapeChar (c : Char) (read : List Char) (role : Role) (frames : List Frame)
    (rest : List Char) :
    run (.string (.plain read) role frames) (escapeChar c ++ rest) =
      run (.string (.plain (c :: read)) role frames) rest := by
  unfold escapeChar
  split
  case h_8 hquote hbackslash _ _ _ _ _ =>
    split
    · rename_i hcontrol
      exact run_control hcontrol read role frames rest
    · rename_i hplain
      have hquote : c ≠ '"' := hquote
      have hbackslash : c ≠ '\\' := hbackslash
      have hstep : step c (.string (.plain read) role frames) =
          .ok (.string (.plain (c :: read)) role frames) := by
        simp [step, Quotation.take, hquote, hbackslash, hplain]
      exact run_cons hstep rest
  all_goals rfl

/-- Characters are read as they were written, up to the quotes behind them. -/
theorem run_escapeChars (cs read : List Char) (role : Role) (frames : List Frame)
    (rest : List Char) :
    run (.string (.plain read) role frames) (cs.flatMap escapeChar ++ '"' :: rest) =
      run (.gap (role.close (String.ofList (read.reverse ++ cs)) frames)) rest := by
  induction cs generalizing read with
  | nil =>
    rw [List.append_nil]
    rfl
  | cons c cs ih =>
    rw [List.flatMap_cons, List.append_assoc, run_escapeChar, ih, List.reverse_cons,
      List.append_assoc, List.singleton_append]

/-- A string is read as it was written, whatever it is for. -/
theorem run_stringText {state : State} {role : Role} {frames : List Frame}
    (hquote : step '"' state = .ok (.string (.plain []) role frames)) (s : String)
    (rest : List Char) :
    run state (stringText s ++ rest) = run (.gap (role.close s frames)) rest := by
  have htext : stringText s ++ rest = '"' :: (s.toList.flatMap escapeChar ++ '"' :: rest) := by
    simp [stringText]
  rw [htext, run_cons hquote, run_escapeChars, List.reverse_nil, List.nil_append,
    String.ofList_toList]

/-! ## Numbers -/

/-- Takes characters one after the other, as long as they belong to the number. -/
def Digits.takeAll? : Digits → List Char → Option Digits
  | digits, [] => some digits
  | digits, c :: cs =>
    match digits.take? c with
    | some (.ok longer) => takeAll? longer cs
    | _ => none

theorem Digits.takeAll?_cons {digits longer : Digits} {c : Char}
    (h : digits.take? c = some (.ok longer)) (cs : List Char) :
    digits.takeAll? (c :: cs) = longer.takeAll? cs := by
  simp only [takeAll?, h]

theorem Digits.takeAll?_append {digits longer : Digits} {cs : List Char}
    (h : digits.takeAll? cs = some longer) (more : List Char) :
    digits.takeAll? (cs ++ more) = longer.takeAll? more := by
  induction cs generalizing digits with
  | nil =>
    obtain rfl : digits = longer := Option.some.inj h
    rfl
  | cons c cs ih =>
    unfold takeAll? at h
    split at h
    · rename_i next htake
      rw [List.cons_append, takeAll?_cons htake, ih h]
    · cases h

/-- The machine takes the characters of a number. -/
theorem run_takeAll {digits longer : Digits} {cs : List Char}
    (h : digits.takeAll? cs = some longer) (negative : Bool) (frames : List Frame)
    (rest : List Char) :
    run (.number ⟨negative, digits⟩ frames) (cs ++ rest) =
      run (.number ⟨negative, longer⟩ frames) rest := by
  induction cs generalizing digits with
  | nil =>
    obtain rfl : digits = longer := Option.some.inj h
    rfl
  | cons c cs ih =>
    unfold Digits.takeAll? at h
    split at h
    · rename_i next htake
      have hstep : step c (.number ⟨negative, digits⟩ frames) =
          .ok (.number ⟨negative, next⟩ frames) := by
        simp only [step, Numeral.take?, htake, Option.map_some, Except.map]
      rw [List.cons_append, run_cons hstep, ih h]
    · cases h

theorem ne_of_isDigit {c d : Char} (hc : c.isDigit = true) (hd : d.isDigit = false) : c ≠ d := by
  rintro rfl
  rw [hc] at hd
  simp at hd

theorem isSpace_digit {c : Char} (hdigit : c.isDigit = true) : isSpace c = false := by
  have hother (d : Char) (hd : d.isDigit = false) : c ≠ d := ne_of_isDigit hdigit hd
  simp [isSpace, hother ' ' rfl, hother '\t' rfl, hother '\n' rfl, hother '\r' rfl]

/-- A digit begins a number in every gap that a value can stand in. -/
theorem run_digit {c : Char} (hdigit : c.isDigit = true) {gap : Gap} {frames : List Frame}
    (hgap : gap.around? = some frames) (rest : List Char) :
    run (.gap gap) (c :: rest) = run (.number ⟨false, .start⟩ frames) (c :: rest) := by
  have hother (d : Char) (hd : d.isDigit = false) : c ≠ d := ne_of_isDigit hdigit hd
  have hbegin : begin c frames = step c (.number ⟨false, .start⟩ frames) := by
    by_cases hzero : c = '0'
    · subst hzero
      rfl
    · simp [begin, Numeral.start?, step, Numeral.take?, Digits.take?, hother '"' rfl,
        hother '[' rfl, hother '\x7b' rfl, hother 'n' rfl, hother 't' rfl, hother 'f' rfl,
        hother '-' rfl, hzero, hdigit, Except.map]
  rw [run, run, step_gap hgap (isSpace_digit hdigit) (hother ']' rfl), hbegin]

/-- A text that ends a number in front of it: it is empty, or begins with a character that
a complete number never takes. -/
def Delimited (rest : List Char) : Prop :=
  ∀ c, rest.head? = some c → c.isDigit = false ∧ c ≠ '.' ∧ c ≠ 'e' ∧ c ≠ 'E'

theorem take?_of_delimiter {numeral : Numeral} {n : Number} (hfinish : numeral.finish = .ok n)
    {c : Char} (hc : c.isDigit = false ∧ c ≠ '.' ∧ c ≠ 'e' ∧ c ≠ 'E') :
    numeral.take? c = none := by
  obtain ⟨hdigit, hpoint, hsmall, hgreat⟩ := hc
  rcases numeral with ⟨negative, digits⟩
  cases digits with
  | start | point | mark | sign => simp [Numeral.finish] at hfinish
  | _ =>
    simp [Numeral.take?, Digits.take?, hdigit, Digits.afterDigits?, Digits.afterFraction?, hpoint,
      hsmall, hgreat]

/-- A complete number ends where the text behind it does not go on. -/
theorem run_of_delimited {numeral : Numeral} {n : Number} (hfinish : numeral.finish = .ok n)
    {rest : List Char} (hrest : Delimited rest) (frames : List Frame) :
    run (.number numeral frames) rest = run (.gap (deliver (.number n) frames)) rest := by
  cases rest with
  | nil => simp [run, finish, hfinish]
  | cons c rest =>
    have htake : numeral.take? c = none := take?_of_delimiter hfinish (hrest c rfl)
    have hstep : step c (.number numeral frames) =
        step c (.gap (deliver (.number n) frames)) := by
      simp only [step, htake, hfinish]
    rw [run, run, hstep]

/-- The sign of a number. -/
def signText (negative : Bool) : List Char := if negative then ['-'] else []

theorem isDigit_of_takeAll? {digits : Digits} {c : Char} {cs : List Char}
    (h : Digits.takeAll? .start (c :: cs) = some digits) : c.isDigit = true := by
  by_cases hzero : c = '0'
  · rw [hzero]
    rfl
  · refine Decidable.byContradiction fun hdigit => ?_
    simp [Digits.takeAll?, Digits.take?, hzero, hdigit, refuse] at h

/-- A sign and the characters of a complete number are read as that number. -/
theorem run_number (negative : Bool) {cs : List Char} {digits : Digits} {n : Number}
    (htake : Digits.takeAll? .start cs = some digits)
    (hfinish : Numeral.finish ⟨negative, digits⟩ = .ok n) {gap : Gap} {frames : List Frame}
    (hgap : gap.around? = some frames) {rest : List Char} (hrest : Delimited rest) :
    run (.gap gap) (signText negative ++ cs ++ rest) =
      run (.gap (deliver (.number n) frames)) rest := by
  have hread : run (.number ⟨negative, .start⟩ frames) (cs ++ rest) =
      run (.gap (deliver (.number n) frames)) rest := by
    rw [run_takeAll htake, run_of_delimited hfinish hrest]
  rw [← hread, List.append_assoc]
  cases negative with
  | true =>
    have hsign : step '-' (.gap gap) = .ok (.number ⟨true, .start⟩ frames) :=
      step_gap hgap rfl (by decide)
    exact run_cons hsign (cs ++ rest)
  | false =>
    cases cs with
    | nil =>
      obtain rfl : Digits.start = digits := Option.some.inj htake
      cases hfinish
    | cons c cs => exact run_digit (isDigit_of_takeAll? htake) hgap (cs ++ rest)

/-! ## Integers -/

theorem value_add (significand : Nat) (c : Char) :
    significand * 10 + Digits.value c = 10 * significand + (c.toNat - '0'.toNat) := by
  rw [Nat.mul_comm, Digits.value]

/-- Digits are collected as long as the significand can take them. -/
theorem takeAll?_whole {digits : List Char} (hdigits : digits.all Char.isDigit = true)
    {significand : Nat}
    (hfits : Nat.ofDigitChars 10 digits significand ≤ Digits.greatestSignificand) :
    Digits.takeAll? (.whole significand) digits =
      some (.whole (Nat.ofDigitChars 10 digits significand)) := by
  induction digits generalizing significand with
  | nil => rfl
  | cons c digits ih =>
    rw [List.all_cons, Bool.and_eq_true] at hdigits
    obtain ⟨hdigit, hmore⟩ := hdigits
    rw [Nat.ofDigitChars_cons, ← value_add] at hfits ⊢
    have hlonger := Nat.le_trans (Text.le_ofDigitChars digits _) hfits
    have htake : Digits.take? c (.whole significand) =
        some (.ok (.whole (significand * 10 + Digits.value c))) := by
      simp [Digits.take?, hdigit, hlonger]
    rw [Digits.takeAll?_cons htake, ih hmore hfits]

/-- A digit other than zero, and the digits behind it. -/
theorem takeAll?_start {c : Char} (hzero : c ≠ '0') {digits : List Char}
    (hdigits : (c :: digits).all Char.isDigit = true)
    (hfits : Text.decimalValue (c :: digits) ≤ Digits.greatestSignificand) :
    Digits.takeAll? .start (c :: digits) = some (.whole (Text.decimalValue (c :: digits))) := by
  rw [List.all_cons, Bool.and_eq_true] at hdigits
  have htake : Digits.take? c .start = some (.ok (.whole (Digits.value c))) := by
    simp [Digits.take?, hzero, hdigits.1]
  have hvalue : Text.decimalValue (c :: digits) =
      Nat.ofDigitChars 10 digits (Digits.value c) := by
    rw [Text.decimalValue, Nat.ofDigitChars_cons, Nat.mul_zero, Nat.zero_add, Digits.value]
  rw [hvalue] at hfits ⊢
  rw [Digits.takeAll?_cons htake, takeAll?_whole hdigits.2 hfits]

/-- The shortest form of a number is a digit, and digits behind it; of a positive number the
first digit is not zero. -/
theorem exists_decimal_eq_cons (n : Nat) :
    ∃ c digits, Text.decimal n = c :: digits ∧ (0 < n → c ≠ '0') ∧
      (c :: digits).all Char.isDigit = true := by
  obtain ⟨c, digits, hform⟩ := List.exists_cons_of_ne_nil (Text.decimal_ne_nil n)
  refine ⟨c, digits, hform, ?_, ?_⟩
  · rintro hn rfl
    exact Text.head?_decimal_ne_zero hn (by rw [hform, List.head?_cons])
  · rw [List.all_eq_true, ← hform]
    exact fun d hd => Text.isDigit_of_mem_decimal hd

theorem takeAll?_decimal {n : Nat} (hn : 0 < n) (hfits : n ≤ Digits.greatestSignificand) :
    Digits.takeAll? .start (Text.decimal n) = some (.whole n) := by
  obtain ⟨c, digits, hform, hzero, hdigits⟩ := exists_decimal_eq_cons n
  have hvalue := Text.decimalValue_decimal n
  rw [hform] at hvalue ⊢
  rw [takeAll?_start (hzero hn) hdigits (by rwa [hvalue]), hvalue]

/-- A number below `2 ^ 64` is read as it was written. -/
theorem run_natural {n : Nat} (hfits : n < 2 ^ 64) {gap : Gap} {frames : List Frame}
    (hgap : gap.around? = some frames) {rest : List Char} (hrest : Delimited rest) :
    run (.gap gap) (Text.decimal n ++ rest) =
      run (.gap (deliver (.number (.int n)) frames)) rest := by
  rcases Nat.eq_zero_or_pos n with rfl | hn
  · have htake : Digits.takeAll? .start (Text.decimal 0) = some .zero := rfl
    exact run_number false htake rfl hgap hrest
  · exact run_number false (takeAll?_decimal hn (Nat.le_sub_one_of_lt hfits)) rfl hgap hrest

/-- A minus sign and a positive number up to `2 ^ 63` are read as they were written. -/
theorem run_negative {n : Nat} (hn : 0 < n) (hfits : n ≤ 2 ^ 63) {gap : Gap}
    {frames : List Frame} (hgap : gap.around? = some frames) {rest : List Char}
    (hrest : Delimited rest) :
    run (.gap gap) ('-' :: Text.decimal n ++ rest) =
      run (.gap (deliver (.number (.int (-n))) frames)) rest := by
  have hgreatest : n ≤ Digits.greatestSignificand := by
    unfold Digits.greatestSignificand
    omega
  have hfinish : Numeral.finish ⟨true, .whole n⟩ = .ok (.int (-n)) := by
    have hrange : ¬ (n = 0 ∨ Digits.greatestNegative < n) := by
      unfold Digits.greatestNegative
      omega
    simp only [Numeral.finish, Numeral.whole, Bool.not_true, Bool.false_eq_true, if_false,
      if_neg hrange]
  exact run_number true (takeAll?_decimal hn hgreatest) hfinish hgap hrest

/-- An integer of 64 bits, with or without a sign, is read as it was written. -/
theorem run_decimalInt {i : Int} (hlow : -2 ^ 63 ≤ i) (hhigh : i < 2 ^ 64) {gap : Gap}
    {frames : List Frame} (hgap : gap.around? = some frames) {rest : List Char}
    (hrest : Delimited rest) :
    run (.gap gap) (Text.decimalInt i ++ rest) =
      run (.gap (deliver (.number (.int i)) frames)) rest := by
  cases i with
  | ofNat n =>
    have hfits : (n : Int) < 2 ^ 64 := hhigh
    exact run_natural (by omega) hgap hrest
  | negSucc n => exact run_negative (Nat.succ_pos n) (by omega) hgap hrest

end JsonEdit.Json.Reader
