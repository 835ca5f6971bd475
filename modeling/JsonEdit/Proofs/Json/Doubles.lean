import JsonEdit.Proofs.Json.RoundTrip
import JsonEdit.Proofs.Number.Scientific
import JsonEdit.Proofs.Number.Shortest

/-!
# Reading the doubles that are written

The text of a double is read as a double again.  It need not be the same one, because the
reader rounds more than once; what is shown is that the reader never finds the number out of
range.

There are four groups.

* Digits behind the point.  `Within` follows significand and exponent through the digits: those
  that the significand cannot take are dropped, which makes the number smaller if anything.
* Positional notation.  The exponent is not above zero, so the significand is a bound.
* Scientific notation.  The value of the digits is the bound.  A written exponent below zero may
  be too small to be held, and then zero is read.
* Every double.  `shortest_spec` bounds the value of the digits; the two greatest magnitudes
  are so close to the end of the range that they are computed.
-/

namespace JsonEdit.Json.Reader

/-- Digits that stand for a double in range, with either sign. -/
def Digits.InRange (digits : Digits) : Prop :=
  ∀ negative, ∃ x, Numeral.finish ⟨negative, digits⟩ = .ok (.double x)

theorem exists_double {significand : Nat} {exponent : Int}
    (h : Double.ofScientific significand exponent < Double.magnitudes) (negative : Bool) :
    ∃ x, Numeral.double negative significand exponent = .ok (.double x) := by
  refine ⟨⟨negative, Double.ofScientific significand exponent, h⟩, ?_⟩
  simp only [Numeral.double, Double.ofScientific?, Double.ofOrdinal?, dif_pos h]

/-! ## Digits behind the point -/

/-- A significand that 64 bits hold and an exponent not above zero, which stand for a number
that is not above a bound. -/
structure Within (significand : Nat) (exponent : Int) (bound : ℚ) : Prop where
  fits : significand ≤ Digits.greatestSignificand
  nonpos : exponent ≤ 0
  le : (significand : ℚ) * 10 ^ exponent ≤ bound

/-- Digits behind the point have been read, all of them or not. -/
def Digits.IsFraction (digits : Digits) (significand : Nat) (exponent : Int) : Prop :=
  digits = .fraction significand exponent ∨ digits = .cut significand exponent

theorem takeAll?_cut {cs : List Char} (hdigits : cs.all Char.isDigit = true) (significand : Nat)
    (exponent : Int) :
    Digits.takeAll? (.cut significand exponent) cs = some (.cut significand exponent) := by
  induction cs with
  | nil => rfl
  | cons c cs ih =>
    rw [List.all_cons, Bool.and_eq_true] at hdigits
    have htake : Digits.take? c (.cut significand exponent) =
        some (.ok (.cut significand exponent)) := by
      simp [Digits.take?, hdigits.1]
    rw [Digits.takeAll?_cons htake, ih hdigits.2]

/-- Digits behind the point that are dropped make the number smaller. -/
theorem mul_zpow_le_ofDigitChars (significand : Nat) (exponent : Int) (cs : List Char) :
    (significand : ℚ) * 10 ^ exponent ≤
      Nat.ofDigitChars 10 cs significand * 10 ^ (exponent - cs.length) := by
  have hle : 10 ^ cs.length * significand ≤ Nat.ofDigitChars 10 cs significand := by
    rw [Nat.ofDigitChars_eq_ofDigitChars_zero]
    exact Nat.le_add_right _ _
  have hcast : (10 : ℚ) ^ cs.length * significand ≤ Nat.ofDigitChars 10 cs significand := by
    exact_mod_cast hle
  calc (significand : ℚ) * 10 ^ exponent
      = 10 ^ cs.length * significand * 10 ^ (exponent - cs.length) := by
        rw [mul_comm ((10 : ℚ) ^ cs.length), mul_assoc, ← zpow_natCast, ← zpow_add₀ (by norm_num),
          add_sub_cancel]
    _ ≤ Nat.ofDigitChars 10 cs significand * 10 ^ (exponent - cs.length) := by gcongr

/-- Digits behind the point are collected as long as the significand can take them. -/
theorem exists_takeAll?_fraction {cs : List Char} (hdigits : cs.all Char.isDigit = true)
    {significand : Nat} {exponent : Int} (hfits : significand ≤ Digits.greatestSignificand)
    (hnonpos : exponent ≤ 0) :
    ∃ digits taken scale, Digits.takeAll? (.fraction significand exponent) cs = some digits ∧
      digits.IsFraction taken scale ∧
      Within taken scale (Nat.ofDigitChars 10 cs significand * 10 ^ (exponent - cs.length)) := by
  induction cs generalizing significand exponent with
  | nil => exact ⟨_, _, _, rfl, .inl rfl, hfits, hnonpos, by simp⟩
  | cons c cs ih =>
    rw [List.all_cons, Bool.and_eq_true] at hdigits
    by_cases hlonger : significand * 10 + Digits.value c ≤ Digits.greatestSignificand
    · have htake : Digits.take? c (.fraction significand exponent) =
          some (.ok (.fraction (significand * 10 + Digits.value c) (exponent - 1))) := by
        simp [Digits.take?, Digits.takeFraction, hdigits.1, hlonger]
      have hexponent : exponent - 1 - (cs.length : Int) = exponent - (c :: cs).length := by
        rw [List.length_cons]
        omega
      rw [Digits.takeAll?_cons htake, Nat.ofDigitChars_cons, ← value_add, ← hexponent]
      exact ih hdigits.2 hlonger (by omega)
    · have htake : Digits.take? c (.fraction significand exponent) =
          some (.ok (.cut significand exponent)) := by
        simp [Digits.take?, Digits.takeFraction, hdigits.1, hlonger]
      rw [Digits.takeAll?_cons htake, takeAll?_cut hdigits.2]
      exact ⟨_, _, _, rfl, .inr rfl, hfits, hnonpos, mul_zpow_le_ofDigitChars _ _ _⟩

/-- The first digit behind the point is taken as the others are. -/
theorem takeAll?_point {c : Char} (hdigit : c.isDigit = true) (cs : List Char) (significand : Nat)
    (exponent : Int) :
    Digits.takeAll? (.point significand exponent) (c :: cs) =
      Digits.takeAll? (.fraction significand exponent) (c :: cs) := by
  simp only [Digits.takeAll?, Digits.take?, hdigit, if_true]

/-- Digits, a point and digits. -/
theorem exists_takeAll?_append_point {front cs : List Char} {whole : Digits} {significand : Nat}
    (hfront : Digits.takeAll? .start front = some whole)
    (hpoint : whole.take? '.' = some (.ok (.point significand 0)))
    (hfits : significand ≤ Digits.greatestSignificand) (hne : cs ≠ [])
    (hdigits : cs.all Char.isDigit = true) :
    ∃ digits taken scale, Digits.takeAll? .start (front ++ '.' :: cs) = some digits ∧
      digits.IsFraction taken scale ∧
      Within taken scale (Nat.ofDigitChars 10 cs significand * 10 ^ (-(cs.length : Int))) := by
  obtain ⟨c, rest, rfl⟩ := List.exists_cons_of_ne_nil hne
  have hdigit : c.isDigit = true := List.all_eq_true.mp hdigits c List.mem_cons_self
  rw [Digits.takeAll?_append hfront, Digits.takeAll?_cons hpoint, takeAll?_point hdigit,
    ← zero_sub]
  exact exists_takeAll?_fraction hdigits hfits le_rfl

/-! ## Positional notation -/

theorem greatestSignificand_le :
    (Digits.greatestSignificand : ℚ) ≤ Double.roundingBound := by
  have hunit : (2 : ℚ) ^ 11 ≤ Double.halfUnit := by
    unfold Double.halfUnit
    exact pow_le_pow_right₀ (by norm_num) (by norm_num)
  unfold Double.roundingBound
  norm_num [Digits.greatestSignificand] at hunit ⊢
  linarith

/-- A significand and an exponent that leave room for rounding are in range. -/
theorem ofScientific_lt_of_within {significand : Nat} {exponent : Int}
    (hfits : significand ≤ Digits.greatestSignificand)
    (hle : (significand : ℚ) * 10 ^ exponent ≤ Double.roundingBound) :
    Double.ofScientific significand exponent < Double.magnitudes := by
  cases exponent with
  | ofNat up =>
    rw [Int.ofNat_eq_natCast, zpow_natCast] at hle
    exact Double.ofScientific_lt_of_value_le hle
  | negSucc below =>
    exact Double.ofScientific_lt_of_neg (Nat.lt_succ_of_le hfits) (Int.negSucc_lt_zero below)

theorem ofScientific_lt_of_nonpos {significand : Nat} {exponent : Int}
    (hfits : significand ≤ Digits.greatestSignificand) (hnonpos : exponent ≤ 0) :
    Double.ofScientific significand exponent < Double.magnitudes := by
  apply ofScientific_lt_of_within hfits
  have hpower : (10 : ℚ) ^ exponent ≤ 1 := zpow_le_one_of_nonpos₀ (by norm_num) hnonpos
  have hcast : (significand : ℚ) ≤ Digits.greatestSignificand := by exact_mod_cast hfits
  calc (significand : ℚ) * 10 ^ exponent
      ≤ significand := mul_le_of_le_one_right (by positivity) hpower
    _ ≤ Double.roundingBound := hcast.trans greatestSignificand_le

theorem inRange_of_isFraction {digits : Digits} {significand : Nat} {exponent : Int} {bound : ℚ}
    (h : digits.IsFraction significand exponent) (hwithin : Within significand exponent bound) :
    digits.InRange := by
  intro negative
  have hrange := ofScientific_lt_of_nonpos hwithin.fits hwithin.nonpos
  rcases h with rfl | rfl
  · exact exists_double hrange negative
  · exact exists_double hrange negative

/-- So many digits stand for a number below that power of ten. -/
theorem decimalValue_lt_pow {cs : List Char} (hdigits : cs.all Char.isDigit = true) :
    Text.decimalValue cs < 10 ^ cs.length := by
  induction cs with
  | nil => decide
  | cons c cs ih =>
    rw [List.all_cons, Bool.and_eq_true] at hdigits
    have hrange : 48 ≤ c.toNat ∧ c.toNat ≤ 57 := Char.isDigit_iff_toNat.mp hdigits.1
    have hrest := ih hdigits.2
    have hzero : '0'.toNat = 48 := rfl
    unfold Text.decimalValue at hrest ⊢
    rw [Nat.ofDigitChars_cons, Nat.ofDigitChars_eq_ofDigitChars_zero, List.length_cons, pow_succ,
      hzero]
    have hfirst : 10 ^ cs.length * (10 * 0 + (c.toNat - 48)) ≤ 10 ^ cs.length * 9 :=
      Nat.mul_le_mul_left _ (by omega)
    omega

theorem all_isDigit_zeros (n : Nat) : (List.replicate n '0').all Char.isDigit = true := by
  rw [List.all_replicate]
  simp

/-- The text of a number in positional notation is read as a double in range.  At most sixteen
digits stand in front of the point, so the significand takes them all. -/
theorem exists_takeAll?_plainText {c : Char} {ds : List Char} (hzero : c ≠ '0')
    (hdigits : (c :: ds).all Char.isDigit = true) {place : Int}
    (hplace : place < Number.plainBelow) :
    ∃ digits, Digits.takeAll? .start (Number.plainText (c :: ds) place) = some digits ∧
      digits.InRange := by
  cases place with
  | ofNat whole =>
    generalize htail : ds ++ List.replicate (whole + 1 - (c :: ds).length) '0' = tail
    have htext : Number.plainText (c :: ds) (.ofNat whole) =
        (c :: tail.take whole) ++
          '.' :: (if (tail.drop whole).isEmpty then ['0'] else tail.drop whole) := by
      rw [← htail]
      rfl
    have hall : ∀ d ∈ c :: tail, d.isDigit = true := by
      rw [← htail, ← List.cons_append, ← List.all_eq_true, List.all_append, hdigits,
        all_isDigit_zeros]
      rfl
    have hfront : (c :: tail.take whole).all Char.isDigit = true := by
      rw [List.all_eq_true]
      intro d hd
      have hmem : d ∈ (c :: tail).take (whole + 1) := hd
      exact hall d (List.mem_of_mem_take hmem)
    have hbehind : (if (tail.drop whole).isEmpty then ['0'] else tail.drop whole).all
        Char.isDigit = true := by
      split
      · rfl
      · rw [List.all_eq_true]
        exact fun d hd => hall d (List.mem_cons_of_mem c (List.mem_of_mem_drop hd))
    have hne : (if (tail.drop whole).isEmpty then ['0'] else tail.drop whole) ≠ [] := by
      cases tail.drop whole <;> simp
    have hfits : Text.decimalValue (c :: tail.take whole) ≤ Digits.greatestSignificand := by
      have hwhole : (whole : Int) < 16 := hplace
      have hlength : (c :: tail.take whole).length ≤ 16 := by
        rw [List.length_cons, List.length_take]
        omega
      calc Text.decimalValue (c :: tail.take whole) ≤ 10 ^ (c :: tail.take whole).length :=
            (decimalValue_lt_pow hfront).le
        _ ≤ 10 ^ 16 := Nat.pow_le_pow_right (by decide) hlength
        _ ≤ Digits.greatestSignificand := by decide
    rw [htext]
    obtain ⟨digits, taken, scale, htake, hfraction, hwithin⟩ :=
      exists_takeAll?_append_point (takeAll?_start hzero hfront hfits) rfl hfits hne hbehind
    exact ⟨digits, htake, inRange_of_isFraction hfraction hwithin⟩
  | negSucc zeros =>
    have hbehind : (List.replicate zeros '0' ++ c :: ds).all Char.isDigit = true := by
      rw [List.all_append, hdigits, all_isDigit_zeros]
      rfl
    have hfront : Digits.takeAll? .start ['0'] = some .zero := rfl
    obtain ⟨digits, taken, scale, htake, hfraction, hwithin⟩ :=
      exists_takeAll?_append_point hfront rfl (Nat.zero_le _) (by simp) hbehind
    exact ⟨digits, htake, inRange_of_isFraction hfraction hwithin⟩

/-! ## Scientific notation -/

/-- The digits in front of the mark of an exponent. -/
theorem exists_takeAll?_withPoint {c : Char} {ds : List Char} (hzero : c ≠ '0')
    (hdigits : (c :: ds).all Char.isDigit = true) :
    ∃ digits taken scale, Digits.takeAll? .start (Number.withPoint (c :: ds)) = some digits ∧
      digits.take? 'e' = some (.ok (.mark taken scale)) ∧
      Within taken scale (Text.decimalValue (c :: ds) * 10 ^ (-(ds.length : Int))) := by
  rw [List.all_cons, Bool.and_eq_true] at hdigits
  have hone : [c].all Char.isDigit = true := by
    rw [List.all_cons, hdigits.1]
    rfl
  have hten : 10 ^ 1 ≤ Digits.greatestSignificand := by decide
  have hfits : Text.decimalValue [c] ≤ Digits.greatestSignificand :=
    (decimalValue_lt_pow hone).le.trans hten
  have hfront := takeAll?_start hzero hone hfits
  cases ds with
  | nil => exact ⟨_, _, _, hfront, rfl, hfits, le_rfl, by simp⟩
  | cons d ds =>
    obtain ⟨digits, taken, scale, htake, hfraction, hwithin⟩ :=
      exists_takeAll?_append_point hfront rfl hfits (List.cons_ne_nil d ds) hdigits.2
    refine ⟨digits, taken, scale, htake, ?_, hwithin⟩
    rcases hfraction with rfl | rfl
    · rfl
    · rfl

/-- The first digit of an exponent is taken as the others are. -/
theorem takeAll?_sign {c : Char} (hdigit : c.isDigit = true) (cs : List Char) (significand : Nat)
    (exponent : Int) (down : Bool) :
    Digits.takeAll? (.sign significand exponent down) (c :: cs) =
      Digits.takeAll? (.power significand exponent down 0) (c :: cs) := by
  simp only [Digits.takeAll?, Digits.take?, hdigit, if_true]

/-- The digits of an exponent that is not too great are all taken. -/
theorem takeAll?_power {cs : List Char} (hdigits : cs.all Char.isDigit = true) {written : Nat}
    (hfits : Nat.ofDigitChars 10 cs written ≤ Digits.greatestWritten) (significand : Nat)
    (exponent : Int) (down : Bool) :
    Digits.takeAll? (.power significand exponent down written) cs =
      some (.power significand exponent down (Nat.ofDigitChars 10 cs written)) := by
  induction cs generalizing written with
  | nil => rfl
  | cons c cs ih =>
    rw [List.all_cons, Bool.and_eq_true] at hdigits
    rw [Nat.ofDigitChars_cons, ← value_add] at hfits ⊢
    have hlonger := (Text.le_ofDigitChars cs _).trans hfits
    have htake : Digits.take? c (.power significand exponent down written) =
        some (.ok (.power significand exponent down (written * 10 + Digits.value c))) := by
      simp [Digits.take?, Digits.takePower, hdigits.1, hlonger]
    rw [Digits.takeAll?_cons htake, ih hdigits.2 hfits]

theorem takeAll?_vanished {cs : List Char} (hdigits : cs.all Char.isDigit = true) :
    Digits.takeAll? .vanished cs = some .vanished := by
  induction cs with
  | nil => rfl
  | cons c cs ih =>
    rw [List.all_cons, Bool.and_eq_true] at hdigits
    have htake : Digits.take? c .vanished = some (.ok .vanished) := by
      simp [Digits.take?, hdigits.1]
    rw [Digits.takeAll?_cons htake, ih hdigits.2]

/-- The digits of an exponent below zero are all taken, or the number vanishes. -/
theorem takeAll?_power_down {cs : List Char} (hdigits : cs.all Char.isDigit = true)
    (significand : Nat) (exponent : Int) (written : Nat) :
    Digits.takeAll? (.power significand exponent true written) cs = some .vanished ∨
      ∃ longer, Digits.takeAll? (.power significand exponent true written) cs =
        some (.power significand exponent true longer) := by
  induction cs generalizing written with
  | nil => exact .inr ⟨written, rfl⟩
  | cons c cs ih =>
    rw [List.all_cons, Bool.and_eq_true] at hdigits
    by_cases hlonger : written * 10 + Digits.value c ≤ Digits.greatestWritten
    · have htake : Digits.take? c (.power significand exponent true written) =
          some (.ok (.power significand exponent true (written * 10 + Digits.value c))) := by
        simp [Digits.take?, Digits.takePower, hdigits.1, hlonger]
      rw [Digits.takeAll?_cons htake]
      exact ih hdigits.2 _
    · have htake : Digits.take? c (.power significand exponent true written) =
          some (.ok .vanished) := by
        simp [Digits.take?, Digits.takePower, hdigits.1, hlonger]
      rw [Digits.takeAll?_cons htake]
      exact .inl (takeAll?_vanished hdigits.2)

theorem takeAll?_mark_up {n : Nat} (hfits : n ≤ Digits.greatestWritten) (significand : Nat)
    (exponent : Int) :
    Digits.takeAll? (.mark significand exponent) ('+' :: Text.decimal n) =
      some (.power significand exponent false n) := by
  obtain ⟨c, cs, hform, -, hdigits⟩ := exists_decimal_eq_cons n
  have hdigit : c.isDigit = true := List.all_eq_true.mp hdigits c List.mem_cons_self
  have hvalue := Text.decimalValue_decimal n
  have hsign : Digits.take? '+' (.mark significand exponent) =
      some (.ok (.sign significand exponent false)) := rfl
  rw [hform] at hvalue ⊢
  unfold Text.decimalValue at hvalue
  rw [Digits.takeAll?_cons hsign, takeAll?_sign hdigit, takeAll?_power hdigits (by rwa [hvalue]),
    hvalue]

theorem takeAll?_mark_down (n : Nat) (significand : Nat) (exponent : Int) :
    Digits.takeAll? (.mark significand exponent) ('-' :: Text.decimal n) = some .vanished ∨
      ∃ written, Digits.takeAll? (.mark significand exponent) ('-' :: Text.decimal n) =
        some (.power significand exponent true written) := by
  obtain ⟨c, cs, hform, -, hdigits⟩ := exists_decimal_eq_cons n
  have hdigit : c.isDigit = true := List.all_eq_true.mp hdigits c List.mem_cons_self
  have hsign : Digits.take? '-' (.mark significand exponent) =
      some (.ok (.sign significand exponent true)) := rfl
  rw [hform, Digits.takeAll?_cons hsign, takeAll?_sign hdigit]
  exact takeAll?_power_down hdigits significand exponent 0

theorem inRange_power_up {significand written : Nat} {exponent : Int}
    (h : Double.ofScientific significand (exponent + written) < Double.magnitudes) :
    (Digits.power significand exponent false written).InRange :=
  exists_double h

theorem inRange_power_down {significand written : Nat} {exponent : Int}
    (h : Double.ofScientific significand (exponent - written) < Double.magnitudes) :
    (Digits.power significand exponent true written).InRange :=
  exists_double h

theorem inRange_vanished : Digits.vanished.InRange := by
  intro negative
  have hrange : Double.ofScientific 0 (.ofNat 0) < Double.magnitudes := by
    rw [Double.ofScientific_zero]
    decide
  exact exists_double hrange negative

/-- The text of a number in scientific notation is read as a double in range, if the value of
its digits leaves room for rounding. -/
theorem exists_takeAll?_exponentText {c : Char} {ds : List Char} (hzero : c ≠ '0')
    (hdigits : (c :: ds).all Char.isDigit = true) {place : Int}
    (hwritten : place ≤ Digits.greatestWritten)
    (hvalue : (Text.decimalValue (c :: ds) : ℚ) * 10 ^ (place - ds.length) ≤
      Double.roundingBound) :
    ∃ digits, Digits.takeAll? .start (Number.exponentText (c :: ds) place) = some digits ∧
      digits.InRange := by
  obtain ⟨front, taken, scale, hfront, hmark, hwithin⟩ := exists_takeAll?_withPoint hzero hdigits
  have htext (sign : Char) (hsign : (if place < 0 then '-' else '+') = sign) :
      Digits.takeAll? .start (Number.exponentText (c :: ds) place) =
        Digits.takeAll? (.mark taken scale) (sign :: Text.decimal place.natAbs) := by
    unfold Number.exponentText
    rw [hsign, Digits.takeAll?_append hfront, Digits.takeAll?_cons hmark]
  by_cases hplace : place < 0
  · rw [htext '-' (if_pos hplace)]
    rcases takeAll?_mark_down place.natAbs taken scale with hvanished | ⟨written, hpower⟩
    · exact ⟨_, hvanished, inRange_vanished⟩
    · refine ⟨_, hpower, inRange_power_down (ofScientific_lt_of_nonpos hwithin.fits ?_)⟩
      have hnonpos := hwithin.nonpos
      omega
  · rw [htext '+' (if_neg hplace)]
    refine ⟨_, takeAll?_mark_up (by omega) taken scale,
      inRange_power_up (ofScientific_lt_of_within hwithin.fits ?_)⟩
    have hnatAbs : (place.natAbs : Int) = place := by omega
    rw [hnatAbs]
    calc (taken : ℚ) * 10 ^ (scale + place) = taken * 10 ^ scale * 10 ^ place := by
          rw [zpow_add₀ (by norm_num), mul_assoc]
      _ ≤ Text.decimalValue (c :: ds) * 10 ^ (-(ds.length : Int)) * 10 ^ place := by
          exact mul_le_mul_of_nonneg_right hwithin.le (by positivity)
      _ = Text.decimalValue (c :: ds) * 10 ^ (place - ds.length) := by
          rw [mul_assoc, ← zpow_add₀ (by norm_num), neg_add_eq_sub]
      _ ≤ Double.roundingBound := hvalue

/-! ## Every double -/

/-- The shortest form of a positive number is its digits up to the last one that is not zero,
and zeros behind them.  The first digit is not a zero, so some digits are left. -/
theorem exists_digits_of_decimal {n : Nat} (hn : 0 < n) :
    ∃ c ds zeros, ((Text.decimal n).reverse.dropWhile (· == '0')).reverse = c :: ds ∧ c ≠ '0' ∧
      (c :: ds).all Char.isDigit = true ∧
      Text.decimal n = c :: ds ++ List.replicate zeros '0' := by
  obtain ⟨first, others, hform, hfirst, hdigits⟩ := exists_decimal_eq_cons n
  have hback : ((Text.decimal n).reverse.takeWhile (· == '0')).reverse =
      List.replicate ((Text.decimal n).reverse.takeWhile (· == '0')).length '0' := by
    rw [List.eq_replicate_iff]
    refine ⟨List.length_reverse, fun d hd => ?_⟩
    simpa using List.all_eq_true.mp List.all_takeWhile d (List.mem_reverse.mp hd)
  have hsplit : Text.decimal n = ((Text.decimal n).reverse.dropWhile (· == '0')).reverse ++
      ((Text.decimal n).reverse.takeWhile (· == '0')).reverse := by
    rw [← List.reverse_append, List.takeWhile_append_dropWhile, List.reverse_reverse]
  rw [hback] at hsplit
  generalize ((Text.decimal n).reverse.dropWhile (· == '0')).reverse = front at hsplit
  generalize ((Text.decimal n).reverse.takeWhile (· == '0')).length = zeros at hsplit
  rw [hform] at hsplit
  cases front with
  | nil =>
    have hmem : first ∈ List.replicate zeros '0' := by
      rw [List.nil_append] at hsplit
      rw [← hsplit]
      exact List.mem_cons_self
    exact absurd (List.eq_of_mem_replicate hmem) (hfirst hn)
  | cons c ds =>
    have hall : (c :: ds).all Char.isDigit = true := by
      rw [hsplit, List.all_append, Bool.and_eq_true] at hdigits
      exact hdigits.1
    obtain rfl : first = c := (List.cons.inj hsplit).1
    exact ⟨first, ds, zeros, rfl, hfirst hn, hall, hform.trans hsplit⟩

/-- The digits without the zeros behind them stand for the same number, when the place of the
first one is kept. -/
theorem decimalValue_mul_zpow {n zeros : Nat} {c : Char} {ds : List Char}
    (h : Text.decimal n = c :: ds ++ List.replicate zeros '0') (exponent : Int) :
    (Text.decimalValue (c :: ds) : ℚ) *
        10 ^ (exponent + (Text.decimal n).length - 1 - (ds.length : Int)) =
      n * 10 ^ exponent := by
  have hvalue : n = Text.decimalValue (c :: ds) * 10 ^ zeros := by
    rw [← Text.decimalValue_decimal n, h, Text.decimalValue, Nat.ofDigitChars_append,
      Nat.ofDigitChars_replicate_zero, Nat.mul_comm, Text.decimalValue]
  have hlength : (Text.decimal n).length = ds.length + 1 + zeros := by
    rw [h, List.length_append, List.length_replicate, List.length_cons]
  have hexponent : exponent + (Text.decimal n).length - 1 - (ds.length : Int) =
      (zeros : Int) + exponent := by omega
  rw [hexponent, zpow_add₀ (by norm_num), zpow_natCast, ← mul_assoc]
  congr 1
  exact_mod_cast hvalue.symm

/-- The two greatest magnitudes are read by computing. -/
theorem exists_takeAll?_of_greatest {ordinal : Nat} (hgreatest : Double.magnitudes ≤ ordinal + 2)
    (hfinite : ordinal < Double.magnitudes) :
    ∃ digits, Digits.takeAll? .start (Number.magnitudeText ordinal) = some digits ∧
      digits.InRange := by
  have hordinal : ordinal = Double.magnitudes - 1 ∨ ordinal = Double.magnitudes - 2 := by omega
  rcases hordinal with rfl | rfl
  · have htake : Digits.takeAll? .start (Number.magnitudeText (Double.magnitudes - 1)) =
        some (.power 17976931348623157 (-16) false 308) := by decide +kernel
    have hrange : Double.ofScientific 17976931348623157 (-16 + (308 : Nat)) <
        Double.magnitudes := by decide +kernel
    exact ⟨_, htake, inRange_power_up hrange⟩
  · have htake : Digits.takeAll? .start (Number.magnitudeText (Double.magnitudes - 2)) =
        some (.power 17976931348623155 (-16) false 308) := by decide +kernel
    have hrange : Double.ofScientific 17976931348623155 (-16 + (308 : Nat)) <
        Double.magnitudes := by decide +kernel
    exact ⟨_, htake, inRange_power_up hrange⟩

/-- The digits of a double other than zero and the two greatest leave room for rounding. -/
theorem shortest_value_le {ordinal : Nat} (hpos : 0 < ordinal)
    (hroom : ordinal + 2 < Double.magnitudes) :
    (Double.shortest ordinal).value.value ≤ Double.roundingBound := by
  obtain ⟨-, hclose⟩ := Double.shortest_spec hpos (by omega)
  have hbelow : (Double.magnitude ordinal).value ≤ (2 ^ 54 - 2 * (3 : Nat)) * Double.halfUnit := by
    rw [← Double.value_magnitude_below (by decide)]
    exact Double.magnitude_le_iff.mpr (by omega)
  unfold Double.roundingBound
  norm_num at hbelow ⊢
  linarith

/-- The place of the first digit of a number in range. -/
theorem place_le_of_value_le {coefficient : Nat} {exponent : Int} (hpos : 0 < coefficient)
    (h : (coefficient : ℚ) * 10 ^ exponent ≤ Double.roundingBound) :
    exponent + (Text.decimal coefficient).length - 1 ≤ 308 := by
  have hlength := List.length_pos_of_ne_nil (Text.decimal_ne_nil coefficient)
  have hdigits :
      (10 : ℚ) ^ (((Text.decimal coefficient).length - 1 : Nat) : Int) ≤ coefficient := by
    rw [zpow_natCast]
    exact_mod_cast Text.pow_length_decimal_le hpos
  have hend : 2 ^ 54 * Double.halfUnit < (10 : ℚ) ^ (309 : Int) := by
    exact_mod_cast Double.lt_power_of_greatestPower_lt (by decide : Double.greatestPower < 309)
  have hunit := Double.halfUnit_pos
  have hlt : (10 : ℚ) ^ (((Text.decimal coefficient).length - 1 : Nat) + exponent : Int) <
      10 ^ (309 : Int) := by
    calc (10 : ℚ) ^ (((Text.decimal coefficient).length - 1 : Nat) + exponent : Int)
        = 10 ^ (((Text.decimal coefficient).length - 1 : Nat) : Int) * 10 ^ exponent :=
          zpow_add₀ (by norm_num) _ _
      _ ≤ coefficient * 10 ^ exponent := by gcongr
      _ ≤ Double.roundingBound := h
      _ < 2 ^ 54 * Double.halfUnit := by
        unfold Double.roundingBound
        linarith
      _ < 10 ^ (309 : Int) := hend
  have hplace := (zpow_lt_zpow_iff_right₀ (by norm_num)).mp hlt
  omega

/-- The text of every magnitude is read as a double in range. -/
theorem exists_takeAll?_magnitudeText {ordinal : Nat} (hfinite : ordinal < Double.magnitudes) :
    ∃ digits, Digits.takeAll? .start (Number.magnitudeText ordinal) = some digits ∧
      digits.InRange := by
  rcases Nat.eq_zero_or_pos ordinal with rfl | hpos
  · have hwithin : Within 0 (-1) 0 := ⟨Nat.zero_le _, by decide, by simp⟩
    exact ⟨.fraction 0 (-1), rfl, inRange_of_isFraction (.inl rfl) hwithin⟩
  · by_cases hgreatest : Double.magnitudes ≤ ordinal + 2
    · exact exists_takeAll?_of_greatest hgreatest hfinite
    · obtain ⟨hcoefficient, -⟩ := Double.shortest_spec hpos hfinite
      have hvalue := shortest_value_le hpos (Nat.lt_of_not_le hgreatest)
      rw [Decimal.value_value] at hvalue
      have hplace := place_le_of_value_le hcoefficient hvalue
      obtain ⟨c, ds, zeros, hstrip, hzero, hdigits, hform⟩ :=
        exists_digits_of_decimal hcoefficient
      simp only [Number.magnitudeText, if_neg hpos.ne', hstrip]
      split
      · rename_i hplain
        exact exists_takeAll?_plainText hzero hdigits hplain.2
      · refine exists_takeAll?_exponentText hzero hdigits ?_ ?_
        · unfold Digits.greatestWritten
          omega
        · rwa [decimalValue_mul_zpow hform]

/-- The text of a double is read as a double, wherever it can stand. -/
theorem exists_readsAs_double (x : Double) : ∃ y, ReadsAs (.double x) (.double y) := by
  obtain ⟨digits, htake, hrange⟩ := exists_takeAll?_magnitudeText x.finite
  obtain ⟨y, hfinish⟩ := hrange x.negative
  exact ⟨y, fun hgap hrest => run_number x.negative htake hfinish hgap hrest⟩

end JsonEdit.Json.Reader
