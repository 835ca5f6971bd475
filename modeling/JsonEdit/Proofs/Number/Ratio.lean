import JsonEdit.Number.Ratio
import Mathlib.Algebra.Order.Field.Power
import Mathlib.Data.Nat.Digits.Defs
import Mathlib.Data.Rat.Cast.Order
import Mathlib.Tactic.Linarith
import Mathlib.Tactic.NormNum
import Mathlib.Tactic.Positivity
import Mathlib.Tactic.Ring

/-!
# Values of fractions

A fraction stands for a rational number.  Each operation on fractions is the operation on
their values, and each rounding is described by the values that it lies between.  Proofs
about the conversion of numbers use these statements and do not look at numerators and
denominators.

There are three groups.

* Values.  Products, quotients and scaling; none of them needs a condition.
* Rounding.  `floor_le`, `lt_floor_add_one` and `nearestEven_cases` are about fractions with
  a positive denominator.
* Logarithms.  `log2_spec` gives both bounds for base two.  For base ten the upper bound
  plays no part, so `ten_zpow_log10_le` is the lower one alone.
-/

namespace JsonEdit

/-- A positive number is not below the power of ten with one digit less. -/
theorem Text.pow_length_decimal_le {n : Nat} (hn : 0 < n) :
    10 ^ ((Text.decimal n).length - 1) ≤ n := by
  rcases Nat.eq_zero_or_pos ((Text.decimal n).length - 1) with hzero | hpos
  · rw [hzero]
    exact hn
  · by_contra hlt
    have hlength : (Text.decimal n).length ≤ (Text.decimal n).length - 1 :=
      Nat.toDigits_length 10 n _ hpos (Nat.lt_of_not_le hlt)
    omega

namespace Ratio

/-! ## Values -/

/-- The rational number that a fraction stands for. -/
def value (r : Ratio) : ℚ := r.num / r.den

@[simp]
theorem value_ofNat (n : Nat) : (ofNat n).value = n := by
  simp [value, ofNat]

@[simp]
theorem value_mul (r s : Ratio) : (r.mul s).value = r.value * s.value := by
  simp only [value, mul, Nat.cast_mul]
  exact (div_mul_div_comm _ _ _ _).symm

@[simp]
theorem value_div (r s : Ratio) : (r.div s).value = r.value / s.value := by
  simp only [value, div, Nat.cast_mul]
  exact (div_div_div_eq _ _ _ _).symm

@[simp]
theorem value_scale (r : Ratio) (base : Nat) (exponent : Int) :
    (r.scale base exponent).value = r.value * (base : ℚ) ^ exponent := by
  cases exponent with
  | ofNat n =>
    show ((r.num * base ^ n : Nat) : ℚ) / r.den = _
    rw [Int.ofNat_eq_natCast, zpow_natCast, Nat.cast_mul, Nat.cast_pow, value, div_mul_eq_mul_div]
  | negSucc n =>
    show (r.num : ℚ) / (r.den * base ^ (n + 1) : Nat) = _
    rw [zpow_negSucc, Nat.cast_mul, Nat.cast_pow, value, ← div_eq_mul_inv, div_div]

theorem value_nonneg (r : Ratio) : 0 ≤ r.value := by
  unfold value
  positivity

theorem value_eq_zero_of_num {r : Ratio} (h : r.num = 0) : r.value = 0 := by
  rw [value, h, Nat.cast_zero, zero_div]

/-- A fraction with a positive value has a positive denominator. -/
theorem den_pos_of_value_pos {r : Ratio} (h : 0 < r.value) : 0 < r.den := by
  rcases Nat.eq_zero_or_pos r.den with hden | hden
  · rw [value, hden, Nat.cast_zero, div_zero] at h
    exact absurd h (lt_irrefl 0)
  · exact hden

theorem num_pos_of_value_pos {r : Ratio} (h : 0 < r.value) : 0 < r.num := by
  rcases Nat.eq_zero_or_pos r.num with hnum | hnum
  · rw [value_eq_zero_of_num hnum] at h
    exact absurd h (lt_irrefl 0)
  · exact hnum

/-- A fraction with a positive denominator is zero or has a positive value. -/
theorem num_eq_zero_or_value_pos {r : Ratio} (hden : 0 < r.den) : r.num = 0 ∨ 0 < r.value := by
  rcases Nat.eq_zero_or_pos r.num with hnum | hnum
  · exact .inl hnum
  · refine .inr ?_
    unfold value
    positivity

theorem oneLe_iff {r : Ratio} (hden : 0 < r.den) : r.oneLe = true ↔ 1 ≤ r.value := by
  have hpos : (0 : ℚ) < r.den := by exact_mod_cast hden
  rw [oneLe, decide_eq_true_eq, value, le_div_iff₀ hpos, one_mul, Nat.cast_le]

/-! ## Rounding -/

/-- The value of a fraction is the quotient and what is left of it. -/
theorem value_mul_den {r : Ratio} (hden : 0 < r.den) :
    r.value * r.den = r.floor * r.den + (r.num % r.den : Nat) := by
  have hne : (r.den : ℚ) ≠ 0 := by exact_mod_cast hden.ne'
  rw [value, div_mul_cancel₀ _ hne]
  have hsplit : r.num = r.num / r.den * r.den + r.num % r.den := by
    rw [Nat.mul_comm]
    exact (Nat.div_add_mod _ _).symm
  unfold floor
  exact_mod_cast hsplit

theorem floor_le {r : Ratio} (hden : 0 < r.den) : (r.floor : ℚ) ≤ r.value := by
  have hpos : (0 : ℚ) < r.den := by exact_mod_cast hden
  have hvalue := value_mul_den hden
  have hrest : (0 : ℚ) ≤ (r.num % r.den : Nat) := by positivity
  nlinarith

theorem lt_floor_add_one {r : Ratio} (hden : 0 < r.den) : r.value < r.floor + 1 := by
  have hpos : (0 : ℚ) < r.den := by exact_mod_cast hden
  have hvalue := value_mul_den hden
  have hrest : ((r.num % r.den : Nat) : ℚ) < r.den := by exact_mod_cast Nat.mod_lt _ hden
  nlinarith

theorem nearestEven_eq_ite (r : Ratio) :
    r.nearestEven =
      if 2 * (r.num % r.den) < r.den ∨ 2 * (r.num % r.den) = r.den ∧ r.floor % 2 = 0
      then r.floor else r.floor + 1 := by
  simp only [nearestEven, floor, Bool.or_eq_true, Bool.and_eq_true, decide_eq_true_eq, beq_iff_eq]
  congr

/-- The nearest natural number is the one below, and then the value is not above the middle,
or the one above, and then the value is not below the middle. -/
theorem nearestEven_cases {r : Ratio} (hden : 0 < r.den) :
    r.nearestEven = r.floor ∧ 2 * r.value ≤ 2 * r.floor + 1 ∨
      r.nearestEven = r.floor + 1 ∧ 2 * r.floor + 1 ≤ 2 * r.value := by
  have hpos : (0 : ℚ) < r.den := by exact_mod_cast hden
  have hvalue := value_mul_den hden
  rw [nearestEven_eq_ite]
  split
  · rename_i hdown
    have htwice : 2 * ((r.num % r.den : Nat) : ℚ) ≤ r.den := by
      have hle : 2 * (r.num % r.den) ≤ r.den := by omega
      exact_mod_cast hle
    exact .inl ⟨rfl, by nlinarith⟩
  · rename_i hup
    have htwice : (r.den : ℚ) ≤ 2 * (r.num % r.den : Nat) := by
      have hle : r.den ≤ 2 * (r.num % r.den) := by omega
      exact_mod_cast hle
    exact .inr ⟨rfl, by nlinarith⟩

/-! ## Logarithms -/

theorem den_scale_pos {r : Ratio} (hden : 0 < r.den) {base : Nat} (hbase : 0 < base)
    (exponent : Int) : 0 < (r.scale base exponent).den := by
  cases exponent with
  | ofNat n => exact hden
  | negSucc n => exact Nat.mul_pos hden (Nat.pow_pos hbase)

theorem two_zpow_log2_le {n : Nat} (hn : 0 < n) : (2 : ℚ) ^ (n.log2 : Int) ≤ n := by
  rw [zpow_natCast]
  exact_mod_cast Nat.log2_self_le hn.ne'

theorem lt_two_zpow_log2 (n : Nat) : (n : ℚ) < 2 ^ ((n.log2 : Int) + 1) := by
  have hlt : n < 2 ^ (n.log2 + 1) := Nat.lt_log2_self
  rw [← Nat.cast_succ, zpow_natCast]
  exact_mod_cast hlt

/-- The logarithms of numerator and denominator give that of the value, or one too much. -/
theorem value_between_powers {r : Ratio} (h : 0 < r.value) :
    (2 : ℚ) ^ ((r.num.log2 : Int) - r.den.log2 - 1) ≤ r.value ∧
      r.value < 2 ^ ((r.num.log2 : Int) - r.den.log2 + 1) := by
  have hden : (0 : ℚ) < r.den := by exact_mod_cast den_pos_of_value_pos h
  have hnumLow := two_zpow_log2_le (num_pos_of_value_pos h)
  have hnumHigh := lt_two_zpow_log2 r.num
  have hdenLow := two_zpow_log2_le (den_pos_of_value_pos h)
  have hdenHigh := lt_two_zpow_log2 r.den
  constructor
  · rw [value, le_div_iff₀ hden]
    calc (2 : ℚ) ^ ((r.num.log2 : Int) - r.den.log2 - 1) * r.den
        ≤ 2 ^ ((r.num.log2 : Int) - r.den.log2 - 1) * 2 ^ ((r.den.log2 : Int) + 1) := by gcongr
      _ = 2 ^ (r.num.log2 : Int) := by
        rw [← zpow_add₀ (by norm_num)]
        congr 1
        omega
      _ ≤ r.num := hnumLow
  · rw [value, div_lt_iff₀ hden]
    calc (r.num : ℚ) < 2 ^ ((r.num.log2 : Int) + 1) := hnumHigh
      _ = 2 ^ ((r.num.log2 : Int) - r.den.log2 + 1) * 2 ^ (r.den.log2 : Int) := by
        rw [← zpow_add₀ (by norm_num)]
        congr 1
        omega
      _ ≤ 2 ^ ((r.num.log2 : Int) - r.den.log2 + 1) * r.den := by gcongr

/-- A positive value lies between two successive powers of two. -/
theorem log2_spec {r : Ratio} (h : 0 < r.value) :
    (2 : ℚ) ^ r.log2 ≤ r.value ∧ r.value < 2 ^ (r.log2 + 1) := by
  obtain ⟨hlow, hhigh⟩ := value_between_powers h
  have hone := oneLe_iff (den_scale_pos (den_pos_of_value_pos h) Nat.two_pos
    (-((r.num.log2 : Int) - r.den.log2)))
  rw [value_scale, Nat.cast_ofNat, zpow_neg, ← div_eq_mul_inv,
    one_le_div (zpow_pos (by norm_num) _)] at hone
  by_cases hle : (r.scale 2 (-((r.num.log2 : Int) - r.den.log2))).oneLe = true
  · have hlog : r.log2 = (r.num.log2 : Int) - r.den.log2 := if_pos hle
    rw [hlog]
    exact ⟨hone.mp hle, hhigh⟩
  · have hlog : r.log2 = (r.num.log2 : Int) - r.den.log2 - 1 := if_neg hle
    rw [hlog, sub_add_cancel]
    exact ⟨hlow, lt_of_not_ge fun hge => hle (hone.mpr hge)⟩

/-- Enough factors of ten lift the numerator to the denominator. -/
theorem den_le_tensUntil {limit num den : Nat} (h : den ≤ 10 ^ limit * num) :
    den ≤ 10 ^ tensUntil limit num den * num := by
  induction limit generalizing num with
  | zero => exact h
  | succ limit ih =>
    unfold tensUntil
    split
    · omega
    · rw [pow_succ, Nat.mul_assoc]
      exact ih (by rwa [← Nat.mul_assoc, ← pow_succ])

/-- As many factors of ten as the denominator has bits are enough. -/
theorem den_le_pow_mul {num : Nat} (hnum : 0 < num) (den : Nat) :
    den ≤ 10 ^ (den.log2 + 1) * num := by
  calc den ≤ 2 ^ (den.log2 + 1) := Nat.lt_log2_self.le
    _ ≤ 10 ^ (den.log2 + 1) := Nat.pow_le_pow_left (by decide) _
    _ ≤ 10 ^ (den.log2 + 1) * num := Nat.le_mul_of_pos_right _ hnum

/-- A positive value is not below its power of ten. -/
theorem ten_zpow_log10_le {r : Ratio} (h : 0 < r.value) : (10 : ℚ) ^ r.log10 ≤ r.value := by
  have hden := den_pos_of_value_pos h
  have hpos : (0 : ℚ) < r.den := by exact_mod_cast hden
  by_cases hone : r.oneLe = true
  · have hlog : r.log10 = ((Text.decimal r.floor).length : Int) - 1 := if_pos hone
    have hfloor : 0 < r.floor := Nat.div_pos (of_decide_eq_true hone) hden
    have hlength := List.length_pos_of_ne_nil (Text.decimal_ne_nil r.floor)
    have hcast : ((Text.decimal r.floor).length : Int) - 1 =
        (((Text.decimal r.floor).length - 1 : Nat) : Int) := by omega
    rw [hlog, hcast, zpow_natCast]
    calc (10 : ℚ) ^ ((Text.decimal r.floor).length - 1) ≤ r.floor := by
          exact_mod_cast Text.pow_length_decimal_le hfloor
      _ ≤ r.value := floor_le hden
  · have hlog : r.log10 = -(tensUntil (r.den.log2 + 1) r.num r.den : Int) := if_neg hone
    rw [hlog, zpow_neg, zpow_natCast, value, le_div_iff₀ hpos, inv_mul_le_iff₀ (by positivity)]
    exact_mod_cast den_le_tensUntil (den_le_pow_mul (num_pos_of_value_pos h) r.den)

end Ratio

end JsonEdit
