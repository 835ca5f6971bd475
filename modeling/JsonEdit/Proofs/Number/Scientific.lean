import JsonEdit.Proofs.Number.Rounding

/-!
# Scientific notation in range

A significand and an exponent of ten are made into a double by steps that each round, so the
result is not always the nearest double, and a number just below the greatest one can be
rounded out of range.  This module says which numbers cannot.

There are two groups.

* Exponents below zero.  A quotient by a power of ten is not above what is divided, so the
  significand itself is a bound.
* Exponents from zero on.  Significand and power of ten are each rounded up by at most one
  part in `2 ^ 53`.  A number up to `roundingBound` stays in range after both.
-/

namespace JsonEdit.Double

/-! ## Exponents below zero -/

theorem value_power (exponent : Nat) :
    ((Ratio.ofNat 1).scale 10 exponent).value = 10 ^ exponent := by
  rw [Ratio.value_scale, Ratio.value_ofNat, zpow_natCast, Nat.cast_one, one_mul, Nat.cast_ofNat]

theorem one_le_powerOfTen (exponent : Nat) : 1 ≤ (magnitude (powerOfTen exponent)).value := by
  apply one_le_magnitude_nearestOrdinal
  rw [value_power]
  exact one_le_pow₀ (by norm_num)

/-- A rounded quotient by a power of ten is not above what is divided. -/
theorem overPowerOfTen_le (ordinal exponent : Nat) : overPowerOfTen ordinal exponent ≤ ordinal := by
  have hpower := one_le_powerOfTen exponent
  have hnum := Ratio.num_pos_of_value_pos (lt_of_lt_of_le one_pos hpower)
  apply nearestOrdinal_le
  · exact Nat.mul_pos (den_magnitude_pos ordinal) hnum
  · rw [Ratio.value_div]
    exact div_le_self (Ratio.value_nonneg _) hpower

theorem overGreatest_le (times ordinal : Nat) : overGreatest times ordinal ≤ ordinal := by
  induction times generalizing ordinal with
  | zero => exact le_rfl
  | succ times ih =>
    unfold overGreatest
    split
    · exact Nat.zero_le _
    · exact (ih _).trans (overPowerOfTen_le ordinal greatestPower)

/-- With an exponent below zero the result is not above the rounded significand. -/
theorem ofScientific_negSucc_le (significand below : Nat) :
    ofScientific significand (.negSucc below) ≤ nearestOrdinal (Ratio.ofNat significand) :=
  (overPowerOfTen_le _ _).trans (overGreatest_le _ _)

/-- A significand of 64 bits with an exponent below zero is in range. -/
theorem ofScientific_lt_of_neg {significand : Nat} (hsignificand : significand < 2 ^ 64)
    {exponent : Int} (hneg : exponent < 0) : ofScientific significand exponent < magnitudes := by
  obtain ⟨below, rfl⟩ := Int.eq_negSucc_of_lt_zero hneg
  have hwide : (magnitude (1086 * fractions + fractions)).value = 2 ^ 64 := by
    rw [value_magnitude (.inr le_rfl) (by omega)]
    norm_num [fractions]
  have hstart : nearestOrdinal (Ratio.ofNat significand) ≤ 1086 * fractions + fractions := by
    apply nearestOrdinal_le Nat.one_pos
    rw [hwide, Ratio.value_ofNat]
    exact_mod_cast hsignificand.le
  have hrange : 1086 * fractions + fractions < magnitudes := by decide
  have hle := ofScientific_negSucc_le significand below
  omega

/-! ## Exponents from zero on -/

/-- Zero stays zero with every exponent. -/
theorem ofScientific_zero (up : Nat) : ofScientific 0 (.ofNat up) = 0 := by
  have hstart : nearestOrdinal (Ratio.ofNat 0) = 0 := rfl
  have hproduct : timesPowerOfTen 0 up = 0 := by
    apply nearestOrdinal_of_num
    exact Nat.zero_mul _
  simp only [ofScientific, hstart, hproduct, if_true, ite_self]

/-- The powers of ten above the greatest one are above all doubles. -/
theorem lt_power_of_greatestPower_lt {up : Nat} (hup : greatestPower < up) :
    2 ^ 54 * halfUnit < 10 ^ up := by
  have hnat : 2 ^ 54 * 2 ^ 970 < 10 ^ 309 := by decide +kernel
  calc 2 ^ 54 * halfUnit = ((2 ^ 54 : Nat) : ℚ) * ((2 ^ 970 : Nat) : ℚ) := by
        rw [halfUnit, Nat.cast_pow, Nat.cast_pow, Nat.cast_ofNat]
    _ < ((10 ^ 309 : Nat) : ℚ) := by
        rw [← Nat.cast_mul]
        exact Nat.cast_lt.mpr hnat
    _ = 10 ^ 309 := by rw [Nat.cast_pow, Nat.cast_ofNat]
    _ ≤ 10 ^ up := pow_le_pow_right₀ (by norm_num) hup

/-- What leaves room for the rounding of a significand and of a power of ten. -/
def roundingBound : ℚ := (2 ^ 54 - 5) * halfUnit

/-- Two roundings up do not lead from the bound over the middle behind the greatest magnitude. -/
theorem roundingBound_mul_lt :
    roundingBound * ((1 + 1 / 2 ^ 53) * (1 + 1 / 2 ^ 53)) < (2 ^ 54 - 1) * halfUnit := by
  have hunit := halfUnit_pos
  unfold roundingBound
  norm_num
  linarith

/-- A number that leaves room for the two roundings is in range.  Its exponent is that of a
finite power, since with a greater one even the significand one would be out of range. -/
theorem ofScientific_lt_of_value_le {significand up : Nat}
    (h : (significand : ℚ) * 10 ^ up ≤ roundingBound) :
    ofScientific significand (.ofNat up) < magnitudes := by
  rcases Nat.eq_zero_or_pos significand with hzero | hpos
  · rw [hzero, ofScientific_zero]
    decide
  · have hone : (1 : ℚ) ≤ significand := by exact_mod_cast hpos
    have hpower : (1 : ℚ) ≤ 10 ^ up := one_le_pow₀ (by norm_num)
    have hup : up ≤ greatestPower := by
      by_contra hout
      have hlt := lt_power_of_greatestPower_lt (Nat.lt_of_not_le hout)
      have hunit := halfUnit_pos
      unfold roundingBound at h
      nlinarith
    have hstart := magnitude_nearestOrdinal_le (r := Ratio.ofNat significand)
      (by rwa [Ratio.value_ofNat])
    have hten := magnitude_nearestOrdinal_le (r := (Ratio.ofNat 1).scale 10 up)
      (by rwa [value_power])
    rw [Ratio.value_ofNat] at hstart
    rw [value_power] at hten
    have hresult : ofScientific significand (.ofNat up) =
        timesPowerOfTen (nearestOrdinal (Ratio.ofNat significand)) up := if_pos hup
    rw [hresult]
    apply nearestOrdinal_lt_magnitudes
    · exact Nat.mul_pos (den_magnitude_pos _) (den_magnitude_pos _)
    · rw [Ratio.value_mul]
      calc (magnitude (nearestOrdinal (Ratio.ofNat significand))).value *
            (magnitude (powerOfTen up)).value
          ≤ significand * (1 + 1 / 2 ^ 53) * (10 ^ up * (1 + 1 / 2 ^ 53)) := by
            exact mul_le_mul hstart hten (Ratio.value_nonneg _) (by positivity)
        _ = significand * 10 ^ up * ((1 + 1 / 2 ^ 53) * (1 + 1 / 2 ^ 53)) := by ring
        _ ≤ roundingBound * ((1 + 1 / 2 ^ 53) * (1 + 1 / 2 ^ 53)) := by gcongr
        _ < (2 ^ 54 - 1) * halfUnit := roundingBound_mul_lt

end JsonEdit.Double
