import JsonEdit.Number.Double
import JsonEdit.Proofs.Number.Ratio
import Mathlib.Order.Monotone.Basic

/-!
# The nearest double

The magnitudes of the binary64 format in ascending order, and the one that is nearest to a
value.

There are three groups.

* The list of magnitudes.  Within one exponent the magnitudes are multiples of one power of
  two.  `value_magnitude` says so with both ends of the exponent included: the end of one is
  the start of the next.
* The nearest one.  `nearestOrdinal_cases` places a value between two successive magnitudes
  and says which of the two is taken.  All that follows about rounding is read off it.
* Bounds.  Magnitudes are fixed points for upper and lower bounds; what is below the middle
  between the greatest magnitude and the next power of two stays in range; and how far the
  nearest magnitude is from the value.
-/

namespace JsonEdit.Double

/-! ## The list of magnitudes -/

theorem den_magnitude_pos (ordinal : Nat) : 0 < (magnitude ordinal).den := by
  unfold magnitude
  split
  · exact Ratio.den_scale_pos Nat.one_pos Nat.two_pos _
  · exact Ratio.den_scale_pos Nat.one_pos Nat.two_pos _

/-- The magnitudes with one exponent, from the first to that which follows the last.  With
the least exponent they begin at zero. -/
theorem value_magnitude {i n : Nat} (hlow : i = 0 ∨ fractions ≤ n) (hhigh : n ≤ 2 * fractions) :
    (magnitude (i * fractions + n)).value = n * 2 ^ ((i : Int) - 1074) := by
  unfold magnitude
  split
  · rename_i hleast
    have hi : i = 0 := by
      unfold fractions at *
      omega
    simp [hi]
  · rename_i hnormal
    have hn : fractions ≤ n := by
      unfold fractions at *
      omega
    rcases Nat.lt_or_eq_of_le hhigh with hlt | heq
    · have hdiv : (i * fractions + n) / fractions = i + 1 := by
        unfold fractions at *
        omega
      have hmod : fractions + (i * fractions + n) % fractions = n := by
        unfold fractions at *
        omega
      rw [hdiv, hmod, Ratio.value_scale, Ratio.value_ofNat, Nat.cast_ofNat]
      congr 2
      omega
    · have hdiv : (i * fractions + n) / fractions = i + 2 := by
        unfold fractions at *
        omega
      have hmod : fractions + (i * fractions + n) % fractions = fractions := by
        unfold fractions at *
        omega
      have hexponent : ((i + 2 : Nat) : Int) - 1075 = (i : Int) - 1074 + 1 := by omega
      rw [hdiv, hmod, Ratio.value_scale, Ratio.value_ofNat, Nat.cast_ofNat, hexponent,
        zpow_add_one₀ (by norm_num), heq, Nat.cast_mul]
      push_cast
      ring

/-- Every ordinal is within one exponent. -/
theorem exists_binade (ordinal : Nat) :
    ∃ i n, ordinal = i * fractions + n ∧ (i = 0 ∨ fractions ≤ n) ∧ n < 2 * fractions := by
  refine ⟨ordinal / fractions - 1, ordinal - (ordinal / fractions - 1) * fractions, ?_, ?_, ?_⟩
  all_goals
    unfold fractions
    omega

theorem value_magnitude_succ {i n : Nat} (hlow : i = 0 ∨ fractions ≤ n)
    (hhigh : n < 2 * fractions) :
    (magnitude (i * fractions + n + 1)).value = (n + 1) * 2 ^ ((i : Int) - 1074) := by
  rw [Nat.add_assoc, value_magnitude (by omega) hhigh, Nat.cast_succ]

theorem value_magnitude_one : (magnitude (1022 * fractions + fractions)).value = 1 := by
  rw [value_magnitude (.inr le_rfl) (by omega)]
  norm_num [fractions]

theorem magnitude_strictMono : StrictMono fun ordinal => (magnitude ordinal).value := by
  apply strictMono_nat_of_lt_succ
  intro ordinal
  obtain ⟨i, n, rfl, hlow, hhigh⟩ := exists_binade ordinal
  show (magnitude (i * fractions + n)).value < (magnitude (i * fractions + n + 1)).value
  rw [value_magnitude hlow hhigh.le, value_magnitude_succ hlow hhigh]
  have hpos : (0 : ℚ) < 2 ^ ((i : Int) - 1074) := zpow_pos (by norm_num) _
  linarith

theorem magnitude_le_iff {k l : Nat} : (magnitude k).value ≤ (magnitude l).value ↔ k ≤ l :=
  magnitude_strictMono.le_iff_le

theorem magnitude_lt_iff {k l : Nat} : (magnitude k).value < (magnitude l).value ↔ k < l :=
  magnitude_strictMono.lt_iff_lt

/-! ## The nearest one -/

theorem nearestOrdinal_of_num {r : Ratio} (h : r.num = 0) : nearestOrdinal r = 0 := if_pos h

/-- The exponent with which a value is rounded, counted from the least one. -/
def roundedExponent (r : Ratio) : Nat := (max (r.log2 - 52) (-1074) + 1074).toNat

theorem roundedExponent_spec {r : Ratio} (h : 0 < r.value) :
    (roundedExponent r = 0 ∨
        (fractions : ℚ) ≤ r.value * 2 ^ (1074 - (roundedExponent r : Int))) ∧
      r.value * 2 ^ (1074 - (roundedExponent r : Int)) < 2 * fractions := by
  obtain ⟨hlow, hhigh⟩ := Ratio.log2_spec h
  have hpos : (0 : ℚ) < 2 ^ (1074 - (roundedExponent r : Int)) := zpow_pos (by norm_num) _
  have hfractions : (fractions : ℚ) = 2 ^ (52 : Int) := by norm_num [fractions]
  constructor
  · rcases Nat.eq_zero_or_pos (roundedExponent r) with hleast | hgreater
    · exact .inl hleast
    · have hexponent : (52 : Int) = r.log2 + (1074 - (roundedExponent r : Int)) := by
        unfold roundedExponent at *
        omega
      refine .inr ?_
      rw [hfractions, hexponent, zpow_add₀ (by norm_num)]
      gcongr
  · have hexponent : r.log2 + 1 + (1074 - (roundedExponent r : Int)) ≤ 53 := by
      unfold roundedExponent
      omega
    calc r.value * 2 ^ (1074 - (roundedExponent r : Int))
        < 2 ^ (r.log2 + 1) * 2 ^ (1074 - (roundedExponent r : Int)) := by gcongr
      _ = 2 ^ (r.log2 + 1 + (1074 - (roundedExponent r : Int))) :=
        (zpow_add₀ (by norm_num) _ _).symm
      _ ≤ 2 ^ (53 : Int) := zpow_le_zpow_right₀ (by norm_num) hexponent
      _ = 2 * fractions := by norm_num [fractions]

theorem nearestOrdinal_of_value {r : Ratio} (h : 0 < r.value) :
    nearestOrdinal r =
      roundedExponent r * fractions +
        (r.scale 2 (1074 - (roundedExponent r : Int))).nearestEven := by
  have hexponent : -max (r.log2 - 52) (-1074) = 1074 - (roundedExponent r : Int) := by
    unfold roundedExponent
    omega
  rw [← hexponent]
  exact if_neg (Ratio.num_pos_of_value_pos h).ne'

/-- A value lies between two successive magnitudes.  The lower one is the nearest, and then
the value is not above the middle, or the upper one, and then it is not below the middle. -/
theorem nearestOrdinal_cases {r : Ratio} (h : 0 < r.value) :
    ∃ k, (magnitude k).value ≤ r.value ∧ r.value < (magnitude (k + 1)).value ∧
      (nearestOrdinal r = k ∧
          2 * r.value ≤ (magnitude k).value + (magnitude (k + 1)).value ∨
        nearestOrdinal r = k + 1 ∧
          (magnitude k).value + (magnitude (k + 1)).value ≤ 2 * r.value) := by
  obtain ⟨hleast, hgreatest⟩ := roundedExponent_spec h
  have hnearest := nearestOrdinal_of_value h
  generalize roundedExponent r = i at hleast hgreatest hnearest
  have hden := Ratio.den_scale_pos (Ratio.den_pos_of_value_pos h) Nat.two_pos (1074 - (i : Int))
  have hscaled : (r.scale 2 (1074 - (i : Int))).value = r.value * 2 ^ (1074 - (i : Int)) := by
    rw [Ratio.value_scale, Nat.cast_ofNat]
  have hfloor := Ratio.floor_le hden
  have hceil := Ratio.lt_floor_add_one hden
  have heven := Ratio.nearestEven_cases hden
  rw [hscaled] at hfloor hceil heven
  generalize (r.scale 2 (1074 - (i : Int))).floor = n at hfloor hceil heven
  have hlow : i = 0 ∨ fractions ≤ n := by
    refine hleast.imp_right fun hle => ?_
    have hlt : (fractions : ℚ) < n + 1 := lt_of_le_of_lt hle hceil
    exact Nat.lt_succ_iff.mp (by exact_mod_cast hlt)
  have hhigh : n < 2 * fractions := by
    have hlt : (n : ℚ) < 2 * fractions := lt_of_le_of_lt hfloor hgreatest
    exact_mod_cast hlt
  have hunit : (0 : ℚ) < 2 ^ ((i : Int) - 1074) := zpow_pos (by norm_num) _
  have hback : r.value = r.value * 2 ^ (1074 - (i : Int)) * 2 ^ ((i : Int) - 1074) := by
    rw [mul_assoc, ← zpow_add₀ (by norm_num)]
    simp
  generalize r.value * 2 ^ (1074 - (i : Int)) = scaled at hfloor hceil heven hback
  refine ⟨i * fractions + n, ?_⟩
  rw [value_magnitude hlow hhigh.le, value_magnitude_succ hlow hhigh, hback, hnearest]
  refine ⟨by gcongr, by gcongr, ?_⟩
  rcases heven with ⟨hdown, hmiddle⟩ | ⟨hup, hmiddle⟩
  · refine .inl ⟨by rw [hdown], ?_⟩
    nlinarith
  · refine .inr ⟨by rw [hup, Nat.add_assoc], ?_⟩
    nlinarith

/-! ## Bounds -/

/-- A value that is not below a magnitude has a nearest one that is not below it. -/
theorem le_nearestOrdinal {r : Ratio} (hpos : 0 < r.value) {ordinal : Nat}
    (h : (magnitude ordinal).value ≤ r.value) : ordinal ≤ nearestOrdinal r := by
  obtain ⟨k, -, hupper, hnearest⟩ := nearestOrdinal_cases hpos
  have hlt : ordinal < k + 1 := magnitude_lt_iff.mp (lt_of_le_of_lt h hupper)
  rcases hnearest with ⟨heq, -⟩ | ⟨heq, -⟩
  · omega
  · omega

/-- A value that is not above a magnitude has a nearest one that is not above it. -/
theorem nearestOrdinal_le {r : Ratio} (hden : 0 < r.den) {ordinal : Nat}
    (h : r.value ≤ (magnitude ordinal).value) : nearestOrdinal r ≤ ordinal := by
  rcases Ratio.num_eq_zero_or_value_pos hden with hzero | hpos
  · rw [nearestOrdinal_of_num hzero]
    exact Nat.zero_le _
  · obtain ⟨k, hlower, hupper, hnearest⟩ := nearestOrdinal_cases hpos
    rcases hnearest with ⟨heq, -⟩ | ⟨heq, hmiddle⟩
    · rw [heq]
      exact magnitude_le_iff.mp (hlower.trans h)
    · rw [heq]
      exact magnitude_lt_iff.mp (by linarith : (magnitude k).value < (magnitude ordinal).value)

/-- Half the distance between the greatest magnitudes, which is `2 ^ 971`. -/
def halfUnit : ℚ := 2 ^ 970

theorem halfUnit_pos : 0 < halfUnit := by
  unfold halfUnit
  positivity

theorem greatest_unit : (2 : ℚ) ^ (((2045 : Nat) : Int) - 1074) = 2 * halfUnit := by
  have hexponent : ((2045 : Nat) : Int) - 1074 = ((970 + 1 : Nat) : Int) := by omega
  rw [hexponent, zpow_natCast, pow_succ, mul_comm, halfUnit]

/-- What the magnitude after the greatest one would be, `2 ^ 1024`. -/
theorem value_magnitude_magnitudes : (magnitude magnitudes).value = 2 ^ 54 * halfUnit := by
  have hordinal : magnitudes = 2045 * fractions + 2 * fractions := by decide
  rw [hordinal, value_magnitude (.inr (by omega)) le_rfl, greatest_unit]
  norm_num [fractions]
  ring

/-- The magnitudes from the greatest one down, as far as they have its exponent. -/
theorem value_magnitude_below {down : Nat} (hdown : down ≤ fractions) :
    (magnitude (magnitudes - down)).value = (2 ^ 54 - 2 * down) * halfUnit := by
  have hordinal : magnitudes - down = 2045 * fractions + (2 * fractions - down) := by
    unfold magnitudes fractions at *
    omega
  have hle : down ≤ 2 * fractions := by omega
  rw [hordinal, value_magnitude (.inr (by omega)) (by omega), greatest_unit, Nat.cast_sub hle]
  norm_num [fractions]
  ring

/-- What is below the middle between the greatest magnitude and `2 ^ 1024` stays in range.  An
ordinal out of range would have a value at the end of the range, or be rounded up to it. -/
theorem nearestOrdinal_lt_magnitudes {r : Ratio} (hden : 0 < r.den)
    (h : r.value < (2 ^ 54 - 1) * halfUnit) : nearestOrdinal r < magnitudes := by
  rcases Ratio.num_eq_zero_or_value_pos hden with hzero | hpos
  · rw [nearestOrdinal_of_num hzero]
    decide
  · obtain ⟨k, hlower, -, hnearest⟩ := nearestOrdinal_cases hpos
    have hend := value_magnitude_magnitudes
    have hgreatest := value_magnitude_below (by decide : 1 ≤ fractions)
    have hunit := halfUnit_pos
    by_contra hout
    rcases hnearest with ⟨heq, -⟩ | ⟨heq, hmiddle⟩
    · have hle : (magnitude magnitudes).value ≤ (magnitude k).value :=
        magnitude_le_iff.mpr (by omega)
      linarith
    · have hle : (magnitude magnitudes).value ≤ (magnitude (k + 1)).value :=
        magnitude_le_iff.mpr (by omega)
      have hbelow : (magnitude (magnitudes - 1)).value ≤ (magnitude k).value :=
        magnitude_le_iff.mpr (by omega)
      rw [Nat.cast_one] at hgreatest
      linarith

/-- A value is at most half the greatest unit above its nearest magnitude. -/
theorem value_le_of_nearestOrdinal {r : Ratio} (hpos : 0 < r.value)
    (h : nearestOrdinal r < magnitudes) :
    r.value ≤ (magnitude (nearestOrdinal r)).value + halfUnit := by
  obtain ⟨k, hlower, hupper, hnearest⟩ := nearestOrdinal_cases hpos
  rcases hnearest with ⟨heq, hmiddle⟩ | ⟨heq, -⟩
  · rw [heq] at h ⊢
    obtain ⟨i, n, rfl, hlow, hhigh⟩ := exists_binade k
    rw [value_magnitude hlow hhigh.le, value_magnitude_succ hlow hhigh] at hmiddle
    rw [value_magnitude hlow hhigh.le]
    have hexponent : (i : Int) - 1074 ≤ ((2045 : Nat) : Int) - 1074 := by
      unfold magnitudes fractions at *
      omega
    have hunit : (2 : ℚ) ^ ((i : Int) - 1074) ≤ 2 * halfUnit := by
      rw [← greatest_unit]
      exact zpow_le_zpow_right₀ (by norm_num) hexponent
    linarith
  · rw [heq]
    have hunit := halfUnit_pos
    linarith

/-- From one on, the nearest magnitude is above the value by at most one part in `2 ^ 53`. -/
theorem magnitude_nearestOrdinal_le {r : Ratio} (hone : 1 ≤ r.value) :
    (magnitude (nearestOrdinal r)).value ≤ r.value * (1 + 1 / 2 ^ 53) := by
  obtain ⟨k, hlower, hupper, hnearest⟩ := nearestOrdinal_cases (by linarith : 0 < r.value)
  rcases hnearest with ⟨heq, -⟩ | ⟨heq, hmiddle⟩
  · rw [heq]
    linarith
  · rw [heq]
    have hordinal : 1022 * fractions + fractions < k + 1 :=
      magnitude_lt_iff.mp (lt_of_le_of_lt (value_magnitude_one.trans_le hone) hupper)
    obtain ⟨i, n, rfl, hlow, hhigh⟩ := exists_binade k
    rw [value_magnitude hlow hhigh.le, value_magnitude_succ hlow hhigh] at hmiddle
    rw [value_magnitude hlow hhigh.le] at hlower
    rw [value_magnitude_succ hlow hhigh]
    have hn : fractions ≤ n := by
      unfold fractions at *
      omega
    have hunit : (fractions : ℚ) * 2 ^ ((i : Int) - 1074) ≤ n * 2 ^ ((i : Int) - 1074) := by
      gcongr
    norm_num [fractions] at hunit ⊢
    linarith

/-- From one on, the nearest magnitude is not below one. -/
theorem one_le_magnitude_nearestOrdinal {r : Ratio} (hone : 1 ≤ r.value) :
    1 ≤ (magnitude (nearestOrdinal r)).value := by
  rw [← value_magnitude_one] at hone ⊢
  exact magnitude_le_iff.mpr (le_nearestOrdinal (by linarith [value_magnitude_one]) hone)

end JsonEdit.Double
