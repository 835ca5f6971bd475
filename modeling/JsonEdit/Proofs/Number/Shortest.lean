import JsonEdit.Number.Shortest
import JsonEdit.Proofs.Number.Rounding

/-!
# How far the written digits are from the double

The digits that a double is written with stand for a decimal near it.  Whichever grid they are
on, the decimal is above the double by at most half the distance between the greatest
magnitudes, and it is not zero.

There are two groups.

* Decimals that read back.  A decimal whose nearest double has some ordinal is as close to
  that double as the rounding allows.
* The finest grid.  Its unit is at most one part in `10 ^ 16` of the double, so the nearest
  decimal on it is close enough even without reading it back.
-/

namespace JsonEdit

/-- The rational number that a decimal stands for. -/
theorem Decimal.value_value (d : Decimal) :
    d.value.value = d.coefficient * 10 ^ d.exponent := by
  rw [Decimal.value, Ratio.value_scale, Ratio.value_ofNat, Nat.cast_ofNat]

namespace Double

theorem magnitude_pos {ordinal : Nat} (hpos : 0 < ordinal) : 0 < (magnitude ordinal).value := by
  have hlt := magnitude_lt_iff.mpr hpos
  exact lt_of_le_of_lt (Ratio.value_nonneg _) hlt

/-! ## Decimals that read back -/

/-- What is found on a grid reads back. -/
theorem readsAs_of_onGrid? {ordinal : Nat} {exponent : Int} {d : Decimal}
    (h : onGrid? ordinal exponent = some d) : d.readsAs ordinal = true := by
  have hden := Ratio.den_scale_pos (den_magnitude_pos ordinal) (by decide : 0 < 10) (-exponent)
  unfold onGrid? at h
  cases hbelow : Decimal.readsAs
    ⟨((magnitude ordinal).scale 10 (-exponent)).floor, exponent⟩ ordinal <;>
  cases habove : Decimal.readsAs
    ⟨((magnitude ordinal).scale 10 (-exponent)).floor + 1, exponent⟩ ordinal <;>
  simp only [hbelow, habove, Option.some.injEq, reduceCtorEq] at h
  · rw [← h, habove]
  · rw [← h, hbelow]
  · rcases Ratio.nearestEven_cases hden with ⟨heven, -⟩ | ⟨heven, -⟩
    · rw [← h, heven, hbelow]
    · rw [← h, heven, habove]

/-- A decimal that reads as a positive double is not zero, and at most half the greatest unit
above the double. -/
theorem close_of_readsAs {ordinal : Nat} (hpos : 0 < ordinal) (hfinite : ordinal < magnitudes)
    {d : Decimal} (h : d.readsAs ordinal = true) :
    0 < d.coefficient ∧ d.value.value ≤ (magnitude ordinal).value + halfUnit := by
  have hnearest : nearestOrdinal d.value = ordinal := beq_iff_eq.mp h
  have hden : 0 < d.value.den := Ratio.den_scale_pos Nat.one_pos (by decide) _
  have hvalue : 0 < d.value.value := by
    refine (Ratio.num_eq_zero_or_value_pos hden).resolve_left fun hzero => ?_
    rw [nearestOrdinal_of_num hzero] at hnearest
    omega
  constructor
  · refine Nat.pos_of_ne_zero fun hzero => ?_
    rw [Decimal.value_value, hzero, Nat.cast_zero, zero_mul] at hvalue
    exact lt_irrefl 0 hvalue
  · rw [← hnearest] at hfinite ⊢
    exact value_le_of_nearestOrdinal hvalue hfinite

/-! ## The finest grid -/

/-- The nearest decimal on a grid whose unit is at most one part in `10 ^ 16` of a positive
double is close to the double. -/
theorem close_of_nearestEven {ordinal : Nat} (hfinite : ordinal < magnitudes)
    {exponent : Int} (hgrid : 10 ^ 16 * 10 ^ exponent ≤ (magnitude ordinal).value) :
    0 < ((magnitude ordinal).scale 10 (-exponent)).nearestEven ∧
      (((magnitude ordinal).scale 10 (-exponent)).nearestEven : ℚ) * 10 ^ exponent ≤
        (magnitude ordinal).value + halfUnit := by
  have hden := Ratio.den_scale_pos (den_magnitude_pos ordinal) (by decide : 0 < 10) (-exponent)
  have hunit : (0 : ℚ) < 10 ^ exponent := zpow_pos (by norm_num) _
  have hscaled : ((magnitude ordinal).scale 10 (-exponent)).value * 10 ^ exponent =
      (magnitude ordinal).value := by
    rw [Ratio.value_scale, Nat.cast_ofNat, mul_assoc, ← zpow_add₀ (by norm_num), neg_add_cancel,
      zpow_zero, mul_one]
  have hfloor := Ratio.floor_le hden
  have hceil := Ratio.lt_floor_add_one hden
  have heven := Ratio.nearestEven_cases hden
  generalize (magnitude ordinal).scale 10 (-exponent) = scaled at *
  have hlarge : 10 ^ 16 ≤ scaled.value := by
    rw [← hscaled] at hgrid
    exact le_of_mul_le_mul_right hgrid hunit
  have hbound : (magnitude ordinal).value < 2 ^ 54 * halfUnit := by
    rw [← value_magnitude_magnitudes]
    exact magnitude_lt_iff.mpr hfinite
  have hnear : (scaled.nearestEven : ℚ) ≤ scaled.value + 1 / 2 := by
    rcases heven with ⟨heq, -⟩ | ⟨heq, hmiddle⟩
    · rw [heq]
      linarith
    · rw [heq, Nat.cast_succ]
      linarith
  constructor
  · have hfloorPos : 0 < scaled.floor := by
      have hlt : (0 : ℚ) < scaled.floor := by linarith
      exact_mod_cast hlt
    rcases heven with ⟨heq, -⟩ | ⟨heq, -⟩
    · rwa [heq]
    · omega
  · calc (scaled.nearestEven : ℚ) * 10 ^ exponent
        ≤ (scaled.value + 1 / 2) * 10 ^ exponent := by gcongr
      _ = (magnitude ordinal).value + 1 / 2 * 10 ^ exponent := by rw [add_mul, hscaled]
      _ ≤ (magnitude ordinal).value + halfUnit := by
        gcongr
        linarith

/-- The digits that a positive double is written with stand for a decimal that is not zero, and
at most half the greatest unit above the double. -/
theorem shortest_spec {ordinal : Nat} (hpos : 0 < ordinal) (hfinite : ordinal < magnitudes) :
    0 < (shortest ordinal).coefficient ∧
      (shortest ordinal).value.value ≤ (magnitude ordinal).value + halfUnit := by
  cases hsearch : (List.range enoughDigits).findSome? fun (more : Nat) =>
      onGrid? ordinal ((magnitude ordinal).log10 - more) with
  | none =>
    have hshortest : shortest ordinal =
        ⟨((magnitude ordinal).scale 10
            (-((magnitude ordinal).log10 + 1 - enoughDigits))).nearestEven,
          (magnitude ordinal).log10 + 1 - enoughDigits⟩ := by
      simp only [shortest, hsearch, Option.getD_none]
    have hgrid : (10 : ℚ) ^ 16 * 10 ^ ((magnitude ordinal).log10 + 1 - enoughDigits) ≤
        (magnitude ordinal).value := by
      have hexponent : (((16 : Nat) : Int) + ((magnitude ordinal).log10 + 1 - enoughDigits)) =
          (magnitude ordinal).log10 := by
        unfold enoughDigits
        omega
      rw [← zpow_natCast, ← zpow_add₀ (by norm_num), hexponent]
      exact Ratio.ten_zpow_log10_le (magnitude_pos hpos)
    rw [hshortest, Decimal.value_value]
    exact close_of_nearestEven hfinite hgrid
  | some d =>
    have hshortest : shortest ordinal = d := by
      simp only [shortest, hsearch, Option.getD_some]
    obtain ⟨more, -, hfound⟩ := List.exists_of_findSome?_eq_some hsearch
    rw [hshortest]
    exact close_of_readsAs hpos hfinite (readsAs_of_onGrid? hfound)

end Double

end JsonEdit
