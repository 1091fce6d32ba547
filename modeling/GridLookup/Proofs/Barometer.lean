import GridLookup.Conversion
import GridLookup.Proofs.Weight
import GridLookup.Word.Single
import Mathlib.Analysis.SpecialFunctions.Pow.Real
import Mathlib.NumberTheory.Padics.PadicVal.Basic
import Mathlib.NumberTheory.Real.Irrational

namespace GridLookup

/-!
# The barometric formula over exact numbers

Read over the real numbers, the two directions of the barometric formula undo each other, and so do
the conversions, but for one pressure.  The elevation of a placeholder is the placeholder, and one
kilometre below sea level an ordinary pressure has the same elevation.  That pressure is no
fraction, so it is not the number of any stored word.

* `barometricElevation`, `barometricPressure` — the formula without the placeholder.
* `barometricPressure_elevation`, `barometricElevation_pressure` — its two directions.
* `clashingPressure` — the pressure whose elevation is taken for the placeholder.
* `irrational_clashingPressure` — it is no fraction.
* `conversions_inverse` — what becomes of every pressure and of every elevation.
-/

/-- Division of real numbers is that of their field, also once they are scalars. -/
noncomputable instance instDivReal : Div ℝ := DivInvMonoid.toDiv

/-- Exact arithmetic with real powers, in which every number is defined. -/
noncomputable instance : PowerScalar ℝ where
  lt x y := x < y
  le x y := x ≤ y
  eq x y := x = y
  nan := 0
  isNaN _ := false
  pow x y := x ^ y

/-! ### Constants -/

theorem seaLevelPressure_eq : (seaLevelPressure : ℝ) = ((4053 / 4 : ℚ) : ℝ) := by
  show (1013.25 : ℝ) = _
  norm_num

theorem barometricExponent_eq : (barometricExponent : ℝ) = (131397 : ℕ) / (25000 : ℕ) := by
  show (5.25588 : ℝ) = _
  norm_num

theorem temperatureLapse_eq : (temperatureLapse : ℝ) = 225577 / 10000000000 := by
  show (2.25577e-5 : ℝ) = _
  norm_num

theorem seaLevelPressure_pos : 0 < (seaLevelPressure : ℝ) := by
  rw [seaLevelPressure_eq]
  norm_num

theorem barometricExponent_ne_zero : (barometricExponent : ℝ) ≠ 0 := by
  rw [barometricExponent_eq]
  norm_num

theorem temperatureLapse_ne_zero : (temperatureLapse : ℝ) ≠ 0 := by
  rw [temperatureLapse_eq]
  norm_num

/-! ### The formula -/

/-- The elevation that the formula gives for a pressure. -/
noncomputable def barometricElevation (pressure : ℝ) : ℝ :=
  (1 - (pressure / seaLevelPressure) ^ (barometricExponent : ℝ)⁻¹) / (1000 * temperatureLapse)

/-- The pressure that the formula gives for an elevation. -/
noncomputable def barometricPressure (elevation : ℝ) : ℝ :=
  seaLevelPressure * (1 - 1000 * temperatureLapse * elevation) ^ (barometricExponent : ℝ)

theorem barometricPressure_elevation {pressure : ℝ} (h : 0 < pressure) :
    barometricPressure (barometricElevation pressure) = pressure := by
  have hratio : 0 ≤ pressure / seaLevelPressure := (div_pos h seaLevelPressure_pos).le
  have hlapse : 1000 * (temperatureLapse : ℝ) ≠ 0 := by
    simpa using temperatureLapse_ne_zero
  unfold barometricPressure barometricElevation
  rw [mul_div_cancel₀ _ hlapse, sub_sub_cancel,
    Real.rpow_inv_rpow hratio barometricExponent_ne_zero,
    mul_div_cancel₀ _ seaLevelPressure_pos.ne']

theorem barometricElevation_pressure {elevation : ℝ}
    (h : 0 < 1 - 1000 * (temperatureLapse : ℝ) * elevation) :
    barometricElevation (barometricPressure elevation) = elevation := by
  have hlapse : 1000 * (temperatureLapse : ℝ) ≠ 0 := by
    simpa using temperatureLapse_ne_zero
  unfold barometricPressure barometricElevation
  rw [mul_div_cancel_left₀ _ seaLevelPressure_pos.ne',
    Real.rpow_rpow_inv h.le barometricExponent_ne_zero, sub_sub_cancel,
    mul_div_cancel_left₀ _ hlapse]

theorem barometricPressure_pos {elevation : ℝ}
    (h : 0 < 1 - 1000 * (temperatureLapse : ℝ) * elevation) : 0 < barometricPressure elevation :=
  mul_pos seaLevelPressure_pos (Real.rpow_pos_of_pos h _)

/-! ### Placeholders -/

theorem eq_placeholder_iff (x : ℝ) : Scalar.eq x placeholder = true ↔ x = -1 := by
  show decide (x = (0.0 - 1.0 : ℝ)) = true ↔ _
  rw [decide_eq_true_eq]
  norm_num

/-- A pressure is converted by the formula unless it is the placeholder. -/
theorem elevationOfPressure_eq (pressure : ℝ) :
    elevationOfPressure pressure = if pressure = -1 then -1 else barometricElevation pressure := by
  have hplaceholder := eq_placeholder_iff pressure
  unfold elevationOfPressure
  split
  · next h => rw [if_pos (hplaceholder.mp h), hplaceholder.mp h]
  · next h =>
    rw [if_neg (mt hplaceholder.mpr h)]
    show (0.001 : ℝ) * (1.0 - (pressure / seaLevelPressure) ^ ((1.0 : ℝ) / barometricExponent))
      / temperatureLapse = _
    have hlapse := temperatureLapse_ne_zero
    have hmetre : (0.001 : ℝ) = 1 / 1000 := by norm_num
    have hone : (1.0 : ℝ) = 1 := by norm_num
    rw [hmetre, hone, one_div (barometricExponent : ℝ), barometricElevation]
    field_simp

/-- An elevation is converted by the formula unless it is the placeholder. -/
theorem pressureOfElevation_eq (elevation : ℝ) :
    pressureOfElevation elevation
      = if elevation = -1 then -1 else barometricPressure elevation := by
  have hplaceholder := eq_placeholder_iff elevation
  unfold pressureOfElevation
  split
  · next h => rw [if_pos (hplaceholder.mp h), hplaceholder.mp h]
  · next h =>
    rw [if_neg (mt hplaceholder.mpr h)]
    show seaLevelPressure
      * (1.0 - 1000.0 * temperatureLapse * elevation : ℝ) ^ (barometricExponent : ℝ) = _
    rw [barometricPressure]
    norm_num

/-! ### The pressure of a placeholder -/

/-- The pressure that the formula gives one kilometre below sea level, where an elevation is taken
    for the placeholder. -/
noncomputable def clashingPressure : ℝ :=
  seaLevelPressure * (1 + 1000 * temperatureLapse) ^ (barometricExponent : ℝ)

theorem lapse_at_placeholder_pos : 0 < 1 - 1000 * (temperatureLapse : ℝ) * (-1) := by
  rw [temperatureLapse_eq]
  norm_num

theorem clashingPressure_eq : clashingPressure = barometricPressure (-1) := by
  rw [clashingPressure, barometricPressure, mul_neg_one, sub_neg_eq_add]

theorem clashingPressure_pos : 0 < clashingPressure := by
  rw [clashingPressure_eq]
  exact barometricPressure_pos lapse_at_placeholder_pos

/-- Of all pressures, the formula takes this one to the placeholder. -/
theorem barometricElevation_eq_placeholder_iff {pressure : ℝ} (h : 0 < pressure) :
    barometricElevation pressure = -1 ↔ pressure = clashingPressure := by
  rw [clashingPressure_eq]
  constructor
  · intro helevation
    rw [← helevation, barometricPressure_elevation h]
  · rintro rfl
    exact barometricElevation_pressure lapse_at_placeholder_pos

/-- A power of a fraction is no fraction if the exponent does not cancel against the multiplicity of
    some prime number. -/
theorem irrational_rpow {x : ℚ} (hx : 0 < x) {m n : ℕ} (hn : n ≠ 0) (p : ℕ) [Fact p.Prime]
    (h : ¬ (n : ℤ) ∣ m * padicValRat p x) : Irrational ((x : ℝ) ^ ((m : ℝ) / n)) := by
  rintro ⟨root, hroot⟩
  have hpower : (root : ℝ) ^ n = (x : ℝ) ^ m := by
    have hx : (0 : ℝ) ≤ x := by exact_mod_cast hx.le
    have hn : (n : ℝ) ≠ 0 := by exact_mod_cast hn
    rw [hroot, ← Real.rpow_natCast, ← Real.rpow_mul hx, div_mul_cancel₀ _ hn, Real.rpow_natCast]
  have hpower : root ^ n = x ^ m := by exact_mod_cast hpower
  have hmultiplicity := congrArg (padicValRat p) hpower
  rw [padicValRat.pow, padicValRat.pow] at hmultiplicity
  exact h ⟨_, hmultiplicity.symm⟩

/-- The base of that power is halved seven times more often than it is doubled. -/
theorem padicValRat_base : padicValRat 2 (10225577 / 10000000 : ℚ) = -7 := by
  have hnum : padicValNat 2 10225577 = 0 := padicValNat.eq_zero_of_not_dvd (by decide)
  have hden : padicValNat 2 10000000 = 7 := by
    have hodd : padicValNat 2 78125 = 0 := padicValNat.eq_zero_of_not_dvd (by decide)
    rw [show 10000000 = 2 ^ 7 * 78125 by norm_num, padicValNat.mul (by norm_num) (by norm_num),
      padicValNat.prime_pow, hodd]
  have hquotient : padicValRat 2 (((10225577 : ℕ) : ℚ) / ((10000000 : ℕ) : ℚ)) = _ :=
    padicValRat.div (by norm_num) (by norm_num)
  rw [padicValRat.of_nat, padicValRat.of_nat, hnum, hden] at hquotient
  exact_mod_cast hquotient

/-- **The pressure of a placeholder is no fraction.** -/
theorem irrational_clashingPressure : Irrational clashingPressure := by
  have hbase : (1 + 1000 * temperatureLapse : ℝ) = ((10225577 / 10000000 : ℚ) : ℝ) := by
    rw [temperatureLapse_eq]
    norm_num
  have hfactor : (4053 / 4 : ℚ) ≠ 0 := by norm_num
  rw [clashingPressure, hbase, barometricExponent_eq, seaLevelPressure_eq]
  refine Irrational.ratCast_mul ?_ hfactor
  refine irrational_rpow (by norm_num) (by norm_num) 2 ?_
  -- The exponent leaves a denominator that does not divide the multiplicity of two.
  rw [padicValRat_base]
  omega

/-! ### Conversions -/

/-- A pressure comes back from its elevation unless it is the one whose elevation is taken for the
    placeholder. -/
theorem pressureOfElevation_elevation {pressure : ℝ} (h : 0 < pressure) :
    pressureOfElevation (elevationOfPressure pressure)
      = if pressure = clashingPressure then -1 else pressure := by
  have hordinary : pressure ≠ -1 := by linarith
  rw [elevationOfPressure_eq, if_neg hordinary, pressureOfElevation_eq,
    barometricPressure_elevation h]
  simp only [barometricElevation_eq_placeholder_iff h]

/-- An elevation comes back from its pressure. -/
theorem elevationOfPressure_pressure {elevation : ℝ}
    (h : 0 < 1 - 1000 * (temperatureLapse : ℝ) * elevation) :
    elevationOfPressure (pressureOfElevation elevation) = elevation := by
  rw [pressureOfElevation_eq]
  split
  · next hplaceholder => rw [elevationOfPressure_eq, if_pos rfl, hplaceholder]
  · have hpositive := barometricPressure_pos h
    rw [elevationOfPressure_eq, if_neg (by linarith), barometricElevation_pressure h]

/-- **Conversions undo each other.**  Every elevation below the top of the atmosphere comes back
    from its pressure.  Every pressure comes back from its elevation, the placeholder too, but for
    one: one kilometre below sea level the elevation is taken for the placeholder, and so the
    placeholder comes back.  The stored numbers are fractions, and that pressure is none, so
    whatever pressure is stored comes back. -/
theorem conversions_inverse (conversion : Conversion) :
    (∀ elevation : ℝ, 0 < 1 - 1000 * temperatureLapse * elevation →
      conversion.toNode (conversion.toStored elevation) = elevation) ∧
    (∀ pressure : ℝ, 0 < pressure ∨ pressure = -1 → pressure ≠ clashingPressure →
      conversion.toStored (conversion.toNode pressure) = pressure) ∧
    (0 < clashingPressure ∧ conversion.toStored (conversion.toNode clashingPressure) = -1) ∧
    ∀ (word : Word) (q : ℚ), IsNumber word.widen q → 0 < q →
      conversion.toStored (conversion.toNode (q : ℝ)) = q := by
  obtain ⟨⟩ := conversion
  refine ⟨fun elevation h => elevationOfPressure_pressure h, fun pressure h hclash => ?_,
    ⟨clashingPressure_pos, ?_⟩, fun word q _ hq => ?_⟩
  · show pressureOfElevation (elevationOfPressure pressure) = pressure
    rcases h with h | rfl
    · rw [pressureOfElevation_elevation h, if_neg hclash]
    · rw [elevationOfPressure_eq, if_pos rfl, pressureOfElevation_eq, if_pos rfl]
  · show pressureOfElevation (elevationOfPressure clashingPressure) = -1
    rw [pressureOfElevation_elevation clashingPressure_pos, if_pos rfl]
  · show pressureOfElevation (elevationOfPressure (q : ℝ)) = q
    have hq : (0 : ℝ) < q := by exact_mod_cast hq
    rw [pressureOfElevation_elevation hq, if_neg]
    -- Stored numbers are fractions, and the clashing pressure is none.
    exact fun hclash => irrational_clashingPressure ⟨q, hclash⟩

/-- Standard pressure, an elevation of one kilometre, and the word of a pressure of one. -/
theorem conversions_inverse_standard :
    (0 < 1 - 1000 * (temperatureLapse : ℝ) * 1 ∧
        Conversion.barometric.toNode (Conversion.barometric.toStored (1 : ℝ)) = 1) ∧
      ((seaLevelPressure : ℝ) ≠ clashingPressure ∧
        Conversion.barometric.toStored (Conversion.barometric.toNode (seaLevelPressure : ℝ))
          = seaLevelPressure) ∧
      IsNumber (Word.widen 0x3f800000) 1 ∧
      Conversion.barometric.toStored (Conversion.barometric.toNode ((1 : ℚ) : ℝ)) = (1 : ℚ) := by
  obtain ⟨helevation, hpressure, -, hstored⟩ := conversions_inverse .barometric
  have hair : 0 < 1 - 1000 * (temperatureLapse : ℝ) * 1 := by
    rw [temperatureLapse_eq]
    norm_num
  have hclash : (seaLevelPressure : ℝ) ≠ clashingPressure := by
    rw [seaLevelPressure_eq]
    exact fun hclash => irrational_clashingPressure ⟨_, hclash⟩
  have hone : IsNumber (Word.widen 0x3f800000) 1 := by
    rw [show Word.widen 0x3f800000 = 1.0 by decide +kernel]
    exact isNumber_one
  exact ⟨⟨hair, helevation 1 hair⟩, ⟨hclash, hpressure _ (.inl seaLevelPressure_pos) hclash⟩, hone,
    hstored _ 1 hone one_pos⟩

/-- A pressure that does not come back. -/
theorem not_all_pressures_restored : ¬ ∀ pressure : ℝ, 0 < pressure ∨ pressure = -1 →
    pressureOfElevation (elevationOfPressure pressure) = pressure := by
  intro h
  have hpositive := clashingPressure_pos
  have hback := h clashingPressure (.inl hpositive)
  rw [pressureOfElevation_elevation hpositive, if_pos rfl] at hback
  linarith

end GridLookup
