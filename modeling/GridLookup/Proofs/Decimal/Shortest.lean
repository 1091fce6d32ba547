import GridLookup.Decimal.Shortest
import GridLookup.Proofs.Decimal.Interval
import Mathlib.Tactic.LinearCombination

namespace GridLookup

/-!
# Shortest decimals

The shortest decimal of a double lies in the interval of the numbers that round to it.

* `Decimal.value` — the number that a decimal is.
* `Decimal.readsBack_of_onGrid` — a number that is found on a grid reads back.
* `Decimal.leadingPlace_le`, `Decimal.isSome_onGrid` — one is found with seventeen digits.
* `Decimal.nearest_shortest` — **the shortest decimal of a double rounds to the double**.
-/

namespace Decimal

/-- The number that a decimal is. -/
def value (decimal : Decimal) : ℚ := decimal.digits * 10 ^ decimal.exponent

variable {tie : Tie} {mantissa quarter unit rest digits : ℕ} {exponent place : ℤ} {lowest : Bool}

theorem ten_zpow_pos (place : ℤ) : (0 : ℚ) < 10 ^ place := zpow_pos (by norm_num) place

/-! ### Grids -/

/-- A power with an exponent of either sign is a quotient of powers. -/
theorem pow_toNat_neg_mul {base : ℚ} (hbase : base ≠ 0) (n : ℤ) :
    base ^ (-n).toNat * base ^ n = base ^ n.toNat := by
  rw [← zpow_natCast, ← zpow_natCast, ← zpow_add₀ hbase]
  congr 1
  omega

/-- Quarters of the last place and the unit of the grid are scaled by the same number. -/
theorem quarter_mul (exponent place : ℤ) :
    ((Nat.pow 10 (-place).toNat <<< (exponent - 2).toNat : ℕ) : ℚ) * 10 ^ place
      = (Nat.pow 10 place.toNat <<< (2 - exponent).toNat : ℕ) * 2 ^ (exponent - 2) := by
  have hten := pow_toNat_neg_mul (by norm_num : (10 : ℚ) ≠ 0) place
  have htwo := pow_toNat_neg_mul (by norm_num : (2 : ℚ) ≠ 0) (exponent - 2)
  rw [neg_sub] at htwo
  simp only [Nat.shiftLeft_eq, Nat.pow_eq]
  push_cast
  rw [← hten, ← htwo]
  ring

/-- Shifting to the left keeps a number positive. -/
theorem shiftLeft_pos {n : ℕ} (h : 0 < n) (amount : ℕ) : 0 < n <<< amount := by
  rw [Nat.shiftLeft_eq]
  exact Nat.mul_pos h (Nat.two_pow_pos amount)

/-- What is not too far below the double reads back. -/
theorem readsBack_below (hquarter : 0 < quarter)
    (hvalue : digits * unit + rest = 4 * mantissa * quarter)
    (hnear : rest < (if lowest then 1 else 2) * quarter ∨
      mantissa % 2 = 0 ∧ rest = (if lowest then 1 else 2) * quarter) :
    ReadsBack mantissa lowest (digits * unit / (4 * quarter)) := by
  have hscale : (0 : ℚ) < 4 * quarter := by positivity
  have ht : (digits : ℚ) * unit / (4 * quarter) = mantissa - rest / (4 * quarter) := by
    have hcast : (digits : ℚ) * unit + rest = 4 * mantissa * quarter := by exact_mod_cast hvalue
    rw [eq_sub_iff_add_eq, ← add_div, hcast, div_eq_iff hscale.ne']
    ring
  -- How far the interval reaches down, in quarters of the last place.
  have hreach : ((if lowest then 1 else 2 : ℕ) * quarter : ℕ) = reach lowest * (4 * quarter) := by
    cases lowest
    · simp only [reach, Bool.false_eq_true, if_false]
      push_cast
      ring
    · simp only [reach, if_true]
      push_cast
      ring
  have hrest : (0 : ℚ) ≤ rest / (4 * quarter) := by positivity
  have hle : (rest : ℚ) / (4 * quarter) ≤ reach lowest := by
    have hle : rest ≤ (if lowest then 1 else 2) * quarter := by omega
    rw [div_le_iff₀ hscale, ← hreach]
    exact_mod_cast hle
  rw [ht]
  refine ⟨by linarith, by linarith, fun hodd => ⟨?_, by linarith⟩⟩
  -- The ends of the interval belong to it only for even mantissas.
  have hlt : (rest : ℚ) / (4 * quarter) < reach lowest := by
    have hlt : rest < (if lowest then 1 else 2) * quarter := by omega
    rw [div_lt_iff₀ hscale, ← hreach]
    exact_mod_cast hlt
  linarith

/-- What is not too far above the double reads back. -/
theorem readsBack_above (hquarter : 0 < quarter)
    (hvalue : digits * unit = 4 * mantissa * quarter + rest)
    (hnear : rest < 2 * quarter ∨ mantissa % 2 = 0 ∧ rest = 2 * quarter) :
    ReadsBack mantissa lowest (digits * unit / (4 * quarter)) := by
  have hscale : (0 : ℚ) < 4 * quarter := by positivity
  have ht : (digits : ℚ) * unit / (4 * quarter) = mantissa + rest / (4 * quarter) := by
    have hcast : (digits : ℚ) * unit = 4 * mantissa * quarter + rest := by exact_mod_cast hvalue
    rw [hcast, add_div, add_left_inj, div_eq_iff hscale.ne']
    ring
  have hreach : (0 : ℚ) < reach lowest := by cases lowest <;> norm_num [reach]
  have hrest : (0 : ℚ) ≤ rest / (4 * quarter) := by positivity
  have hle : (rest : ℚ) / (4 * quarter) ≤ 1 / 2 := by
    have hle : (rest : ℚ) ≤ 2 * quarter := by exact_mod_cast (by omega : rest ≤ 2 * quarter)
    rw [div_le_iff₀ hscale]
    linarith
  rw [ht]
  refine ⟨by linarith, by linarith, fun hodd => ⟨by linarith, ?_⟩⟩
  have hlt : (rest : ℚ) / (4 * quarter) < 1 / 2 := by
    have hlt : (rest : ℚ) < 2 * quarter := by exact_mod_cast (by omega : rest < 2 * quarter)
    rw [div_lt_iff₀ hscale]
    linarith
  linarith

/-- The step of the grid, in units of the last place of the double. -/
theorem step_eq (hquarter : 0 < quarter)
    (hstep : (quarter : ℚ) * 10 ^ place = unit * 2 ^ (exponent - 2)) (digits : ℕ) :
    (digits : ℚ) * 10 ^ place / 2 ^ exponent = digits * unit / (4 * quarter) := by
  have hpower : (2 : ℚ) ^ exponent = 4 * 2 ^ (exponent - 2) := by
    rw [zpow_sub₀ (by norm_num)]
    norm_num
    ring
  have hscale := (two_zpow_pos (exponent - 2)).ne'
  have hquarter : (quarter : ℚ) ≠ 0 := by exact_mod_cast hquarter.ne'
  rw [hpower, div_eq_div_iff (by positivity) (by positivity)]
  linear_combination 4 * (digits : ℚ) * hstep

/-- What is found on a grid reads back. -/
theorem readsBack_of_onGrid (h : onGrid? tie mantissa exponent lowest place = some digits) :
    ReadsBack mantissa lowest (digits * 10 ^ place / 2 ^ exponent) := by
  have hstep := quarter_mul exponent place
  have hquarter : 0 < Nat.pow 10 (-place).toNat <<< (exponent - 2).toNat :=
    shiftLeft_pos (Nat.pow_pos (by norm_num)) _
  have hunit : 0 < Nat.pow 10 place.toNat <<< (2 - exponent).toNat :=
    shiftLeft_pos (Nat.pow_pos (by norm_num)) _
  unfold onGrid? at h
  dsimp only at h
  generalize Nat.pow 10 (-place).toNat <<< (exponent - 2).toNat = quarter at hstep hquarter h
  generalize Nat.pow 10 place.toNat <<< (2 - exponent).toNat = unit at hstep hunit h
  have hdivision : 4 * mantissa * quarter / unit * unit + 4 * mantissa * quarter % unit
      = 4 * mantissa * quarter := Nat.div_add_mod' _ _
  have hrest := Nat.mod_lt (4 * mantissa * quarter) hunit
  generalize 4 * mantissa * quarter / unit = floor at hdivision h
  generalize 4 * mantissa * quarter % unit = below at hdivision hrest h
  obtain ⟨floorReads, hfloorReads⟩ : ∃ reads, (decide (below < (if lowest then 1 else 2) * quarter)
    || (mantissa % 2 == 0 && below == (if lowest then 1 else 2) * quarter)) = reads := ⟨_, rfl⟩
  obtain ⟨ceilingReads, hceilingReads⟩ : ∃ reads, (decide (unit - below < 2 * quarter)
    || (mantissa % 2 == 0 && unit - below == 2 * quarter)) = reads := ⟨_, rfl⟩
  rw [hfloorReads, hceilingReads] at h
  -- Of two neighbours that read back either may be taken, but none that does not.
  have hchoice : floorReads = true ∧ digits = floor ∨ ceilingReads = true ∧ digits = floor + 1 := by
    grind
  rw [step_eq hquarter hstep]
  rcases hchoice with ⟨rfl, rfl⟩ | ⟨rfl, rfl⟩
  · exact readsBack_below hquarter hdivision (by simpa using hfloorReads)
  · refine readsBack_above hquarter ?_ (by simpa using hceilingReads)
    rw [Nat.add_mul]
    omega

/-- On a grid that is fine enough there is a number that reads back. -/
theorem isSome_onGrid (h : (10 : ℚ) ^ place ≤ 2 ^ (exponent - 2)) :
    (onGrid? tie mantissa exponent lowest place).isSome = true := by
  have hstep := quarter_mul exponent place
  have hunit : 0 < Nat.pow 10 place.toNat <<< (2 - exponent).toNat :=
    shiftLeft_pos (Nat.pow_pos (by norm_num)) _
  unfold onGrid?
  dsimp only
  generalize Nat.pow 10 (-place).toNat <<< (exponent - 2).toNat = quarter at hstep
  generalize Nat.pow 10 place.toNat <<< (2 - exponent).toNat = unit at hstep hunit
  have hle : unit ≤ quarter := by
    have hscale := two_zpow_pos (exponent - 2)
    have hle : (unit : ℚ) * 2 ^ (exponent - 2) ≤ quarter * 2 ^ (exponent - 2) := by
      rw [← hstep]
      exact mul_le_mul_of_nonneg_left h (Nat.cast_nonneg quarter)
    exact_mod_cast le_of_mul_le_mul_right hle hscale
  have hrest := Nat.mod_lt (4 * mantissa * quarter) hunit
  -- The distance down to the grid is less than one of its steps, hence than a quarter of the last
  -- place.
  have hreads : 4 * mantissa * quarter % unit < (if lowest = true then 1 else 2) * quarter := by
    refine (hrest.trans_le hle).trans_le (Nat.le_mul_of_pos_left quarter ?_)
    split <;> norm_num
  rw [decide_eq_true hreads, Bool.true_or, Bool.true_and]
  split
  · split
    · rfl
    · split <;> rfl
  · rfl

/-! ### The search -/

/-- A decimal is worth the same without the zeros at its end. -/
theorem value_dropZeros (fuel : ℕ) (decimal : Decimal) :
    (dropZeros fuel decimal).value = decimal.value := by
  fun_induction dropZeros fuel decimal with
  | case1 => rfl
  | case2 fuel decimal hzero ih =>
    have hdigits : ((decimal.digits / 10 : ℕ) : ℚ) * 10 = decimal.digits := by
      exact_mod_cast Nat.div_mul_cancel (Nat.dvd_of_mod_eq_zero hzero)
    rw [ih, value, value, zpow_add_one₀ (by norm_num), ← hdigits]
    ring
  | case3 => rfl

/-- What the search finds reads back, if there is something to be found. -/
theorem readsBack_searchGrids {fuel : ℕ}
    (h : (onGrid? tie mantissa exponent lowest (place - fuel)).isSome = true) :
    ReadsBack mantissa lowest
      ((searchGrids tie mantissa exponent lowest place (fuel + 1)).value / 2 ^ exponent) := by
  -- Every grid is finer than the one before, and the last one has a number by assumption.
  induction fuel generalizing place with
  | zero =>
    obtain ⟨digits, hdigits⟩ := Option.isSome_iff_exists.mp h
    rw [Nat.cast_zero, sub_zero] at hdigits
    rw [searchGrids, hdigits]
    dsimp only
    rw [value_dropZeros]
    exact readsBack_of_onGrid hdigits
  | succ fuel ih =>
    rw [searchGrids]
    split
    next digits hdigits =>
      rw [value_dropZeros]
      exact readsBack_of_onGrid hdigits
    next =>
      refine ih ?_
      rw [sub_sub, add_comm (1 : ℤ)]
      exact_mod_cast h

/-- A number is compared with a power of ten without rounding. -/
theorem liesBelow_iff : liesBelow mantissa exponent place = true ↔
    (mantissa : ℚ) * 2 ^ exponent < 10 ^ place := by
  -- Both sides are multiplied by what makes them whole, since the program compares whole numbers.
  have hten := pow_toNat_neg_mul (by norm_num : (10 : ℚ) ≠ 0) place
  have htwo := pow_toNat_neg_mul (by norm_num : (2 : ℚ) ≠ 0) exponent
  have hscale : (0 : ℚ) < 10 ^ (-place).toNat * 2 ^ (-exponent).toNat := by positivity
  have hleft : (mantissa : ℚ) * 2 ^ exponent * (10 ^ (-place).toNat * 2 ^ (-exponent).toNat)
      = mantissa * 2 ^ exponent.toNat * 10 ^ (-place).toNat := by
    rw [← htwo]
    ring
  have hright : (10 : ℚ) ^ place * (10 ^ (-place).toNat * 2 ^ (-exponent).toNat)
      = 10 ^ place.toNat * 2 ^ (-exponent).toNat := by
    rw [← hten]
    ring
  rw [liesBelow, decide_eq_true_eq, ← mul_lt_mul_iff_left₀ hscale, hleft, hright]
  simp only [Nat.shiftLeft_eq, Nat.pow_eq]
  exact_mod_cast Iff.rfl

/-- The estimate of the decimal logarithm of a power of two is not too large. -/
theorem estimate_le {log : ℤ} (hlower : -1074 ≤ log) (hupper : log ≤ 1024) :
    (10 : ℚ) ^ (log * 30103 / 100000 - 1) ≤ 2 ^ log := by
  have hestimate : log * 30103 / 100000 * 100000 ≤ log * 30103 := Int.ediv_mul_le _ (by norm_num)
  generalize log * 30103 / 100000 = estimate at hestimate
  -- Powers are compared by way of `10 ^ 59 ≤ 2 ^ 196` and `2 ^ 93 ≤ 10 ^ 28`.
  rcases le_or_gt 0 log with hlog | hlog
  · obtain ⟨n, rfl⟩ := Int.eq_ofNat_of_zero_le hlog
    have hpower : ((10 : ℚ) ^ (estimate - 1)) ^ 196 ≤ (2 ^ (n : ℤ)) ^ 196 := by
      calc ((10 : ℚ) ^ (estimate - 1)) ^ 196 = 10 ^ ((estimate - 1) * 196) := by
            rw [zpow_mul, zpow_ofNat]
        _ ≤ 10 ^ ((59 : ℤ) * n) := zpow_le_zpow_right₀ (by norm_num) (by omega)
        _ = (10 ^ 59) ^ n := by
            rw [zpow_mul, zpow_ofNat, zpow_natCast]
        _ ≤ (2 ^ 196) ^ n := pow_le_pow_left₀ (by norm_num) (by norm_num) n
        _ = (2 ^ (n : ℤ)) ^ 196 := by
            rw [zpow_natCast, ← pow_mul, ← pow_mul, mul_comm]
    exact (pow_le_pow_iff_left₀ (ten_zpow_pos _).le (two_zpow_pos _).le (by norm_num)).mp hpower
  · obtain ⟨n, rfl⟩ := Int.exists_eq_neg_ofNat hlog.le
    have hpower : ((2 : ℚ) ^ (n : ℤ)) ^ 93 ≤ (10 ^ (1 - estimate)) ^ 93 := by
      calc ((2 : ℚ) ^ (n : ℤ)) ^ 93 = (2 ^ 93) ^ n := by
            rw [zpow_natCast, ← pow_mul, ← pow_mul, mul_comm]
        _ ≤ (10 ^ 28) ^ n := pow_le_pow_left₀ (by norm_num) (by norm_num) n
        _ = 10 ^ ((28 : ℤ) * n) := by
            rw [zpow_mul, zpow_ofNat, zpow_natCast]
        _ ≤ 10 ^ ((1 - estimate) * 93) := zpow_le_zpow_right₀ (by norm_num) (by omega)
        _ = (10 ^ (1 - estimate)) ^ 93 := by
            rw [zpow_mul, zpow_ofNat]
    have hle := (pow_le_pow_iff_left₀ (two_zpow_pos _).le (ten_zpow_pos _).le
      (by norm_num)).mp hpower
    rw [← neg_sub, zpow_neg, zpow_neg]
    exact inv_anti₀ (two_zpow_pos _) hle

/-- The double is not much below the place of its leading digit. -/
theorem leadingPlace_le (hpositive : 0 < mantissa) (hcanonical : Canonical mantissa exponent)
    (hsmall : exponent ≤ 971) :
    (10 : ℚ) ^ (leadingPlace mantissa exponent - 1) ≤ mantissa * 2 ^ exponent := by
  have hnot {place : ℤ} (h : ¬ liesBelow mantissa exponent place = true) :
      (10 : ℚ) ^ (place + 1 - 1) ≤ mantissa * 2 ^ exponent := by
    rw [add_sub_cancel_right]
    exact not_lt.mp fun hlt => h (liesBelow_iff.mpr hlt)
  unfold leadingPlace
  dsimp only
  -- The first place is bounded as an estimate, the others since the double is not below the place
  -- tried before.
  split
  · have hlog : mantissa.log2 < 53 := (Nat.log2_lt hpositive.ne').mpr hcanonical.room
    have hleast := hcanonical.least
    refine (estimate_le (by omega) (by omega)).trans ?_
    rw [zpow_add₀ (by norm_num), zpow_natCast]
    refine mul_le_mul_of_nonneg_right ?_ (two_zpow_pos exponent).le
    exact_mod_cast Nat.log2_self_le hpositive.ne'
  next hestimate =>
    split
    · exact hnot hestimate
    next hnext =>
      have hplace := hnot hnext
      rw [add_assoc] at hplace
      exact hplace

/-- The last grid that is tried is fine enough. -/
theorem place_le (hpositive : 0 < mantissa) (hcanonical : Canonical mantissa exponent)
    (hsmall : exponent ≤ 971) :
    (10 : ℚ) ^ (leadingPlace mantissa exponent - 1 - 17) ≤ 2 ^ (exponent - 2) := by
  have hroom : (mantissa : ℚ) ≤ 2 ^ 53 := by exact_mod_cast hcanonical.room.le
  calc (10 : ℚ) ^ (leadingPlace mantissa exponent - 1 - 17)
      = 10 ^ (leadingPlace mantissa exponent - 1) / 10 ^ 17 := by
        rw [zpow_sub₀ (by norm_num), zpow_ofNat]
    _ ≤ mantissa * 2 ^ exponent / 10 ^ 17 :=
        div_le_div_of_nonneg_right (leadingPlace_le hpositive hcanonical hsmall) (by norm_num)
    _ ≤ 2 ^ 53 * 2 ^ exponent / 10 ^ 17 :=
        div_le_div_of_nonneg_right (mul_le_mul_of_nonneg_right hroom (two_zpow_pos _).le)
          (by norm_num)
    _ ≤ 2 ^ exponent / 2 ^ 2 := by
        rw [div_le_div_iff₀ (by norm_num) (by norm_num)]
        have hscale := two_zpow_pos exponent
        nlinarith
    _ = 2 ^ (exponent - 2) := by
        rw [zpow_sub₀ (by norm_num), zpow_ofNat]

/-- **Shortest decimals.**  The shortest decimal of a double rounds to the double. -/
theorem nearest_shortest (hpositive : 0 < mantissa) (hmarked : Marked mantissa exponent lowest)
    (hsmall : exponent ≤ 971) :
    nearest (shortest tie mantissa exponent lowest).value = mantissa * 2 ^ exponent := by
  have hfound : (onGrid? tie mantissa exponent lowest
      (leadingPlace mantissa exponent - 1 - (17 : ℕ))).isSome = true :=
    isSome_onGrid (place_le hpositive hmarked.toCanonical hsmall)
  exact (readsBack_searchGrids hfound).nearest_eq hpositive hmarked

end Decimal

end GridLookup
