import GridLookup.Decimal.Reader
import GridLookup.Proofs.Decimal.Interval
import GridLookup.Proofs.Neutral
import GridLookup.Proofs.Numeral

namespace GridLookup

/-!
# Reading decimals

A decimal is read as the nearest double, whichever way it is calculated.

* `overflow_le_nearest`, `nearest_eq_zero` — numbers that are too large or too small.
* `ofScientific_spec` — decimals in the range where the nearest double is calculated.
* `nearestDouble_spec` — **every decimal is read as the nearest double**, or as infinity if that is
  too large.
-/

open Float.Model UnpackedFloat

/-! ### Ranges -/

variable {q : ℚ} {digits : ℕ} {exponent : ℤ}

/-- Powers of two and of ten compare as whole numbers do. -/
theorem two_zpow_le_ten_zpow {m n : ℕ} (h : 2 ^ m ≤ 10 ^ n) :
    (2 : ℚ) ^ (m : ℤ) ≤ 10 ^ (n : ℤ) := by
  rw [zpow_natCast, zpow_natCast]
  exact_mod_cast h

/-- Powers of two are not rounded unless they are too small. -/
theorem nearest_two_zpow {n : ℤ} (h : -1074 ≤ n) : nearest (2 ^ n) = 2 ^ n := by
  have hkept : nearest ((1 : ℕ) * 2 ^ n) = (1 : ℕ) * 2 ^ n :=
    nearest_of_room Nat.one_pos (by norm_num) h
  rwa [Nat.cast_one, one_mul] at hkept

/-- What is too large stays so. -/
theorem overflow_le_nearest (h : overflow ≤ q) : overflow ≤ nearest q := by
  have hle := nearest_mono (two_zpow_pos 1024) h
  rwa [nearest_two_zpow (by norm_num)] at hle

/-- What is far from being too large is not made so. -/
theorem nearest_lt_overflow (hq : 0 < q) (h : q ≤ 2 ^ (200 : ℤ)) : nearest q < overflow := by
  have hle := nearest_mono hq h
  rw [nearest_two_zpow (by norm_num)] at hle
  exact hle.trans_lt (zpow_lt_zpow_right₀ (by norm_num) (by norm_num))

/-- Less than half of the least double is rounded to zero. -/
theorem nearest_eq_zero (hq : 0 < q) (h : q ≤ 2 ^ (-1075 : ℤ)) : nearest q = 0 := by
  have hplace : lastPlace q = -1074 := by
    refine lastPlace_eq hq (h.trans_lt ?_) (Or.inl rfl)
    calc (2 : ℚ) ^ (-1075 : ℤ) < 2 ^ (-1074 : ℤ) := zpow_lt_zpow_right₀ (by norm_num) (by norm_num)
      _ ≤ 2 ^ 53 * 2 ^ (-1074 : ℤ) := le_mul_of_one_le_left (two_zpow_pos _).le (by norm_num)
  have hhalf : q / 2 ^ (-1074 : ℤ) ≤ 1 / 2 := by
    have hpower : (2 : ℚ) ^ (-1074 : ℤ) = 2 * 2 ^ (-1075 : ℤ) := by
      exact zpow_one_add₀ (two_ne_zero : (2 : ℚ) ≠ 0) (-1075)
    rw [div_le_iff₀ (two_zpow_pos _), hpower]
    linarith
  have hpositive : 0 < q / 2 ^ (-1074 : ℤ) := div_pos hq (two_zpow_pos _)
  -- At most half a unit is left, and zero is even.
  have hunits : nearestUnits q = 0 := by
    rw [nearestUnits, hplace]
    generalize q / 2 ^ (-1074 : ℤ) = units at hhalf hpositive ⊢
    refine nearestEven_eq_of_near ?_ ?_ fun hodd => absurd hodd (by decide)
    · push_cast
      linarith
    · push_cast
      linarith
  rw [nearest, hunits, Nat.cast_zero, zero_mul]

/-! ### Calculation -/

/-- A number that is kept. -/
theorem isNumber_ofNat {n : ℕ} (h : 0 < n) (hkept : nearest n = n) (hroom : (n : ℚ) < overflow) :
    IsNumber (.ofModel (.ofNat n)) n := by
  have hdenotes : Denotes (UnpackedFloat.ofNat .binary64 n) (nearest (n * 2 ^ (0 : ℤ))) := by
    have hcast : ((n : ℤ) : ℚ) = n := Int.cast_natCast n
    rw [← hcast]
    exact denotes_normalize .positive (Int.natCast_pos.mpr h)
  rw [zpow_zero, mul_one, hkept] at hdenotes
  exact (hdenotes.unpack_pack (Nat.cast_nonneg n)).1 hroom

/-- The table of powers of ten has no rounding errors. -/
theorem isNumber_power (n : ℕ) (h : n < Float.exactlyRepresentablePowersOfTen.size) :
    IsNumber (Float.exactlyRepresentablePowersOfTen[n]) (10 ^ n) := by
  have htable : ∀ n (h : n < Float.exactlyRepresentablePowersOfTen.size),
      Float.exactlyRepresentablePowersOfTen[n] = .ofModel (.ofNat (10 ^ n)) := by decide +kernel
  have hless : n < 23 := h
  have hcast : ((10 ^ n : ℕ) : ℚ) = 10 ^ n := by push_cast; rfl
  -- The odd part of the power fits into a mantissa, and the rest is a power of two.
  have hfactor : (10 : ℚ) ^ n = (5 ^ n : ℕ) * 2 ^ (n : ℤ) := by
    rw [zpow_natCast, Nat.cast_pow, ← mul_pow]
    norm_num
  have hfive : 5 ^ n < 2 ^ 53 :=
    (Nat.pow_le_pow_right (by norm_num) (Nat.le_of_lt_succ hless)).trans_lt (by norm_num)
  have hkept : nearest (10 ^ n) = 10 ^ n := by
    rw [hfactor]
    exact nearest_of_room (by positivity) hfive (by omega)
  have hroom : (10 : ℚ) ^ n < overflow := by
    rw [← hkept]
    refine nearest_lt_overflow (by positivity) ?_
    exact (pow_le_pow_right₀ (by norm_num) (Nat.le_of_lt_succ hless)).trans (by norm_num)
  rw [htable n h, ← hcast]
  exact isNumber_ofNat (by positivity) (by rw [hcast, hkept]) (by rw [hcast]; exact hroom)

/-- A whole number of at most 53 bits is a double. -/
theorem isNumber_toFloat {n : ℕ} (h : 0 < n) (hroom : n < 2 ^ 53) :
    IsNumber n.toUInt64.toFloat n := by
  have htoNat : n.toUInt64.toNat = n := Nat.mod_eq_of_lt (hroom.trans (by norm_num))
  have hkept : nearest n = n := by
    have hkept : nearest (n * 2 ^ (0 : ℤ)) = n * 2 ^ (0 : ℤ) :=
      nearest_of_room h hroom (by norm_num)
    rwa [zpow_zero, mul_one] at hkept
  have hless : (n : ℚ) < overflow := by
    rw [← hkept]
    refine nearest_lt_overflow (Nat.cast_pos.mpr h) ?_
    have hle : (n : ℚ) ≤ 2 ^ 53 := by exact_mod_cast hroom.le
    exact hle.trans (by norm_num)
  have hfloat : n.toUInt64.toFloat = .ofModel (.ofNat n.toUInt64.toNat) := rfl
  rw [hfloat, htoNat]
  exact isNumber_ofNat h hkept hless

/-- Few digits, and a power of ten that is a double. -/
theorem isNumber_fast (exponent : ℤ) {x power : Float} {n : ℕ} (hx : IsNumber x digits)
    (hpower : IsNumber power (10 ^ n)) (hpositive : 0 < digits) (hdigits : digits < 2 ^ 53)
    (hn : n ≤ 22) :
    (exponent = n → IsNumber (x * power) (nearest (digits * 10 ^ exponent))) ∧
      (exponent = -n → IsNumber (x / power) (nearest (digits * 10 ^ exponent))) ∧
      (exponent = n ∨ exponent = -n → nearest (digits * 10 ^ exponent) < overflow) := by
  have hq : (0 : ℚ) < digits := Nat.cast_pos.mpr hpositive
  have hle : (digits : ℚ) ≤ 2 ^ 53 := by exact_mod_cast hdigits.le
  have hten : (0 : ℚ) < 10 ^ n := by positivity
  -- With so few digits and so small a power nothing is too large.
  have hroom : exponent = n ∨ exponent = -n → nearest (digits * 10 ^ exponent) < overflow := by
    intro hexponent
    refine nearest_lt_overflow (by positivity) ?_
    calc (digits : ℚ) * 10 ^ exponent ≤ 2 ^ 53 * 10 ^ (22 : ℤ) := by
          refine mul_le_mul hle ?_ (by positivity) (by norm_num)
          exact zpow_le_zpow_right₀ (by norm_num) (by omega)
      _ ≤ 2 ^ (200 : ℤ) := by norm_num
  refine ⟨fun h => ?_, fun h => ?_, hroom⟩
  · have hless := hroom (Or.inl h)
    rw [h, zpow_natCast] at hless ⊢
    exact hx.mul hpower hq hten hless
  · have hless := hroom (Or.inr h)
    rw [h, zpow_neg, zpow_natCast, ← div_eq_mul_inv] at hless ⊢
    exact hx.div hpower hq hten hless

/-- Many digits, or a large power of ten. -/
theorem denotes_ofScientific (hpositive : 0 < digits) (hlower : -(2 ^ 11 + digits.log2) ≤ exponent)
    (hupper : exponent ≤ 2 ^ 11) : Denotes (UnpackedFloat.ofScientific .binary64 digits exponent)
      (nearest (digits * 10 ^ exponent)) := by
  unfold UnpackedFloat.ofScientific
  rw [dif_neg hpositive.ne']
  have hlarge : ¬ exponent > 2 ^ Format.binary64.exponentBits := not_lt.mpr hupper
  have hsmall : ¬ exponent < -(2 ^ Format.binary64.exponentBits + ↑digits.log2) := not_lt.mpr hlower
  rw [if_neg hlarge, if_neg hsmall]
  split
  next hsign =>
    obtain ⟨n, rfl⟩ := Int.eq_ofNat_of_zero_le hsign
    -- The digits get enough places in front of the product.
    have hvalue : ((digits <<< Format.binary64.mantissaBits : ℕ) : ℚ)
          * 2 ^ (-(Format.binary64.mantissaBits : ℤ)) * ((10 ^ (n : ℤ).toNat : ℕ) * 2 ^ (0 : ℤ))
        = digits * 10 ^ (n : ℤ) := by
      have hshift := shiftLeft_mul_zpow digits Format.binary64.mantissaBits 0
      rw [zero_sub, zpow_zero, mul_one] at hshift
      rw [hshift, zpow_zero, mul_one, Int.toNat_natCast, zpow_natCast]
      push_cast
      rfl
    rw [← hvalue]
    refine denotes_mul _ _ ?_
    rw [hvalue, lastPlace]
    have hlog : 0 ≤ Int.log 2 ((digits : ℚ) * 10 ^ (n : ℤ)) := by
      refine (Int.zpow_le_iff_le_log (by norm_num) (by positivity)).mp ?_
      rw [zpow_zero, zpow_natCast]
      exact_mod_cast Nat.mul_pos hpositive (by positivity)
    have hbits : (Format.binary64.mantissaBits : ℤ) = 53 := rfl
    omega
  next hsign =>
    obtain ⟨n, rfl⟩ := Int.exists_eq_neg_ofNat (by omega : exponent ≤ 0)
    have hvalue : (digits : ℚ) * 2 ^ (0 : ℤ) / ((10 ^ (-(-(n : ℤ))).toNat : ℕ) * 2 ^ (0 : ℤ))
        = digits * 10 ^ (-(n : ℤ)) := by
      rw [neg_neg, Int.toNat_natCast, zpow_zero, zpow_neg, zpow_natCast]
      push_cast
      rw [mul_one, mul_one, div_eq_mul_inv]
    rw [← hvalue]
    exact denotes_div _ _ 0 0

/-- Where the nearest double is calculated, it is found. -/
theorem ofScientific_spec (hpositive : 0 < digits) (hlower : -(2 ^ 11 + digits.log2) ≤ exponent)
    (hupper : exponent ≤ 2 ^ 11) :
    (nearest (digits * 10 ^ exponent) < overflow →
      IsNumber (Float.ofScientific digits (exponent < 0) exponent.natAbs)
        (nearest (digits * 10 ^ exponent))) ∧
    (overflow ≤ nearest (digits * 10 ^ exponent) →
      IsTop (Float.ofScientific digits (exponent < 0) exponent.natAbs)) := by
  unfold Float.ofScientific
  -- Few digits are multiplied or divided once, without any other rounding. All other numbers are
  -- calculated exactly and rounded once.
  split
  next hfast =>
    obtain ⟨hmul, hdiv, hroom⟩ := isNumber_fast exponent
      (isNumber_toFloat hpositive hfast.1)
      (isNumber_power exponent.natAbs (Nat.lt_succ_of_le hfast.2)) hpositive hfast.1 hfast.2
    have hless := hroom (by omega)
    refine ⟨fun _ => ?_, fun hlarge => absurd hless (not_lt.mpr hlarge)⟩
    dsimp only
    split
    next hsign =>
      rw [decide_eq_true_eq] at hsign
      exact hdiv (by omega)
    next hsign =>
      rw [decide_eq_true_eq] at hsign
      exact hmul (by omega)
  next =>
    have hexponent : (if decide (exponent < 0) = true then Int.negOfNat exponent.natAbs
        else Int.ofNat exponent.natAbs) = exponent := by
      split
      next hsign =>
        rw [decide_eq_true_eq] at hsign
        rw [Int.negOfNat_eq, Int.ofNat_eq_natCast]
        omega
      next hsign =>
        rw [decide_eq_true_eq] at hsign
        rw [Int.ofNat_eq_natCast]
        omega
    dsimp only
    rw [hexponent]
    exact (denotes_ofScientific hpositive hlower hupper).unpack_pack (nearest_nonneg _)

/-! ### Magnitudes -/

/-- Whatever has a digit in front of 310 others is too large. -/
theorem overflow_le_ten_zpow : overflow ≤ 10 ^ (310 : ℤ) := by
  have hle : (2 : ℚ) ^ ((1024 : ℕ) : ℤ) ≤ 10 ^ ((310 : ℕ) : ℤ) :=
    two_zpow_le_ten_zpow (by decide +kernel)
  exact hle

/-- Whatever has 330 zeros behind the point is less than half of the least double. -/
theorem ten_zpow_le_two_zpow : (10 : ℚ) ^ (-330 : ℤ) ≤ 2 ^ (-1075 : ℤ) := by
  have hle : (2 : ℚ) ^ ((1075 : ℕ) : ℤ) ≤ 10 ^ ((330 : ℕ) : ℤ) :=
    two_zpow_le_ten_zpow (by decide +kernel)
  rw [zpow_neg, zpow_neg]
  exact inv_anti₀ (two_zpow_pos _) hle

/-- A decimal is below the place in front of its first digit. -/
theorem lt_ten_zpow_point (digits : ℕ) (exponent : ℤ) :
    (digits : ℚ) * 10 ^ exponent < 10 ^ ((Numeral.write digits).length + exponent) := by
  have hten : (0 : ℚ) < 10 ^ exponent := by positivity
  rw [zpow_add₀ (by norm_num), zpow_natCast]
  exact mul_lt_mul_of_pos_right (by exact_mod_cast Numeral.lt_of_write digits) hten

/-- A decimal is not below the place of its first digit. -/
theorem ten_zpow_point_le (hpositive : 0 < digits) (exponent : ℤ) :
    (10 : ℚ) ^ ((Numeral.write digits).length + exponent) ≤ 10 * (digits * 10 ^ exponent) := by
  have hten : (0 : ℚ) < 10 ^ exponent := by positivity
  rw [zpow_add₀ (by norm_num), zpow_natCast, ← mul_assoc]
  exact mul_le_mul_of_nonneg_right (by exact_mod_cast Numeral.le_of_write hpositive) hten.le

/-- **Reading.**  Every decimal is read as the nearest double, or as infinity if that is too
    large. -/
theorem nearestDouble_spec (hpositive : 0 < digits) (exponent : ℤ) :
    (nearest (digits * 10 ^ exponent) < overflow →
      IsNumber (nearestDouble digits exponent) (nearest (digits * 10 ^ exponent))) ∧
    (overflow ≤ nearest (digits * 10 ^ exponent) → IsTop (nearestDouble digits exponent)) := by
  have hq : (0 : ℚ) < digits * 10 ^ exponent := by positivity
  have hupper := lt_ten_zpow_point digits exponent
  have hlower := ten_zpow_point_le hpositive exponent
  have hcount := Numeral.length_write_le hpositive
  unfold nearestDouble
  dsimp only
  rw [if_neg hpositive.ne']
  generalize (Numeral.write digits).length = count at hupper hlower hcount
  -- Three ranges, told apart by where the point stands: too large, too small, and calculated.
  split
  next hlarge =>
    have hle : overflow ≤ digits * 10 ^ exponent := by
      have hpower : (10 : ℚ) * 10 ^ (310 : ℤ) ≤ 10 ^ (count + exponent) := by
        rw [← zpow_one_add₀ (by norm_num)]
        exact zpow_le_zpow_right₀ (by norm_num) (by omega)
      have hoverflow := overflow_le_ten_zpow
      linarith
    refine ⟨fun hroom => absurd hroom (not_lt.mpr (overflow_le_nearest hle)), fun _ => ?_⟩
    exact rfl
  next hlarge =>
    split
    next hsmall =>
      have hle : (digits : ℚ) * 10 ^ exponent ≤ 2 ^ (-1075 : ℤ) :=
        calc (digits : ℚ) * 10 ^ exponent ≤ 10 ^ (count + exponent) := hupper.le
          _ ≤ 10 ^ (-330 : ℤ) := zpow_le_zpow_right₀ (by norm_num) hsmall.le
          _ ≤ 2 ^ (-1075 : ℤ) := ten_zpow_le_two_zpow
      rw [nearest_eq_zero hq hle]
      refine ⟨fun _ => Denotes.zero .positive, fun hroom => ?_⟩
      exact absurd (two_zpow_pos 1024) (not_lt.mpr hroom)
    next hsmall => exact ofScientific_spec hpositive (by omega) (by omega)

end GridLookup
