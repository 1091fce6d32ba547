import GridLookup.Proofs.Nearest
import Mathlib.Algebra.Order.Field.Power
import Mathlib.Algebra.Order.Floor.Semifield

namespace GridLookup

/-!
# Arithmetic on mantissas and exponents

Doubles are calculated with as mantissas and exponents.  What is shifted out of a mantissa leaves
two residual bits, and these suffice to round the result to the nearest number.

* `Reads` — what a mantissa and its residual bits tell of a number; `Reads.shiftRight` keeps it.
* `Canonical`, `Denotes` — the mantissas and exponents of double precision, and their numbers.
* `denotes_roundWithAccuracy` — rounding goes to the nearest number.
* `Denotes.sub`, `Denotes.div`, `Denotes.mul` — so differences, quotients and products are the
  nearest numbers.
-/

open Float.Model UnpackedFloat

/-! ### Residual bits -/

/-- A mantissa with its residual bits tells where a positive number lies between whole ones. -/
structure Reads (extended : ExtendedMantissa) (t : ℚ) : Prop where
  /-- The number is not negative. -/
  nonneg : 0 ≤ t
  /-- The mantissa is its whole part. -/
  mantissa : extended.mantissa = ⌊t⌋₊
  /-- The round bit tells whether the rest is a half or more. -/
  roundBit : extended.roundBit = true ↔ ⌊t⌋₊ + 1 / 2 ≤ t
  /-- The sticky bit tells whether the rest is neither nothing nor a half. -/
  stickyBit : extended.stickyBit = true ↔ t ≠ ⌊t⌋₊ ∧ t ≠ ⌊t⌋₊ + 1 / 2

/-- One residual bit is set exactly if there is a rest. -/
theorem Reads.rest_iff {extended : ExtendedMantissa} {t : ℚ} (h : Reads extended t) :
    (extended.roundBit || extended.stickyBit) = true ↔ t ≠ ⌊t⌋₊ := by
  rw [Bool.or_eq_true, h.roundBit, h.stickyBit]
  constructor
  · rintro (hhalf | ⟨hne, -⟩)
    · intro heq
      linarith
    · exact hne
  · intro hne
    by_cases hhalf : t = ⌊t⌋₊ + 1 / 2
    · exact Or.inl hhalf.ge
    · exact Or.inr ⟨hne, hhalf⟩

/-- Shifting by one place halves what is read. -/
theorem Reads.shiftRightOne {extended : ExtendedMantissa} {t : ℚ} (h : Reads extended t) :
    Reads extended.shiftRightOne (t / 2) := by
  have hnonneg := h.nonneg
  have hmantissa := h.mantissa
  have hlower : (⌊t⌋₊ : ℚ) ≤ t := Nat.floor_le hnonneg
  have hupper : t < ⌊t⌋₊ + 1 := Nat.lt_floor_add_one t
  have hfloor : ⌊t / 2⌋₊ = ⌊t⌋₊ / 2 := Nat.floor_div_ofNat t 2
  have hhalves : (⌊t⌋₊ : ℚ) = 2 * (⌊t⌋₊ / 2 : ℕ) + (⌊t⌋₊ % 2 : ℕ) := by
    exact_mod_cast (Nat.div_add_mod ⌊t⌋₊ 2).symm
  -- The last bit of the mantissa becomes the round bit, the two residual bits the sticky bit.
  have hrest := h.rest_iff
  refine ⟨by positivity, by rw [hfloor, ← hmantissa]; rfl, ?_, ?_⟩
  · show (extended.mantissa % 2 != 0) = true ↔ _
    rw [bne_iff_ne, hmantissa, hfloor]
    rcases Nat.mod_two_eq_zero_or_one ⌊t⌋₊ with hbit | hbit <;> rw [hbit] at hhalves ⊢ <;>
      push_cast at hhalves
    · simp only [ne_eq, not_true_eq_false, false_iff, not_le]
      linarith
    · simp only [ne_eq, one_ne_zero, not_false_eq_true, true_iff]
      linarith
  · show (extended.roundBit || extended.stickyBit) = true ↔ _
    rw [hrest, hfloor]
    rcases Nat.mod_two_eq_zero_or_one ⌊t⌋₊ with hbit | hbit <;> rw [hbit] at hhalves <;>
      push_cast at hhalves
    · constructor
      · intro hne
        exact ⟨fun heq => hne (by linarith), fun heq => by linarith⟩
      · rintro ⟨hne, -⟩ heq
        exact hne (by linarith)
    · constructor
      · intro hne
        exact ⟨fun heq => by linarith, fun heq => hne (by linarith)⟩
      · rintro ⟨-, hne⟩ heq
        exact hne (by linarith)

/-- Shifting by some places divides what is read by that power of two. -/
theorem Reads.shiftRight {extended : ExtendedMantissa} {t : ℚ} (h : Reads extended t) (n : ℕ) :
    Reads (extended >>> n) (t / 2 ^ n) := by
  induction n with
  | zero =>
    rw [pow_zero, div_one]
    exact h
  | succ n ih =>
    rw [pow_succ, ← div_div]
    exact ih.shiftRightOne

/-- What is read is rounded to the nearest whole number. -/
theorem Reads.roundedMantissa {extended : ExtendedMantissa} {t : ℚ} (h : Reads extended t) :
    extended.roundedMantissa = nearestEven t := by
  obtain ⟨mantissa, roundBit, stickyBit⟩ := extended
  obtain ⟨-, hmantissa, hround, hsticky⟩ := h
  dsimp only at hmantissa hround hsticky
  subst hmantissa
  unfold nearestEven
  -- The round bit tells whether at least a half is left, the sticky bit whether something other
  -- than nothing or a half is.
  cases roundBit with
  | false =>
    have hlt : t < ⌊t⌋₊ + 1 / 2 := not_le.mp fun hle => Bool.false_ne_true (hround.mpr hle)
    rw [if_pos hlt]
    cases stickyBit <;> rfl
  | true =>
    have hle : ⌊t⌋₊ + 1 / 2 ≤ t := hround.mp rfl
    rw [if_neg (not_lt.mpr hle)]
    cases stickyBit with
    | false =>
      have heq : t = ⌊t⌋₊ + 1 / 2 := by
        by_contra hne
        exact Bool.false_ne_true (hsticky.mpr ⟨fun heq => by linarith, hne⟩)
      rw [if_neg (by linarith)]
      rfl
    | true =>
      have hlt : ⌊t⌋₊ + 1 / 2 < t := lt_of_le_of_ne hle (hsticky.mp rfl).2.symm
      rw [if_pos hlt]
      rfl

/-- A mantissa on its own is read as it is. -/
theorem reads_exact (mantissa : ℕ) : Reads (.ofMantissaAndAccuracy mantissa .exact) mantissa := by
  refine ⟨Nat.cast_nonneg _, (Nat.floor_natCast _).symm, ?_, ?_⟩ <;>
    simp [ExtendedMantissa.ofMantissaAndAccuracy]

/-- The residual bits of a remainder compare its double with the divisor. -/
theorem bits_accuracyOfFraction (mantissa num : ℕ) {den : ℕ} (hden : 0 < den) :
    let extended := ExtendedMantissa.ofMantissaAndAccuracy mantissa (accuracyOfFraction num den)
    extended.mantissa = mantissa ∧ (extended.roundBit = true ↔ den ≤ 2 * num) ∧
      (extended.stickyBit = true ↔ num ≠ 0 ∧ 2 * num ≠ den) := by
  dsimp only
  unfold accuracyOfFraction
  by_cases hzero : num = 0
  · rw [if_pos hzero, hzero]
    refine ⟨rfl, ?_, ?_⟩ <;> simp [ExtendedMantissa.ofMantissaAndAccuracy, hden.ne']
  rw [if_neg hzero]
  rcases lt_trichotomy (2 * num) den with hlt | heq | hgt
  · rw [compare_lt_iff_lt.mpr hlt]
    refine ⟨rfl, ?_, ?_⟩ <;> simp [ExtendedMantissa.ofMantissaAndAccuracy] <;> omega
  · rw [compare_eq_iff_eq.mpr heq]
    refine ⟨rfl, ?_, ?_⟩ <;> simp [ExtendedMantissa.ofMantissaAndAccuracy] <;> omega
  · rw [compare_gt_iff_gt.mpr hgt]
    refine ⟨rfl, ?_, ?_⟩ <;> simp [ExtendedMantissa.ofMantissaAndAccuracy] <;> omega

/-- The residual bits of a quotient are those of its remainder. -/
theorem reads_fraction (num : ℕ) {den : ℕ} (hden : 0 < den) :
    Reads (.ofMantissaAndAccuracy (num / den) (accuracyOfFraction (num % den) den))
      (num / den) := by
  have hpositive : (0 : ℚ) < den := by exact_mod_cast hden
  have hfloor : ⌊(num : ℚ) / den⌋₊ = num / den := Nat.floor_div_eq_div num den
  have hnum : (num : ℚ) = den * (num / den : ℕ) + (num % den : ℕ) := by
    exact_mod_cast (Nat.div_add_mod num den).symm
  -- The quotient is its whole part, which is the mantissa, and the remainder over the divisor,
  -- which is what the bits tell of.
  have hparts : (num : ℚ) / den = (num / den : ℕ) + (num % den : ℕ) / den := by
    rw [eq_comm, ← eq_sub_iff_add_eq', div_eq_iff hpositive.ne', sub_mul,
      div_mul_cancel₀ _ hpositive.ne']
    linarith
  obtain ⟨hmantissa, hround, hsticky⟩ := bits_accuracyOfFraction (num / den) (num % den) hden
  refine ⟨by positivity, hmantissa.trans hfloor.symm, ?_, ?_⟩
  · rw [hround, hfloor, hparts, add_le_add_iff_left, le_div_iff₀ hpositive,
      ← Nat.cast_le (α := ℚ)]
    push_cast
    constructor <;> intro h <;> linarith
  · have hhalf : ((num % den : ℕ) : ℚ) = 1 / 2 * den ↔ 2 * (num % den) = den := by
      rw [← Nat.cast_inj (R := ℚ)]
      push_cast
      constructor <;> intro h <;> linarith
    rw [hsticky, hfloor, hparts, ne_eq, ne_eq, ne_eq, ne_eq, add_eq_left, add_right_inj,
      div_eq_zero_iff, Nat.cast_eq_zero, or_iff_left hpositive.ne', div_eq_iff hpositive.ne', hhalf]

/-! ### Numbers denoted -/

/-- A mantissa and an exponent as a double has them: as many digits as there is room for, and fewer
    only with the least exponent.  There is no largest exponent. -/
structure Canonical (mantissa : ℕ) (exponent : ℤ) : Prop where
  /-- The exponent is not too small. -/
  least : -1074 ≤ exponent
  /-- The mantissa has room. -/
  room : mantissa < 2 ^ 53
  /-- It is used, unless the exponent is the least one. -/
  full : -1074 < exponent → 2 ^ 52 ≤ mantissa

/-- The number that a finite value stands for. -/
inductive Denotes : UnpackedFloat → ℚ → Prop where
  /-- Either zero. -/
  | zero (sign : Sign) : Denotes (.zero sign) 0
  /-- A mantissa scaled by a power of two. -/
  | finite (sign : Sign) {mantissa : ℕ} {exponent : ℤ} (positive : 0 < mantissa)
      (canonical : Canonical mantissa exponent) :
      Denotes (.finite sign mantissa exponent positive) (sign.apply mantissa * 2 ^ exponent)

/-- The exponent aimed at leaves 53 digits, unless it would be below the least one. -/
theorem targetExponent_eq (total : ℤ) :
    Format.binary64.targetExponent total = max (total - 53) (-1074) := rfl

/-- The leading digit of a number is that of its whole multiple of any power of two. -/
theorem log_eq_of_floor {q : ℚ} {mantissa : ℕ} {exponent : ℤ} (hmantissa : 0 < mantissa)
    (hlower : mantissa * 2 ^ exponent ≤ q) (hupper : q < (mantissa + 1 : ℕ) * 2 ^ exponent) :
    Int.log 2 q = mantissa.log2 + exponent := by
  have hscale := two_zpow_pos exponent
  have hq : 0 < q := (mul_pos (Nat.cast_pos.mpr hmantissa) hscale).trans_le hlower
  -- The mantissa and its successor lie between the same two powers of two.
  have hle : (2 : ℚ) ^ mantissa.log2 ≤ mantissa := by
    exact_mod_cast Nat.log2_self_le hmantissa.ne'
  have hlt : ((mantissa + 1 : ℕ) : ℚ) ≤ 2 ^ (mantissa.log2 + 1) := by
    exact_mod_cast (Nat.lt_log2_self : mantissa < 2 ^ (mantissa.log2 + 1))
  refine le_antisymm (Int.lt_add_one_iff.mp ?_) ?_
  · have hpower : ((2 : ℕ) : ℚ) ^ (mantissa.log2 + exponent + 1)
        = 2 ^ (mantissa.log2 + 1) * 2 ^ exponent := by
      rw [← zpow_natCast, Nat.cast_two, ← zpow_add₀ (by norm_num)]
      congr 1
      push_cast
      ring
    refine (Int.lt_zpow_iff_log_lt (by norm_num) hq).mp (hupper.trans_le ?_)
    rw [hpower]
    exact mul_le_mul_of_nonneg_right hlt hscale.le
  · refine (Int.zpow_le_iff_le_log (by norm_num) hq).mp (le_trans ?_ hlower)
    rw [Nat.cast_two, zpow_add₀ (by norm_num), zpow_natCast]
    exact mul_le_mul_of_nonneg_right hle hscale.le

/-- The leading digit of a number is that of its mantissa, moved by the exponent. -/
theorem log_mul_zpow {mantissa : ℕ} (hmantissa : 0 < mantissa) (exponent : ℤ) :
    Int.log 2 ((mantissa : ℚ) * 2 ^ exponent) = mantissa.log2 + exponent := by
  refine log_eq_of_floor hmantissa le_rfl (mul_lt_mul_of_pos_right ?_ (two_zpow_pos exponent))
  exact_mod_cast Nat.lt_succ_self mantissa

/-- The exponent of the last place is found from the leading digit of what has been calculated. -/
theorem targetExponent_eq_lastPlace {q : ℚ} (hq : 0 < q) {mantissa : ℕ} {exponent : ℤ}
    (hfits : exponent ≤ lastPlace q) (hmantissa : mantissa = ⌊q / 2 ^ exponent⌋₊) :
    Format.binary64.targetExponent (totalExponent mantissa exponent) = lastPlace q := by
  have hscale := two_zpow_pos exponent
  have hupper : q < (mantissa + 1 : ℕ) * 2 ^ exponent := by
    rw [← div_lt_iff₀ hscale, hmantissa]
    exact_mod_cast Nat.lt_floor_add_one (q / 2 ^ exponent)
  rw [targetExponent_eq, totalExponent]
  unfold lastPlace at hfits ⊢
  rcases Nat.eq_zero_or_pos mantissa with hzero | hpositive
  · -- Nothing is left of the number, so it is below the least exponent.
    have hlog : Int.log 2 q < exponent := by
      refine (Int.lt_zpow_iff_log_lt (by norm_num) hq).mp ?_
      simpa [hzero] using hupper
    rw [hzero, Nat.log2_zero]
    omega
  · have hlower : mantissa * 2 ^ exponent ≤ q := by
      rw [← le_div_iff₀ hscale, hmantissa]
      exact Nat.floor_le (by positivity)
    rw [log_eq_of_floor hpositive hlower hupper]
    omega

/-- What has been calculated to enough places is shifted to the last place, which leaves the number
    of units to round. -/
theorem shiftToTargetExponent_of_reads {q : ℚ} (hq : 0 < q) {mantissa : ℕ} {exponent : ℤ}
    {accuracy : Accuracy} (hfits : exponent ≤ lastPlace q)
    (h : Reads (.ofMantissaAndAccuracy mantissa accuracy) (q / 2 ^ exponent)) :
    ∃ extended, shiftToTargetExponent .binary64 mantissa exponent accuracy
        = (extended, lastPlace q) ∧
      extended.roundedMantissa = nearestUnits q := by
  -- The mantissa is the whole part already, so the last place is known before any shift.
  have hmantissa : mantissa = ⌊q / 2 ^ exponent⌋₊ := by
    rw [← h.mantissa]
    cases accuracy with
    | exact => rfl
    | inexact half => cases half <;> rfl
  have hamount : exponent + (lastPlace q - exponent).toNat = lastPlace q := by omega
  unfold shiftToTargetExponent shiftToExponent
  rw [targetExponent_eq_lastPlace hq hfits hmantissa]
  dsimp only
  rw [hamount]
  refine ⟨_, rfl, ?_⟩
  rw [(h.shiftRight _).roundedMantissa, div_div, ← zpow_natCast, ← zpow_add₀ (by norm_num), hamount]
  rfl

/-- Rounding may fill up the mantissa, and then it is shifted once more. -/
theorem shiftToTargetExponent_exact {units : ℕ} {place : ℤ} (hplace : -1074 ≤ place)
    (hunits : units ≤ 2 ^ 53) :
    ∃ extended, shiftToTargetExponent .binary64 units place .exact
      = (extended, if units = 2 ^ 53 then place + 1 else place) ∧
      extended.mantissa = if units = 2 ^ 53 then 2 ^ 52 else units := by
  unfold shiftToTargetExponent shiftToExponent
  rw [targetExponent_eq, totalExponent]
  dsimp only
  by_cases hfull : units = 2 ^ 53
  · have hlog : units.log2 = 53 := by rw [hfull, Nat.log2_two_pow]
    have hamount : (max ((units.log2 : ℤ) + 1 + place - 53) (-1074) - place).toNat = 1 := by omega
    rw [if_pos hfull, if_pos hfull, hamount, hfull]
    exact ⟨_, rfl, rfl⟩
  · have hlog : units.log2 < 53 := by
      rcases Nat.eq_zero_or_pos units with hzero | hpositive
      · rw [hzero]
        decide
      · exact (Nat.log2_lt hpositive.ne').mpr (lt_of_le_of_ne hunits hfull)
    have hamount : (max ((units.log2 : ℤ) + 1 + place - 53) (-1074) - place).toNat = 0 := by omega
    rw [if_neg hfull, if_neg hfull, hamount]
    exact ⟨_, by rw [Int.natCast_zero, add_zero], rfl⟩

/-- A full mantissa is shifted without loss. -/
theorem nearest_eq_shifted (q : ℚ) :
    nearest q = (if nearestUnits q = 2 ^ 53 then 2 ^ 52 else nearestUnits q : ℕ)
      * 2 ^ (if nearestUnits q = 2 ^ 53 then lastPlace q + 1 else lastPlace q) := by
  unfold nearest
  split
  · next hfull =>
    rw [hfull, zpow_add_one₀ (by norm_num)]
    push_cast
    ring
  · rfl

/-- The rounded number is canonical, with a mantissa that was filled up taken to the next
    place. -/
theorem canonical_shifted {q : ℚ} (hq : 0 < q) :
    Canonical (if nearestUnits q = 2 ^ 53 then 2 ^ 52 else nearestUnits q)
      (if nearestUnits q = 2 ^ 53 then lastPlace q + 1 else lastPlace q) := by
  have hleast := neg_le_lastPlace q
  split
  · exact ⟨by omega, by norm_num, fun _ => le_rfl⟩
  · next hroom =>
    exact ⟨hleast, lt_of_le_of_ne (nearestUnits_le q) hroom, fun hlt => le_nearestUnits hq hlt⟩

/-- **Rounding.**  A positive number that has been calculated to enough places is rounded to the
    nearest one of double precision. -/
theorem denotes_roundWithAccuracy {q : ℚ} (hq : 0 < q) {mantissa : ℕ} {exponent : ℤ}
    {accuracy : Accuracy} (hfits : exponent ≤ lastPlace q)
    (h : Reads (.ofMantissaAndAccuracy mantissa accuracy) (q / 2 ^ exponent)) :
    Denotes (roundWithAccuracy .binary64 .positive mantissa exponent accuracy) (nearest q) := by
  -- The first shift rounds to the last place; the second one takes back a mantissa that has been
  -- filled up by rounding.
  obtain ⟨extended, hshift, hunits⟩ := shiftToTargetExponent_of_reads hq hfits h
  obtain ⟨final, hfinal, hmantissa⟩ :=
    shiftToTargetExponent_exact (neg_le_lastPlace q) (nearestUnits_le q)
  have hcanonical := canonical_shifted hq
  have hvalue := nearest_eq_shifted q
  rw [← hmantissa] at hcanonical hvalue
  unfold roundWithAccuracy
  rw [hshift]
  dsimp only
  rw [hunits, hfinal]
  dsimp only
  by_cases hzero : final.mantissa = 0
  · rw [dif_pos hzero, hvalue, hzero, Nat.cast_zero, zero_mul]
    exact .zero .positive
  · rw [dif_neg hzero, hvalue]
    exact .finite .positive (Nat.pos_of_ne_zero hzero) hcanonical

/-! ### Differences, quotients and products -/

/-- Digits may be appended to a mantissa. -/
theorem shiftLeft_mul_zpow (mantissa amount : ℕ) (exponent : ℤ) :
    ((mantissa <<< amount : ℕ) : ℚ) * 2 ^ (exponent - amount) = mantissa * 2 ^ exponent := by
  have hpower : (2 : ℚ) ^ exponent = 2 ^ amount * 2 ^ (exponent - amount) := by
    rw [← zpow_natCast, ← zpow_add₀ (by norm_num), add_sub_cancel]
  rw [Nat.shiftLeft_eq, hpower]
  push_cast
  ring

/-- A mantissa gets a smaller exponent. -/
theorem apply_shiftLeft_mul_zpow (sign : Sign) (mantissa : ℕ) {exponent low : ℤ}
    (h : low ≤ exponent) :
    (sign.apply (mantissa <<< (exponent - low).toNat : ℕ) : ℚ) * 2 ^ low
      = sign.apply mantissa * 2 ^ exponent := by
  have hamount : exponent - (exponent - low).toNat = low := by omega
  have hshift := shiftLeft_mul_zpow mantissa (exponent - low).toNat exponent
  rw [hamount] at hshift
  cases sign with
  | positive => simpa only [Sign.apply, Int.cast_natCast] using hshift
  | negative =>
    simpa only [Sign.apply, Int.cast_neg, Int.cast_natCast, neg_mul, neg_inj] using hshift

/-- Rounding gives the nearest number. -/
theorem denotes_round {mantissa : ℕ} (hmantissa : 0 < mantissa) (exponent : ℤ) :
    Denotes (UnpackedFloat.round .binary64 .positive mantissa exponent)
      (nearest (mantissa * 2 ^ exponent)) := by
  have hq : 0 < (mantissa : ℚ) * 2 ^ exponent :=
    mul_pos (Nat.cast_pos.mpr hmantissa) (two_zpow_pos exponent)
  have htarget : Format.binary64.targetExponent (totalExponent mantissa exponent)
      = lastPlace (mantissa * 2 ^ exponent) := by
    rw [targetExponent_eq, totalExponent, lastPlace, log_mul_zpow hmantissa]
    omega
  unfold UnpackedFloat.round decreaseExponent
  rw [htarget]
  dsimp only
  refine denotes_roundWithAccuracy hq (by omega) ?_
  generalize (exponent - lastPlace (mantissa * 2 ^ exponent)).toNat = amount
  rw [← shiftLeft_mul_zpow mantissa amount exponent,
    mul_div_cancel_right₀ _ (two_zpow_pos _).ne']
  exact reads_exact _

/-- The last place of a number of double precision is its exponent. -/
theorem lastPlace_of_canonical {mantissa : ℕ} {exponent : ℤ} (hmantissa : 0 < mantissa)
    (h : Canonical mantissa exponent) : lastPlace (mantissa * 2 ^ exponent) = exponent := by
  have hroom : mantissa.log2 < 53 := (Nat.log2_lt hmantissa.ne').mpr h.room
  have hleast := h.least
  rw [lastPlace, log_mul_zpow hmantissa]
  by_cases hfull : -1074 < exponent
  · have hlog : 52 ≤ mantissa.log2 := (Nat.le_log2 hmantissa.ne').mpr (h.full hfull)
    omega
  · omega

/-- A canonical mantissa is the number of units it has. -/
theorem nearestUnits_of_canonical {mantissa : ℕ} {exponent : ℤ} (hmantissa : 0 < mantissa)
    (h : Canonical mantissa exponent) : nearestUnits (mantissa * 2 ^ exponent) = mantissa := by
  rw [nearestUnits, lastPlace_of_canonical hmantissa h,
    mul_div_cancel_right₀ _ (two_zpow_pos exponent).ne', nearestEven_natCast]

/-- Numbers of double precision are kept. -/
theorem nearest_of_canonical {mantissa : ℕ} {exponent : ℤ} (hmantissa : 0 < mantissa)
    (h : Canonical mantissa exponent) :
    nearest (mantissa * 2 ^ exponent) = mantissa * 2 ^ exponent := by
  rw [nearest, nearestUnits_of_canonical hmantissa h, lastPlace_of_canonical hmantissa h]

/-- A positive number has a mantissa. -/
theorem Denotes.exists_positive {u : UnpackedFloat} {q : ℚ} (h : Denotes u q) (hq : 0 < q) :
    ∃ mantissa exponent positive, u = .finite .positive mantissa exponent positive ∧
      Canonical mantissa exponent ∧ q = mantissa * 2 ^ exponent := by
  cases h with
  | zero => exact absurd hq (lt_irrefl 0)
  | @finite sign mantissa exponent positive canonical =>
    have hmagnitude : 0 < (mantissa : ℚ) * 2 ^ exponent :=
      mul_pos (Nat.cast_pos.mpr positive) (two_zpow_pos exponent)
    cases sign with
    | positive => exact ⟨mantissa, exponent, positive, rfl, canonical, by simp [Sign.apply]⟩
    | negative =>
      simp only [Sign.apply, Int.cast_neg, Int.cast_natCast, neg_mul] at hq
      linarith

/-- A positive difference of mantissas is rounded to the nearest. -/
theorem denotes_normalize {mantissa : ℤ} {exponent : ℤ} (zeroSign : Sign) (h : 0 < mantissa) :
    Denotes (UnpackedFloat.normalize .binary64 mantissa exponent zeroSign)
      (nearest (mantissa * 2 ^ exponent)) := by
  have hcast : ((mantissa.toNat : ℕ) : ℚ) = mantissa := by
    exact_mod_cast Int.toNat_of_nonneg h.le
  unfold UnpackedFloat.normalize
  rw [compare_gt_iff_gt.mpr h, ← hcast]
  exact denotes_round (by omega) exponent

/-- A double is not rounded. -/
theorem Denotes.nearest_eq {u : UnpackedFloat} {q : ℚ} (h : Denotes u q) (hq : 0 < q) :
    nearest q = q := by
  obtain ⟨mantissa, exponent, hmantissa, -, hcanonical, rfl⟩ := h.exists_positive hq
  exact nearest_of_canonical hmantissa hcanonical

/-- Zero has no mantissa. -/
theorem Denotes.exists_zero {u : UnpackedFloat} (h : Denotes u 0) : ∃ sign, u = .zero sign := by
  generalize hvalue : (0 : ℚ) = q at h
  cases h with
  | zero sign => exact ⟨sign, rfl⟩
  | @finite sign mantissa exponent positive canonical =>
    have hmagnitude : 0 < (mantissa : ℚ) * 2 ^ exponent :=
      mul_pos (Nat.cast_pos.mpr positive) (two_zpow_pos exponent)
    cases sign <;> simp only [Sign.apply] at hvalue <;> push_cast at hvalue <;> linarith

/-- Changing the sign changes that of the number. -/
theorem denotes_neg (sign : Sign) {mantissa : ℕ} {exponent : ℤ} (positive : 0 < mantissa)
    (canonical : Canonical mantissa exponent) :
    Denotes (.finite (-sign) mantissa exponent positive)
      (-(sign.apply mantissa * 2 ^ exponent)) := by
  have hsign : (((-sign).apply mantissa : ℤ) : ℚ) = -(sign.apply mantissa : ℤ) := by
    cases sign <;> simp [Sign.apply]
  rw [← neg_mul, ← hsign]
  exact .finite (-sign) positive canonical

/-- **Differences** are rounded to the nearest. -/
theorem Denotes.sub {u v : UnpackedFloat} {q r : ℚ} (hu : Denotes u q) (hv : Denotes v r)
    (h : r < q) : Denotes (u.sub .binary64 v) (nearest (q - r)) := by
  cases hu with
  | zero =>
    cases hv with
    | zero => exact absurd h (lt_irrefl 0)
    | @finite sign mantissa exponent positive canonical =>
      -- The subtrahend with its sign changed is taken as it is.
      have hnegated := denotes_neg sign positive canonical
      rw [zero_sub, hnegated.nearest_eq (neg_pos.mpr h)]
      exact hnegated
  | @finite sign mantissa exponent positive canonical =>
    have hu := Denotes.finite sign positive canonical
    cases hv with
    | zero =>
      rw [sub_zero, hu.nearest_eq h]
      exact hu
    | @finite sign' mantissa' exponent' positive' canonical' =>
      -- Both mantissas get the smaller exponent, and are subtracted exactly.
      have hleft := apply_shiftLeft_mul_zpow sign mantissa (min_le_left exponent exponent')
      have hright := apply_shiftLeft_mul_zpow sign' mantissa' (min_le_right exponent exponent')
      have hdifference := sub_pos.mpr h
      rw [← hleft, ← hright, ← sub_mul, ← Int.cast_sub] at hdifference ⊢
      refine denotes_normalize .positive ?_
      exact_mod_cast (mul_pos_iff_of_pos_right (two_zpow_pos _)).mp hdifference

/-- The last place of a quotient is not overestimated from the leading digits of its operands. -/
theorem le_lastPlace_div {q r : ℚ} (hq : 0 < q) (hr : 0 < r) :
    max (Int.log 2 q - Int.log 2 r - 53) (-1074) ≤ lastPlace (q / r) := by
  -- The quotient of two numbers may have its leading digit one place lower than those of the
  -- operands suggest.
  have hlog : Int.log 2 q - Int.log 2 r - 1 ≤ Int.log 2 (q / r) := by
    refine (Int.zpow_le_iff_le_log (by norm_num) (div_pos hq hr)).mp ?_
    have hlower : (2 : ℚ) ^ Int.log 2 q ≤ q := by
      exact_mod_cast Int.zpow_log_le_self (by norm_num : 1 < 2) hq
    have hupper : r < 2 ^ (Int.log 2 r + 1) := by
      exact_mod_cast Int.lt_zpow_succ_log_self (by norm_num : 1 < 2) r
    rw [le_div_iff₀ hr, Nat.cast_two]
    calc (2 : ℚ) ^ (Int.log 2 q - Int.log 2 r - 1) * r
        ≤ 2 ^ (Int.log 2 q - Int.log 2 r - 1) * 2 ^ (Int.log 2 r + 1) :=
          mul_le_mul_of_nonneg_left hupper.le (two_zpow_pos _).le
      _ = 2 ^ Int.log 2 q := by
          rw [← zpow_add₀ (by norm_num)]
          congr 1
          ring
      _ ≤ q := hlower
  unfold lastPlace
  omega

/-- A quotient of mantissas and exponents is rounded to the nearest number. -/
theorem denotes_div {m₁ m₂ : ℕ} (hm₁ : 0 < m₁) (hm₂ : 0 < m₂) (e₁ e₂ : ℤ) :
    Denotes (UnpackedFloat.div .binary64 (.finite .positive m₁ e₁ hm₁)
      (.finite .positive m₂ e₂ hm₂))
      (nearest (m₁ * 2 ^ e₁ / (m₂ * 2 ^ e₂))) := by
  have hq : 0 < (m₁ : ℚ) * 2 ^ e₁ := mul_pos (Nat.cast_pos.mpr hm₁) (two_zpow_pos e₁)
  have hr : 0 < (m₂ : ℚ) * 2 ^ e₂ := mul_pos (Nat.cast_pos.mpr hm₂) (two_zpow_pos e₂)
  have hplace := le_lastPlace_div hq hr
  rw [log_mul_zpow hm₁, log_mul_zpow hm₂] at hplace
  show Denotes (roundWithAccuracy .binary64 .positive _ _ _) _
  have htarget : Format.binary64.targetExponent (totalExponent m₁ e₁ - totalExponent m₂ e₂)
      = max (m₁.log2 + e₁ - (m₂.log2 + e₂) - 53) (-1074) := by
    rw [targetExponent_eq, totalExponent, totalExponent]
    congr 2
    ring
  rw [htarget]
  generalize hexponent : min (e₁ - e₂) (max (m₁.log2 + e₁ - (m₂.log2 + e₂) - 53) (-1074)) = exponent
  refine denotes_roundWithAccuracy (div_pos hq hr) (by omega) ?_
  -- The digits of the dividend that are appended make up for the smaller exponent.
  obtain ⟨amount, hamount⟩ : ∃ amount : ℕ, (e₁ - e₂ - exponent).toNat = amount ∧
    exponent = e₁ - amount - e₂ := ⟨_, rfl, by omega⟩
  have hscaled : (m₁ : ℚ) * 2 ^ e₁ / (m₂ * 2 ^ e₂) / 2 ^ exponent
      = ((m₁ <<< amount : ℕ) : ℚ) / m₂ := by
    have hdifference := zpow_sub₀ (two_ne_zero : (2 : ℚ) ≠ 0) (e₁ - amount) e₂
    have hscale := (two_zpow_pos e₂).ne'
    have hscale' := (two_zpow_pos (e₁ - amount)).ne'
    rw [hamount.2, hdifference, ← shiftLeft_mul_zpow m₁ amount e₁]
    generalize (2 : ℚ) ^ (e₁ - amount) = scale at hscale' ⊢
    field_simp
  rw [hamount.1, hscaled]
  exact reads_fraction _ hm₂

/-- **Quotients** are rounded to the nearest. -/
theorem Denotes.div {u v : UnpackedFloat} {q r : ℚ} (hu : Denotes u q) (hv : Denotes v r)
    (hq : 0 < q) (hr : 0 < r) : Denotes (u.div .binary64 v) (nearest (q / r)) := by
  obtain ⟨m₁, e₁, hm₁, rfl, -, rfl⟩ := hu.exists_positive hq
  obtain ⟨m₂, e₂, hm₂, rfl, -, rfl⟩ := hv.exists_positive hr
  exact denotes_div hm₁ hm₂ e₁ e₂

/-- A product of mantissas and exponents is rounded to the nearest number, if the exponents are not
    too large. -/
theorem denotes_mul {m₁ m₂ : ℕ} (hm₁ : 0 < m₁) (hm₂ : 0 < m₂) {e₁ e₂ : ℤ}
    (hfits : e₁ + e₂ ≤ lastPlace (m₁ * 2 ^ e₁ * (m₂ * 2 ^ e₂))) :
    Denotes (UnpackedFloat.mul .binary64 (.finite .positive m₁ e₁ hm₁)
      (.finite .positive m₂ e₂ hm₂))
      (nearest (m₁ * 2 ^ e₁ * (m₂ * 2 ^ e₂))) := by
  have hproduct : (m₁ : ℚ) * 2 ^ e₁ * (m₂ * 2 ^ e₂) = (m₁ * m₂ : ℕ) * 2 ^ (e₁ + e₂) := by
    rw [zpow_add₀ (by norm_num)]
    push_cast
    ring
  have hq : 0 < (m₁ : ℚ) * 2 ^ e₁ * (m₂ * 2 ^ e₂) := by positivity
  show Denotes (roundWithAccuracy .binary64 .positive (m₁ * m₂) (e₁ + e₂) .exact) _
  refine denotes_roundWithAccuracy hq hfits ?_
  rw [hproduct, mul_div_cancel_right₀ _ (two_zpow_pos _).ne']
  exact reads_exact _

/-- **Products** are rounded to the nearest. -/
theorem Denotes.mul {u v : UnpackedFloat} {q r : ℚ} (hu : Denotes u q) (hv : Denotes v r)
    (hq : 0 < q) (hr : 0 < r) : Denotes (u.mul .binary64 v) (nearest (q * r)) := by
  obtain ⟨m₁, e₁, hm₁, rfl, h₁, rfl⟩ := hu.exists_positive hq
  obtain ⟨m₂, e₂, hm₂, rfl, h₂, rfl⟩ := hv.exists_positive hr
  refine denotes_mul hm₁ hm₂ ?_
  have hproduct : (m₁ : ℚ) * 2 ^ e₁ * (m₂ * 2 ^ e₂) = (m₁ * m₂ : ℕ) * 2 ^ (e₁ + e₂) := by
    rw [zpow_add₀ (by norm_num)]
    push_cast
    ring
  rw [hproduct, lastPlace, log_mul_zpow (Nat.mul_pos hm₁ hm₂)]
  -- One of the mantissas is full, or both exponents are the least ones.
  have hle₁ : m₁.log2 ≤ (m₁ * m₂).log2 := by
    rw [Nat.log2_eq_log_two, Nat.log2_eq_log_two]
    exact Nat.log_mono_right (Nat.le_mul_of_pos_right m₁ hm₂)
  have hle₂ : m₂.log2 ≤ (m₁ * m₂).log2 := by
    rw [Nat.log2_eq_log_two, Nat.log2_eq_log_two]
    exact Nat.log_mono_right (Nat.le_mul_of_pos_left m₂ hm₁)
  by_cases hfull₁ : -1074 < e₁
  · have hlog : 52 ≤ m₁.log2 := (Nat.le_log2 hm₁.ne').mpr (h₁.full hfull₁)
    omega
  by_cases hfull₂ : -1074 < e₂
  · have hlog : 52 ≤ m₂.log2 := (Nat.le_log2 hm₂.ne').mpr (h₂.full hfull₂)
    omega
  · omega

end GridLookup
