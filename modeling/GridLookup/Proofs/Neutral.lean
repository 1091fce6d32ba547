import GridLookup.Proofs.Double

namespace GridLookup

/-!
# Neutral operands

In double precision a factor of one changes nothing, and neither does a summand of zero, except that
it may change the sign of a zero.

* `roundWithAccuracy_canonical` — what is a double is not rounded.
* `one_mul_double` — products with one.
* `Agree` — two results that differ at most in the sign of a zero.
* `zero_add_double`, `agree_zero_add` — sums that begin with zero.
-/

open Float.Model UnpackedFloat

/-! ### Results that are doubles -/

variable {x y : Float}

/-- Sums are those of the fields, packed again. -/
theorem unpack_add (x y : Float) : (x + y).toModel.unpack
    = unpack .binary64 (pack .binary64 (x.toModel.unpack.add .binary64 y.toModel.unpack)) := rfl

/-- Mantissas that end in zeros are shifted back without loss. -/
theorem roundWithAccuracy_canonical (sign : Sign) {mantissa : ℕ} {exponent : ℤ}
    (positive : 0 < mantissa) (h : Canonical mantissa exponent) (amount : ℕ) :
    roundWithAccuracy .binary64 sign (2 ^ amount * mantissa) (-amount + exponent) .exact
      = .finite sign mantissa exponent positive := by
  have hq : 0 < (mantissa : ℚ) * 2 ^ exponent :=
    mul_pos (Nat.cast_pos.mpr positive) (two_zpow_pos exponent)
  have hplace := lastPlace_of_canonical positive h
  have hunits := nearestUnits_of_canonical positive h
  have hreads : Reads (.ofMantissaAndAccuracy (2 ^ amount * mantissa) .exact)
      (mantissa * 2 ^ exponent / 2 ^ (-amount + exponent : ℤ)) := by
    have hscaled : (mantissa : ℚ) * 2 ^ exponent / 2 ^ (-amount + exponent : ℤ)
        = (2 ^ amount * mantissa : ℕ) := by
      rw [zpow_add₀ two_ne_zero, zpow_neg, zpow_natCast]
      have := (two_zpow_pos exponent).ne'
      push_cast
      field_simp
    rw [hscaled]
    exact reads_exact _
  have hfits : -(amount : ℤ) + exponent ≤ lastPlace (mantissa * 2 ^ exponent) := by
    rw [hplace]
    omega
  -- The first shift undoes `amount`, and nothing is left for the second one.
  obtain ⟨extended, hshift, hrounded⟩ := shiftToTargetExponent_of_reads hq hfits hreads
  obtain ⟨final, hfinal, hmantissa⟩ := shiftToTargetExponent_exact h.least h.room.le
  rw [if_neg h.room.ne] at hfinal hmantissa
  unfold roundWithAccuracy
  rw [hshift]
  dsimp only
  rw [hrounded, hunits, hplace, hfinal]
  dsimp only
  rw [dif_neg (by omega)]
  simp only [hmantissa]

/-! ### Products with one -/

/-- Multiplying by one keeps the fields. -/
theorem mul_unpacked_one {u : UnpackedFloat} {q : ℚ} (h : Denotes u q) :
    UnpackedFloat.mul .binary64 (1.0 : Float).toModel.unpack u = u := by
  have hone : (1.0 : Float).toModel.unpack = .finite .positive (2 ^ 52) (-52) (by norm_num) :=
    rfl
  rw [hone]
  cases h with
  | zero sign => cases sign <;> rfl
  | finite sign positive canonical =>
    cases sign with
    | positive => exact roundWithAccuracy_canonical .positive positive canonical 52
    | negative => exact roundWithAccuracy_canonical .negative positive canonical 52

/-- **Products with one** are the other factor. -/
theorem one_mul_double (x : Float) : 1.0 * x = x := by
  apply eq_of_unpack
  have hsame : UnpackedFloat.mul .binary64 (1.0 : Float).toModel.unpack x.toModel.unpack
      = x.toModel.unpack := by
    rcases unpack_kinds x.toModel.toBits.toBitVec with hnan | ⟨sign, hinfinite⟩ | ⟨q, hq⟩
    · rw [show x.toModel.unpack = .notANumber from hnan]
      rfl
    · rw [show x.toModel.unpack = .infinity sign from hinfinite]
      cases sign <;> rfl
    · exact mul_unpacked_one hq
  rw [unpack_mul, hsame, unpack_pack_unpack]

/-! ### Sums with zero -/

/-- Both doubles are undefined, or they are numerically equal. -/
def Agree (x y : Float) : Prop := x.isNaN = true ∧ y.isNaN = true ∨ Scalar.eq x y = true

/-- The undefined number has fields of its own. -/
theorem isNaN_iff_unpack : x.isNaN = true ↔ x.toModel.unpack = .notANumber := isNaN_iff

/-- Doubles are equal if their fields are, or if both are zero. -/
theorem eq_iff_unpack : Scalar.eq x y = true ↔ x.toModel.unpack.beq y.toModel.unpack = true :=
  Iff.rfl

/-- Such doubles have the same fields, or both are zeros. -/
theorem agree_iff_unpack : Agree x y ↔ x.toModel.unpack = y.toModel.unpack ∨
    ∃ sign sign', x.toModel.unpack = .zero sign ∧ y.toModel.unpack = .zero sign' := by
  unfold Agree
  rw [isNaN_iff_unpack, isNaN_iff_unpack, eq_iff_unpack, beq_iff_ne_notANumber_and_eq]
  generalize x.toModel.unpack = u
  generalize y.toModel.unpack = v
  -- Equal zeros may differ in their signs, and all else that is equal has equal fields.
  constructor
  · rintro (⟨rfl, rfl⟩ | ⟨-, -, rfl | ⟨rfl, rfl⟩ | ⟨rfl, rfl⟩⟩)
    · exact Or.inl rfl
    · exact Or.inl rfl
    · exact Or.inr ⟨_, _, rfl, rfl⟩
    · exact Or.inr ⟨_, _, rfl, rfl⟩
  · rintro (rfl | ⟨sign, sign', rfl, rfl⟩)
    · by_cases hnan : u = .notANumber
      · exact Or.inl ⟨hnan, hnan⟩
      · exact Or.inr ⟨hnan, hnan, Or.inl rfl⟩
    · cases sign <;> cases sign' <;> simp

/-- A double agrees with itself. -/
theorem Agree.refl (x : Float) : Agree x x := agree_iff_unpack.mpr (Or.inl rfl)

/-- They are the same double, or zeros that may differ in their signs. -/
theorem Agree.eq_or_zero (h : Agree x y) :
    x = y ∨ Scalar.eq x 0.0 = true ∧ Scalar.eq y 0.0 = true := by
  have hzero (x : Float) (sign : Sign) (hx : x.toModel.unpack = .zero sign) :
      Scalar.eq x 0.0 = true := by
    rw [eq_iff_unpack, hx]
    cases sign <;> rfl
  rcases agree_iff_unpack.mp h with hsame | ⟨sign, sign', hx, hy⟩
  · exact Or.inl (eq_of_unpack hsame)
  · exact Or.inr ⟨hzero x sign hx, hzero y sign' hy⟩

/-- The sum of zero and another double is this double, unless it is the negative zero. -/
theorem zero_add_double (x : Float) :
    0.0 + x = x ∨ x.toModel.unpack = .zero .negative ∧
      (0.0 + x).toModel.unpack = .zero .positive := by
  have hsum : (0.0 + x).toModel.unpack
      = unpack .binary64 (pack .binary64 (UnpackedFloat.add .binary64 (.zero .positive)
          x.toModel.unpack)) := rfl
  by_cases hx : x.toModel.unpack = .zero .negative
  · refine Or.inr ⟨hx, ?_⟩
    rw [hsum, hx]
    exact unpack_packedZero
  · -- No other sum with zero is rounded, since the addition returns the summand itself.
    have hsame : UnpackedFloat.add .binary64 (.zero .positive) x.toModel.unpack
        = x.toModel.unpack := by
      generalize x.toModel.unpack = u at hx
      rcases u with sign | _ | (_ | _) | _
      · rfl
      · rfl
      · exact absurd rfl hx
      · rfl
      · rfl
    refine Or.inl (eq_of_unpack ?_)
    rw [hsum, hsame, unpack_pack_unpack]

/-- **Sums that begin with zero** agree with the sums of the rest. -/
theorem agree_zero_add (x y : Float) : Agree (x + y) (0.0 + x + y) := by
  rcases zero_add_double x with hsame | ⟨hx, hzero⟩
  · rw [hsame]
    exact .refl _
  · -- Zeros of both signs are added to the same double.
    rw [agree_iff_unpack, unpack_add, unpack_add (0.0 + x), hx, hzero]
    generalize y.toModel.unpack = v
    rcases v with sign | _ | sign | _
    · exact Or.inl rfl
    · exact Or.inl rfl
    · refine Or.inr ?_
      cases sign with
      | positive => exact ⟨.positive, .positive, unpack_packedZero, unpack_packedZero⟩
      | negative => exact ⟨.negative, .positive, unpack_packedZero, unpack_packedZero⟩
    · exact Or.inl rfl

end GridLookup
