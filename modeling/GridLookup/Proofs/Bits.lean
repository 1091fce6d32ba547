import GridLookup.Binary
import GridLookup.Proofs.Order
import Mathlib

namespace GridLookup

/-!
# Doubles and their bits

A double is its 64 bits, except that every undefined number has the same ones, and it is told apart
from the others by its sign, mantissa and exponent.  The library's lemmas on these bits come with
the whole of Mathlib only, which is imported here and nowhere else.

* `toBits_of_isNaN` — the bits of the undefined number.
* `Fields.toBits_ofBits`, `Fields.isNaN_ofBits` — the bits a double is made from are kept, unless
  they are those of an undefined number.
* `eq_of_unpack`, `unpack_pack_unpack` — a double is packed from what is unpacked from it.
* `orderKey`, `le_iff_orderKey` — the place of a double among all of them.
-/

open Float.Model UnpackedFloat

/-- All undefined doubles have the same bits. -/
theorem toBits_of_isNaN {x : Float} (h : x.isNaN = true) : x.toBits = 0x7ff8000000000000 := by
  rw [Float.isNaN_eq_decide_eq_nan, decide_eq_true_eq] at h
  rw [h]
  decide +kernel

/-! ### Bits by their fields -/

namespace Fields

/-- The bits of undefined doubles, by their fields. -/
theorem isNaNBits_eq (bits : UInt64) :
    @isNaNBits Format.binary64 bits.toBitVec
      = ((ofDouble bits).exponent == 2047 && (ofDouble bits).fraction != 0) := by
  have hexponent : (@unpackExponent Format.binary64 bits.toBitVec).toNat
      = (ofDouble bits).exponent := by
    rw [unpackExponent_def]
    simp [ofDouble, BitVec.extractLsb'_toNat]
  have hfraction : (@unpackMantissa Format.binary64 bits.toBitVec).toNat
      = (ofDouble bits).fraction := by
    rw [unpackMantissa_def]
    simp [ofDouble, BitVec.extractLsb'_toNat]
  rw [← hexponent, ← hfraction, Bool.eq_iff_iff, isNaNBits, decide_eq_true_eq, Bool.and_eq_true,
    beq_iff_eq, bne_iff_ne, ne_eq, ← BitVec.toNat_inj, ← BitVec.toNat_inj]
  rfl

/-- The bits of a double are kept unless they are those of an undefined number. -/
theorem toBits_ofBits {bits : UInt64}
    (h : ((ofDouble bits).exponent == 2047 && (ofDouble bits).fraction != 0) = false) :
    (Float.ofBits bits).toBits = bits := by
  rw [← isNaNBits_eq] at h
  apply UInt64.toBitVec_inj.mp
  show (unpack Format.binary64 bits.toBitVec).pack Format.binary64 = bits.toBitVec
  rw [pack_unpack, h]
  rfl

/-- A double is undefined exactly if its bits are those of an undefined number. -/
theorem isNaN_ofBits (bits : UInt64) :
    (Float.ofBits bits).isNaN
      = ((ofDouble bits).exponent == 2047 && (ofDouble bits).fraction != 0) := by
  cases h : ((ofDouble bits).exponent == 2047 && (ofDouble bits).fraction != 0) with
  | false =>
    -- The bits are kept, and those of the undefined double are of the other kind.
    rw [Float.isNaN_eq_decide_eq_nan, decide_eq_false_iff_not]
    intro hnan
    have hbits := congrArg Float.toBits hnan
    rw [toBits_ofBits h] at hbits
    subst hbits
    revert h
    decide +kernel
  | true =>
    rw [Float.isNaN_eq_decide_eq_nan, decide_eq_true_eq, ← Float.toBits_inj,
      ← UInt64.toBitVec_inj]
    rw [← isNaNBits_eq] at h
    show (unpack Format.binary64 bits.toBitVec).pack Format.binary64 = _
    rw [pack_unpack, if_pos h]
    rfl

end Fields

/-! ### Packing what was unpacked -/

variable {x y : Float}

/-- Doubles are told apart by their fields. -/
theorem eq_of_unpack (h : x.toModel.unpack = y.toModel.unpack) : x = y := by
  have hbits := (unpack_inj_of_valid x.toModel.valid y.toModel.valid).mp h
  rw [← Float.toBits_inj]
  exact UInt64.eq_of_toBitVec_eq hbits

/-- A double is unchanged by packing it again. -/
theorem unpack_pack_unpack (x : Float) :
    unpack .binary64 (pack .binary64 x.toModel.unpack) = x.toModel.unpack :=
  congrArg _ (pack_unpack_of_valid x.toModel.valid)

/-! ### The order of doubles -/

/-- What the place of a number among all doubles depends on: the kind of number it is, then its
    exponent, then its mantissa. -/
def unpackedKey : UnpackedFloat → ℤ ×ₗ ℤ ×ₗ ℤ
  | .infinity .negative => toLex (-2, toLex (0, 0))
  | .finite .negative mantissa exponent _ => toLex (-1, toLex (-exponent, -mantissa))
  | .notANumber | .zero _ => toLex (0, toLex (0, 0))
  | .finite .positive mantissa exponent _ => toLex (1, toLex (exponent, mantissa))
  | .infinity .positive => toLex (2, toLex (0, 0))

/-- One is found below the other exactly if both are defined and its key is smaller. -/
theorem compare_eq_lt_iff (a b : UnpackedFloat) :
    a.compare b = some .lt ↔ a.isNaN = false ∧ b.isNaN = false ∧ unpackedKey a < unpackedKey b := by
  rcases a with (_ | _) | _ | (_ | _) | ⟨_ | _, m₁, e₁, h₁⟩ <;>
    rcases b with (_ | _) | _ | (_ | _) | ⟨_ | _, m₂, e₂, h₂⟩ <;>
    simp [UnpackedFloat.compare, UnpackedFloat.isNaN, unpackedKey, Prod.Lex.toLex_lt_toLex,
      Ordering.then_eq_lt, Ordering.swap_eq_lt, Ordering.then_eq_gt, compare_gt_iff_gt,
      compare_lt_iff_lt]
  all_goals decide

/-- Both are found equal exactly if they are defined and have the same key. -/
theorem compare_eq_eq_iff (a b : UnpackedFloat) :
    a.compare b = some .eq ↔ a.isNaN = false ∧ b.isNaN = false ∧ unpackedKey a = unpackedKey b := by
  rcases a with (_ | _) | _ | (_ | _) | ⟨_ | _, m₁, e₁, h₁⟩ <;>
    rcases b with (_ | _) | _ | (_ | _) | ⟨_ | _, m₂, e₂, h₂⟩ <;>
    simp [UnpackedFloat.compare, UnpackedFloat.isNaN, unpackedKey, Ordering.then_eq_eq]
  all_goals decide

/-- The place of a double among all doubles. -/
def orderKey (x : Float) : ℤ ×ₗ ℤ ×ₗ ℤ := unpackedKey x.toModel.unpack

/-- Doubles are below each other as their keys are. -/
theorem lt_iff_orderKey (x y : Float) :
    Scalar.lt x y = true ↔ x.isNaN = false ∧ y.isNaN = false ∧ orderKey x < orderKey y := by
  show decide (decide (x.toModel.unpack.lt y.toModel.unpack = true) = true) = true ↔ _
  rw [decide_eq_true_eq, decide_eq_true_eq, UnpackedFloat.lt, beq_iff_eq]
  exact compare_eq_lt_iff _ _

/-- Doubles are equal as their keys are. -/
theorem eq_iff_orderKey (x y : Float) :
    Scalar.eq x y = true ↔ x.isNaN = false ∧ y.isNaN = false ∧ orderKey x = orderKey y := by
  show x.toModel.unpack.beq y.toModel.unpack = true ↔ _
  rw [UnpackedFloat.beq, beq_iff_eq]
  exact compare_eq_eq_iff _ _

/-- Doubles are at most each other as their keys are. -/
theorem le_iff_orderKey (x y : Float) :
    Scalar.le x y = true ↔ x.isNaN = false ∧ y.isNaN = false ∧ orderKey x ≤ orderKey y := by
  have hlt := compare_eq_lt_iff x.toModel.unpack y.toModel.unpack
  have heq := compare_eq_eq_iff x.toModel.unpack y.toModel.unpack
  show decide (decide (x.toModel.unpack.le y.toModel.unpack = true) = true) = true ↔
    x.toModel.unpack.isNaN = false ∧ y.toModel.unpack.isNaN = false ∧ unpackedKey _ ≤ unpackedKey _
  rw [decide_eq_true_eq, decide_eq_true_eq, UnpackedFloat.le, le_iff_lt_or_eq, and_or_left,
    and_or_left, ← hlt, ← heq]
  rcases x.toModel.unpack.compare y.toModel.unpack with _ | _ | _ | _ <;> decide

/-- Doubles are ordered by their places. -/
instance : LawfulScalar Float where
  number_of_le := by
    intro x y h
    obtain ⟨hx, hy, -⟩ := (le_iff_orderKey x y).mp h
    exact ⟨hx, hy⟩
  le_total := by
    intro x y hx hy
    rw [le_iff_orderKey, le_iff_orderKey]
    rcases le_total (orderKey x) (orderKey y) with h | h
    · exact Or.inl ⟨hx, hy, h⟩
    · exact Or.inr ⟨hy, hx, h⟩
  le_trans := by
    intro x y z h h'
    rw [le_iff_orderKey] at h h' ⊢
    exact ⟨h.1, h'.2.1, h.2.2.trans h'.2.2⟩
  lt_iff := by
    intro x y
    rw [← Bool.not_eq_true, lt_iff_orderKey, le_iff_orderKey, le_iff_orderKey]
    grind
  eq_iff := by
    intro x y
    rw [eq_iff_orderKey, le_iff_orderKey, le_iff_orderKey]
    grind

end GridLookup
