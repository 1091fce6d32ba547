import GridLookup.Proofs.Bits
import GridLookup.Proofs.Unpacked

namespace GridLookup

/-!
# Doubles as numbers

A double is the undefined number, one of two infinities, or a number.  Between numbers the tests are
those of the exact order, and differences and quotients are the nearest doubles, or infinite where
these are too large.

* `unpack_pack_finite` — what is packed into bits is unpacked again, unless it is too large.
* `Denotes.key_lt_iff` — the order of doubles is that of the numbers.
* `IsNumber`, `IsTop`, `IsBottom`, `kinds` — the kinds of doubles.
* `lower_kinds`, `upper_kinds` — no double is above the positive or below the negative infinity.
* `IsNumber.sub`, `IsNumber.div`, `IsNumber.mul` — their differences, quotients and products.
-/

open Float.Model UnpackedFloat

/-! ### Packing -/

/-- The implicit bit in front of a mantissa is worth `2 ^ 52`. -/
theorem toNat_one_append (fraction : BitVec 52) :
    (1#1 ++ fraction).toNat = 2 ^ 52 + fraction.toNat := by
  rw [BitVec.toNat_append, ← Nat.shiftLeft_add_eq_or_of_lt fraction.isLt]
  simp [Nat.shiftLeft_eq]

/-- The bits of a double are those of the undefined number, of an infinity or of a number. -/
theorem unpack_kinds (bits : BitVec Format.binary64.numBits) :
    unpack .binary64 bits = .notANumber ∨ (∃ sign, unpack .binary64 bits = .infinity sign) ∨
      ∃ q, Denotes (unpack .binary64 bits) q := by
  have hfraction : (unpackMantissa bits).toNat < 2 ^ 52 := (unpackMantissa bits).isLt
  have hbias : ((Format.binary64.exponentBias : ℤ) + Format.binary64.mantissaBitsWithoutImplicit)
      = 1075 := rfl
  unfold UnpackedFloat.unpack
  dsimp only
  split
  · split
    · exact Or.inr (Or.inl ⟨_, rfl⟩)
    · exact Or.inl rfl
  refine Or.inr (Or.inr ?_)
  split
  · next hexponent =>
    split
    · exact ⟨0, .zero _⟩
    · -- Without a leading digit, the exponent is the least one.
      refine ⟨_, .finite _ _ ⟨?_, by omega, ?_⟩⟩ <;> rw [hexponent, hbias] <;> norm_num
  · next hexponent =>
    have hexponent : 0 < (unpackExponent bits).toNat :=
      Nat.pos_of_ne_zero fun hzero => hexponent (BitVec.eq_of_toNat_eq (by simpa using hzero))
    have hmantissa := toNat_one_append (unpackMantissa bits)
    refine ⟨_, .finite _ _ ⟨?_, ?_, fun _ => ?_⟩⟩
    · rw [hbias]
      omega
    · rw [hmantissa]
      omega
    · rw [hmantissa]
      omega

/-- The fields of a number with a leading digit, which is not stored. -/
theorem unpack_normal (sign : Sign) {exponent : ℕ} {fraction : BitVec 52} (hpositive : 0 < exponent)
    (hexponent : exponent < 2047) (hmantissa : 0 < 2 ^ 52 + fraction.toNat) :
    unpack .binary64 (packComponents .binary64 sign (BitVec.ofNat 11 exponent) fraction)
      = .finite sign (2 ^ 52 + fraction.toNat) (exponent - 1075) hmantissa := by
  have htoNat : (BitVec.ofNat 11 exponent).toNat = exponent := by
    rw [BitVec.toNat_ofNat]
    omega
  have htop : BitVec.ofNat 11 exponent ≠ -1#11 := fun heq => by
    have heq := congrArg BitVec.toNat heq
    rw [htoNat] at heq
    exact absurd heq (by simp; omega)
  have hzero : BitVec.ofNat 11 exponent ≠ 0#11 := fun heq => by
    have heq := congrArg BitVec.toNat heq
    rw [htoNat] at heq
    exact absurd heq (by simp; omega)
  unfold UnpackedFloat.unpack
  simp only [unpackMantissa_packComponents, unpackExponent_packComponents,
    unpackSign_packComponents, Sign.ofBitVec_toBitVec]
  rw [if_neg htop, if_neg hzero]
  simp only [toNat_one_append, htoNat]
  rfl

/-- The fields of a number without a leading digit. -/
theorem unpack_subnormal (sign : Sign) {fraction : BitVec 52} (hmantissa : 0 < fraction.toNat) :
    unpack .binary64 (packComponents .binary64 sign 0#11 fraction)
      = .finite sign fraction.toNat (-1074) hmantissa := by
  have hzero : fraction ≠ 0#52 := fun heq => by
    rw [heq] at hmantissa
    exact absurd hmantissa (by decide)
  unfold UnpackedFloat.unpack
  simp only [unpackMantissa_packComponents, unpackExponent_packComponents,
    unpackSign_packComponents, Sign.ofBitVec_toBitVec]
  rw [if_neg (by decide), if_pos trivial, dif_neg hzero]
  rfl

/-- The leading digit is the one that is not stored, or the mantissa has fewer digits. -/
theorem log2_succ_eq_mantissaBits_iff {mantissa : ℕ} (positive : 0 < mantissa)
    (hroom : mantissa < 2 ^ 53) :
    mantissa.log2 + 1 = Format.binary64.mantissaBits ↔ 2 ^ 52 ≤ mantissa := by
  have hlt : mantissa.log2 < 53 := (Nat.log2_lt positive.ne').mpr hroom
  have hbits : Format.binary64.mantissaBits = 53 := rfl
  rw [← Nat.le_log2 positive.ne', hbits]
  omega

/-- What is packed is unpacked again, unless its exponent is too large. -/
theorem unpack_pack_finite (sign : Sign) {mantissa : ℕ} {exponent : ℤ} (positive : 0 < mantissa)
    (h : Canonical mantissa exponent) :
    unpack .binary64 (pack .binary64 (.finite sign mantissa exponent positive))
      = if exponent ≤ 971 then .finite sign mantissa exponent positive else .infinity sign := by
  obtain ⟨hleast, hroom, hfull⟩ := h
  have hbiased : (exponent + Format.binary64.exponentBias
      + Format.binary64.mantissaBitsWithoutImplicit).toNat = (exponent + 1075).toNat := by
    rw [add_assoc]
    rfl
  have hlog := log2_succ_eq_mantissaBits_iff positive hroom
  unfold UnpackedFloat.pack
  dsimp only
  rw [hbiased]
  -- Too large an exponent gives an infinity. Otherwise the mantissa either has its leading digit,
  -- which is not stored, or stands at the least exponent.
  by_cases hsmall : exponent ≤ 971
  · rw [if_neg (by norm_num; omega), if_pos hsmall]
    by_cases hlead : 2 ^ 52 ≤ mantissa
    · have hfraction : 2 ^ 52 + (BitVec.ofNat 52 mantissa).toNat = mantissa := by
        rw [BitVec.toNat_ofNat]
        omega
      have hexponent : ((exponent + 1075).toNat : ℤ) - 1075 = exponent := by omega
      rw [if_pos (hlog.mpr hlead)]
      refine (unpack_normal sign (by omega) (by omega) (by omega)).trans ?_
      simp only [hfraction, hexponent]
    · have hfraction : (BitVec.ofNat 52 mantissa).toNat = mantissa := by
        rw [BitVec.toNat_ofNat]
        omega
      have hexponent : exponent = -1074 := by
        by_contra hne
        exact hlead (hfull (by omega))
      rw [if_neg fun heq => hlead (hlog.mp heq)]
      refine (unpack_subnormal sign (by rwa [hfraction])).trans ?_
      simp only [hfraction, hexponent]
  · rw [if_pos (by norm_num; omega), if_neg hsmall]
    unfold packedInfinity UnpackedFloat.unpack
    simp only [unpackMantissa_packComponents, unpackExponent_packComponents,
      unpackSign_packComponents, Sign.ofBitVec_toBitVec]
    rfl

/-! ### Order -/

/-- Mantissas and exponents are compared as the numbers are, the exponents first. -/
theorem Canonical.lt_of_lex {m₁ m₂ : ℕ} {e₁ e₂ : ℤ} (h₁ : Canonical m₁ e₁) (h₂ : Canonical m₂ e₂)
    (h : e₁ < e₂ ∨ e₁ = e₂ ∧ m₁ < m₂) : (m₁ : ℚ) * 2 ^ e₁ < m₂ * 2 ^ e₂ := by
  rcases h with hlt | ⟨rfl, hlt⟩
  · have hroom : (m₁ : ℚ) < 2 ^ 53 := by exact_mod_cast h₁.room
    have hfull : (2 : ℚ) ^ 52 ≤ m₂ := by exact_mod_cast h₂.full (h₁.least.trans_lt hlt)
    calc (m₁ : ℚ) * 2 ^ e₁ < 2 ^ 53 * 2 ^ e₁ := mul_lt_mul_of_pos_right hroom (two_zpow_pos e₁)
      _ = 2 ^ 52 * 2 ^ (e₁ + 1) := by
          rw [zpow_add_one₀ (by norm_num)]
          ring
      _ ≤ 2 ^ 52 * 2 ^ e₂ :=
          mul_le_mul_of_nonneg_left (zpow_le_zpow_right₀ (by norm_num) hlt) (by norm_num)
      _ ≤ m₂ * 2 ^ e₂ := mul_le_mul_of_nonneg_right hfull (two_zpow_pos e₂).le
  · exact mul_lt_mul_of_pos_right (by exact_mod_cast hlt) (two_zpow_pos e₁)

/-- A number is zero, or has a sign and a magnitude. -/
theorem Denotes.sign_cases {u : UnpackedFloat} {q : ℚ} (h : Denotes u q) :
    (q = 0 ∧ unpackedKey u = toLex (0, toLex (0, 0))) ∨
    ∃ (mantissa : ℕ) (exponent : ℤ), 0 < (mantissa : ℚ) * 2 ^ exponent ∧
      Canonical mantissa exponent ∧
      ((q = mantissa * 2 ^ exponent ∧ unpackedKey u = toLex (1, toLex (exponent, (mantissa : ℤ)))) ∨
        (q = -(mantissa * 2 ^ exponent) ∧
          unpackedKey u = toLex (-1, toLex (-exponent, -(mantissa : ℤ))))) := by
  cases h with
  | zero => exact Or.inl ⟨rfl, rfl⟩
  | @finite sign mantissa exponent positive canonical =>
    have hmagnitude : 0 < (mantissa : ℚ) * 2 ^ exponent :=
      mul_pos (Nat.cast_pos.mpr positive) (two_zpow_pos exponent)
    refine Or.inr ⟨mantissa, exponent, hmagnitude, canonical, ?_⟩
    cases sign with
    | positive => exact Or.inl ⟨by simp [Sign.apply], rfl⟩
    | negative => exact Or.inr ⟨by simp [Sign.apply], rfl⟩

/-- A smaller key is that of a smaller number. -/
theorem Denotes.lt_of_key {u v : UnpackedFloat} {q r : ℚ} (hu : Denotes u q) (hv : Denotes v r)
    (h : unpackedKey u < unpackedKey v) : q < r := by
  rcases hu.sign_cases with ⟨rfl, hukey⟩ | ⟨m, e, hm, hcanonical, ⟨rfl, hukey⟩ | ⟨rfl, hukey⟩⟩ <;>
    rcases hv.sign_cases with
      ⟨rfl, hvkey⟩ | ⟨m', e', hm', hcanonical', ⟨rfl, hvkey⟩ | ⟨rfl, hvkey⟩⟩ <;>
    rw [hukey, hvkey] at h <;>
    simp only [Prod.Lex.toLex_lt_toLex] at h
  case inl.inl => omega
  case inl.inr.inl => exact hm'
  case inl.inr.inr => omega
  case inr.inl.inl => omega
  case inr.inl.inr.inl => exact hcanonical.lt_of_lex hcanonical' (by omega)
  case inr.inl.inr.inr => omega
  case inr.inr.inl => linarith
  case inr.inr.inr.inl => linarith
  case inr.inr.inr.inr =>
    -- Among negative numbers the order is that of the magnitudes turned around.
    exact neg_lt_neg (hcanonical'.lt_of_lex hcanonical (by omega))

/-- Equal keys are those of equal numbers. -/
theorem Denotes.eq_of_key {u v : UnpackedFloat} {q r : ℚ} (hu : Denotes u q) (hv : Denotes v r)
    (h : unpackedKey u = unpackedKey v) : q = r := by
  rcases hu.sign_cases with ⟨rfl, hukey⟩ | ⟨m, e, -, -, ⟨rfl, hukey⟩ | ⟨rfl, hukey⟩⟩ <;>
    rcases hv.sign_cases with
      ⟨rfl, hvkey⟩ | ⟨m', e', -, -, ⟨rfl, hvkey⟩ | ⟨rfl, hvkey⟩⟩ <;>
    rw [hukey, hvkey] at h <;>
    simp_all

/-- Keys compare as the numbers do. -/
theorem Denotes.key_lt_iff {u v : UnpackedFloat} {q r : ℚ} (hu : Denotes u q) (hv : Denotes v r) :
    unpackedKey u < unpackedKey v ↔ q < r := by
  refine ⟨hu.lt_of_key hv, fun h => ?_⟩
  rcases lt_trichotomy (unpackedKey u) (unpackedKey v) with hlt | heq | hgt
  · exact hlt
  · exact absurd (hu.eq_of_key hv heq) h.ne
  · exact absurd (hv.lt_of_key hu hgt) h.not_gt

/-! ### Doubles -/

/-- The number that a double is. -/
def IsNumber (x : Float) (q : ℚ) : Prop := Denotes x.toModel.unpack q

/-- A double is the positive infinity. -/
def IsTop (x : Float) : Prop := x.toModel.unpack = .infinity .positive

/-- A double is the negative infinity. -/
def IsBottom (x : Float) : Prop := x.toModel.unpack = .infinity .negative

/-- A double that is not undefined is an infinity or a number. -/
theorem kinds {x : Float} (h : x.isNaN = false) : IsTop x ∨ IsBottom x ∨ ∃ q, IsNumber x q := by
  rcases unpack_kinds x.toModel.toBits.toBitVec with hnan | ⟨sign, hinfinite⟩ | ⟨q, hq⟩
  · have hnan : x.isNaN = true := by
      show (unpack .binary64 x.toModel.toBits.toBitVec).isNaN = true
      rw [hnan]
      rfl
    rw [h] at hnan
    cases hnan
  · cases sign with
    | positive => exact Or.inl hinfinite
    | negative => exact Or.inr (Or.inl hinfinite)
  · exact Or.inr (Or.inr ⟨q, hq⟩)

variable {x y : Float} {q r : ℚ}

namespace IsNumber

/-- A number is not undefined. -/
theorem isNaN (h : IsNumber x q) : x.isNaN = false := by
  show x.toModel.unpack.isNaN = false
  unfold IsNumber at h
  generalize x.toModel.unpack = u at h
  cases h <;> rfl

/-- A number is not infinite. -/
theorem isInf (h : IsNumber x q) : x.isInf = false := by
  show x.toModel.unpack.isInf = false
  unfold IsNumber at h
  generalize x.toModel.unpack = u at h
  cases h <;> rfl

/-- Doubles that are numbers compare as these do. -/
theorem lt_iff (hx : IsNumber x q) (hy : IsNumber y r) : Scalar.lt x y = true ↔ q < r := by
  rw [lt_iff_orderKey]
  simp only [hx.isNaN, hy.isNaN, true_and]
  exact Denotes.key_lt_iff hx hy

/-- Doubles that are numbers compare as these do, equality included. -/
theorem le_iff (hx : IsNumber x q) (hy : IsNumber y r) : Scalar.le x y = true ↔ q ≤ r := by
  rw [le_iff_orderKey]
  simp only [hx.isNaN, hy.isNaN, true_and]
  rw [← not_lt, ← not_lt]
  exact not_congr (Denotes.key_lt_iff hy hx)

end IsNumber

/-! ### Infinities -/

/-- The positive infinity is infinite. -/
theorem IsTop.isInf (h : IsTop x) : x.isInf = true := by
  show x.toModel.unpack.isInf = true
  rw [show x.toModel.unpack = _ from h]
  rfl

/-- The negative infinity is infinite. -/
theorem IsBottom.isInf (h : IsBottom x) : x.isInf = true := by
  show x.toModel.unpack.isInf = true
  rw [show x.toModel.unpack = _ from h]
  rfl

/-- A number is not the positive infinity. -/
theorem IsNumber.not_isTop (h : IsNumber x q) : ¬ IsTop x := fun htop =>
  Bool.false_ne_true (h.isInf.symm.trans htop.isInf)

/-- A number is not the negative infinity. -/
theorem IsNumber.not_isBottom (h : IsNumber x q) : ¬ IsBottom x := fun hbottom =>
  Bool.false_ne_true (h.isInf.symm.trans hbottom.isInf)

/-- The positive infinity has the last place among all doubles, and no other double has. -/
theorem isTop_iff_le_orderKey : IsTop x ↔ toLex (2, toLex (0, 0)) ≤ orderKey x := by
  unfold IsTop orderKey
  generalize x.toModel.unpack = u
  rcases u with (_ | _) | _ | _ | ⟨_ | _, m, e, h⟩ <;>
    simp [unpackedKey, Prod.Lex.toLex_le_toLex]

/-- The negative infinity has the first place among all doubles, and no other double has. -/
theorem isBottom_iff_orderKey_le : IsBottom x ↔ orderKey x ≤ toLex (-2, toLex (0, 0)) := by
  unfold IsBottom orderKey
  generalize x.toModel.unpack = u
  rcases u with (_ | _) | _ | _ | ⟨_ | _, m, e, h⟩ <;>
    simp [unpackedKey, Prod.Lex.toLex_le_toLex]

/-- Nothing is above the positive infinity but itself. -/
theorem IsTop.of_le (hx : IsTop x) (h : Scalar.le x y = true) : IsTop y :=
  isTop_iff_le_orderKey.mpr
    ((isTop_iff_le_orderKey.mp hx).trans ((le_iff_orderKey x y).mp h).2.2)

/-- Nothing is below the negative infinity but itself. -/
theorem IsBottom.of_le (hy : IsBottom y) (h : Scalar.le x y = true) : IsBottom x :=
  isBottom_iff_orderKey_le.mpr
    (((le_iff_orderKey x y).mp h).2.2.trans (isBottom_iff_orderKey_le.mp hy))

/-- Below another double there is the negative infinity or a number. -/
theorem lower_kinds (h : Scalar.lt x y = true) : IsBottom x ∨ ∃ q, IsNumber x q := by
  obtain ⟨hx, -, hlt⟩ := (lt_iff_orderKey x y).mp h
  rcases kinds hx with htop | hrest
  · have hy : IsTop y := htop.of_le (Scalar.le_of_lt h)
    unfold IsTop at htop hy
    unfold orderKey at hlt
    rw [htop, hy] at hlt
    exact absurd hlt (lt_irrefl _)
  · exact hrest

/-- Above another double there is the positive infinity or a number. -/
theorem upper_kinds (h : Scalar.lt x y = true) : IsTop y ∨ ∃ r, IsNumber y r := by
  obtain ⟨-, hy, hlt⟩ := (lt_iff_orderKey x y).mp h
  rcases kinds hy with htop | hbottom | hrest
  · exact Or.inl htop
  · have hx : IsBottom x := hbottom.of_le (Scalar.le_of_lt h)
    unfold IsBottom at hbottom hx
    unfold orderKey at hlt
    rw [hbottom, hx] at hlt
    exact absurd hlt (lt_irrefl _)
  · exact Or.inr hrest

/-! ### Double-precision arithmetic -/

/-- The least number that is too large for a double. -/
def overflow : ℚ := 2 ^ (1024 : ℤ)

/-- The bound of the doubles, split at any power of two. -/
theorem overflow_eq_mul (e : ℤ) : overflow = 2 ^ e * 2 ^ (1024 - e) := by
  rw [overflow, ← zpow_add₀ (by norm_num), add_sub_cancel]

/-- A number is below the bound exactly if its exponent is at most the largest one of the
    format. -/
theorem Canonical.lt_overflow_iff {mantissa : ℕ} {exponent : ℤ} (h : Canonical mantissa exponent) :
    (mantissa : ℚ) * 2 ^ exponent < overflow ↔ exponent ≤ 971 := by
  have hscale := two_zpow_pos exponent
  -- A larger exponent comes with a full mantissa, so the number is too large already by its leading
  -- digit.
  constructor
  · intro hlt
    by_contra hlarge
    have hfull : (2 : ℚ) ^ (52 : ℤ) ≤ mantissa := by exact_mod_cast h.full (by omega)
    refine absurd hlt (not_lt.mpr ?_)
    calc overflow = 2 ^ (52 : ℤ) * 2 ^ (972 : ℤ) := overflow_eq_mul 52
      _ ≤ 2 ^ (52 : ℤ) * 2 ^ exponent :=
          mul_le_mul_of_nonneg_left (zpow_le_zpow_right₀ (by norm_num) (by omega))
            (two_zpow_pos 52).le
      _ ≤ mantissa * 2 ^ exponent := mul_le_mul_of_nonneg_right hfull hscale.le
  · intro hsmall
    have hroom : (mantissa : ℚ) < 2 ^ (53 : ℤ) := by exact_mod_cast h.room
    calc (mantissa : ℚ) * 2 ^ exponent < 2 ^ (53 : ℤ) * 2 ^ exponent :=
          mul_lt_mul_of_pos_right hroom hscale
      _ ≤ 2 ^ (53 : ℤ) * 2 ^ (971 : ℤ) :=
          mul_le_mul_of_nonneg_left (zpow_le_zpow_right₀ (by norm_num) hsmall) (two_zpow_pos 53).le
      _ = overflow := (overflow_eq_mul 53).symm

/-- A result is packed as it is, or as infinity if it is too large. -/
theorem Denotes.unpack_pack {u : UnpackedFloat} {q : ℚ} (h : Denotes u q) (hq : 0 ≤ q) :
    (q < overflow → Denotes (unpack .binary64 (pack .binary64 u)) q) ∧
      (overflow ≤ q → unpack .binary64 (pack .binary64 u) = .infinity .positive) := by
  rcases hq.eq_or_lt with rfl | hpositive
  · obtain ⟨sign, rfl⟩ := h.exists_zero
    refine ⟨fun _ => ?_, fun hlarge => absurd (two_zpow_pos 1024) (not_lt.mpr hlarge)⟩
    rw [UnpackedFloat.pack, unpack_packedZero]
    exact h
  · obtain ⟨mantissa, exponent, hmantissa, rfl, hcanonical, rfl⟩ := h.exists_positive hpositive
    have hsmall := hcanonical.lt_overflow_iff
    rw [unpack_pack_finite .positive hmantissa hcanonical]
    refine ⟨fun hlt => ?_, fun hlarge => ?_⟩
    · rw [if_pos (hsmall.mp hlt)]
      exact h
    · rw [if_neg fun hle => absurd (hsmall.mpr hle) (not_lt.mpr hlarge)]

/-- Differences are those of the fields, packed again. -/
theorem unpack_sub (x y : Float) : (x - y).toModel.unpack
    = unpack .binary64 (pack .binary64 (x.toModel.unpack.sub .binary64 y.toModel.unpack)) := rfl

/-- Quotients are those of the fields, packed again. -/
theorem unpack_div (x y : Float) : (x / y).toModel.unpack
    = unpack .binary64 (pack .binary64 (x.toModel.unpack.div .binary64 y.toModel.unpack)) := rfl

/-- **Differences** of doubles are the nearest number, or infinite if that is too large. -/
theorem IsNumber.sub (hx : IsNumber x q) (hy : IsNumber y r) (h : r < q) :
    (nearest (q - r) < overflow → IsNumber (x - y) (nearest (q - r))) ∧
      (overflow ≤ nearest (q - r) → IsTop (x - y)) :=
  (Denotes.sub hx hy h).unpack_pack (nearest_nonneg _)

/-- **Quotients** of positive doubles are the nearest number. -/
theorem IsNumber.div (hx : IsNumber x q) (hy : IsNumber y r) (hq : 0 < q) (hr : 0 < r)
    (hroom : nearest (q / r) < overflow) : IsNumber (x / y) (nearest (q / r)) :=
  ((Denotes.div hx hy hq hr).unpack_pack (nearest_nonneg _)).1 hroom

/-- Products are those of the fields, packed again. -/
theorem unpack_mul (x y : Float) : (x * y).toModel.unpack
    = unpack .binary64 (pack .binary64 (x.toModel.unpack.mul .binary64 y.toModel.unpack)) := rfl

/-- **Products** of positive doubles are the nearest number. -/
theorem IsNumber.mul (hx : IsNumber x q) (hy : IsNumber y r) (hq : 0 < q) (hr : 0 < r)
    (hroom : nearest (q * r) < overflow) : IsNumber (x * y) (nearest (q * r)) :=
  ((Denotes.mul hx hy hq hr).unpack_pack (nearest_nonneg _)).1 hroom

/-- Infinities are unchanged by packing. -/
theorem unpack_pack_infinity (sign : Sign) :
    unpack .binary64 (pack .binary64 (.infinity sign)) = .infinity sign := by
  cases sign <;> rfl

/-- A number less the negative infinity is the positive infinity. -/
theorem IsNumber.sub_bottom (hx : IsNumber x q) (hy : IsBottom y) : IsTop (x - y) := by
  unfold IsTop
  rw [unpack_sub, show y.toModel.unpack = _ from hy]
  unfold IsNumber at hx
  generalize x.toModel.unpack = u at hx
  cases hx <;> exact unpack_pack_infinity .positive

/-- The positive infinity less the negative one is itself. -/
theorem IsTop.sub_bottom (hx : IsTop x) (hy : IsBottom y) : IsTop (x - y) := by
  unfold IsTop
  rw [unpack_sub, show x.toModel.unpack = _ from hx, show y.toModel.unpack = _ from hy]
  rfl

/-- The positive infinity less a number is itself. -/
theorem IsTop.sub_number (hx : IsTop x) (hy : IsNumber y r) : IsTop (x - y) := by
  unfold IsTop
  rw [unpack_sub, show x.toModel.unpack = _ from hx]
  unfold IsNumber at hy
  generalize y.toModel.unpack = v at hy
  cases hy <;> exact unpack_pack_infinity .positive

/-- A number over the positive infinity is zero. -/
theorem IsNumber.div_top (hx : IsNumber x q) (hy : IsTop y) : IsNumber (x / y) 0 := by
  unfold IsNumber
  rw [unpack_div, show y.toModel.unpack = _ from hy]
  unfold IsNumber at hx
  generalize x.toModel.unpack = u at hx
  cases hx <;> exact ((Denotes.zero _).unpack_pack le_rfl).1 (two_zpow_pos 1024)

/-- The positive infinity over itself is undefined. -/
theorem IsTop.div_top (hx : IsTop x) (hy : IsTop y) : (x / y).isNaN = true := by
  show (x / y).toModel.unpack.isNaN = true
  rw [unpack_div, show x.toModel.unpack = _ from hx, show y.toModel.unpack = _ from hy]
  rfl

end GridLookup
