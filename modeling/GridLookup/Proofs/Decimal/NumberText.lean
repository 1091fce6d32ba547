import GridLookup.Proofs.Decimal.Reading
import GridLookup.Proofs.Decimal.Shortest
import GridLookup.Proofs.Decimal.Spelling

namespace GridLookup

/-!
# Numbers as texts

A number is the double that its shortest text is read as.

* `unpacks` — the fields of a double are those that it is calculated with.
* `readDigits?_shortest` — the digits of a positive number are read as this number.
* `NumberFormat.readNumber_write` — **numbers survive their texts**, in every format.
-/

open Float.Model UnpackedFloat

/-! ### Fields -/

/-- A sign as one is calculated with. -/
def signOf (negative : Bool) : Sign := if negative then .negative else .positive

/-- What a double denotes is what it is calculated with. -/
inductive Unpacks (sign : Sign) : Magnitude → UnpackedFloat → Prop where
  /-- The undefined number. -/
  | undefined : Unpacks sign .undefined .notANumber
  /-- An infinity. -/
  | infinite : Unpacks sign .infinite (.infinity sign)
  /-- A zero. -/
  | zero : Unpacks sign (.finite 0 (-1074) false) (.zero sign)
  /-- Any other number. -/
  | finite {mantissa : ℕ} {exponent : ℤ} {lowest : Bool} (positive : 0 < mantissa)
      (marked : Marked mantissa exponent lowest) (small : exponent ≤ 971) :
      Unpacks sign (.finite mantissa exponent lowest) (.finite sign mantissa exponent positive)

/-- The exponent stands behind the 52 bits of the mantissa. -/
theorem toNat_unpackExponent (bits : BitVec Format.binary64.numBits) :
    (unpackExponent bits).toNat = (bits.toNat >>> 52) % 0x800 := by
  rw [unpackExponent_def]
  exact BitVec.extractLsb'_toNat 52 11 bits

/-- The mantissa is in the last 52 bits. -/
theorem toNat_unpackMantissa (bits : BitVec Format.binary64.numBits) :
    (unpackMantissa bits).toNat = bits.toNat % (1 <<< 52) := by
  rw [unpackMantissa_def]
  exact BitVec.extractLsb'_toNat 0 52 bits

/-- The sign is the leading bit. -/
theorem ofBitVec_unpackSign (bits : BitVec Format.binary64.numBits) :
    Sign.ofBitVec (unpackSign bits) = signOf (decide ((1 <<< 63) ≤ bits.toNat)) := by
  have htoNat : (unpackSign bits).toNat = (bits.toNat >>> 63) % 2 := by
    rw [unpackSign_def]
    exact BitVec.extractLsb'_toNat 63 1 bits
  have hless : bits.toNat < 2 ^ 64 := bits.isLt
  have hzero : unpackSign bits = 0#1 ↔ ¬ (1 <<< 63) ≤ bits.toNat := by
    rw [← BitVec.toNat_inj, htoNat, Nat.shiftRight_eq_div_pow, Nat.shiftLeft_eq]
    simp only [BitVec.toNat_ofNat, Nat.zero_mod]
    omega
  rw [Sign.ofBitVec]
  by_cases hlarge : (1 <<< 63) ≤ bits.toNat
  · rw [if_neg fun hnone => hzero.mp hnone hlarge, decide_eq_true hlarge]
    rfl
  · rw [if_pos (hzero.mpr hlarge), decide_eq_false hlarge]
    rfl

/-- The parts of the bits of a double, as fields. -/
structure Holds (bits : BitVec Format.binary64.numBits) (fields : Fields) : Prop where
  /-- The sign. -/
  sign : Sign.ofBitVec (unpackSign bits) = signOf fields.negative
  /-- The exponent. -/
  exponent : (unpackExponent bits).toNat = fields.exponent
  /-- The fraction. -/
  fraction : (unpackMantissa bits).toNat = fields.fraction

/-- The bits of a double hold its fields. -/
theorem holds_ofDouble (bits : UInt64) : Holds bits.toBitVec (Fields.ofDouble bits) where
  sign := ofBitVec_unpackSign bits.toBitVec
  exponent := toNat_unpackExponent bits.toBitVec
  fraction := toNat_unpackMantissa bits.toBitVec

namespace Holds

variable {bits : BitVec Format.binary64.numBits} {fields : Fields}

/-- All bits of the exponent are set exactly if it is the last one. -/
theorem last_iff (h : Holds bits fields) :
    unpackExponent bits = -1#11 ↔ fields.exponent = 2047 := by
  rw [← h.exponent, ← BitVec.toNat_inj]
  rfl

/-- No bit of the exponent is set exactly if it is the first one. -/
theorem first_iff (h : Holds bits fields) : unpackExponent bits = 0#11 ↔ fields.exponent = 0 := by
  rw [← h.exponent, ← BitVec.toNat_inj]
  rfl

/-- No bit of the mantissa is set exactly if it is zero. -/
theorem none_iff (h : Holds bits fields) : unpackMantissa bits = 0#52 ↔ fields.fraction = 0 := by
  rw [← h.fraction, ← BitVec.toNat_inj]
  rfl

/-- **Bits.**  What is in the fields of some bits is what is calculated with. -/
theorem unpacks (h : Holds bits fields) :
    Unpacks (signOf fields.negative) fields.magnitude (unpack .binary64 bits) := by
  have hroom : fields.fraction < 2 ^ 52 := h.fraction ▸ (unpackMantissa bits).isLt
  have hlimit : fields.exponent < 2048 := h.exponent ▸ (unpackExponent bits).isLt
  have hbias : ((Format.binary64.exponentBias : ℤ) + Format.binary64.mantissaBitsWithoutImplicit)
      = 1075 := rfl
  rw [← h.sign, Fields.magnitude]
  unfold UnpackedFloat.unpack
  dsimp only
  by_cases htop : fields.exponent = 2047
  · rw [if_pos (h.last_iff.mpr htop), if_pos htop]
    by_cases hzero : fields.fraction = 0
    · rw [if_pos (h.none_iff.mpr hzero), if_pos hzero]
      exact .infinite
    · rw [if_neg (h.none_iff.not.mpr hzero), if_neg hzero]
      exact .undefined
  rw [if_neg (h.last_iff.not.mpr htop), if_neg htop]
  by_cases hlow : fields.exponent = 0
  · rw [if_pos (h.first_iff.mpr hlow), if_pos hlow]
    by_cases hzero : fields.fraction = 0
    · rw [dif_pos (h.none_iff.mpr hzero), hzero]
      exact .zero
    · -- Without a leading digit, the exponent is the least one.
      rw [dif_neg (h.none_iff.not.mpr hzero)]
      simp only [h.fraction, h.exponent, hlow, hbias]
      refine .finite (Nat.pos_of_ne_zero hzero) ⟨⟨?_, ?_, ?_⟩, ?_⟩ ?_
      · norm_num
      · omega
      · norm_num
      · norm_num
      · norm_num
  · rw [if_neg (h.first_iff.not.mpr hlow), if_neg hlow]
    simp only [toNat_one_append, h.fraction, h.exponent, hbias]
    refine .finite (by omega) ⟨⟨?_, ?_, ?_⟩, ?_⟩ ?_
    · omega
    · omega
    · omega
    · simp only [Bool.and_eq_true, beq_iff_eq, bne_iff_ne]
      omega
    · omega

end Holds

/-- **Fields.**  A double is calculated with as its fields say. -/
theorem unpacks (x : Float) : Unpacks (signOf (Fields.ofDouble x.toBits).negative)
    (Fields.ofDouble x.toBits).magnitude x.toModel.unpack :=
  (holds_ofDouble x.toBits).unpacks

/-! ### Positive numbers -/

variable {mantissa : ℕ} {exponent : ℤ} {lowest : Bool} {x y : Float}

/-- Zero is not rounded. -/
theorem nearest_zero : nearest 0 = 0 := by
  have hunits : nearestUnits 0 = 0 := by
    rw [nearestUnits, zero_div]
    exact_mod_cast nearestEven_natCast 0
  rw [nearest, hunits, Nat.cast_zero, zero_mul]

/-- A number is calculated with in only one way. -/
theorem IsNumber.unpack_eq (h : IsNumber y (mantissa * 2 ^ exponent)) (hpositive : 0 < mantissa)
    (hcanonical : Canonical mantissa exponent) :
    y.toModel.unpack = .finite .positive mantissa exponent hpositive := by
  have hq : 0 < (mantissa : ℚ) * 2 ^ exponent :=
    mul_pos (Nat.cast_pos.mpr hpositive) (two_zpow_pos exponent)
  obtain ⟨mantissa', exponent', hpositive', hunpack, hcanonical', hvalue⟩ := h.exists_positive hq
  have hexponent := lastPlace_of_canonical hpositive hcanonical
  have hmantissa := nearestUnits_of_canonical hpositive hcanonical
  rw [hvalue, lastPlace_of_canonical hpositive' hcanonical'] at hexponent
  rw [hvalue, nearestUnits_of_canonical hpositive' hcanonical'] at hmantissa
  subst hexponent hmantissa
  exact hunpack

/-- The digits of a positive number are read as this number. -/
theorem readDigits?_shortest (format : NumberFormat) (hpositive : 0 < mantissa)
    (hmarked : Marked mantissa exponent lowest) (hsmall : exponent ≤ 971) :
    ∃ y, readDigits? (format.writeDecimal (Decimal.shortest format.tie mantissa exponent lowest))
        = some y ∧ y.toModel.unpack = .finite .positive mantissa exponent hpositive := by
  have hnearest : nearest (Decimal.shortest format.tie mantissa exponent lowest).value
      = mantissa * 2 ^ exponent := Decimal.nearest_shortest hpositive hmarked hsmall
  obtain ⟨digits, place, hread, hvalue⟩ :=
    format.readsAs_writeDecimal (Decimal.shortest format.tie mantissa exponent lowest)
  have hvalue : (digits : ℚ) * 10 ^ place
      = (Decimal.shortest format.tie mantissa exponent lowest).value := hvalue
  rw [← hvalue] at hnearest
  -- No digits but zeros would be read as zero, which the double is not.
  have hdigits : 0 < digits := by
    by_contra hnone
    obtain rfl : digits = 0 := by omega
    have hq : 0 < (mantissa : ℚ) * 2 ^ exponent :=
      mul_pos (Nat.cast_pos.mpr hpositive) (two_zpow_pos exponent)
    rw [← hnearest, Nat.cast_zero, zero_mul, nearest_zero] at hq
    exact absurd hq (lt_irrefl 0)
  have hroom : nearest (digits * 10 ^ place) < overflow := by
    rw [hnearest]
    exact hmarked.toCanonical.lt_overflow_iff.mpr hsmall
  have hnumber := (nearestDouble_spec hdigits place).1 hroom
  rw [hnearest] at hnumber
  exact ⟨_, hread, hnumber.unpack_eq hpositive hmarked.toCanonical⟩

/-! ### Numbers with a sign -/

/-- The opposite of a double is packed from the opposite of what it was unpacked to. -/
theorem unpack_neg (y : Float) :
    (-y).toModel.unpack = unpack .binary64 (pack .binary64 y.toModel.unpack.neg) := rfl

/-- The sign in front of a number. -/
def minus (negative : Bool) : List Char := if negative then ['-'] else []

/-- A number with its sign is read. -/
theorem readNumber_minus {body : List Char} (hbody : BeginsWithDigit body) (negative : Bool)
    (hread : readDigits? body = some y) :
    readNumber (minus negative ++ body) = .ok (if negative then -y else y) := by
  cases negative with
  | true =>
    have hsign : splitSign ('-' :: body) = (true, body) := rfl
    simp [readNumber, minus, hsign, hread]
  | false =>
    have hsome : body.isEmpty = false := by
      obtain ⟨c, rest, rfl, -⟩ := hbody
      rfl
    simp [readNumber, minus, hbody.splitSign_eq, hread, hsome]

namespace NumberFormat

/-- The text of a number is a sign and a number without one. -/
theorem exists_write (format : NumberFormat) (hx : x.isFinite = true) :
    ∃ (negative : Bool) (body : List Char), (format.write x).toList = minus negative ++ body ∧
      BeginsWithDigit body ∧ ∃ y, readDigits? body = some y ∧ (if negative then -y else y) = x := by
  have hunpacks := unpacks x
  have hfinite : x.toModel.unpack.isFinite = true := hx
  refine ⟨(Fields.ofDouble x.toBits).negative, ?_⟩
  unfold NumberFormat.write
  dsimp only
  generalize (Fields.ofDouble x.toBits).negative = negative at hunpacks
  generalize (Fields.ofDouble x.toBits).magnitude = magnitude at hunpacks
  generalize hu : x.toModel.unpack = u at hunpacks hfinite
  -- One case for each kind of double. Those that are no finite numbers are excluded.
  cases hunpacks with
  | undefined => cases hfinite
  | infinite => cases hfinite
  | zero =>
    have hread : readDigits? (if format.pointZero then ['0', '.', '0'] else ['0']) = some 0.0 := by
      cases format.pointZero <;> rfl
    have hdigit : BeginsWithDigit (if format.pointZero then ['0', '.', '0'] else ['0']) := by
      cases format.pointZero
      · exact ⟨'0', [], rfl, rfl⟩
      · exact ⟨'0', ['.', '0'], rfl, rfl⟩
    refine ⟨_, ?_, hdigit, 0.0, hread, eq_of_unpack ?_⟩
    · show ((if negative then "-" else "") ++ if format.pointZero then "0.0" else "0").toList = _
      rw [String.toList_append]
      cases negative <;> cases format.pointZero <;> rfl
    · rw [hu]
      cases negative <;> rfl
  | @finite mantissa exponent lowest hpositive hmarked hsmall =>
    obtain ⟨y, hread, hy⟩ := readDigits?_shortest format hpositive hmarked hsmall
    refine ⟨_, ?_, format.beginsWithDigit_writeDecimal _, y, hread, eq_of_unpack ?_⟩
    · obtain ⟨m, rfl⟩ : ∃ m, mantissa = m + 1 := ⟨mantissa - 1, by omega⟩
      show ((if negative then "-" else "") ++ String.ofList _).toList = _
      rw [String.toList_append, String.toList_ofList]
      cases negative <;> rfl
    · rw [hu]
      cases negative with
      | false => exact hy
      | true =>
        -- The sign is read apart from the digits, and turns the number that they give.
        have hneg : (UnpackedFloat.finite .positive mantissa exponent hpositive).neg
            = .finite .negative mantissa exponent hpositive := rfl
        rw [if_pos rfl, unpack_neg, hy, hneg,
          unpack_pack_finite .negative hpositive hmarked.toCanonical, if_pos hsmall]
        rfl

/-- **Numbers survive their texts**, in every format. -/
theorem readNumber_write (format : NumberFormat) (hx : x.isFinite = true) :
    readNumber (format.write x).toList = .ok x := by
  obtain ⟨negative, body, htext, hbody, y, hread, hvalue⟩ := format.exists_write hx
  rw [htext, readNumber_minus hbody negative hread, hvalue]

/-- The doubles that are no numbers. -/
theorem write_cases (format : NumberFormat) (hx : x.isFinite = false) :
    format.write x = format.undefined ∧ x = Float.ofBits 0x7ff8000000000000 ∨
      format.write x = format.infinity ∧ x = Float.ofBits 0x7ff0000000000000 ∨
      format.write x = "-" ++ format.infinity ∧ x = Float.ofBits 0xfff0000000000000 := by
  have hunpacks := unpacks x
  have hinfinite : x.toModel.unpack.isFinite = false := hx
  unfold NumberFormat.write
  dsimp only
  generalize (Fields.ofDouble x.toBits).negative = negative at hunpacks
  generalize (Fields.ofDouble x.toBits).magnitude = magnitude at hunpacks
  generalize hu : x.toModel.unpack = u at hunpacks hinfinite
  cases hunpacks with
  | undefined => exact Or.inl ⟨rfl, eq_of_unpack (by rw [hu]; rfl)⟩
  | infinite =>
    cases negative with
    | false => exact Or.inr (Or.inl ⟨String.empty_append, eq_of_unpack (by rw [hu]; rfl)⟩)
    | true => exact Or.inr (Or.inr ⟨rfl, eq_of_unpack (by rw [hu]; rfl)⟩)
  | zero => cases hinfinite
  | finite => cases hinfinite

/-- **Results survive their texts**, also those that are no numbers. -/
theorem readNumber_plain (x : Float) : readNumber (plain.write x).toList = .ok x := by
  cases hx : x.isFinite with
  | true => exact plain.readNumber_write hx
  | false =>
    rcases plain.write_cases hx with ⟨htext, rfl⟩ | ⟨htext, rfl⟩ | ⟨htext, rfl⟩ <;> rw [htext]
    · decide +kernel
    · decide +kernel
    · decide +kernel

end NumberFormat

end GridLookup
