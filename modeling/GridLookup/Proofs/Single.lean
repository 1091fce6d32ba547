import GridLookup.Proofs.Bits
import GridLookup.Word.Single

namespace GridLookup

/-!
# Stored numbers as doubles

Widening a stored number loses nothing: narrowing takes it back to the word it came from.  Only
the undefined numbers, of which there are many words and one double, are an exception.

* `Word.isUndefined` — the words of undefined numbers.
* `Word.isNaN_widen` — widening makes undefined doubles of undefined words only.
* `Word.narrow_widen` — narrowing is the inverse of widening.
* `Word.narrow_of_isNaN` — there is one undefined number among the narrowed ones.
-/

/-- The word stands for no number. -/
def Word.isUndefined (word : Word) : Bool :=
  (Fields.ofSingle word).exponent == Word.topExponent && (Fields.ofSingle word).fraction != 0

/-! ### Rounding exact quotients -/

/-- A whole quotient is not rounded. -/
theorem roundQuotient_mul (tie : Tie) (quotient : Nat) {den : Nat} (h : 0 < den) :
    roundQuotient tie (quotient * den) den = quotient := by
  unfold roundQuotient
  rw [Nat.mul_mod_left, Nat.mul_div_cancel _ h]
  dsimp only
  rw [if_pos (by omega)]

/-! ### Fields and bits -/

namespace Fields

/-- An exponent has eight bits. -/
theorem exponent_ofSingle_lt (word : Word) : (ofSingle word).exponent < 256 :=
  Nat.mod_lt _ (by decide)

/-- A fraction has 23 bits. -/
theorem fraction_ofSingle_lt (word : Word) : (ofSingle word).fraction < 1 <<< 23 :=
  Nat.mod_lt _ (by decide)

/-- A word is put together again from its fields. -/
theorem toSingle_ofSingle (word : Word) : (ofSingle word).toSingle = word := by
  have h := word.toNat_lt
  apply UInt32.toNat_inj.mp
  simp only [toSingle, ofSingle, UInt32.toNat_ofNat', Nat.shiftRight_eq_div_pow, Nat.shiftLeft_eq,
    decide_eq_true_eq]
  split <;> omega

/-- Fields within their ranges are taken off the bits they were put into. -/
theorem ofDouble_toDouble {fields : Fields} (hexponent : fields.exponent < 2048)
    (hfraction : fields.fraction < 1 <<< 52) : ofDouble fields.toDouble = fields := by
  obtain ⟨negative, exponent, fraction⟩ := fields
  simp only [Nat.shiftLeft_eq] at hexponent hfraction
  simp only [ofDouble, toDouble, UInt64.toNat_ofNat', Nat.shiftRight_eq_div_pow, Nat.shiftLeft_eq,
    Fields.mk.injEq]
  cases negative with
  | false =>
    refine ⟨?_, ?_, ?_⟩
    · rw [decide_eq_false_iff_not, if_neg (by decide)]
      omega
    · rw [if_neg (by decide)]
      omega
    · rw [if_neg (by decide)]
      omega
  | true =>
    refine ⟨?_, ?_, ?_⟩
    · rw [decide_eq_true_eq, if_pos rfl]
      omega
    · rw [if_pos rfl]
      omega
    · rw [if_pos rfl]
      omega

end Fields

/-! ### Widening and narrowing -/

namespace Word

/-- A number of full precision gets the bits back that widening appended. -/
theorem narrowMagnitude_widened {exponent fraction : Nat} (hexponent : 0 < exponent)
    (hlt : exponent < topExponent) (hfraction : fraction < 1 <<< 23) :
    narrowMagnitude (exponent + 896) (fraction <<< 29) = (exponent <<< 23) + fraction := by
  have hsignificand : (1 <<< 52) + fraction <<< 29 = ((1 <<< 23) + fraction) * 1 <<< 29 := by
    simp only [Nat.shiftLeft_eq]
    omega
  unfold narrowMagnitude
  dsimp only
  rw [if_pos (by omega), hsignificand, roundQuotient_mul _ _ (by decide)]
  simp only [topExponent, Nat.shiftLeft_eq] at *
  omega

/-- A fraction lies between its leading bit and twice that bit. -/
theorem lead_spec {fraction : Nat} (hpos : fraction ≠ 0) (hlt : fraction < 1 <<< 23) :
    fraction.log2 < 23 ∧ 1 <<< fraction.log2 ≤ fraction ∧
      fraction - 1 <<< fraction.log2 < 1 <<< fraction.log2 := by
  have hbelow := Nat.log2_self_le hpos
  have habove := Nat.lt_log2_self (n := fraction)
  rw [Nat.pow_succ] at habove
  simp only [Nat.shiftLeft_eq, Nat.one_mul] at hlt ⊢
  exact ⟨(Nat.log2_lt hpos).mpr hlt, hbelow, by omega⟩

/-- The bits above and below a leading bit make up the significand of a double. -/
theorem shiftLeft_lead {lead : Nat} (h : lead < 23) :
    1 <<< 52 = (1 <<< lead) * 1 <<< (52 - lead) := by
  simp only [Nat.shiftLeft_eq, Nat.one_mul]
  rw [← Nat.pow_add, Nat.add_sub_cancel' (by omega)]

/-- A number without a leading bit loses the one that widening gave it. -/
theorem narrowMagnitude_lead {fraction : Nat} (hpos : fraction ≠ 0) (hlt : fraction < 1 <<< 23) :
    narrowMagnitude (fraction.log2 + 874)
      ((fraction - 1 <<< fraction.log2) <<< (52 - fraction.log2)) = fraction := by
  obtain ⟨hlead, hle, -⟩ := lead_spec hpos hlt
  have hsignificand : (1 <<< 52) + (fraction - 1 <<< fraction.log2) <<< (52 - fraction.log2)
      = fraction * 1 <<< (52 - fraction.log2) := by
    rw [shiftLeft_lead hlead, Nat.shiftLeft_eq (fraction - _), Nat.shiftLeft_eq 1 (52 - _),
      Nat.one_mul, ← Nat.add_mul, Nat.add_sub_cancel' hle]
  have hshift : 926 - (fraction.log2 + 874) = 52 - fraction.log2 := by omega
  unfold narrowMagnitude
  dsimp only
  rw [if_neg (by omega), hsignificand, hshift]
  refine roundQuotient_mul _ _ ?_
  rw [Nat.shiftLeft_eq, Nat.one_mul]
  exact Nat.two_pow_pos _

/-- The fields of a widened number are in the ranges of a double's. -/
theorem widenFields_lt (word : Word) :
    (widenFields (Fields.ofSingle word)).exponent < 2048 ∧
      (widenFields (Fields.ofSingle word)).fraction < 1 <<< 52 := by
  have hexponent := Fields.exponent_ofSingle_lt word
  have hfraction := Fields.fraction_ofSingle_lt word
  -- Undefined and infinite, zero, subnormal and normal numbers have each their own fields.
  unfold widenFields
  split
  · dsimp only
    split <;> simp [Nat.shiftLeft_eq]
  · split
    · split
      · simp [Nat.shiftLeft_eq]
      · next hpos =>
        obtain ⟨hlead, -, hlt⟩ := lead_spec hpos hfraction
        dsimp only
        refine ⟨by omega, ?_⟩
        rw [shiftLeft_lead hlead, Nat.shiftLeft_eq (_ - _), Nat.shiftLeft_eq 1 (52 - _),
          Nat.one_mul]
        exact Nat.mul_lt_mul_of_pos_right hlt (Nat.two_pow_pos _)
    · simp only [Nat.shiftLeft_eq] at *
      omega

/-- Undefined words become undefined doubles, and no others do. -/
theorem widenFields_undefined (word : Word) :
    ((widenFields (Fields.ofSingle word)).exponent == 2047
      && (widenFields (Fields.ofSingle word)).fraction != 0) = word.isUndefined := by
  have hexponent := Fields.exponent_ofSingle_lt word
  have hfraction := Fields.fraction_ofSingle_lt word
  unfold widenFields isUndefined
  split
  · next htop =>
    rw [htop]
    by_cases hzero : (Fields.ofSingle word).fraction = 0
    · simp [hzero]
    · simp [hzero, Nat.shiftLeft_eq]
  · next htop =>
    rw [beq_false_of_ne htop, Bool.false_and, Bool.and_eq_false_iff]
    refine Or.inl (beq_false_of_ne ?_)
    unfold topExponent at htop
    split
    · split
      · exact Nat.zero_ne_add_one 2046
      · next hpos =>
        obtain ⟨hlead, -⟩ := lead_spec hpos hfraction
        dsimp only
        omega
    · dsimp only
      omega

/-- Narrowed fields of a widened number are those it had. -/
theorem narrowFields_widenFields {word : Word} (h : word.isUndefined = false) :
    narrowFields (widenFields (Fields.ofSingle word)) = word := by
  have hexponent := Fields.exponent_ofSingle_lt word
  have hfraction := Fields.fraction_ofSingle_lt word
  have hword := Fields.toSingle_ofSingle word
  unfold isUndefined at h
  generalize Fields.ofSingle word = fields at h hexponent hfraction hword
  obtain ⟨negative, exponent, fraction⟩ := fields
  subst hword
  dsimp only at h hexponent hfraction
  unfold widenFields narrowFields Fields.toSingle
  dsimp only
  by_cases htop : exponent = topExponent
  · -- An infinity, since the word is no undefined number.
    have hzero : fraction = 0 := by simpa [htop] using h
    simp [htop, hzero]
  · rw [if_neg htop]
    by_cases hlow : exponent = 0
    · rw [if_pos hlow]
      by_cases hzero : fraction = 0
      · simp [hlow, hzero]
      · -- A subnormal number has gained a leading digit, which narrowing shifts back.
        obtain ⟨hlead, -⟩ := lead_spec hzero hfraction
        rw [if_neg hzero]
        dsimp only
        rw [if_neg (by omega), if_neg (by omega), narrowMagnitude_lead hzero hfraction, hlow]
        simp
    · rw [if_neg hlow]
      dsimp only
      have hlt : exponent < topExponent := by
        unfold topExponent at htop ⊢
        omega
      have hbelow : exponent + 896 ≠ 2047 := by
        unfold topExponent at htop
        omega
      rw [if_neg hbelow, if_neg (by omega),
        narrowMagnitude_widened (Nat.pos_of_ne_zero hlow) hlt hfraction, Nat.add_assoc]

/-- Widening makes undefined doubles of undefined words only. -/
theorem isNaN_widen (word : Word) : word.widen.isNaN = word.isUndefined := by
  obtain ⟨hexponent, hfraction⟩ := widenFields_lt word
  unfold widen
  rw [Fields.isNaN_ofBits, Fields.ofDouble_toDouble hexponent hfraction, widenFields_undefined]

/-- **Narrowing undoes widening.**  A stored number is the one nearest to the double it equals,
    bit for bit, zeros of either sign and infinities included. -/
theorem narrow_widen {word : Word} (h : word.isUndefined = false) : narrow word.widen = word := by
  obtain ⟨hexponent, hfraction⟩ := widenFields_lt word
  have hfields := Fields.ofDouble_toDouble hexponent hfraction
  have hbits : word.widen.toBits = (widenFields (Fields.ofSingle word)).toDouble :=
    Fields.toBits_ofBits (by rw [hfields, widenFields_undefined, h])
  unfold narrow
  rw [hbits, hfields, narrowFields_widenFields h]

/-- The least of all stored numbers but zero, the largest finite one, minus infinity and minus
    zero come back. -/
example : [1, 0x7f7fffff, 0xff800000, 0x80000000].map (fun word => narrow (widen word))
    = [1, 0x7f7fffff, 0xff800000, 0x80000000] := by decide +kernel

/-- Undefined doubles are stored as the undefined number. -/
theorem narrow_of_isNaN {x : Float} (h : x.isNaN = true) : narrow x = undefined := by
  unfold narrow
  rw [toBits_of_isNaN h]
  decide

/-- The undefined numbers of either sign are the same double. -/
theorem widen_invalid : widen invalid = widen undefined := by decide +kernel

end Word

end GridLookup
