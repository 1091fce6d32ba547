namespace GridLookup

/-!
# Binary floating point

The bit fields of single- and double-precision numbers, taken apart and put together in
natural-number arithmetic.

* `Fields` — sign, biased exponent and fraction.
* `Fields.ofDouble`, `Fields.toDouble`, `Fields.ofSingle`, `Fields.toSingle` — to and from bits.
* `Magnitude` — what the fields of a double denote.
-/

/-- The fields of a binary floating-point number. -/
structure Fields where
  /-- The sign bit. -/
  negative : Bool
  /-- The biased exponent. -/
  exponent : Nat
  /-- The fraction below the leading bit. -/
  fraction : Nat
  deriving DecidableEq, Repr

namespace Fields

/-- The fields of a double's 64 bits. -/
def ofDouble (bits : UInt64) : Fields where
  negative := (1 <<< 63) ≤ bits.toNat
  exponent := (bits.toNat >>> 52) % 0x800
  fraction := bits.toNat % (1 <<< 52)

/-- The 64 bits of a double with these fields. -/
def toDouble (fields : Fields) : UInt64 :=
  UInt64.ofNat
    ((if fields.negative then 1 <<< 63 else 0) + (fields.exponent <<< 52) + fields.fraction)

/-- The fields of a single's 32 bits. -/
def ofSingle (bits : UInt32) : Fields where
  negative := (1 <<< 31) ≤ bits.toNat
  exponent := (bits.toNat >>> 23) % 0x100
  fraction := bits.toNat % (1 <<< 23)

/-- The 32 bits of a single with these fields. -/
def toSingle (fields : Fields) : UInt32 :=
  UInt32.ofNat
    ((if fields.negative then 1 <<< 31 else 0) + (fields.exponent <<< 23) + fields.fraction)

end Fields

/-- What a double denotes, its sign apart. -/
inductive Magnitude where
  /-- No number. -/
  | undefined
  /-- Beyond all numbers. -/
  | infinite
  /-- The number `mantissa * 2 ^ exponent`.  `lowest` marks the least mantissa of its exponent,
      below which the next smaller double is only half as far away. -/
  | finite (mantissa : Nat) (exponent : Int) (lowest : Bool)
  deriving DecidableEq, Repr

/-- What the fields of a double denote. -/
def Fields.magnitude (fields : Fields) : Magnitude :=
  if fields.exponent = 2047 then
    if fields.fraction = 0 then .infinite else .undefined
  else if fields.exponent = 0 then .finite fields.fraction (-1074) false
  else
    .finite ((1 <<< 52) + fields.fraction) (fields.exponent - 1075)
      (fields.fraction == 0 && fields.exponent != 1)

end GridLookup
