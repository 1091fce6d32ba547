import GridLookup.Binary
import GridLookup.Rounding
import GridLookup.Word.Bytes

namespace GridLookup

/-!
# Stored numbers

A stored number is a word with the bits of a single-precision number.

* `Word.widen` — the double that equals a stored number.
* `Word.narrow` — the stored number nearest to a double.
-/

namespace Word

/-- The exponent field of infinite and undefined singles. -/
def topExponent : Nat := 255

/-- The word of the undefined number. -/
def undefined : Word := 0x7fc00000

/-- The word of an undefined result of defined operands, which carries a sign. -/
def invalid : Word := 0xffc00000

/-- The fields of the double that equals a single, which has a wider range: a single without a
    leading bit gets one. -/
def widenFields (fields : Fields) : Fields :=
  if fields.exponent = topExponent then
    ⟨fields.negative && fields.fraction == 0, 2047, if fields.fraction = 0 then 0 else 1 <<< 51⟩
  else if fields.exponent = 0 then
    if fields.fraction = 0 then ⟨fields.negative, 0, 0⟩
    else
      let lead := fields.fraction.log2
      ⟨fields.negative, lead + 874, (fields.fraction - (1 <<< lead)) <<< (52 - lead)⟩
  else ⟨fields.negative, fields.exponent + 896, fields.fraction <<< 29⟩

/-- The double that a stored number equals. -/
def widen (word : Word) : Float := Float.ofBits (widenFields (Fields.ofSingle word)).toDouble

/-- The exponent and fraction, in one numeral, of the single nearest to the double with these
    positive exponent and fraction fields.  Twenty-nine bits of the significand go, and below
    the range of full precision more of them, an exact half to the even neighbour.  A
    significand that rounds up to the next power of two carries into the exponent, and numbers
    beyond the range end at infinity. -/
def narrowMagnitude (exponent fraction : Nat) : Nat :=
  let significand := (1 <<< 52) + fraction
  -- Biased exponent 897 of doubles is 1 of singles: 1023 - 127 = 896.
  if 897 ≤ exponent then
    let rounded := roundQuotient .toEven significand (1 <<< 29)
    min (((exponent - 897) <<< 23) + rounded) (topExponent <<< 23)
  else roundQuotient .toEven significand (1 <<< (926 - exponent))

/-- The stored number nearest to a double with these fields. -/
def narrowFields (fields : Fields) : Word :=
  let sign := if fields.negative then 1 <<< 31 else 0
  if fields.exponent = 2047 then
    if fields.fraction = 0 then UInt32.ofNat (sign + (topExponent <<< 23)) else undefined
  -- A double without a leading bit is far below the smallest single.
  else if fields.exponent = 0 then UInt32.ofNat sign
  else UInt32.ofNat (sign + narrowMagnitude fields.exponent fields.fraction)

/-- The stored number nearest to a double. -/
def narrow (x : Float) : Word := narrowFields (Fields.ofDouble x.toBits)

end Word

end GridLookup
