import GridLookup.Decimal.Shortest
import GridLookup.Text.Numeral

namespace GridLookup

/-!
# Number texts

How doubles are spelled in messages, listings and layout files.

* `NumberFormat` — the decisions of a spelling; `NumberFormat.write` carries it out.
* `NumberFormat.plain`, `NumberFormat.listed`, `NumberFormat.yaml` — the three spellings in use.
* `writeFixed` — six decimal places.
-/

/-- The decisions of a shortest-digits spelling. -/
structure NumberFormat where
  /-- Which of two equally near shortest decimals is written. -/
  tie : Tie
  /-- The places of the decimal point for which no exponent is written, counted from before the
      first digit; `none` stands for all. -/
  positional : Option (Int × Int)
  /-- Whole numbers without an exponent end in `.0`. -/
  pointZero : Bool
  /-- The text of the undefined number. -/
  undefined : String
  /-- The text of infinity. -/
  infinity : String

namespace NumberFormat

/-- Digits with the decimal point after `point` of them, padded with zeros where it stands
    outside; `whole` follows when nothing stands after the point. -/
def placePoint (digits : List Char) (point : Int) (whole : List Char) : List Char :=
  if point ≤ 0 then ['0', '.'] ++ List.replicate (-point).toNat '0' ++ digits
  else if point.toNat < digits.length then
    digits.take point.toNat ++ ['.'] ++ digits.drop point.toNat
  else digits ++ List.replicate (point.toNat - digits.length) '0' ++ whole

/-- A whole number with its sign. -/
def writeInt (n : Int) : List Char :=
  if n < 0 then '-' :: Numeral.write n.natAbs else Numeral.write n.natAbs

/-- Digits with an exponent, the point after the first of them. -/
def writeExponent (digits : List Char) (point : Int) : List Char :=
  let mantissa := match digits with
    | first :: second :: rest => first :: '.' :: second :: rest
    | short => short
  mantissa ++ ['e'] ++ writeInt (point - 1)

/-- A positive decimal in this format. -/
def writeDecimal (format : NumberFormat) (decimal : Decimal) : List Char :=
  let digits := Numeral.write decimal.digits
  let point := digits.length + decimal.exponent
  let positional := match format.positional with
    | none => true
    | some (least, greatest) => least ≤ point && point ≤ greatest
  if positional then placePoint digits point (if format.pointZero then ['.', '0'] else [])
  else writeExponent digits point

/-- A double in this format. -/
def write (format : NumberFormat) (x : Float) : String :=
  let fields := Fields.ofDouble x.toBits
  let sign := if fields.negative then "-" else ""
  match fields.magnitude with
  | .undefined => format.undefined
  | .infinite => sign ++ format.infinity
  | .finite 0 _ _ => sign ++ (if format.pointZero then "0.0" else "0")
  | .finite mantissa exponent lowest =>
    let decimal := Decimal.shortest format.tie mantissa exponent lowest
    sign ++ String.ofList (format.writeDecimal decimal)

/-- Messages and results: never an exponent, and whole numbers without a point. -/
def plain : NumberFormat where
  tie := .up
  positional := none
  pointZero := false
  undefined := "NaN"
  infinity := "inf"

/-- Listings of nodes: an exponent below `1e-4` and from `1e16` on. -/
def listed : NumberFormat where
  tie := .up
  positional := some (-3, 16)
  pointZero := true
  undefined := "NaN"
  infinity := "inf"

/-- Layout files: an exponent below `1e-5` and from `1e16` on. -/
def yaml : NumberFormat where
  tie := .toEven
  positional := some (-4, 16)
  pointZero := true
  undefined := ".nan"
  infinity := ".inf"

end NumberFormat

/-- A whole number of millionths with a point and six places. -/
def writeMillionths (n : Nat) : String :=
  let fraction := Numeral.write (n % 1000000)
  let padding := List.replicate (6 - fraction.length) '0'
  Numeral.text (n / 1000000) ++ "." ++ String.ofList (padding ++ fraction)

/-- A double to six decimal places, the exact value rounded and a half going to the even
    neighbour. -/
def writeFixed (x : Float) : String :=
  let fields := Fields.ofDouble x.toBits
  let sign := if fields.negative then "-" else ""
  match fields.magnitude with
  | .undefined => "NaN"
  | .infinite => sign ++ "inf"
  | .finite mantissa exponent _ =>
    let millionths := roundQuotient .toEven ((mantissa * 1000000) <<< exponent.toNat)
      (1 <<< (-exponent).toNat)
    sign ++ writeMillionths millionths

end GridLookup
