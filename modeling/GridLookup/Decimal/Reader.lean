import GridLookup.Text.Numeral

namespace GridLookup

/-!
# Reading numbers

The texts that denote a double: an optional sign, then digits with an optional point among or
around them and an optional exponent, or a name of infinity or of the undefined number in
letters of either case.

* `NumberFault` — why a text denotes no double.
* `readNumber` — the double that a text denotes, correctly rounded.
-/

/-- Why a text denotes no double. -/
inductive NumberFault where
  /-- There is no text. -/
  | empty
  /-- The text is no number. -/
  | malformed
  deriving DecidableEq, Repr

/-- The wording of a number fault. -/
def NumberFault.message : NumberFault → String
  | .empty => "cannot parse float from empty string"
  | .malformed => "invalid float literal"

/-- A decimal digit. -/
def isDigit (c : Char) : Bool := '0' ≤ c && c ≤ '9'

/-- The double next to `digits * 10 ^ exponent`.  Decimals beyond the range of doubles are
    settled by their magnitude alone. -/
def nearestDouble (digits : Nat) (exponent : Int) : Float :=
  let point := (Numeral.write digits).length + exponent
  if digits = 0 then 0.0
  -- The largest double has 309 digits before the point; the smallest has 323 zeros behind it.
  else if 310 < point then Float.ofBits 0x7ff0000000000000
  else if point < -330 then 0.0
  else Float.ofScientific digits (exponent < 0) exponent.natAbs

/-- An optional sign, and what follows it. -/
def splitSign : List Char → Bool × List Char
  | '-' :: rest => (true, rest)
  | '+' :: rest => (false, rest)
  | text => (false, text)

/-- The value of an exponent: an optional sign and at least one digit. -/
def readExponent? (text : List Char) : Option Int :=
  let (negative, digits) := splitSign text
  (Numeral.read? 10 digits).map fun n => if negative then -(n : Int) else n

/-- The exponent at the end of a number, zero if there is none. -/
def readTail? : List Char → Option Int
  | [] => some 0
  | 'e' :: text => readExponent? text
  | 'E' :: text => readExponent? text
  | _ => none

/-- An unsigned number of digits, an optional point and an optional exponent. -/
def readDigits? (text : List Char) : Option Float :=
  let whole := text.takeWhile isDigit
  let afterWhole := text.dropWhile isDigit
  let (fraction, tail) := match afterWhole with
    | '.' :: rest => (rest.takeWhile isDigit, rest.dropWhile isDigit)
    | rest => ([], rest)
  match Numeral.read? 10 (whole ++ fraction), readTail? tail with
  | some digits, some exponent => some (nearestDouble digits (exponent - fraction.length))
  | _, _ => none

/-- A name of infinity or of the undefined number. -/
def readName? (text : List Char) : Option Float :=
  let name := text.map Char.toLower
  if name = "inf".toList || name = "infinity".toList then
    some (Float.ofBits 0x7ff0000000000000)
  else if name = "nan".toList then some (Float.ofBits 0x7ff8000000000000)
  else none

/-- The double that a text denotes. -/
def readNumber (text : List Char) : Except NumberFault Float :=
  if text.isEmpty then .error .empty
  else
    let (negative, unsigned) := splitSign text
    match (readDigits? unsigned).or (readName? unsigned) with
    | some x => .ok (if negative then -x else x)
    | none => .error .malformed

end GridLookup
