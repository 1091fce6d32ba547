import GridLookup.Decimal.Reader
import GridLookup.Text.Numeral

namespace GridLookup.Yaml

/-!
# Plain texts

What a text without quotes denotes, apart from itself.

* `isNullWord`, `flag?`, `count?`, `number?` — the texts of nothing, of flags and of numbers.
* `isAmbiguous` — a text that denotes something else than itself.
-/

/-! ### Words -/

/-- A word for nothing. -/
def isNullWord (text : String) : Bool := ["null", "Null", "NULL", "~"].contains text

/-- No text, or a word for nothing. -/
def isNothing (text : String) : Bool := text.isEmpty || isNullWord text

/-- The flag that a word denotes. -/
def flag? (text : String) : Option Bool :=
  if ["true", "True", "TRUE"].contains text then some true
  else if ["false", "False", "FALSE"].contains text then some false
  else none

/-! ### Whole numbers -/

/-- A text without a plus sign at its front. -/
def dropPlus : List Char → List Char
  | '+' :: rest => rest
  | text => text

/-- A plus or minus sign begins the text. -/
def beginsWithSign : List Char → Bool
  | c :: _ => c == '+' || c == '-'
  | [] => false

/-- The radix that the front of a number announces, and the digits after the announcement. -/
def radix? : List Char → Option (Nat × List Char)
  | '0' :: 'x' :: digits => some (16, digits)
  | '0' :: 'o' :: digits => some (8, digits)
  | '0' :: 'b' :: digits => some (2, digits)
  | _ => none

/-- Digits with a needless zero in front, after an optional sign.  They denote no number. -/
def hasLeadingZero (text : List Char) : Bool :=
  match if beginsWithSign text then text.drop 1 else text with
  | '0' :: digits => !digits.isEmpty && digits.all isDigit
  | _ => false

/-- The number of some digits, if it is below a limit. -/
def readBelow? (limit radix : Nat) (digits : List Char) : Option Nat :=
  (Numeral.read? radix digits).filter fun number => number < limit

/-- The number below a limit that a text denotes in its own notation: decimal, or in the radix
    it announces. -/
def unsigned? (limit : Nat) (text : List Char) : Option Nat :=
  let digits := dropPlus text
  if beginsWithSign digits || hasLeadingZero text then none
  else
    match radix? digits with
    | some (radix, digits) => readBelow? limit radix digits
    | none => readBelow? limit 10 digits

/-- The magnitude, up to a limit, of the negative number that a text denotes. -/
def negative? (limit : Nat) : List Char → Option Nat
  | '-' :: digits =>
    if hasLeadingZero digits then none
    else
      match radix? digits with
      | some (radix, digits) => readBelow? (limit + 1) radix digits
      | none => readBelow? (limit + 1) 10 digits
  | _ => none

/-- The count that a text denotes, if a 64-bit word holds it. -/
def count? (text : String) : Option Nat := unsigned? (1 <<< 64) text.toList

/-- Whether a text denotes a whole number of at most 128 bits. -/
def isWhole (text : List Char) : Bool :=
  (unsigned? (1 <<< 128) text).isSome || (negative? (1 <<< 127) text).isSome

/-! ### Numbers -/

/-- The number that a text denotes: a name of infinity or of the undefined number, or a decimal
    in the range of doubles. -/
def number? (text : String) : Option Float :=
  let unsigned := dropPlus text.toList
  if text.toList.head? == some '+' && beginsWithSign unsigned then none
  else if [".inf", ".Inf", ".INF"].contains (String.ofList unsigned) then
    some (Float.ofBits 0x7ff0000000000000)
  else if ["-.inf", "-.Inf", "-.INF"].contains text then some (Float.ofBits 0xfff0000000000000)
  else if [".nan", ".NaN", ".NAN"].contains text then some (Float.ofBits 0x7ff8000000000000)
  else
    match readNumber unsigned with
    | .ok x => if x.isFinite then some x else none
    | .error _ => none

/-- A text that without quotes denotes something else than itself, or is easily taken to. -/
def isAmbiguous (text : String) : Bool :=
  isNothing text || (flag? text).isSome || isWhole text.toList || hasLeadingZero text.toList
    || (number? text).isSome

end GridLookup.Yaml
