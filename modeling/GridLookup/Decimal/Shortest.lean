import GridLookup.Binary
import GridLookup.Rounding

namespace GridLookup

/-!
# Shortest decimals

The fewest decimal digits that read back to a given double, and of those the nearest to it.

* `Decimal` — a whole number of some power of ten.
* `Decimal.shortest` — the shortest decimal in the interval of reals that round to a double.
-/

/-- The number `digits * 10 ^ exponent`. -/
structure Decimal where
  /-- The significant digits. -/
  digits : Nat
  /-- The place of the last digit. -/
  exponent : Int
  deriving DecidableEq, Repr

namespace Decimal

/-- Drops up to `fuel` trailing zeros of the digits. -/
def dropZeros : Nat → Decimal → Decimal
  | 0, decimal => decimal
  | fuel + 1, decimal =>
    if decimal.digits % 10 = 0 then dropZeros fuel ⟨decimal.digits / 10, decimal.exponent + 1⟩
    else decimal

/-- Whether `mantissa * 2 ^ exponent` lies below `10 ^ place`. -/
def liesBelow (mantissa : Nat) (exponent place : Int) : Bool :=
  (mantissa <<< exponent.toNat) * Nat.pow 10 (-place).toNat
    < Nat.pow 10 place.toNat <<< (-exponent).toNat

/-- The least `place` with `mantissa * 2 ^ exponent` below `10 ^ place`, for a positive
    mantissa.  The binary logarithm gives it up to one. -/
def leadingPlace (mantissa : Nat) (exponent : Int) : Int :=
  -- 0.30103 is the decimal logarithm of 2.
  let estimate := ((mantissa.log2 : Int) + exponent) * 30103 / 100000
  if liesBelow mantissa exponent estimate then estimate
  else if liesBelow mantissa exponent (estimate + 1) then estimate + 1
  else estimate + 2

/-- The neighbour of `mantissa * 2 ^ exponent` among the multiples of `10 ^ place` that reads
    back to it, if there is one; of two the nearer, and of two equally near the one that `tie`
    picks.  Lengths are counted in quarters of the double's last place, where half the distance
    to the next double is two, or one below a `lowest` mantissa.  The ends of the interval read
    back exactly if the mantissa is even. -/
def onGrid? (tie : Tie) (mantissa : Nat) (exponent : Int) (lowest : Bool) (place : Int) :
    Option Nat :=
  let quarter := Nat.pow 10 (-place).toNat <<< (exponent - 2).toNat
  let unit := Nat.pow 10 place.toNat <<< (2 - exponent).toNat
  -- `value / unit` is the double in multiples of the grid, both scaled to whole numbers.
  let value := 4 * mantissa * quarter
  let floor := value / unit
  let below := value % unit
  let above := unit - below
  let reachDown := (if lowest then 1 else 2) * quarter
  let reachUp := 2 * quarter
  let closed := mantissa % 2 == 0
  let floorReads := below < reachDown || (closed && below == reachDown)
  let ceilingReads := above < reachUp || (closed && above == reachUp)
  if floorReads && ceilingReads then
    if below < above then some floor
    else if above < below then some (floor + 1)
    else some (if tie.raises floor then floor + 1 else floor)
  else if floorReads then some floor
  else if ceilingReads then some (floor + 1)
  else none

/-- Tries grids with `count` more digits and up, at most `fuel` of them. -/
def searchGrids (tie : Tie) (mantissa : Nat) (exponent : Int) (lowest : Bool) (place : Int) :
    Nat → Decimal
  | 0 => ⟨0, 0⟩
  | fuel + 1 =>
    match onGrid? tie mantissa exponent lowest place with
    | some digits => dropZeros 20 ⟨digits, place⟩
    | none => searchGrids tie mantissa exponent lowest (place - 1) fuel

/-- The shortest decimal that reads back to the positive double `mantissa * 2 ^ exponent`.
    Seventeen digits always do. -/
def shortest (tie : Tie) (mantissa : Nat) (exponent : Int) (lowest : Bool) : Decimal :=
  searchGrids tie mantissa exponent lowest (leadingPlace mantissa exponent - 1) 18

end Decimal

end GridLookup
