import GridLookup.Scalar

namespace GridLookup

/-!
# Summaries

* `Summary` — the range and the mean of some values; `Summary.ofValues` finds them.
-/

/-- The range and the mean of some values. -/
structure Summary where
  /-- The least value. -/
  least : Float
  /-- The greatest value. -/
  greatest : Float
  /-- The sum of the values over their number. -/
  mean : Float
  deriving Repr

namespace Summary

/-- The smaller of two numbers.  The first one is kept when they are equal or when the second one
    is undefined. -/
def smaller (x y : Float) : Float := if y < x then y else x

/-- The greater of two numbers, with the same preference. -/
def greater (x y : Float) : Float := if x < y then y else x

/-- The range and the mean of some values.  Undefined values are outside every range but make
    the mean undefined. -/
def ofValues (values : Array Float) : Summary where
  least := values.foldl smaller (Float.ofBits 0x7ff0000000000000)
  greatest := values.foldl greater (Float.ofBits 0xfff0000000000000)
  mean := values.foldl (· + ·) 0.0 / Float.ofNat (max values.size 1)

end Summary

end GridLookup
