namespace GridLookup

/-!
# Scalars

The numbers that axes, tables and queries are made of.

* `Scalar α` — the arithmetic, literals and tests that interpolation needs, `NaN` included.
* `PowerScalar α` — a scalar with powers, which the barometric formula needs.

Everything numeric in the library is written once over these classes.  The program runs it on
`Float`; read over an exact ordered field the same definitions say what the rounded results
approximate.
-/

/-- The arithmetic of coordinates and table values.  The tests answer `false` when an operand
    is undefined (`NaN`), so `le` and `lt` are not each other's negation. -/
class Scalar (α : Type) extends Add α, Sub α, Mul α, Div α, OfScientific α where
  /-- Strictly below. -/
  lt : α → α → Bool
  /-- Below or equal. -/
  le : α → α → Bool
  /-- Numerically equal; zeros of either sign are. -/
  eq : α → α → Bool
  /-- The undefined number. -/
  nan : α
  /-- Recognises the undefined number. -/
  isNaN : α → Bool

/-- A scalar with powers. -/
class PowerScalar (α : Type) extends Scalar α where
  /-- The base first, then the exponent. -/
  pow : α → α → α

/-- Double precision: every operation rounds to nearest. -/
instance : PowerScalar Float where
  lt x y := x < y
  le x y := x ≤ y
  eq x y := x == y
  nan := Float.ofBits 0x7ff8000000000000
  isNaN := Float.isNaN
  pow := Float.pow

end GridLookup
