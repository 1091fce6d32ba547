namespace GridLookup

/-!
# Shapes

A shape is the list of axis lengths of a table.  Its cells are numbered row by row, the last
axis running fastest.

* `Shape.cells` — how many cells there are.
* `Shape.strides` — how far apart neighbours along each axis are.
* `Shape.offset` — the number of a cell, added up from strides.
* `Shape.rowMajor` — the same number, read as a mixed-radix numeral.
* `Shape.Contains` — the multi-indices of a shape.
-/

namespace Shape

/-- The number of cells. -/
def cells : List Nat → Nat
  | [] => 1
  | length :: rest => length * cells rest

/-- For each axis, the distance between the numbers of two neighbours along it: the number of
    cells of the axes after it. -/
def strides : List Nat → List Nat
  | [] => []
  | _ :: rest => cells rest :: strides rest

/-- The number of the cell at a multi-index, as a sum over the axes. -/
def offset (shape index : List Nat) : Nat :=
  (List.zipWith (· * ·) index (strides shape)).foldr (· + ·) 0

/-- The multi-index read as a numeral whose digit on each axis has the axis length as its
    radix, the first axis leading. -/
def rowMajor (shape index : List Nat) : Nat :=
  (shape.zip index).foldl (fun number (length, digit) => number * length + digit) 0

/-- The digits of a cell number: the multi-index that `rowMajor` reads as that number. -/
def digits : List Nat → Nat → List Nat
  | [], _ => []
  | _ :: rest, number => number / cells rest :: digits rest (number % cells rest)

/-- A multi-index with one entry below each axis length. -/
def Contains : List Nat → List Nat → Prop
  | [], [] => True
  | length :: shape, i :: index => i < length ∧ Contains shape index
  | _, _ => False

/-- There is a step for every axis. -/
theorem strides_length (shape : List Nat) : (strides shape).length = shape.length := by
  induction shape with
  | nil => rfl
  | cons _ rest ih => simp [strides, ih]

end Shape

end GridLookup
