import GridLookup.Table.Basic

namespace GridLookup

/-!
# Interpolation

A query brackets every component of its coordinate and adds up the corners of the enclosing
cell.  Only axes that need it take part: an axis that is hit exactly, or clamped, contributes
its one node, so a query on a grid point returns the stored value with no arithmetic at all.

* `Step` — an axis that takes part: the distance to its upper node and that node's share.
* `corners` — the corners of a cell with their weights, from the steps.
* `Table.interpolate` — the value at a coordinate that has the right number of components.
* `Table.get`, `Table.get1` — the same, with the number of components checked.
* `fullCorners`, `Table.fullSum` — the textbook form, in which every axis takes part.
-/

/-! ### Corners -/

/-- An axis along which a query falls between two nodes. -/
structure Step (α : Type) where
  /-- Distance from a cell at the lower node to the one at the upper node. -/
  stride : Nat
  /-- Share of the upper node. -/
  weight : α

/-- A corner of the enclosing cell: its cell number and its share of the result. -/
structure Corner (α : Type) where
  /-- The cell number. -/
  cell : Nat
  /-- The share. -/
  weight : α

section Corners

variable {α : Type} [Scalar α]

/-- The corner moved to the lower node of one more axis. -/
def Corner.lower (step : Step α) (corner : Corner α) : Corner α :=
  ⟨corner.cell, corner.weight * (1.0 - step.weight)⟩

/-- The corner moved to the upper node of one more axis. -/
def Corner.upper (step : Step α) (corner : Corner α) : Corner α :=
  ⟨corner.cell + step.stride, corner.weight * step.weight⟩

/-- The corners reached from the given ones by a choice along each step.  The choice along a
    later step changes more slowly, and each weight is the product of its choices in order. -/
def extendCorners : List (Step α) → List (Corner α) → List (Corner α)
  | [], reached => reached
  | step :: steps, reached =>
    extendCorners steps (reached.map (Corner.lower step) ++ reached.map (Corner.upper step))

/-- The corners of the cell at `base` along the given steps. -/
def corners (base : Nat) (steps : List (Step α)) : List (Corner α) :=
  extendCorners steps [⟨base, 1.0⟩]

end Corners

namespace Table

variable {α : Type} [Scalar α]

/-! ### The value at a coordinate -/

/-- The bracket of every component on its axis. -/
def brackets (table : Table α) (coordinate : List α) : List (Bracket α) :=
  List.zipWith Axis.bracket table.axes coordinate

/-- The cell at the lower nodes of the brackets. -/
def baseCell (table : Table α) (brackets : List (Bracket α)) : Nat :=
  Shape.offset table.shape (brackets.map Bracket.lo)

/-- The steps along the brackets that have two nodes. -/
def steps (table : Table α) (brackets : List (Bracket α)) : List (Step α) :=
  (brackets.zip (Shape.strides table.shape)).filterMap fun (bracket, stride) =>
    if bracket.isSingle then none else some ⟨stride, bracket.weight⟩

/-- The weighted sum of stored values over corners, in their order. -/
def weightedSum (table : Table α) (corners : List (Corner α)) : α :=
  corners.foldl (fun sum corner => sum + corner.weight * table.value corner.cell) 0.0

/-- The multilinear interpolant at a coordinate with one component per axis.  It is undefined
    when a component or a weight is. -/
def interpolate (table : Table α) (coordinate : List α) : α :=
  let brackets := table.brackets coordinate
  if brackets.any Bracket.isUndefined then Scalar.nan
  else
    match table.steps brackets with
    -- No step, no arithmetic: not even a product with 1 or a sum with 0.
    | [] => table.value (table.baseCell brackets)
    | steps => table.weightedSum (corners (table.baseCell brackets) steps)

/-- Fails unless there are as many components as axes. -/
def requireArity (table : Table α) (count : Nat) : Except (TableError α) Unit :=
  if count = table.dimensions then .ok () else .error (.arityMismatch table.dimensions count)

/-- The interpolated value at a coordinate. -/
def get (table : Table α) (coordinate : List α) : Except (TableError α) α :=
  (table.requireArity coordinate.length).map fun _ => table.interpolate coordinate

/-- Two-point interpolation on the first axis of a table. -/
def interpolate1 (table : Table α) (bracket : Bracket α) : α :=
  if bracket.isUndefined then Scalar.nan
  else if bracket.isSingle then table.value bracket.lo
  else (1.0 - bracket.weight) * table.value bracket.lo + bracket.weight * table.value bracket.hi

/-- The interpolated value of a one-dimensional table. -/
def get1 (table : Table α) (x : α) : Except (TableError α) α :=
  match table.axes with
  | [axis] => .ok (table.interpolate1 (axis.bracket x))
  | _ => .error (.arityMismatch table.dimensions 1)

/-! ### The textbook form -/

/-- All corners of a cell given by the two node indices and the weights on every axis: a digit
    per axis, and the product of the shares. -/
def fullCorners : List (Bracket α) → List (List Nat × α)
  | [] => [([], 1.0)]
  | bracket :: rest =>
    (fullCorners rest).flatMap fun (index, weight) =>
      [(bracket.lo :: index, (1.0 - bracket.weight) * weight),
       (bracket.hi :: index, bracket.weight * weight)]

/-- The weighted sum over all corners, every axis taking part. -/
def fullSum (table : Table α) (brackets : List (Bracket α)) : α :=
  (fullCorners brackets).foldl
    (fun sum (index, weight) => sum + weight * table.value (Shape.rowMajor table.shape index)) 0.0

end Table

end GridLookup
