import GridLookup.Shape
import GridLookup.Table.Error

namespace GridLookup

/-!
# Tables

A table pairs an ordered list of axes with one value for every cell of their shape, the last
axis running fastest.

* `Table` — the axes, the values and the fact that there are as many values as cells.
* `Table.build`, `Table.ofPoints` — tables from plain arrays.
* `Table.cell?`, `Table.stored` — stored values by multi-index.
-/

/-- Most axes a table may have. -/
def axisLimit : Nat := 32

/-- The largest count that a 64-bit word holds; larger cell counts are reported as this one. -/
def largestCount : Nat := (1 <<< 64) - 1

/-- An N-dimensional lookup table. -/
structure Table (α : Type) [Scalar α] where
  /-- The axes, in the order of a coordinate's components. -/
  axes : List (Axis α)
  /-- The value of every cell. -/
  values : Array α
  /-- There is at least one axis. -/
  axes_ne_nil : axes ≠ []
  /-- There are not too many axes. -/
  axes_length_le : axes.length ≤ axisLimit
  /-- Every cell has a value. -/
  values_size : values.size = Shape.cells (axes.map Axis.size)

namespace Table

variable {α : Type} [Scalar α]

/-! ### Building tables -/

/-- The table with these values over these axes. -/
def build (values : Array α) (axes : List (Axis α)) : Except (TableError α) (Table α) :=
  if nonempty : axes = [] then .error .noAxes
  else if few : axes.length ≤ axisLimit then
    if complete : values.size = Shape.cells (axes.map Axis.size) then
      .ok ⟨axes, values, nonempty, few, complete⟩
    else
      -- The message gives the cell count only as far as a 64-bit word does.
      .error (.sizeMismatch (min (Shape.cells (axes.map Axis.size)) largestCount) values.size)
  else .error (.tooManyAxes axes.length axisLimit)

/-- The one-dimensional table through the points `(xs[i], ys[i])`. -/
def ofPoints (xs ys : Array α) : Except (TableError α) (Table α) :=
  if xs.size = ys.size then
    match Axis.ofArray xs with
    | .ok axis => build ys [axis]
    | .error fault => .error (.axis fault)
  else .error (.sizeMismatch xs.size ys.size)

/-! ### Axes and shape -/

/-- The number of axes. -/
def dimensions (table : Table α) : Nat := table.axes.length

/-- The axis lengths. -/
def shape (table : Table α) : List Nat := table.axes.map Axis.size

/-- The axis at an index. -/
def axis (table : Table α) (index : Nat) : Except (TableError α) (Axis α) :=
  match table.axes[index]? with
  | some axis => .ok axis
  | none => .error (.indexOutOfRange index table.dimensions)

/-- The value of a cell.  All uses are in range; beyond the last cell it is undefined. -/
def value (table : Table α) (cell : Nat) : α := table.values.getD cell Scalar.nan

/-- A table has at least one dimension. -/
theorem dimensions_pos (table : Table α) : 0 < table.dimensions :=
  List.length_pos_iff.mpr table.axes_ne_nil

/-- A table has a value for every cell. -/
theorem values_size_eq (table : Table α) : table.values.size = Shape.cells table.shape :=
  table.values_size

/-! ### Stored values -/

/-- The first entry of a multi-index that is not below its axis length, with that length. -/
def firstOutside? (shape index : List Nat) : Option (Nat × Nat) :=
  (index.zip shape).find? fun (i, length) => length ≤ i

/-- The cell at a multi-index, if it has one entry per axis and all are in range. -/
def cell? (table : Table α) (index : List Nat) : Option Nat :=
  if index.length = table.dimensions then
    match firstOutside? table.shape index with
    | some _ => none
    | none => some (Shape.offset table.shape index)
  else none

/-- The stored value at a multi-index. -/
def stored (table : Table α) (index : List Nat) : Except (TableError α) α :=
  if index.length = table.dimensions then
    match firstOutside? table.shape index with
    | some (i, length) => .error (.indexOutOfRange i length)
    | none => .ok (table.value (Shape.offset table.shape index))
  else .error (.arityMismatch table.dimensions index.length)

end Table

end GridLookup
