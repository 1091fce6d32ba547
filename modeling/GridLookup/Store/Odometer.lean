import GridLookup.Store.Nesting

namespace GridLookup

/-!
# Odometers

The cells of a table in the order their values are stored.  An odometer visits them: it has one
wheel per axis, the innermost nesting turning fastest, and each turn moves the cell number by
the stride of its axis, backwards on a reversed axis.

* `Wheel`, `turn` — one axis of the odometer, and one turn of it.
* `Odometer` — the wheels with the cell they point at; `Odometer.next?` takes a step.
* `Odometer.cells` — all cells that are left.
-/

/-- One axis of the odometer. -/
structure Wheel where
  /-- The number of positions. -/
  length : Nat
  /-- What one position moves the cell number by. -/
  step : Int
  /-- The current position. -/
  position : Nat
  deriving DecidableEq, Repr

/-- Turns the first wheel by one position.  A wheel that has come round goes back to its start
    and turns the next one. -/
def turn : List Wheel → Int → List Wheel × Int
  | [], cell => ([], cell)
  | wheel :: wheels, cell =>
    if wheel.position + 1 < wheel.length then
      (⟨wheel.length, wheel.step, wheel.position + 1⟩ :: wheels, cell + wheel.step)
    else
      -- Undo the `length - 1` turns this wheel has made.
      let (turned, moved) := turn wheels (cell - wheel.step * (wheel.length - 1))
      (⟨wheel.length, wheel.step, 0⟩ :: turned, moved)

/-- An odometer over the cells of a table. -/
structure Odometer where
  /-- The wheels, the fastest first. -/
  wheels : List Wheel
  /-- The cell it points at. -/
  cell : Int
  /-- How many cells are left. -/
  remaining : Nat
  deriving DecidableEq, Repr

namespace Odometer

/-- The wheel of an axis, at its start. -/
def wheel (nesting : Nesting) (axis : Nat) : Wheel :=
  let stride : Int := (Shape.strides nesting.shape).getD axis 1
  ⟨nesting.lengthAt axis, if nesting.reversedAt axis then -stride else stride, 0⟩

/-- The cell whose value is stored first: the last node on reversed axes, the first elsewhere. -/
def firstCell (nesting : Nesting) : Int :=
  let shift (axis : Nat) : Int :=
    if nesting.reversedAt axis then
      ((nesting.lengthAt axis : Int) - 1) * ((Shape.strides nesting.shape).getD axis 1 : Nat)
    else 0
  nesting.storage.foldr (fun axis cell => shift axis + cell) 0

/-- The odometer over all cells. -/
def start (nesting : Nesting) : Odometer where
  wheels := nesting.storage.reverse.map (wheel nesting)
  cell := firstCell nesting
  remaining := Shape.cells nesting.shape

/-- The next cell and the odometer over those after it. -/
def next? (odometer : Odometer) : Option (Nat × Odometer) :=
  match odometer.remaining with
  | 0 => none
  | remaining + 1 =>
    let (wheels, cell) := turn odometer.wheels odometer.cell
    some (odometer.cell.toNat, ⟨wheels, cell, remaining⟩)

/-- A step leaves one cell fewer. -/
theorem remaining_of_next? {odometer rest : Odometer} {cell : Nat}
    (h : odometer.next? = some (cell, rest)) :
    odometer.remaining = rest.remaining + 1 := by
  unfold next? at h
  split at h
  · cases h
  · next remaining hr =>
    simp only [Option.some.injEq, Prod.mk.injEq] at h
    rw [← h.2, hr]

/-- Appends the cells that are left. -/
def appendCells (odometer : Odometer) (cells : Array Nat) : Array Nat :=
  match _step : odometer.next? with
  | none => cells
  | some (cell, rest) => appendCells rest (cells.push cell)
termination_by odometer.remaining
decreasing_by
  have := remaining_of_next? _step
  omega

/-- The cells that are left, in order. -/
def cells (odometer : Odometer) : Array Nat := odometer.appendCells #[]

end Odometer

end GridLookup
