import GridLookup.Scalar

namespace GridLookup

/-!
# Axes

One strictly ascending coordinate sequence of a table.

* `AxisFault` — why a list of coordinates is no axis; `Axis.fault?` finds the first reason.
* `Axis` — a coordinate sequence without fault; `Axis.ofArray` builds it.
* `Bracket` — the two nodes around a coordinate and the weight of the upper one.
* `Axis.bracket`, `Axis.nearestNode` — bracketing a coordinate, and the node next to it.
-/

/-! ### Valid coordinate sequences -/

/-- Why a list of coordinates is no axis. -/
inductive AxisFault (α : Type) where
  /-- There are no coordinates. -/
  | empty
  /-- The coordinate at this index is undefined. -/
  | undefined (index : Nat)
  /-- The coordinate at this index is not above the one before it. -/
  | notAscending (index : Nat) (previous value : α)
  deriving DecidableEq, Repr

section Faults

variable {α : Type} [Scalar α]

/-- Position of the first undefined coordinate, counted from `index`. -/
def firstUndefined? : List α → Nat → Option Nat
  | [], _ => none
  | x :: xs, index => if Scalar.isNaN x then some index else firstUndefined? xs (index + 1)

/-- The first coordinate that is not above its predecessor, with both and its position;
    the list starts at `index`. -/
def firstDescent? : List α → Nat → Option (Nat × α × α)
  | x :: y :: rest, index =>
    if Scalar.le y x then some (index + 1, x, y) else firstDescent? (y :: rest) (index + 1)
  | _, _ => none

/-- The first reason why `nodes` is no axis.  Undefined coordinates are looked for before
    descents, so a descent is reported only of numbers. -/
def axisFault? (nodes : List α) : Option (AxisFault α) :=
  if nodes.isEmpty then some .empty
  else
    match firstUndefined? nodes 0 with
    | some index => some (.undefined index)
    | none =>
      match firstDescent? nodes 0 with
      | some (index, previous, value) => some (.notAscending index previous value)
      | none => none

end Faults

/-- A strictly ascending, non-empty coordinate sequence without undefined numbers. -/
structure Axis (α : Type) [Scalar α] where
  /-- The coordinates, in ascending order. -/
  nodes : Array α
  /-- They have no fault. -/
  faultless : axisFault? nodes.toList = none

namespace Axis

variable {α : Type} [Scalar α]

/-- The axis through the given coordinates. -/
def ofArray (nodes : Array α) : Except (AxisFault α) (Axis α) :=
  match h : axisFault? nodes.toList with
  | some fault => .error fault
  | none => .ok ⟨nodes, h⟩

/-- The number of nodes. -/
def size (axis : Axis α) : Nat := axis.nodes.size

/-- The node at an index.  All uses are in range; beyond the end it is undefined. -/
def node (axis : Axis α) (index : Nat) : α := axis.nodes.getD index Scalar.nan

/-- Index of the last node. -/
def last (axis : Axis α) : Nat := axis.size - 1

/-- The smallest coordinate. -/
def least (axis : Axis α) : α := axis.node 0

/-- The largest coordinate. -/
def greatest (axis : Axis α) : α := axis.node axis.last

theorem nodes_ne_empty (axis : Axis α) : axis.nodes.toList ≠ [] := by
  intro h
  have := axis.faultless
  simp [axisFault?, h] at this

theorem size_pos (axis : Axis α) : 0 < axis.size := by
  have h := axis.nodes_ne_empty
  rcases Nat.eq_zero_or_pos axis.size with h0 | h0
  · exact absurd (by simpa [size] using h0) h
  · exact h0

end Axis

/-! ### Brackets -/

/-- The nodes around a coordinate: `lo` and `hi` are node indices and `weight` is the share of
    `hi`.  When they are the same node, the coordinate sits on it or was clamped to it. -/
structure Bracket (α : Type) where
  /-- Index of the lower node. -/
  lo : Nat
  /-- Index of the upper node, `lo` or `lo + 1`. -/
  hi : Nat
  /-- Share of the upper node. -/
  weight : α
  deriving Repr

namespace Bracket

variable {α : Type} [Scalar α]

/-- The bracket of a single node. -/
def single (index : Nat) : Bracket α := ⟨index, index, 0.0⟩

/-- No interpolation is needed along this axis. -/
def isSingle (bracket : Bracket α) : Bool := bracket.lo == bracket.hi

/-- The coordinate has no place on the axis, or the weight came out undefined. -/
def isUndefined (bracket : Bracket α) : Bool := Scalar.isNaN bracket.weight

end Bracket

namespace Axis

variable {α : Type} [Scalar α]

/-! ### Locating a coordinate -/

/-- Binary search in `lo ..< hi` for the first node above `x`. -/
def firstAbove (axis : Axis α) (x : α) (lo hi : Nat) : Nat :=
  if lo < hi then
    let middle := (lo + hi) / 2
    if Scalar.le (axis.node middle) x then axis.firstAbove x (middle + 1) hi
    else axis.firstAbove x lo middle
  else lo
termination_by hi - lo

/-- Brackets a coordinate.  At or beyond an end it is clamped to the end node, on a node it is
    that node alone, and elsewhere the two nodes around it share it in proportion.  The
    undefined coordinate has an undefined weight. -/
def bracket (axis : Axis α) (x : α) : Bracket α :=
  if Scalar.isNaN x then ⟨0, 0, Scalar.nan⟩
  else if Scalar.le x axis.least then .single 0
  else if Scalar.le axis.greatest x then .single axis.last
  else
    -- `x` is above the first node and below the last, so `hi` is neither 0 nor past the end.
    let hi := axis.firstAbove x 0 axis.size
    let lo := hi - 1
    if Scalar.eq x (axis.node lo) then .single lo
    else ⟨lo, hi, (x - axis.node lo) / (axis.node hi - axis.node lo)⟩

/-- Index of the node nearest to a coordinate; the lower one when both are equally near. -/
def nearestNode (axis : Axis α) (x : α) : Nat :=
  let bracket := axis.bracket x
  if Scalar.lt 0.5 bracket.weight then bracket.hi else bracket.lo

end Axis

end GridLookup
