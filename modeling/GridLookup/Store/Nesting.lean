import GridLookup.Shape

namespace GridLookup

/-!
# Nestings

How the values of a stored table lie in their block: the axes are nested in some order, and
along some of them the last node comes first.

* `Nesting` — the shape of the table, the reversed axes and the order of nesting.
* `Nesting.place` — where in the block a cell's value lies.
* `Nesting.isPlain` — the block has the order of the table.
-/

/-- How the values of a table lie in their block. -/
structure Nesting where
  /-- The axis lengths. -/
  shape : List Nat
  /-- For each axis, whether its last node comes first. -/
  reversed : List Bool
  /-- The axis indices from the outermost nesting to the innermost. -/
  storage : List Nat
  deriving DecidableEq, Repr

namespace Nesting

/-- The length of the axis at an index. -/
def lengthAt (nesting : Nesting) (axis : Nat) : Nat := nesting.shape.getD axis 1

/-- Whether the axis at an index has its last node first. -/
def reversedAt (nesting : Nesting) (axis : Nat) : Bool := nesting.reversed.getD axis false

/-- The stored position of a node on an axis. -/
def flip (nesting : Nesting) (axis node : Nat) : Nat :=
  if nesting.reversedAt axis then nesting.lengthAt axis - 1 - node else node

/-- The axis lengths from the outermost nesting to the innermost. -/
def storedShape (nesting : Nesting) : List Nat := nesting.storage.map nesting.lengthAt

/-- Where in the block the value of a cell lies: the cell numbers of the stored shape, read at
    the stored positions of the cell's nodes. -/
def place (nesting : Nesting) (index : List Nat) : Nat :=
  Shape.rowMajor nesting.storedShape
    (nesting.storage.map fun axis => nesting.flip axis (index.getD axis 0))

/-- The block has the order of the table: axes are nested in their own order and none is
    reversed. -/
def isPlain (nesting : Nesting) : Bool :=
  nesting.storage == List.range nesting.storage.length
    && nesting.storage.all fun axis => !nesting.reversedAt axis

end Nesting

end GridLookup
