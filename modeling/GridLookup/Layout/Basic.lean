import GridLookup.Conversion
import GridLookup.Word.Length

namespace GridLookup

/-!
# Layouts

A stored table does not describe itself.  A layout says what its words mean: which axes are
stored in front of the values and in which order, which axes are known without being stored,
how the values are nested and what follows them.

* `AxisEntry` — one axis of the table.
* `Trailer` — a vector after the values, which carries no table data.
* `Layout` — the whole description.
-/

/-- One axis of a stored table. -/
structure AxisEntry where
  /-- The name, unique within the layout. -/
  name : String
  /-- The nodes, when the layout supplies them; otherwise they are stored. -/
  values : Option (List Float)
  /-- The values are stored from the last node to the first. -/
  reversed : Bool
  /-- What turns stored coordinates into nodes. -/
  conversion : Option Conversion
  deriving BEq, Repr

/-- The nodes of the axis are stored. -/
def AxisEntry.isStored (entry : AxisEntry) : Bool := entry.values.isNone

/-- A vector after the values.  It has either a length word or a fixed number of values; a
    layout that says both or neither is refused. -/
structure Trailer where
  /-- The vector has a length word. -/
  prefixed : Bool
  /-- The number of values, when it is fixed. -/
  count : Option Nat
  deriving DecidableEq, Repr

/-- The description of a stored table. -/
structure Layout where
  /-- The name of the layout. -/
  name : String
  /-- The byte order of all words. -/
  byteOrder : ByteOrder
  /-- How length words are read. -/
  lengthWord : LengthWord
  /-- The axes, in the order of a coordinate's components. -/
  axes : List AxisEntry
  /-- The names of the stored axes in the order they are stored in; none stands for the order
      of the axes. -/
  streamOrder : List String
  /-- The names of all axes from the outermost nesting of the values to the innermost; none
      stands for the order of the axes. -/
  storageOrder : List String
  /-- The vectors after the values. -/
  trailers : List Trailer
  deriving BEq, Repr

/-- The axis names, in axis order. -/
def Layout.axisNames (layout : Layout) : List String := layout.axes.map AxisEntry.name

end GridLookup
