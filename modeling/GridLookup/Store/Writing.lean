import GridLookup.Layout.Arrangement
import GridLookup.Store.Reading
import GridLookup.Store.Sink

namespace GridLookup

/-!
# Writing tables

Writes a table as its layout describes it.  Nodes and values are narrowed to stored numbers,
nodes after the conversion is undone.  Trailing vectors carry no table data: those of a fixed
length are zeros, the others are empty.

* `Layout.pieces` — what is written for a table, in order.
* `Layout.encodeTo`, `Layout.encode` — writing to a sink, and to a byte string.
-/

namespace Layout

/-! ### The pieces -/

/-- The stored number of a node.  A node outside the domain of the conversion is stored as the
    invalid number. -/
def storedNode (entry : AxisEntry) (node : Float) : Word :=
  match entry.conversion with
  | some conversion =>
    let coordinate := conversion.toStored node
    if coordinate.isNaN then Word.invalid else Word.narrow coordinate
  | none => Word.narrow node

/-- The length word of a vector. -/
def lengthPiece (layout : Layout) (vector : String) (length : Nat) : Piece :=
  match layout.lengthWord.encode? length with
  | some word => .run word 1
  | none => .badLength vector length

/-- The vector of a stored axis. -/
def vectorPieces (layout : Layout) (entry : AxisEntry) (axis : Axis Float) : List Piece :=
  layout.lengthPiece entry.name axis.size
    :: axis.nodes.toList.map fun node => .run (storedNode entry node) 1

/-- The vectors of the stored axes, in the order they are stored in. -/
def axisPieces (layout : Layout) (table : Table Float) (stream : List Nat) : List Piece :=
  stream.flatMap fun index =>
    match layout.axes[index]?, table.axes[index]? with
    | some entry, some axis => layout.vectorPieces entry axis
    | _, _ => []

/-- The values, in the order of the block. -/
def valuePieces (nesting : Nesting) (table : Table Float) : List Piece :=
  (Odometer.start nesting).cells.toList.map fun cell => .run (Word.narrow (table.value cell)) 1

/-- The trailing vectors; `index` is the index of the first. -/
def trailerPieces (layout : Layout) : List Trailer → Nat → List Piece
  | [], _ => []
  | vector :: rest, index =>
    let piece := match vector.count with
      | some count => .run 0 count
      | none => layout.lengthPiece s!"trailing vector {index}" 0
    piece :: layout.trailerPieces rest (index + 1)

/-- Everything that is written for a table, in order. -/
def pieces (layout : Layout) (arrangement : Arrangement) (table : Table Float) : List Piece :=
  layout.axisPieces table arrangement.stream
    ++ valuePieces (layout.nesting arrangement table.shape) table
    ++ layout.trailerPieces layout.trailers 0

/-! ### Writing -/

/-- Checks that the supplied axes of a layout are those of a table. -/
def checkSupplied (layout : Layout) : List (AxisEntry × Axis Float) → Except LayoutFault Unit
  | [] => .ok ()
  | (entry, axis) :: rest =>
    match entry.values with
    | some values =>
      if values == axis.nodes.toList then layout.checkSupplied rest
      else .error (.suppliedAxisDiffers layout.name entry.name)
    | none => layout.checkSupplied rest

/-- The arrangement for writing a table, if the layout describes it. -/
def arrangementFor (layout : Layout) (table : Table Float) : Except LayoutFault Arrangement := do
  let arrangement ← layout.arrangement
  if table.dimensions = layout.axes.length then
    layout.checkSupplied (layout.axes.zip table.axes)
    .ok arrangement
  else .error (.axisCount layout.name layout.axes.length table.dimensions)

/-- Writes a table to a sink.  Nothing is written when the layout is refused. -/
def encodeTo (layout : Layout) (table : Table Float) (sink : Sink) :
    Sink × Except StoreError Unit :=
  match layout.arrangementFor table with
  | .error fault => (sink, .error (.layout fault))
  | .ok arrangement => sink.writeAll layout.byteOrder (layout.pieces arrangement table)

/-- The bytes of a table. -/
def encode (layout : Layout) (table : Table Float) : Except StoreError (List UInt8) :=
  match layout.encodeTo table .unlimited with
  | (sink, .ok ()) => .ok sink.written.toList
  | (_, .error error) => .error error

end Layout

end GridLookup
