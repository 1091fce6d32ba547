import GridLookup.Layout.Arrangement
import GridLookup.Store.Odometer
import GridLookup.Store.Source
import GridLookup.Table.Named
import GridLookup.Word.Single

namespace GridLookup

/-!
# Reading tables

Reads a stored table as its layout describes it: the stored axis vectors, the block of values,
and the trailing vectors, whose values are dropped.  The values are moved from the order of the
block to the order of the table.

* `unnest` — the values of a block in the order of the table.
* `Layout.readTable` — the table at the front of a source.
* `Layout.decodeAll`, `Layout.decodeFrom`, `Layout.decodeUnnamed` — complete byte strings,
  sources of unknown length, and tables without names.
-/

namespace Layout

/-! ### Axes -/

/-- The words of the stored axes by axis index, in the order they were read in. -/
abbrev Vectors := List (Nat × Array Word)

/-- The name of the axis at an index. -/
def nameAt (layout : Layout) (index : Nat) : String :=
  (layout.axes[index]?.map AxisEntry.name).getD ""

/-- Reads the vector of a stored axis.  A vector that would pass the known end of the stream is
    refused before it is read. -/
def readAxis (layout : Layout) (total : Option Nat) (index : Nat) : Reading (Array Word) := do
  let name := layout.nameAt index
  let length ← readLengthWord layout.lengthWord layout.byteOrder name
  let source ← get
  if total.any fun total => total < source.position + 4 * length then
    throw (.truncated s!"{name} ({length} values)")
  readVector layout.byteOrder name length

/-- Reads the vectors of the stored axes. -/
def readAxes (layout : Layout) (total : Option Nat) : List Nat → Reading Vectors
  | [] => pure []
  | index :: rest => do
    let words ← layout.readAxis total index
    let vectors ← layout.readAxes total rest
    pure ((index, words) :: vectors)

/-- The nodes of an axis: those the layout supplies, or the stored ones after conversion. -/
def axisNodes (entry : AxisEntry) (words : Option (Array Word)) :
    Except StoreError (Array Float) :=
  match entry.values, words with
  | some values, _ => .ok values.toArray
  | none, some words =>
    match entry.conversion with
    | some conversion => .ok (words.map fun word => conversion.toNode word.widen)
    | none => .ok (words.map Word.widen)
  | none, none => .error (.layout (.neverRead entry.name))

/-- The axis of a layout entry. -/
def entryAxis (entry : AxisEntry) (words : Option (Array Word)) :
    Except StoreError (Axis Float) := do
  let nodes ← axisNodes entry words
  match Axis.ofArray nodes with
  | .ok axis => .ok axis
  | .error fault => .error (.table (.namedAxis entry.name fault))

/-- The axes of a table, in axis order; `index` is the index of the first. -/
def entryAxes (vectors : Vectors) : List AxisEntry → Nat → Except StoreError (List (Axis Float))
  | [], _ => .ok []
  | entry :: rest, index => do
    let axis ← entryAxis entry (vectors.lookup index)
    let axes ← entryAxes vectors rest (index + 1)
    .ok (axis :: axes)

/-! ### Values -/

/-- How the values of a table lie in the block. -/
def nesting (layout : Layout) (arrangement : Arrangement) (shape : List Nat) : Nesting where
  shape := shape
  reversed := layout.axes.map AxisEntry.reversed
  storage := arrangement.storage

end Layout

/-- Writes words to cells, one to each. -/
def placeWords : List (Nat × Word) → Array Float → Array Float
  | [], values => values
  | (cell, word) :: rest, values => placeWords rest (values.setIfInBounds cell word.widen)

/-- The values of a block in the order of the table. -/
def unnest (nesting : Nesting) (block : Array Word) : Array Float :=
  if nesting.isPlain then block.map Word.widen
  else
    let cells := (Odometer.start nesting).cells
    placeWords (cells.toList.zip block.toList) (Array.replicate block.size 0.0)

namespace Layout

/-- The number of values over axes of these lengths, if a 64-bit word holds it. -/
def countValues (layout : Layout) (shape : List Nat) : Except StoreError Nat :=
  let count := Shape.cells shape
  if count < (1 <<< 64) then .ok count else .error (.layout (.countOverflow layout.name))

/-- Checks that a block of `count` values from `position` on stays within the stream.  Its end
    must fit a 64-bit position, and lie no later than a known end of the stream. -/
def checkBlock (layout : Layout) (total : Option Nat) (position count : Nat) :
    Except StoreError Unit :=
  let blockEnd := position + 4 * count
  if blockEnd < (1 <<< 64) then
    match total with
    | some total => if total < blockEnd then .error (.lengthMismatch blockEnd total) else .ok ()
    | none => .ok ()
  else
    match total with
    | some total => .error (.lengthMismatch largestCount total)
    | none => .error (.layout (.blockTooLong layout.name count))

/-- Reads past the trailing vectors; `index` is the index of the first. -/
def skipTrailers (layout : Layout) (arithmetic : Arithmetic) : List Trailer → Nat → Reading Unit
  | [], _ => pure ()
  | vector :: rest, index => do
    let name := s!"trailing vector {index}"
    let length ← match vector.count with
      | some count => pure count
      | none => readLengthWord layout.lengthWord layout.byteOrder name
    skipVector arithmetic name length
    layout.skipTrailers arithmetic rest (index + 1)

/-! ### Tables -/

/-- Reads a table; `total` is the length of the stream where it is known, and then no byte may
    be left over. -/
def readTable (layout : Layout) (arithmetic : Arithmetic) (total : Option Nat) :
    Reading (Table Float) := do
  let arrangement ← layout.arrangement.mapError StoreError.layout
  let vectors ← layout.readAxes total arrangement.stream
  let axes ← entryAxes vectors layout.axes 0
  let shape := axes.map Axis.size
  let count ← layout.countValues shape
  layout.checkBlock total (← get).position count
  let block ← readVector layout.byteOrder "value block" count
  let values := unnest (layout.nesting arrangement shape) block
  layout.skipTrailers arithmetic layout.trailers 0
  let position := (← get).position
  match total with
  | some total => if position = total then pure () else throw (.lengthMismatch position total)
  | none => pure ()
  (Table.build values axes).mapError StoreError.table

/-- A table with the axis names of the layout. -/
def nameTable (layout : Layout) (table : Table Float) : Except StoreError (NamedTable Float) :=
  (NamedTable.ofNames table layout.axisNames).mapError StoreError.table

/-- The table at the front of a source, and the source after it. -/
def decodeUnnamed (layout : Layout) (arithmetic : Arithmetic) (source : Source) :
    Except StoreError (Table Float × Source) :=
  layout.readTable arithmetic none source

/-- The named table at the front of a source, and the source after it. -/
def decodeFrom (layout : Layout) (arithmetic : Arithmetic) (source : Source) :
    Except StoreError (NamedTable Float × Source) := do
  let (table, rest) ← layout.readTable arithmetic none source
  let named ← layout.nameTable table
  .ok (named, rest)

/-- The named table that a byte string holds, all of it. -/
def decodeAll (layout : Layout) (arithmetic : Arithmetic) (bytes : List UInt8) :
    Except StoreError (NamedTable Float) := do
  -- A known length lets the parts be checked against it, so nothing is left over here.
  let (table, _) ← layout.readTable arithmetic (some bytes.length) (.ofBytes bytes)
  layout.nameTable table

end Layout

end GridLookup
