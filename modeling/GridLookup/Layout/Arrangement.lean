import GridLookup.Layout.Basic
import GridLookup.Layout.Fault

namespace GridLookup

/-!
# Arrangements

A layout refers to axes by name.  Its arrangement refers to them by index and exists only
when the layout is consistent.

* `Arrangement` — the orders of a layout as axis indices.
* `Layout.arrangement` — the arrangement, or the first fault.
* `Layout.Consistent` — what a layout must satisfy to have an arrangement.
-/

/-- The orders of a consistent layout, as axis indices. -/
structure Arrangement where
  /-- The stored axes in the order they are stored in. -/
  stream : List Nat
  /-- All axes from the outermost nesting of the values to the innermost. -/
  storage : List Nat
  deriving DecidableEq, Repr

namespace Layout

/-! ### Checking the parts -/

/-- The index of the axis with a name. -/
def indexOf (layout : Layout) (name : String) : Except LayoutFault Nat :=
  match layout.axes.findIdx? fun entry => entry.name == name with
  | some index => .ok index
  | none => .error (.unknownAxis name)

/-- Checks the axes one after the other; `before` holds the names already passed. -/
def checkAxes (layout : Layout) (before : List String) : List AxisEntry → Except LayoutFault Unit
  | [] => .ok ()
  | entry :: rest =>
    if before.contains entry.name then .error (.duplicateAxis layout.name entry.name)
    else if entry.values.any List.isEmpty then .error (.noValues layout.name entry.name)
    else if entry.values.isSome && entry.conversion.isSome then
      .error (.conversionOnSupplied layout.name entry.name)
    else layout.checkAxes (before ++ [entry.name]) rest

/-- Checks that every trailing vector has a length word or a fixed count and not both. -/
def checkTrailers (layout : Layout) : Except LayoutFault Unit :=
  if layout.trailers.any fun vector => vector.prefixed == vector.count.isSome then
    .error (.ambiguousTrailer layout.name)
  else .ok ()

/-- The indices of the named axes.  Every name must be that of an axis, pass `allow` and not
    occur before it; `order` holds the indices already passed. -/
def resolveOrder (layout : Layout) (allow : Nat → String → Except LayoutFault Unit)
    (repeated : String → LayoutFault) : List String → List Nat → Except LayoutFault (List Nat)
  | [], order => .ok order
  | name :: names, order => do
    let index ← layout.indexOf name
    allow index name
    if order.contains index then .error (repeated name)
    else layout.resolveOrder allow repeated names (order ++ [index])

/-- Whether the axis at an index is stored. -/
def isStoredAt (layout : Layout) (index : Nat) : Bool :=
  (layout.axes[index]?.map AxisEntry.isStored).getD false

/-- The indices of the stored axes, in axis order. -/
def storedIndices (layout : Layout) : List Nat :=
  (List.range layout.axes.length).filter layout.isStoredAt

/-- The stored axes in the order they are stored in. -/
def streamIndices (layout : Layout) : Except LayoutFault (List Nat) :=
  if layout.streamOrder.isEmpty then .ok layout.storedIndices
  else do
    let allow := fun index name =>
      if layout.isStoredAt index then .ok ()
      else .error (.suppliedInStreamOrder layout.name name)
    let order ← layout.resolveOrder allow (.repeatedInStreamOrder layout.name) layout.streamOrder []
    -- The order has no repetitions, so equal lengths mean that it names every stored axis.
    if order.length = layout.storedIndices.length then .ok order
    else .error (.incompleteStreamOrder layout.name)

/-- The axes in the order their values are nested in. -/
def storageIndices (layout : Layout) : Except LayoutFault (List Nat) :=
  if layout.storageOrder.isEmpty then .ok (List.range layout.axes.length)
  else do
    let order ← layout.resolveOrder (fun _ _ => .ok ()) (.repeatedInStorageOrder layout.name)
      layout.storageOrder []
    if order.length = layout.axes.length then .ok order
    else .error (.incompleteStorageOrder layout.name)

/-! ### The arrangement -/

/-- The orders of a layout as indices, or the first fault: axes are checked before trailing
    vectors, and those before the orders. -/
def arrangement (layout : Layout) : Except LayoutFault Arrangement := do
  if layout.axes.isEmpty then .error (.noAxes layout.name)
  layout.checkAxes [] layout.axes
  layout.checkTrailers
  let stream ← layout.streamIndices
  let storage ← layout.storageIndices
  .ok ⟨stream, storage⟩

/-- Fails with the first fault of a layout. -/
def check (layout : Layout) : Except LayoutFault Unit := layout.arrangement.map fun _ => ()

/-- What a layout must satisfy: it has axes with distinct names; supplied axes have nodes and
    ask for no conversion; every trailing vector has a length word or a fixed count and not
    both; and an order that is given rearranges the names it is about. -/
structure Consistent (layout : Layout) : Prop where
  /-- There is an axis. -/
  some_axes : layout.axes ≠ []
  /-- Axis names are distinct. -/
  distinct : layout.axisNames.Nodup
  /-- Supplied axes have nodes and no conversion. -/
  supplied : ∀ entry ∈ layout.axes, ∀ values, entry.values = some values →
    values ≠ [] ∧ entry.conversion = none
  /-- Trailing vectors say one thing. -/
  trailers : ∀ vector ∈ layout.trailers, vector.prefixed = vector.count.isNone
  /-- The stream order is that of the stored axes. -/
  stream : layout.streamOrder = [] ∨
    layout.streamOrder.Perm ((layout.axes.filter AxisEntry.isStored).map AxisEntry.name)
  /-- The storage order is that of all axes. -/
  storage : layout.storageOrder = [] ∨ layout.storageOrder.Perm layout.axisNames

end Layout

end GridLookup
