namespace GridLookup

/-!
# Layout faults

* `LayoutFault` — why a layout was refused, by itself or for a given table or stream.
* `LayoutFault.message` — the wording.
-/

/-- Why a layout was refused.  Most faults begin with the name of the layout. -/
inductive LayoutFault where
  /-- No built-in layout has this name. -/
  | unknownBuiltIn (name : String) (available : List String)
  /-- There are no axes. -/
  | noAxes (layout : String)
  /-- Two axes have the same name. -/
  | duplicateAxis (layout axis : String)
  /-- An axis is supplied with an empty list of nodes. -/
  | noValues (layout axis : String)
  /-- A supplied axis asks for a conversion, which only stored coordinates undergo. -/
  | conversionOnSupplied (layout axis : String)
  /-- A trailing vector has both a length word and a fixed count, or neither. -/
  | ambiguousTrailer (layout : String)
  /-- An order names an axis that does not exist. -/
  | unknownAxis (axis : String)
  /-- The stream order names a supplied axis. -/
  | suppliedInStreamOrder (layout axis : String)
  /-- The stream order names an axis twice. -/
  | repeatedInStreamOrder (layout axis : String)
  /-- The stream order leaves out a stored axis. -/
  | incompleteStreamOrder (layout : String)
  /-- The storage order names an axis twice. -/
  | repeatedInStorageOrder (layout axis : String)
  /-- The storage order leaves out an axis. -/
  | incompleteStorageOrder (layout : String)
  /-- A table to be written has a different number of axes. -/
  | axisCount (layout : String) (expected actual : Nat)
  /-- A table to be written has other nodes than the layout supplies. -/
  | suppliedAxisDiffers (layout axis : String)
  /-- The number of values does not fit a 64-bit word. -/
  | countOverflow (layout : String)
  /-- The values end beyond what a 64-bit position can reach. -/
  | blockTooLong (layout : String) (count : Nat)
  /-- The nodes of an axis were neither supplied nor stored. -/
  | neverRead (axis : String)
  deriving DecidableEq, Repr

/-- The wording of a layout fault. -/
def LayoutFault.message : LayoutFault → String
  | .unknownBuiltIn name available =>
    s!"unknown preset '{name}' (available: " ++ ", ".intercalate available ++ ")"
  | .noAxes layout => s!"{layout}: no axes"
  | .duplicateAxis layout axis => s!"{layout}: duplicate axis '{axis}'"
  | .noValues layout axis => s!"{layout}: axis '{axis}' has no values"
  | .conversionOnSupplied layout axis => s!"{layout}: transform on supplied axis '{axis}'"
  | .ambiguousTrailer layout =>
    s!"{layout}: trailing vector needs exactly one of 'prefixed' or 'count'"
  | .unknownAxis axis => s!"unknown axis '{axis}'"
  | .suppliedInStreamOrder layout axis =>
    s!"{layout}: '{axis}' in stream_order has supplied values"
  | .repeatedInStreamOrder layout axis => s!"{layout}: '{axis}' repeated in stream_order"
  | .incompleteStreamOrder layout => s!"{layout}: stream_order must list every stream axis"
  | .repeatedInStorageOrder layout axis => s!"{layout}: '{axis}' repeated in storage_order"
  | .incompleteStorageOrder layout => s!"{layout}: storage_order must list every axis"
  | .axisCount layout expected actual =>
    s!"{layout}: layout has {expected} axes, table has {actual}"
  | .suppliedAxisDiffers layout axis =>
    s!"{layout}: table axis '{axis}' differs from layout values"
  | .countOverflow layout => s!"{layout}: value count overflows"
  | .blockTooLong layout count =>
    s!"{layout}: value block of {count} values exceeds the addressable stream size"
  | .neverRead axis => s!"axis '{axis}' was never read"

end GridLookup
