import GridLookup.Axis

namespace GridLookup

/-!
# Table errors

* `TableError` — why a table or a query was refused.
* `TableError.message` — the wording, for a given spelling of numbers.
-/

/-- Why a table or a query was refused. -/
inductive TableError (α : Type) where
  /-- A coordinate list is no axis. -/
  | axis (fault : AxisFault α)
  /-- The coordinate list of a named axis is no axis. -/
  | namedAxis (name : String) (fault : AxisFault α)
  /-- A table without axes. -/
  | noAxes
  /-- More axes than a table may have. -/
  | tooManyAxes (count limit : Nat)
  /-- Two axes have the same name. -/
  | duplicateName (name : String)
  /-- The number of values is not the product of the axis lengths. -/
  | sizeMismatch (expected actual : Nat)
  /-- The number of coordinates is not the number of axes. -/
  | arityMismatch (expected actual : Nat)
  /-- An index is not below the count it indexes. -/
  | indexOutOfRange (index count : Nat)
  /-- No axis has this name. -/
  | unknownAxis (name : String)
  deriving Repr

/-- The wording of an axis fault; `write` spells numbers. -/
def AxisFault.message {α : Type} (write : α → String) : AxisFault α → String
  | .empty => "axis must have at least one value"
  | .undefined index => s!"value at index {index} is NaN"
  | .notAscending index previous value =>
    s!"values not strictly ascending at index {index}: " ++ write previous ++ " >= " ++ write value

/-- The wording of a table error; `write` spells numbers. -/
def TableError.message {α : Type} (write : α → String) : TableError α → String
  | .axis fault => "invalid axis: " ++ fault.message write
  | .namedAxis name fault => s!"invalid axis: {name}: " ++ fault.message write
  | .noAxes => "invalid axis: table needs at least one axis"
  | .tooManyAxes count limit => s!"invalid axis: {count} dimensions exceed the limit of {limit}"
  | .duplicateName name => s!"invalid axis: duplicate axis name '{name}'"
  | .sizeMismatch expected actual =>
    s!"value count mismatch: axes describe {expected} values, got {actual}"
  | .arityMismatch expected actual =>
    s!"coordinate arity mismatch: table has {expected} dimensions, got {actual}"
  | .indexOutOfRange index count => s!"dimension index {index} out of range for {count} dimensions"
  | .unknownAxis name => s!"unknown axis: {name}"

end GridLookup
