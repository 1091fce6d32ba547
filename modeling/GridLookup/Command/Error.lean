import GridLookup.Command.Point
import GridLookup.Store.Error

namespace GridLookup

/-!
# Command errors

* `CommandError` — why a command stopped.
* `CommandError.causes` — the wordings from the outermost cause to the innermost.
* `report` — the text in which causes are shown.
-/

/-- Why a command stopped. -/
inductive CommandError where
  /-- A layout argument is neither the name of a built-in layout nor that of a file. -/
  | noLayout (argument : String) (builtIns : List String)
  /-- A layout file is refused. -/
  | layoutFile (path : String) (error : StoreError)
  /-- A table file is refused. -/
  | tableFile (path : String) (error : StoreError)
  /-- A curve file is refused. -/
  | curveFile (path : String) (error : StoreError)
  /-- A file is not accessible. -/
  | file (fault : FileFault)
  /-- An axis number is too large. -/
  | axisNumber (index count : Nat)
  /-- No axis has the name. -/
  | axisName (name : String) (names : List String)
  /-- A query point is malformed. -/
  | point (fault : PointFault)
  /-- A query point has more or fewer values than there are axes. -/
  | pointLength (count dimensions : Nat) (names : List String)
  /-- The names of a query point are refused. -/
  | pointNames (text : String) (error : TableError Float)
  /-- The table refuses the query. -/
  | table (error : TableError Float)
  /-- There are fewer results than points. -/
  | missingResult
  /-- A size did not fit, and the program is stopped. -/
  | overflow
  deriving Repr

/-- Names with commas between them. -/
def listNames (names : List String) : String := ", ".intercalate names

namespace CommandError

/-- The wording of a command error. -/
def message : CommandError → String
  | .noLayout argument builtIns =>
    s!"'{argument}' is neither a preset (" ++ listNames builtIns ++ ") nor a layout file"
  | .layoutFile path _ => s!"Failed to load layout: {path}"
  | .tableFile path _ => s!"Failed to decode: {path}"
  | .curveFile path _ => s!"Failed to load curve: {path}"
  | .file fault => fault.message
  | .axisNumber index count => s!"axis index {index} out of range (0..{count})"
  | .axisName name names => s!"no axis named '{name}' (axes: " ++ listNames names ++ ")"
  | .point fault => fault.message
  | .pointLength count dimensions names =>
    s!"query point has {count} values, LUT has {dimensions} axes (" ++ listNames names ++ ")"
  | .pointNames text _ => s!"Failed to query: {text}"
  | .table error => tableMessage error
  | .missingResult => "batch result missing"
  | .overflow => StoreError.overflow.message

/-- The wordings from the outermost cause to the innermost. -/
def causes (error : CommandError) : List String :=
  match error with
  | .layoutFile _ inner | .tableFile _ inner | .curveFile _ inner => error.message :: inner.causes
  | .point fault => fault.causes
  | .pointNames _ inner => [error.message, tableMessage inner]
  | _ => [error.message]

end CommandError

/-! ### Reports -/

/-- A cause, its first line after `first` and the others after `margin`. -/
def indentCause (first margin cause : String) : String :=
  first ++ ("\n" ++ margin).intercalate (cause.splitOn "\n")

/-- Causes with their numbers, the first of which is `index`. -/
def numberCauses : List String → Nat → List String
  | [], _ => []
  | cause :: rest, index =>
    let number := Numeral.text index
    let padding := String.ofList (List.replicate (5 - number.length) ' ')
    indentCause (padding ++ number ++ ": ") "       " cause :: numberCauses rest (index + 1)

/-- The text in which causes are shown, from the outermost to the innermost.  Inner causes have
    numbers if there are several. -/
def report : List String → String
  | [] => ""
  | [outermost] => "Error: " ++ outermost
  | [outermost, cause] =>
    "Error: " ++ outermost ++ "\n\nCaused by:\n" ++ indentCause "    " "    " cause
  | outermost :: inner =>
    "Error: " ++ outermost ++ "\n\nCaused by:\n" ++ "\n".intercalate (numberCauses inner 0)

end GridLookup
