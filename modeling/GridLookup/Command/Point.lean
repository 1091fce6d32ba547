import GridLookup.Decimal.Reader
import GridLookup.Text.Blank

namespace GridLookup

/-!
# Query points

A query point is written as values in axis order, or as named values in any order, with commas
between them.

* `Point` — a query point; `Point.read` reads its text.
* `PointFault` — why a text is no query point.
-/

/-- A query point. -/
inductive Point where
  /-- Values in axis order. -/
  | positional (values : List Float)
  /-- Named values in any order. -/
  | named (components : List (String × Float))
  deriving DecidableEq, Repr

/-- Why a text is no query point. -/
inductive PointFault where
  /-- There are no values. -/
  | empty
  /-- Among named values stands one without a name. -/
  | nameMissing (field : String)
  /-- A named value is no number. -/
  | badNamedValue (name value : String) (fault : NumberFault)
  /-- A value is no number. -/
  | badValue (value : String) (fault : NumberFault)
  deriving DecidableEq, Repr

namespace PointFault

/-- The wording of a point fault. -/
def message : PointFault → String
  | .empty => "empty query point"
  | .nameMissing field => s!"expected name=value, got '{field}'"
  | .badNamedValue name value _ => s!"invalid number for '{name}': '{value}'"
  | .badValue value _ => s!"invalid number: '{value}'"

/-- The wordings from the outermost cause to the innermost. -/
def causes (fault : PointFault) : List String :=
  fault.message :: match fault with
    | .badNamedValue _ _ inner => [inner.message]
    | .badValue _ inner => [inner.message]
    | _ => []

end PointFault

namespace Point

/-- The values of a point text, without the blanks around them. -/
def split (text : List Char) : List (List Char) :=
  let fields := (text.splitOn ',').map trim
  fields.filter fun field => !field.isEmpty

/-- Whether a value has a name. -/
def isNamed (field : List Char) : Bool := field.contains '='

/-- Reads a value. -/
def readValue (field : List Char) : Except PointFault Float :=
  (readNumber field).mapError (.badValue (String.ofList field))

/-- Reads a named value. -/
def readNamed (field : List Char) : Except PointFault (String × Float) :=
  match field.dropWhile (· != '=') with
  | _ :: rest =>
    let name := String.ofList (trim (field.takeWhile (· != '=')))
    let value := trim rest
    match readNumber value with
    | .ok x => .ok (name, x)
    | .error fault => .error (.badNamedValue name (String.ofList value) fault)
  | [] => .error (.nameMissing (String.ofList field))

/-- Reads a query point.  If one value has a name, all must have one. -/
def read (text : List Char) : Except PointFault Point :=
  let fields := split text
  if fields.isEmpty then .error .empty
  else if fields.any isNamed then (fields.mapM readNamed).map .named
  else (fields.mapM readValue).map .positional

end Point

end GridLookup
