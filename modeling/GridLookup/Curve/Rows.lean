import GridLookup.Decimal.Reader
import GridLookup.Store.Error
import GridLookup.Table.Interpolation
import GridLookup.Text.Blank
import GridLookup.Text.Lines

namespace GridLookup

/-!
# Rows of curves

One-dimensional relations come as text: one point per line, two columns, with blank lines,
comments and one heading before the data.

* `Curve.Rows` — the points read so far; `Curve.readRow` reads one more line.
* `Curve.tableOfText`, `Curve.tableOfBytes` — the table through the points.
-/

namespace Curve

/-! ### Rows -/

/-- The points of a curve, as far as it has been read. -/
structure Rows where
  /-- The first column. -/
  xs : Array Float
  /-- The second column. -/
  ys : Array Float
  /-- A row without numbers is still taken for the heading. -/
  headingAllowed : Bool

/-- The state before the first line. -/
def Rows.start : Rows := ⟨#[], #[], true⟩

/-- A line that holds no row: it is empty or a comment. -/
def isComment (line : List Char) : Bool := line.isEmpty || line.head? == some '#'

/-- The characters between columns. -/
def separates (c : Char) : Bool := c == ';' || c == ',' || isBlank c

/-- The two numbers that a row begins with. -/
def readPair (first second : List Char) : Option (Float × Float) :=
  match readNumber first, readNumber second with
  | .ok x, .ok y => some (x, y)
  | _, _ => none

/-- Reads a line without the blanks around it. -/
def readRow (line : List Char) (rows : Rows) : Except RowFault Rows :=
  if isComment line then .ok rows
  else
    match fields separates line with
    | first :: second :: _ =>
      match readPair first second with
      | some (x, y) => .ok ⟨rows.xs.push x, rows.ys.push y, false⟩
      -- The first row may be a heading; one that holds numbers ends the leave for it.
      | none =>
        if rows.headingAllowed then .ok ⟨rows.xs, rows.ys, false⟩
        else .error (.notNumbers (String.ofList line))
    | _ => .error .missingColumn

/-- Reads lines; `number` is the number of the first, and a line that is no text is `none`. -/
def readLines : List (Option (List Char)) → Nat → Rows → Except StoreError Rows
  | [], _, rows => .ok rows
  | none :: _, _, _ => .error (.file .notText)
  | some line :: rest, number, rows =>
    match readRow (trim line) rows with
    | .ok rows => readLines rest (number + 1) rows
    | .error fault => .error (.row number fault)

/-! ### Tables -/

/-- The table through the points of some lines. -/
def tableOfLines (lines : List (Option (List Char))) : Except StoreError (Table Float) := do
  let rows ← readLines lines 1 .start
  if rows.xs.isEmpty then .error (.row 0 .noRows)
  else (Table.ofPoints rows.xs rows.ys).mapError StoreError.table

/-- The table of a curve text. -/
def tableOfText (text : List Char) : Except StoreError (Table Float) :=
  tableOfLines ((lines text).map some)

/-- The table of a curve file. -/
def tableOfBytes (bytes : List UInt8) : Except StoreError (Table Float) :=
  tableOfLines (linesOfBytes bytes)

end Curve

end GridLookup
