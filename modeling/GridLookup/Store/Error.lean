import GridLookup.Decimal.Format
import GridLookup.Layout.Fault
import GridLookup.Table.Error
import GridLookup.Yaml.Fault

namespace GridLookup

/-!
# Errors

Everything that can go wrong between a file and a table.

* `FileFault` — why bytes could not be read or written.
* `RowFault` — why a text is no curve.
* `StoreError` — why a stored table, a layout or a curve was refused.
* `StoreError.message`, `StoreError.causes` — the wording, and the wordings from the outermost
  cause to the innermost.
-/

/-- Why bytes could not be read or written. -/
inductive FileFault where
  /-- There is no such file. -/
  | missing
  /-- It is a directory. -/
  | directory
  /-- Part of the path is a file. -/
  | notDirectory
  /-- The path or a part of it is too long. -/
  | nameTooLong
  /-- Access is refused. -/
  | denied
  /-- The bytes are no UTF-8 text. -/
  | notText
  /-- Reading or writing broke off. -/
  | failing (reason : String)
  deriving DecidableEq, Repr

/-- The wording of a file fault. -/
def FileFault.message : FileFault → String
  | .missing => "No such file or directory (os error 2)"
  | .directory => "Is a directory (os error 21)"
  | .notDirectory => "Not a directory (os error 20)"
  | .nameTooLong => "File name too long (os error 36)"
  | .denied => "Permission denied (os error 13)"
  | .notText => "stream did not contain valid UTF-8"
  | .failing reason => reason

/-- Why a text is no curve. -/
inductive RowFault where
  /-- A row has fewer than two columns. -/
  | missingColumn
  /-- A row does not begin with two numbers. -/
  | notNumbers (row : String)
  /-- There are no rows. -/
  | noRows
  deriving DecidableEq, Repr

/-- The wording of a row fault. -/
def RowFault.message : RowFault → String
  | .missingColumn => "expected two columns"
  | .notNumbers row => s!"not a number pair: '{row}'"
  | .noRows => "no data rows"

/-- Why a stored table, a layout or a curve was refused. -/
inductive StoreError where
  /-- The stream ended inside this part. -/
  | truncated (part : String)
  /-- The stream has a different length than its parts. -/
  | lengthMismatch (expected actual : Nat)
  /-- A vector has a length that its length word cannot mean. -/
  | invalidLength (vector : String) (length : Int)
  /-- The layout is refused. -/
  | layout (fault : LayoutFault)
  /-- A row of a curve is refused; lines count from one, and zero stands for the whole text. -/
  | row (line : Nat) (fault : RowFault)
  /-- Reading or writing failed. -/
  | file (fault : FileFault)
  /-- The layout file is no layout document. -/
  | yaml (fault : Yaml.Fault)
  /-- The parts do not make a table. -/
  | table (error : TableError Float)
  /-- A size does not fit a 64-bit word, and the program is stopped. -/
  | overflow
  deriving Repr

/-- The wording of a table error over doubles. -/
def tableMessage (error : TableError Float) : String := error.message NumberFormat.plain.write

namespace StoreError

/-- The wording of a store error. -/
def message : StoreError → String
  | .truncated part => s!"truncated stream while reading {part}"
  | .lengthMismatch expected actual =>
    s!"stream length mismatch: layout implies {expected} bytes, stream has {actual}"
  | .invalidLength vector length => s!"invalid length {length} for {vector}"
  | .layout fault => "invalid layout: " ++ fault.message
  | .row line fault => s!"parse error at line {line}: " ++ fault.message
  | .file fault => "I/O error: " ++ fault.message
  | .yaml fault => "YAML parse error: " ++ fault.message
  | .table error => "LUT error: " ++ tableMessage error
  | .overflow => "attempt to multiply with overflow"

/-- The wordings from the outermost cause to the innermost. -/
def causes (error : StoreError) : List String :=
  error.message :: match error with
    | .file fault => [fault.message]
    | .yaml fault => [fault.message]
    | .table inner => [tableMessage inner]
    | _ => []

end StoreError

end GridLookup
