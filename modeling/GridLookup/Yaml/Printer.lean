import GridLookup.Decimal.Format
import GridLookup.Yaml.Spelling
import GridLookup.Yaml.Tree

namespace GridLookup.Yaml

/-!
# Writing documents

* `Tree.write` — the document text of a tree.

Every entry of a list and every field of a record begins a line of its own.  The entries of a
list in a field begin at the column of the field's name, everything else two columns further
in.  Field names are words that need no quotes.
-/

/-- A line with its end. -/
def line (text : String) : String := text ++ "\n"

/-- A value without parts, to the end of its last line; lines after the first begin at
    `column`. -/
def Leaf.write (column : Nat) : Leaf → String
  | .text content => String.ofList (spell column content)
  | .flag value => line (if value then "true" else "false")
  | .number value => line (NumberFormat.yaml.write value)
  | .count value => line (Numeral.text value)

namespace Tree

/-- Spaces up to a column, as a string. -/
def margin (column : Nat) : String := String.ofList (indentation column)

mutual

/-- What follows the colon of a field that begins at `column`. -/
def afterColon (column : Nat) : Tree → String
  | .leaf value => " " ++ value.write (column + 2)
  | .list items =>
    match entryLines column items with
    | [] => line " []"
    | lines => "\n" ++ String.join (lines.map fun text => margin column ++ text)
  | .record fields =>
    match fieldLines (column + 2) fields with
    | [] => line " \x7b\x7d"
    | lines => "\n" ++ String.join (lines.map fun text => margin (column + 2) ++ text)

/-- What follows the dash of an entry that begins at `column`. -/
def afterDash (column : Nat) : Tree → String
  | .leaf value => " " ++ value.write (column + 2)
  | .list items =>
    match entryLines (column + 2) items with
    | [] => line " []"
    | lines => " " ++ (margin (column + 2)).intercalate lines
  | .record fields =>
    match fieldLines (column + 2) fields with
    | [] => line " \x7b\x7d"
    | lines => " " ++ (margin (column + 2)).intercalate lines

/-- The entries of a list that begin at `column`, each from its dash on. -/
def entryLines (column : Nat) : List Tree → List String
  | [] => []
  | item :: rest => ("-" ++ afterDash column item) :: entryLines column rest

/-- The fields of a record that begin at `column`, each from its name on. -/
def fieldLines (column : Nat) : List (String × Tree) → List String
  | [] => []
  | (name, tree) :: rest => (name ++ ":" ++ afterColon column tree) :: fieldLines column rest

end

/-- The document text of a tree. -/
def write : Tree → String
  | .leaf value => value.write 2
  | .record fields =>
    match fieldLines 0 fields with
    | [] => line "\x7b\x7d"
    | lines => String.join lines
  | .list items =>
    match entryLines 0 items with
    | [] => line "[]"
    | lines => String.join lines

end Tree

end GridLookup.Yaml
