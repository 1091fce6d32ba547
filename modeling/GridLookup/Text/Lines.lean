namespace GridLookup

/-!
# Lines

* `lines` — the lines of a text.
* `textOfBytes?`, `linesOfBytes` — the characters of a file, as a whole and line by line.
-/

/-- A line without the carriage return at its end. -/
def dropCarriageReturn (line : List Char) : List Char :=
  if line.getLast? = some '\r' then line.dropLast else line

/-- The pieces of a sequence that a separator ends, and the rest if it is not empty. -/
def splitTerminated {α : Type} [BEq α] (separator : α) (items : List α) : List (List α) :=
  let pieces := items.splitOn separator
  pieces.dropLast ++ pieces.getLast?.toList.filter fun piece => !piece.isEmpty

/-- The lines of a text.  A line ends with a newline, and one carriage return before it is not
    part of the line. -/
def lines (text : List Char) : List (List Char) :=
  (splitTerminated '\n' text).map dropCarriageReturn

/-- The characters of a run of bytes, if it is UTF-8. -/
def textOfBytes? (bytes : List UInt8) : Option (List Char) :=
  (String.fromUTF8? ⟨bytes.toArray⟩).map String.toList

/-- The lines of a file.  When its bytes are no text as a whole, each line is read for itself,
    and the lines that are no text are `none`. -/
def linesOfBytes (bytes : List UInt8) : List (Option (List Char)) :=
  match textOfBytes? bytes with
  | some text => (lines text).map some
  | none => (splitTerminated 10 bytes).map fun line => (textOfBytes? line).map dropCarriageReturn

end GridLookup
