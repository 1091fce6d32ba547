namespace GridLookup.Yaml

/-!
# Cursors

A place in a text that is read from front to back.

* `isBreak`, `isSpace`, `isGap`, `isNameChar`, `isReadable` — the character classes.
* `Cursor` — the rest of the text with its line and column.
-/

/-! ### Character classes -/

/-- A character that ends a line. -/
def isBreak (c : Char) : Bool :=
  c == '\n' || c == '\r' || c == '\u0085' || c == '\u2028' || c == '\u2029'

/-- A space or a tab. -/
def isSpace (c : Char) : Bool := c == ' ' || c == '\t'

/-- A character that separates tokens. -/
def isGap (c : Char) : Bool := isSpace c || isBreak c

/-- A character of anchor names, tag handles and directive names. -/
def isNameChar (c : Char) : Bool :=
  ('0' ≤ c && c ≤ '9') || ('a' ≤ c && c ≤ 'z') || ('A' ≤ c && c ≤ 'Z') || c == '_' || c == '-'

/-- The ranges of characters that a document may hold. -/
def readableRanges : List (Nat × Nat) :=
  [(0x09, 0x0a), (0x0d, 0x0d), (0x20, 0x7e), (0x85, 0x85), (0xa0, 0xd7ff), (0xe000, 0xfffd),
   (0x10000, 0x10ffff)]

/-- A character that a document may hold. -/
def isReadable (c : Char) : Bool :=
  readableRanges.any fun (first, last) => first ≤ c.toNat && c.toNat ≤ last

/-- The end of a text, or one where a gap begins. -/
def gapAhead : List Char → Bool
  | [] => true
  | c :: _ => isGap c

/-- A line break as a document keeps it: most kinds count as a newline. -/
def keptBreak (c : Char) : Char := if c == '\u2028' || c == '\u2029' then c else '\n'

/-! ### Cursors -/

/-- A place in a text. -/
structure Cursor where
  /-- The text from here on. -/
  rest : List Char
  /-- Characters before. -/
  index : Nat
  /-- Lines before. -/
  line : Nat
  /-- Characters before in this line. -/
  column : Nat

namespace Cursor

/-- The front of a text. -/
def start (text : List Char) : Cursor := ⟨text, 0, 0, 0⟩

/-- The character here. -/
def peek? (cursor : Cursor) : Option Char := cursor.rest.head?

/-- Whether this character is here. -/
def sees (cursor : Cursor) (c : Char) : Bool := cursor.peek? == some c

/-- Whether a character with this property is here. -/
def seesAny (cursor : Cursor) (p : Char → Bool) : Bool := cursor.peek?.any p

/-- Past some characters, none of them a line break. -/
def advance (cursor : Cursor) (count : Nat) : Cursor :=
  ⟨cursor.rest.drop count, cursor.index + count, cursor.line, cursor.column + count⟩

/-- The longest run of characters with a property, none of them a line break, and what follows
    it. -/
def takeRun (cursor : Cursor) (p : Char → Bool) : List Char × Cursor :=
  let run := cursor.rest.takeWhile p
  (run, cursor.advance run.length)

/-- Past the longest run of characters with a property, none of them a line break. -/
def skipRun (cursor : Cursor) (p : Char → Bool) : Cursor := (cursor.takeRun p).2

/-- The rest of the line. -/
def takeLine (cursor : Cursor) : List Char × Cursor := cursor.takeRun fun c => !isBreak c

/-- The line break here as a document keeps it, and what follows; a carriage return and a
    newline are one break. -/
def takeBreak (cursor : Cursor) : List Char × Cursor :=
  match cursor.rest with
  | '\r' :: '\n' :: rest => (['\n'], ⟨rest, cursor.index + 2, cursor.line + 1, 0⟩)
  | c :: rest => ([keptBreak c], ⟨rest, cursor.index + 1, cursor.line + 1, 0⟩)
  | [] => ([], cursor)

/-- Past a comment, if one begins here. -/
def skipComment (cursor : Cursor) : Cursor :=
  if cursor.sees '#' then cursor.takeLine.2 else cursor

/-- Whether a line begins here with a mark between documents. -/
def atDocumentMark (cursor : Cursor) : Bool :=
  cursor.column == 0
    && (cursor.rest.take 3 == ['-', '-', '-'] || cursor.rest.take 3 == ['.', '.', '.'])
    && gapAhead (cursor.rest.drop 3)

end Cursor

end GridLookup.Yaml
