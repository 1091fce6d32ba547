import GridLookup.Yaml.Cursor
import GridLookup.Yaml.Fault

namespace GridLookup.Yaml

/-!
# Block texts

Texts that follow a header line and are set apart by their indentation.

* `Chomping`, `BlockHeader` — what the header says.
* `readBlankLines` — the empty lines before or between the lines of such a text.
* `readBlock` — a text after its header character.
-/

/-- What becomes of the line breaks at the end of a block text. -/
inductive Chomping where
  /-- None is kept. -/
  | strip
  /-- One is kept. -/
  | clip
  /-- All are kept. -/
  | keep
  deriving DecidableEq, Repr

/-- The header of a block text. -/
structure BlockHeader where
  /-- What becomes of the line breaks at its end. -/
  chomping : Chomping
  /-- The indentation it declares, in addition to that of its surroundings. -/
  indentation : Option Nat

/-! ### The header -/

/-- A chomping indicator. -/
def readChomping? : Option Char → Option Chomping
  | some '+' => some .keep
  | some '-' => some .strip
  | _ => none

/-- An indentation indicator, a digit. -/
def readIndentation? : Option Char → Option Nat
  | some c => if '0' ≤ c && c ≤ '9' then some (c.toNat - 48) else none
  | none => none

/-- The header indicators at the front of a text, in either order, and how many there are. -/
def readIndicators (text : List Char) : BlockHeader × Nat :=
  match readChomping? text.head?, readIndentation? text.head? with
  | some chomping, _ =>
    match readIndentation? text[1]? with
    | some indentation => (⟨chomping, some indentation⟩, 2)
    | none => (⟨chomping, none⟩, 1)
  | none, some indentation =>
    match readChomping? text[1]? with
    | some chomping => (⟨chomping, some indentation⟩, 2)
    | none => (⟨.clip, some indentation⟩, 1)
  | none, none => (⟨.clip, none⟩, 0)

/-- Reads the rest of the header line.  Only a comment may follow the indicators. -/
def readHeader (cursor : Cursor) : Except Fault (BlockHeader × Cursor) :=
  let (header, count) := readIndicators cursor.rest
  let ended := ((cursor.advance count).skipRun isSpace).skipComment
  if header.indentation == some 0 then .error (.badBlockHeader cursor.line)
  else if ended.rest.isEmpty || ended.seesAny isBreak then .ok (header, ended.takeBreak.2)
  else .error (.badBlockHeader cursor.line)

/-! ### The lines -/

/-- Reads empty lines, at most `fuel` of them, and the indentation of the line after them.  The
    indentation is skipped up to `indent`, or all of it while `indent` is not known; `deepest`
    is the deepest seen so far.  Gives the line breaks, the deepest indentation and the place
    of the next line's content. -/
def readBlankLines (indent : Option Nat) :
    Nat → Nat → List Char → Cursor → Except Fault (List Char × Nat × Cursor)
  | 0, deepest, breaks, cursor => .ok (breaks, deepest, cursor)
  | fuel + 1, deepest, breaks, cursor =>
    let spaces := (cursor.takeRun fun c => c == ' ').1.length
    let skipped := match indent with
      | some indent => min spaces (indent - cursor.column)
      | none => spaces
    let cursor := cursor.advance skipped
    let deepest := max deepest cursor.column
    let short := match indent with
      | some indent => cursor.column < indent
      | none => true
    -- Only spaces make up indentation.
    if short && cursor.sees '\t' then .error (.tabIndentation cursor.line)
    else if cursor.seesAny isBreak then
      let (kept, cursor) := cursor.takeBreak
      readBlankLines indent fuel deepest (breaks ++ kept) cursor
    else .ok (breaks, deepest, cursor)

/-- The text so far with the line breaks before its next line.  In a folded text a single break
    between two lines that begin with no space counts as a space, and more of them lose the
    first. -/
def joinLines (isFolded : Bool) (text first later : List Char) (indented : Bool) : List Char :=
  if isFolded && first == ['\n'] && !indented then
    text ++ (if later.isEmpty then [' '] else later)
  else text ++ first ++ later

/-- What has been read of a block text. -/
structure BlockLines where
  /-- The text up to the last line read. -/
  text : List Char
  /-- The break of that line. -/
  first : List Char
  /-- The breaks of the empty lines after it. -/
  later : List Char
  /-- The place after them. -/
  cursor : Cursor

/-- Reads the lines at column `indent`, at most `fuel` of them.  `indented` says that the last
    line began with a space. -/
def readBlockLines (isFolded : Bool) (indent : Nat) :
    Nat → Bool → BlockLines → Except Fault BlockLines
  | 0, _, lines => .ok lines
  | fuel + 1, indented, lines =>
    if lines.cursor.column == indent && !lines.cursor.rest.isEmpty then do
      let spaced := lines.cursor.seesAny isSpace
      let text := joinLines isFolded lines.text lines.first lines.later (indented || spaced)
      let (line, cursor) := lines.cursor.takeLine
      let (first, cursor) := cursor.takeBreak
      let (later, _, cursor) ← readBlankLines (some indent) cursor.rest.length 0 [] cursor
      readBlockLines isFolded indent fuel spaced ⟨text ++ line, first, later, cursor⟩
    else .ok lines

/-- A block text with the line breaks at its end that its header keeps. -/
def BlockLines.chomp (lines : BlockLines) : Chomping → List Char
  | .strip => lines.text
  | .clip => lines.text ++ lines.first
  | .keep => lines.text ++ lines.first ++ lines.later

/-- Reads a block text after its header character.  `parent` is the indentation of what it
    belongs to, if any; without a declared indentation its first line that is not empty has
    it, and it is deeper than that of the parent. -/
def readBlock (isFolded : Bool) (parent : Option Nat) (cursor : Cursor) :
    Except Fault (List Char × Cursor) := do
  let (header, cursor) ← readHeader cursor
  let declared := header.indentation.map fun depth => parent.getD 0 + depth
  let (breaks, deepest, cursor) ← readBlankLines declared (cursor.rest.length + 1) 0 [] cursor
  let least := match parent with
    | some parent => parent + 1
    | none => 1
  -- Spaces of empty lines count, so a first line left of them ends the text at once.
  let indent := declared.getD (max deepest least)
  let lines ← readBlockLines isFolded indent cursor.rest.length false ⟨[], [], breaks, cursor⟩
  .ok (lines.chomp header.chomping, lines.cursor)

end GridLookup.Yaml
