import GridLookup.Yaml.Token.BlockText
import GridLookup.Yaml.Token.FlowText
import GridLookup.Yaml.Token.Property

namespace GridLookup.Yaml

/-!
# Scanning

Cuts a text into tokens.  Indentation opens and closes block collections, and a text becomes a
key when a colon turns up behind it, so tokens are also put in front of ones already found.

* `KeyCandidate` — the last token that may turn out to be a key, on one level of flow nesting.
* `Scan` — the tokens so far and everything that decides about the next one.
* `tokenize` — the tokens of a text.
-/

/-- The last token that may turn out to begin a key. -/
structure KeyCandidate where
  /-- It may still do so. -/
  possible : Bool
  /-- It stands where a block mapping continues, so it must do so. -/
  required : Bool
  /-- How many tokens are before it. -/
  token : Nat
  /-- Where it begins. -/
  index : Nat
  /-- The line it begins in. -/
  line : Nat
  /-- The column it begins at. -/
  column : Nat

/-- No token. -/
def KeyCandidate.none : KeyCandidate := ⟨false, false, 0, 0, 0, 0⟩

/-- A text partly cut into tokens. -/
structure Scan where
  /-- The place reached. -/
  cursor : Cursor
  /-- The tokens found. -/
  tokens : Array Token
  /-- The columns of the open block collections, the innermost first. -/
  indents : List Nat
  /-- A key may begin here. -/
  keyAllowed : Bool
  /-- The key candidate of this level of flow nesting. -/
  candidate : KeyCandidate
  /-- The key candidates of the levels around it, the innermost first. -/
  outer : List KeyCandidate

namespace Scan

/-- The front of a text. -/
def start (text : List Char) : Scan := ⟨.start text, #[], [], true, .none, []⟩

/-- Inside a flow collection. -/
def inFlow (scan : Scan) : Bool := !scan.outer.isEmpty

/-- The scan at another place. -/
def moveTo (scan : Scan) (cursor : Cursor) : Scan :=
  ⟨cursor, scan.tokens, scan.indents, scan.keyAllowed, scan.candidate, scan.outer⟩

/-- The scan with one more token. -/
def emit (scan : Scan) (token : Token) : Scan :=
  ⟨scan.cursor, scan.tokens.push token, scan.indents, scan.keyAllowed, scan.candidate, scan.outer⟩

/-- The scan with a token put before the one at a position. -/
def emitAt (scan : Scan) (position : Nat) (token : Token) : Scan :=
  let tokens := scan.tokens.extract 0 position ++ #[token]
    ++ scan.tokens.extract position scan.tokens.size
  ⟨scan.cursor, tokens, scan.indents, scan.keyAllowed, scan.candidate, scan.outer⟩

/-- The scan with or without leave for a key. -/
def allowKey (scan : Scan) (allowed : Bool) : Scan :=
  ⟨scan.cursor, scan.tokens, scan.indents, allowed, scan.candidate, scan.outer⟩

/-- The scan with another key candidate. -/
def setCandidate (scan : Scan) (candidate : KeyCandidate) : Scan :=
  ⟨scan.cursor, scan.tokens, scan.indents, scan.keyAllowed, candidate, scan.outer⟩

/-- The scan with other open block collections. -/
def setIndents (scan : Scan) (indents : List Nat) : Scan :=
  ⟨scan.cursor, scan.tokens, indents, scan.keyAllowed, scan.candidate, scan.outer⟩

/-! ### Key candidates -/

/-- A candidate that has fallen behind: a key lies in one line and is not long.  One that must
    become a key is an error then. -/
def expire (cursor : Cursor) (candidate : KeyCandidate) : Except Fault KeyCandidate :=
  if candidate.possible
      && (candidate.line < cursor.line || candidate.index + 1024 < cursor.index) then
    if candidate.required then .error (.missingColon candidate.line) else .ok .none
  else .ok candidate

/-- Lets all candidates expire that have fallen behind. -/
def expireAll (scan : Scan) : Except Fault Scan := do
  let candidate ← expire scan.cursor scan.candidate
  let outer ← scan.outer.mapM (expire scan.cursor)
  .ok ⟨scan.cursor, scan.tokens, scan.indents, scan.keyAllowed, candidate, outer⟩

/-- Gives up the candidate of this level, which must not be one that has to become a key. -/
def dropCandidate (scan : Scan) : Except Fault Scan :=
  if scan.candidate.possible && scan.candidate.required then
    .error (.missingColon scan.candidate.line)
  else .ok (scan.setCandidate .none)

/-- Makes the next token the candidate of this level, if a key may begin here. -/
def markCandidate (scan : Scan) : Except Fault Scan :=
  if scan.keyAllowed then do
    let scan ← scan.dropCandidate
    let required := !scan.inFlow && scan.indents.head? == some scan.cursor.column
    .ok (scan.setCandidate ⟨true, required, scan.tokens.size, scan.cursor.index,
      scan.cursor.line, scan.cursor.column⟩)
  else .ok scan

/-! ### Indentation -/

/-- Opens a block collection at a column, if that is deeper than the innermost one; its token
    goes to `position`. -/
def openBlock (scan : Scan) (column position : Nat) (token : Token) : Scan :=
  if scan.inFlow then scan
  else if scan.indents.head?.all fun indent => indent < column then
    (scan.setIndents (column :: scan.indents)).emitAt position token
  else scan

/-- Closes block collections, of those given, that are not left of or at a column; without a
    column it closes all. -/
def closeBlocks (scan : Scan) (column : Option Nat) : List Nat → Scan
  | [] => scan.setIndents []
  | indent :: indents =>
    if column.all fun column => column < indent then
      (scan.emit .blockEnd).closeBlocks column indents
    else scan.setIndents (indent :: indents)

/-- Closes the block collections deeper than a column. -/
def closeTo (scan : Scan) (column : Option Nat) : Scan :=
  if scan.inFlow then scan else scan.closeBlocks column scan.indents

/-! ### Gaps between tokens -/

/-- Skips gaps and comments, at most `fuel` line breaks of them.  A tab may stand where no key
    can begin. -/
def skipGaps : Nat → Scan → Scan
  | 0, scan => scan
  | fuel + 1, scan =>
    let cursor :=
      if scan.cursor.column == 0 && scan.cursor.sees '\ufeff' then scan.cursor.advance 1
      else scan.cursor
    -- Where a key may begin, a tab would be indentation.
    let tabs := scan.inFlow || !scan.keyAllowed
    let cursor := (cursor.skipRun fun c => c == ' ' || (tabs && c == '\t')).skipComment
    if cursor.seesAny isBreak then
      ((scan.moveTo cursor.takeBreak.2).allowKey (scan.keyAllowed || !scan.inFlow)).skipGaps fuel
    else scan.moveTo cursor

/-! ### Tokens -/

/-- A mark between documents. -/
def scanDocumentMark (scan : Scan) : Except Fault Scan := do
  let token := if scan.cursor.sees '-' then Token.documentStart else Token.documentEnd
  let scan ← (scan.closeTo none).dropCandidate
  .ok (((scan.allowKey false).moveTo (scan.cursor.advance 3)).emit token)

/-- A directive. -/
def scanDirective (scan : Scan) : Except Fault Scan := do
  let scan ← (scan.closeTo none).dropCandidate
  let (token, cursor) ← readDirective (scan.cursor.advance 1)
  .ok (((scan.allowKey false).moveTo cursor).emit token)

/-- The bracket or brace that opens a flow collection. -/
def scanOpening (token : Token) (scan : Scan) : Except Fault Scan := do
  let scan ← scan.markCandidate
  .ok ⟨scan.cursor.advance 1, scan.tokens.push token, scan.indents, true, .none,
    scan.candidate :: scan.outer⟩

/-- The bracket or brace that closes a flow collection. -/
def scanClosing (token : Token) (scan : Scan) : Except Fault Scan := do
  let scan ← scan.dropCandidate
  let (candidate, outer) := match scan.outer with
    | candidate :: outer => (candidate, outer)
    | [] => (scan.candidate, [])
  .ok ⟨scan.cursor.advance 1, scan.tokens.push token, scan.indents, false, candidate, outer⟩

/-- A comma. -/
def scanComma (scan : Scan) : Except Fault Scan := do
  let scan ← scan.dropCandidate
  .ok (((scan.allowKey true).moveTo (scan.cursor.advance 1)).emit .flowEntry)

/-- A dash in front of an entry. -/
def scanDash (scan : Scan) : Except Fault Scan := do
  if !scan.inFlow && !scan.keyAllowed then .error (.misplaced scan.cursor.line)
  let scan := scan.openBlock scan.cursor.column scan.tokens.size .blockSequence
  let scan ← scan.dropCandidate
  .ok (((scan.allowKey true).moveTo (scan.cursor.advance 1)).emit .blockEntry)

/-- A question mark in front of a key. -/
def scanQuestionMark (scan : Scan) : Except Fault Scan := do
  if !scan.inFlow && !scan.keyAllowed then .error (.misplaced scan.cursor.line)
  let scan := scan.openBlock scan.cursor.column scan.tokens.size .blockMapping
  let scan ← scan.dropCandidate
  .ok (((scan.allowKey !scan.inFlow).moveTo (scan.cursor.advance 1)).emit .key)

/-- A colon in front of a value.  It makes the candidate of this level a key, and otherwise the
    key is empty. -/
def scanColon (scan : Scan) : Except Fault Scan := do
  let ended := scan.cursor.advance 1
  if scan.candidate.possible then
    let candidate := scan.candidate
    let scan := scan.emitAt candidate.token .key
    -- Goes to the same position, so the mapping begins before its first key.
    let scan := scan.openBlock candidate.column candidate.token .blockMapping
    .ok ((((scan.setCandidate .none).allowKey false).moveTo ended).emit .value)
  else
    if !scan.inFlow && !scan.keyAllowed then .error (.misplaced scan.cursor.line)
    let scan := scan.openBlock scan.cursor.column scan.tokens.size .blockMapping
    .ok (((scan.allowKey !scan.inFlow).moveTo ended).emit .value)

/-- An anchor or an alias. -/
def scanAnchor (token : String → Token) (scan : Scan) : Except Fault Scan := do
  let scan ← scan.markCandidate
  let (name, cursor) ← readAnchor (scan.cursor.advance 1)
  .ok (((scan.allowKey false).moveTo cursor).emit (token name))

/-- A tag. -/
def scanTag (scan : Scan) : Except Fault Scan := do
  let scan ← scan.markCandidate
  let (token, cursor) ← readTag scan.inFlow scan.cursor
  .ok (((scan.allowKey false).moveTo cursor).emit token)

/-- A block text. -/
def scanBlock (style : TextStyle) (scan : Scan) : Except Fault Scan := do
  let scan ← scan.dropCandidate
  let (text, cursor) ← readBlock (style == .folded) scan.indents.head? (scan.cursor.advance 1)
  .ok (((scan.allowKey true).moveTo cursor).emit (.text style (String.ofList text)))

/-- A text in quotes. -/
def scanQuoted (style : TextStyle) (scan : Scan) : Except Fault Scan := do
  let scan ← scan.markCandidate
  let start := scan.cursor.advance 1
  let read ← readQuoted (style == .single) start.line (start.rest.length + 1) [] start
  .ok (((scan.allowKey false).moveTo read.cursor).emit (.text style (String.ofList read.text)))

/-- A text without quotes.  A key may begin behind its last line break. -/
def scanPlain (scan : Scan) : Except Fault Scan := do
  let scan ← scan.markCandidate
  let indent := match scan.indents.head? with
    | some indent => indent + 1
    | none => 0
  let read ← readPlain scan.inFlow indent (scan.cursor.rest.length + 1) [] .none scan.cursor
  .ok (((scan.allowKey read.folded).moveTo read.cursor).emit
    (.text .plain (String.ofList read.text)))

/-- The characters that have a meaning of their own. -/
def isIndicator (c : Char) : Bool :=
  "-?:,[]\x7b\x7d#&*!|>'\"%@`".toList.contains c

/-- Whether a plain text begins here.  Some indicators may begin one when they stand close to
    what follows. -/
def startsPlain (inFlow : Bool) (c : Char) (rest : List Char) : Bool :=
  (!isIndicator c && !isGap c)
    || (c == '-' && !rest.head?.any isSpace)
    || (!inFlow && (c == '?' || c == ':') && !gapAhead rest)

/-- The token that begins with a character. -/
def scanToken (c : Char) (rest : List Char) (scan : Scan) : Except Fault Scan :=
  let apart := scan.inFlow || gapAhead rest
  -- Marks of documents and directives come first, since other tokens begin with the same
  -- characters.
  if scan.cursor.column == 0 && c == '%' then scan.scanDirective
  else if scan.cursor.atDocumentMark then scan.scanDocumentMark
  else if c == '[' then scan.scanOpening .openSequence
  else if c == '\x7b' then scan.scanOpening .openMapping
  else if c == ']' then scan.scanClosing .closeSequence
  else if c == '\x7d' then scan.scanClosing .closeMapping
  else if c == ',' then scan.scanComma
  else if c == '-' && gapAhead rest then scan.scanDash
  else if c == '?' && apart then scan.scanQuestionMark
  else if c == ':' && apart then scan.scanColon
  else if c == '*' then scan.scanAnchor .alias
  else if c == '&' then scan.scanAnchor .anchor
  else if c == '!' then scan.scanTag
  else if c == '|' && !scan.inFlow then scan.scanBlock .literal
  else if c == '>' && !scan.inFlow then scan.scanBlock .folded
  else if c == '\'' then scan.scanQuoted .single
  else if c == '"' then scan.scanQuoted .double
  else if startsPlain scan.inFlow c rest then scan.scanPlain
  else .error (.strayCharacter c)

/-- The end of the text, where all block collections end. -/
def finish (scan : Scan) : Except Fault (Array Token) := do
  let scan ← (scan.closeTo none).dropCandidate
  .ok scan.tokens

/-- Finds the tokens that are left, at most `fuel` of them. -/
def run : Nat → Scan → Except Fault (Array Token)
  | 0, scan => .error (.misplaced scan.cursor.line)
  | fuel + 1, scan => do
    -- Candidates expire before indentation is looked at, so a key without colon is found first.
    let scan ← (scan.skipGaps (scan.cursor.rest.length + 1)).expireAll
    match scan.cursor.rest with
    | [] => scan.finish
    | c :: rest =>
      let scan ← (scan.closeTo (some scan.cursor.column)).scanToken c rest
      scan.run fuel

end Scan

/-- The tokens of a text. -/
def tokenize (text : List Char) : Except Fault (List Token) :=
  match text.find? fun c => !isReadable c with
  | some c => .error (.forbiddenCharacter c)
  | none => do
    let tokens ← Scan.run (text.length + 1) (.start text)
    .ok tokens.toList

end GridLookup.Yaml
