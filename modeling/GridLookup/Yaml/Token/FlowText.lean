import GridLookup.Text.Numeral
import GridLookup.Yaml.Cursor
import GridLookup.Yaml.Fault

namespace GridLookup.Yaml

/-!
# Plain and quoted texts

Texts that may run over several lines, whose line breaks are folded: a single one counts as a
space, and of several the first is dropped.

* `Gap` — the white space between two words of such a text; `readGap` reads it.
* `readPlain` — a text without quotes.
* `readQuoted` — a text in quotes of either kind.
-/

/-! ### Gaps -/

/-- The white space between two words. -/
structure Gap where
  /-- Spaces and tabs, as long as there is no line break. -/
  spaces : List Char
  /-- A line break has been passed. -/
  folded : Bool
  /-- The first line break. -/
  first : List Char
  /-- The line breaks after it. -/
  later : List Char

namespace Gap

/-- No white space. -/
def none : Gap := ⟨[], false, [], []⟩

/-- A line break that a backslash hides. -/
def hidden : Gap := ⟨[], true, [], []⟩

/-- The characters that a gap stands for. -/
def text (gap : Gap) : List Char :=
  if gap.folded then
    if gap.first = ['\n'] then if gap.later.isEmpty then [' '] else gap.later
    else gap.first ++ gap.later
  else gap.spaces

end Gap

/-- Reads white space, at most `fuel` characters of it.  After a line break, a tab may not stand
    left of column `indent`. -/
def readGap (indent : Nat) : Nat → Gap → Cursor → Except Fault (Gap × Cursor)
  | 0, gap, cursor => .ok (gap, cursor)
  | fuel + 1, gap, cursor =>
    match cursor.peek? with
    | .none => .ok (gap, cursor)
    | some c =>
      if isSpace c then
        if gap.folded && c == '\t' && cursor.column < indent then
          .error (.tabIndentation cursor.line)
        else
          -- Spaces at the front of a line do not belong to the text.
          let spaces := if gap.folded then gap.spaces else gap.spaces ++ [c]
          readGap indent fuel ⟨spaces, gap.folded, gap.first, gap.later⟩ (cursor.advance 1)
      else if isBreak c then
        let (kept, cursor) := cursor.takeBreak
        let gap : Gap := if gap.folded then ⟨[], true, gap.first, gap.later ++ kept⟩
          else ⟨[], true, kept, []⟩
        readGap indent fuel gap cursor
      else .ok (gap, cursor)

/-! ### Plain texts -/

/-- The brackets, braces and commas of flow collections. -/
def isFlowIndicator (c : Char) : Bool :=
  c == ',' || c == '[' || c == ']' || c == '\x7b' || c == '\x7d'

/-- Whether a colon here runs into an indicator of a flow collection. -/
def adjoiningColon : List Char → Bool
  | ':' :: c :: _ => isFlowIndicator c || c == '?'
  | _ => false

/-- The length of the word of a plain text that begins here: it ends before a gap, before a
    colon with a gap behind it, and in a flow collection before its indicators. -/
def plainWordLength? (inFlow : Bool) : List Char → Option Nat
  | [] => some 0
  | c :: rest =>
    if isGap c then some 0
    else if inFlow && adjoiningColon (c :: rest) then none
    else if (c == ':' && gapAhead rest) || (inFlow && isFlowIndicator c) then some 0
    else (plainWordLength? inFlow rest).map (· + 1)

/-- A text that was read: its characters, where it ends, and whether line breaks follow it. -/
structure ReadText where
  /-- The characters. -/
  text : List Char
  /-- The place after it. -/
  cursor : Cursor
  /-- A line break has been passed after its last word. -/
  folded : Bool

/-- Reads the words of a plain text, at most `fuel` of them, after `text` and a gap.  Outside
    flow collections its lines must not stand left of column `indent`. -/
def readPlain (inFlow : Bool) (indent : Nat) :
    Nat → List Char → Gap → Cursor → Except Fault ReadText
  | 0, text, gap, cursor => .ok ⟨text, cursor, gap.folded⟩
  | fuel + 1, text, gap, cursor =>
    if cursor.atDocumentMark || cursor.sees '#' then .ok ⟨text, cursor, gap.folded⟩
    else
      match plainWordLength? inFlow cursor.rest with
      | none => .error (.adjoiningColon cursor.line)
      | some 0 => .ok ⟨text, cursor, gap.folded⟩
      | some length => do
        let text := text ++ gap.text ++ cursor.rest.take length
        let (gap, cursor) ← readGap indent cursor.rest.length .none (cursor.advance length)
        -- The next line belongs to what surrounds the text.
        if cursor.column < indent && !inFlow then .ok ⟨text, cursor, gap.folded⟩
        else readPlain inFlow indent fuel text gap cursor

/-! ### Quoted texts -/

/-- The character that a one-letter escape stands for. -/
def escapedChar? : Char → Option Char
  | '0' => some '\x00'
  | 'a' => some '\x07'
  | 'b' => some '\x08'
  | 't' => some '\t'
  | '\t' => some '\t'
  | 'n' => some '\n'
  | 'v' => some '\x0b'
  | 'f' => some '\x0c'
  | 'r' => some '\r'
  | 'e' => some '\x1b'
  | ' ' => some ' '
  | '"' => some '"'
  | '/' => some '/'
  | '\\' => some '\\'
  | 'N' => some '\u0085'
  | '_' => some '\u00a0'
  | 'L' => some '\u2028'
  | 'P' => some '\u2029'
  | _ => none

/-- How many hexadecimal digits follow the letter of an escape. -/
def escapeDigits? : Char → Option Nat
  | 'x' => some 2
  | 'u' => some 4
  | 'U' => some 8
  | _ => none

/-- The character with a code point, if there is one. -/
def charOfCode? (code : Nat) : Option Char :=
  if code < 0xd800 || (0xdfff < code && code ≤ 0x10ffff) then some (Char.ofNat code) else none

/-- The character that an escape stands for, and the number of characters of the escape after
    its backslash. -/
def readEscape? : List Char → Option (Char × Nat)
  | [] => none
  | letter :: rest =>
    match escapedChar? letter, escapeDigits? letter with
    | some c, _ => some (c, 1)
    | none, some count => do
      let digits := rest.take count
      if digits.length = count then
        let code ← Numeral.read? 16 digits
        let c ← charOfCode? code
        some (c, count + 1)
      else none
    | none, none => none

/-- A word of a quoted text: its characters, where it ends, and whether it ends with a backslash
    that hides a line break.  `word` holds the characters so far, the last one first. -/
def readQuotedWord (single : Bool) : Nat → List Char → Cursor → Except Fault ReadText
  | 0, word, cursor => .ok ⟨word.reverse, cursor, false⟩
  | fuel + 1, word, cursor =>
    match cursor.rest with
    | [] => .ok ⟨word.reverse, cursor, false⟩
    | c :: rest =>
      if isGap c then .ok ⟨word.reverse, cursor, false⟩
      else if single then
        if c == '\'' then
          -- A quote that is written twice stands for one.
          if rest.head? == some '\'' then
            readQuotedWord single fuel ('\'' :: word) (cursor.advance 2)
          else .ok ⟨word.reverse, cursor, false⟩
        else readQuotedWord single fuel (c :: word) (cursor.advance 1)
      else if c == '"' then .ok ⟨word.reverse, cursor, false⟩
      else if c == '\\' then
        -- The line break is hidden, so the next word follows without a space.
        if rest.head?.any isBreak then .ok ⟨word.reverse, (cursor.advance 1).takeBreak.2, true⟩
        else
          match readEscape? rest with
          | some (escaped, length) =>
            readQuotedWord single fuel (escaped :: word) (cursor.advance (length + 1))
          | none => .error (.badEscape cursor.line)
      else readQuotedWord single fuel (c :: word) (cursor.advance 1)

/-- Reads the words of a quoted text up to its closing quote, at most `fuel` of them, after
    `text`; `line` is where it began. -/
def readQuoted (single : Bool) (line : Nat) : Nat → List Char → Cursor → Except Fault ReadText
  | 0, _, _ => .error (.unterminatedQuote line)
  | fuel + 1, text, cursor => do
    if cursor.atDocumentMark || cursor.rest.isEmpty then .error (.unterminatedQuote line)
    let word ← readQuotedWord single cursor.rest.length [] cursor
    let text := text ++ word.text
    if word.cursor.sees (if single then '\'' else '"') then
      .ok ⟨text, word.cursor.advance 1, false⟩
    else
      let before := if word.folded then Gap.hidden else Gap.none
      let (gap, cursor) ← readGap 0 word.cursor.rest.length before word.cursor
      readQuoted single line fuel (text ++ gap.text) cursor

end GridLookup.Yaml
