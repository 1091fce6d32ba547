import GridLookup.Text.Numeral
import GridLookup.Yaml.Cursor
import GridLookup.Yaml.Fault
import GridLookup.Yaml.Tag
import GridLookup.Yaml.Token.Basic

namespace GridLookup.Yaml

/-!
# Anchors, tags and directives

* `readAnchor` — the name of an anchor or an alias.
* `readTag` — a tag: a handle and a suffix, or a complete name in angle brackets.
* `readDirective` — the declarations in front of a document.
-/

/-! ### Anchors -/

/-- A character that may follow the name of an anchor. -/
def endsAnchor (c : Char) : Bool :=
  isGap c || "?:,]\x7d%@`".toList.contains c

/-- Reads the name of an anchor or alias after its indicator. -/
def readAnchor (cursor : Cursor) : Except Fault (String × Cursor) :=
  let (name, rest) := cursor.takeRun isNameChar
  if !name.isEmpty && (rest.rest.isEmpty || rest.seesAny endsAnchor) then
    .ok (String.ofList name, rest)
  else .error (.badAnchor cursor.line)

/-! ### Tags -/

/-- A character of a tag; brackets and commas only in complete names. -/
def isTagChar (complete : Bool) (c : Char) : Bool :=
  isNameChar c || ";/?:@&=+$.%!~*'()".toList.contains c || (complete && ",[]".toList.contains c)

/-- One byte written as a percent sign and two hexadecimal digits. -/
def readPercent? : List Char → Option UInt8
  | '%' :: high :: low :: _ => (Numeral.read? 16 [high, low]).map UInt8.ofNat
  | _ => none

/-- How many bytes the character has whose first byte this is. -/
def utf8Width? (byte : UInt8) : Option Nat :=
  if byte < 0x80 then some 1
  else if 0xc0 ≤ byte && byte < 0xe0 then some 2
  else if 0xe0 ≤ byte && byte < 0xf0 then some 3
  else if 0xf0 ≤ byte && byte < 0xf8 then some 4
  else none

/-- Reads the bytes of one character, each written with a percent sign. -/
def readBytes? : Nat → List Char → Option (List UInt8)
  | 0, _ => some []
  | count + 1, text => do
    let byte ← readPercent? text
    let bytes ← readBytes? count (text.drop 3)
    if 0x80 ≤ byte && byte < 0xc0 then some (byte :: bytes) else none

/-- Reads one character written with percent signs: its bytes, each three characters long.  They
    begin like the bytes of a character, but need not be one. -/
def readEscaped? (text : List Char) : Option (List UInt8) := do
  let first ← readPercent? text
  let width ← utf8Width? first
  let others ← readBytes? (width - 1) (text.drop 3)
  some (first :: others)

/-- Reads the bytes of a tag, of at most `fuel` characters, behind those already read. -/
def readTagBytes (complete : Bool) : Nat → Tag → Cursor → Except Fault (Tag × Cursor)
  | 0, bytes, cursor => .ok (bytes, cursor)
  | fuel + 1, bytes, cursor =>
    match cursor.peek? with
    | none => .ok (bytes, cursor)
    | some c =>
      if c == '%' then
        match readEscaped? cursor.rest with
        | some escaped =>
          readTagBytes complete fuel (bytes ++ escaped) (cursor.advance (3 * escaped.length))
        | none => .error (.badTag cursor.line)
      else if isTagChar complete c then
        -- Such a character is ASCII, one byte.
        readTagBytes complete fuel (bytes ++ [UInt8.ofNat c.toNat]) (cursor.advance 1)
      else .ok (bytes, cursor)

/-- Reads one or more bytes of a tag.  A zero byte ends the tag, but what is written behind it
    is read, too. -/
def readTagPart (complete : Bool) (cursor : Cursor) : Except Fault (Tag × Cursor) := do
  let (bytes, ended) ← readTagBytes complete cursor.rest.length [] cursor
  if bytes.isEmpty then .error (.badTag cursor.line) else .ok (bytes.beforeZero, ended)

/-- Reads the handle at the front of a tag: an exclamation mark, name characters and, if there
    is one, a second exclamation mark. -/
def readHandle (cursor : Cursor) : Except Fault (List Char × Cursor) :=
  if cursor.sees '!' then
    let (name, rest) := (cursor.advance 1).takeRun isNameChar
    if rest.sees '!' then .ok ('!' :: name ++ ['!'], rest.advance 1) else .ok ('!' :: name, rest)
  else .error (.badTag cursor.line)

/-- A handle that ends with an exclamation mark of its own. -/
def isNamedHandle (handle : List Char) : Bool :=
  2 ≤ handle.length && handle.getLast? == some '!'

/-- Reads a tag in angle brackets, or a handle and a suffix.  What looks like a handle without a
    second exclamation mark is the front of a local suffix, and an exclamation mark alone is a
    suffix without a handle. -/
def readTagName (cursor : Cursor) : Except Fault (Token × Cursor) :=
  if cursor.rest.take 2 == ['!', '<'] then do
    let (tag, ended) ← readTagPart true (cursor.advance 2)
    if ended.sees '>' then .ok (.tag "" tag, ended.advance 1) else .error (.badTag cursor.line)
  else do
    let (handle, start) ← readHandle cursor
    if isNamedHandle handle then
      let (suffix, ended) ← readTagPart false start
      .ok (.tag (String.ofList handle) suffix, ended)
    else
      let front := Tag.spelling (String.ofList (handle.drop 1))
      let (bytes, ended) ← readTagBytes false start.rest.length front start
      let suffix := bytes.beforeZero
      if suffix.isEmpty then .ok (.tag "" (Tag.spelling "!"), ended)
      else .ok (.tag "!" suffix, ended)

/-- Reads a tag and checks that a gap follows it; in a flow collection a comma may, too. -/
def readTag (inFlow : Bool) (cursor : Cursor) : Except Fault (Token × Cursor) := do
  let (token, rest) ← readTagName cursor
  if gapAhead rest.rest || (inFlow && rest.sees ',') then .ok (token, rest)
  else .error (.badTag cursor.line)

/-! ### Directives -/

/-- Reads one number of a version, of at most nine digits. -/
def readVersionNumber (cursor : Cursor) : Except Fault (Nat × Cursor) :=
  let (digits, rest) := cursor.takeRun fun c => '0' ≤ c && c ≤ '9'
  match Numeral.read? 10 digits with
  | some number =>
    if digits.length ≤ 9 then .ok (number, rest) else .error (.badDirective cursor.line)
  | none => .error (.badDirective cursor.line)

/-- Reads the version that a directive declares. -/
def readVersion (cursor : Cursor) : Except Fault (Token × Cursor) := do
  let (major, rest) ← readVersionNumber (cursor.skipRun isSpace)
  if rest.sees '.' then
    let (minor, rest) ← readVersionNumber (rest.advance 1)
    .ok (.version major minor, rest)
  else .error (.badDirective cursor.line)

/-- Reads the handle that a directive declares, and what it stands for. -/
def readHandleDirective (cursor : Cursor) : Except Fault (Token × Cursor) := do
  let (handle, afterHandle) ← readHandle (cursor.skipRun isSpace)
  if handle != ['!'] && !isNamedHandle handle then .error (.badDirective cursor.line)
  if !afterHandle.seesAny isSpace then .error (.badDirective cursor.line)
  let (expansion, ended) ← readTagPart true (afterHandle.skipRun isSpace)
  if gapAhead ended.rest then .ok (.handle (String.ofList handle) expansion, ended)
  else .error (.badDirective cursor.line)

/-- Reads a directive after its percent sign, and the rest of its line, which may hold a
    comment. -/
def readDirective (cursor : Cursor) : Except Fault (Token × Cursor) := do
  let (name, rest) := cursor.takeRun isNameChar
  if name.isEmpty || !gapAhead rest.rest then .error (.badDirective cursor.line)
  let (token, ended) ←
    if name = "YAML".toList then readVersion rest
    else if name = "TAG".toList then readHandleDirective rest
    else .error (.badDirective cursor.line)
  let ended := (ended.skipRun isSpace).skipComment
  if ended.rest.isEmpty || ended.seesAny isBreak then .ok (token, ended.takeBreak.2)
  else .error (.badDirective cursor.line)

end GridLookup.Yaml
