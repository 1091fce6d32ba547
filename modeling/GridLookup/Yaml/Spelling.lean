import GridLookup.Yaml.Cursor
import GridLookup.Yaml.Plain
import GridLookup.Yaml.Token.Basic

namespace GridLookup.Yaml

/-!
# Spelling texts

How a text is written so that it reads back as itself.

* `allowsPlain`, `allowsSingle`, `allowsLiteral` — the texts that each style can hold; double
  quotes hold every text.
* `styleOf` — the style in which a text is written.
* `spell` — the text in that style.
-/

/-! ### What each style can hold -/

/-- The ranges of characters that need no escape. -/
def printableRanges : List (Nat × Nat) :=
  [(0x0a, 0x0a), (0x20, 0x7e), (0xa0, 0xd7ff), (0xe000, 0xfefe), (0xff00, 0xfffd),
   (0x10000, 0x10ffff)]

/-- A character that needs no escape. -/
def isPrintable (c : Char) : Bool :=
  printableRanges.any fun (first, last) => first ≤ c.toNat && c.toNat ≤ last

/-- Whether two neighbours in a text have these properties. -/
def hasNeighbours (first second : Char → Bool) (text : List Char) : Bool :=
  (text.zip (text.drop 1)).any fun (a, b) => first a && second b

/-- A space. -/
def isBareSpace (c : Char) : Bool := c == ' '

/-- The characters that have a meaning at the front of a node. -/
def frontIndicators : List Char := "#,[]\x7b\x7d&*!|>\x27\x22%@\x60".toList

/-- Whether the front of a text would be taken for something else. -/
def beginsWithIndicator (text : List Char) : Bool :=
  ["---".toList, "...".toList].contains (text.take 3)
    || match text with
      | c :: rest => frontIndicators.contains c || ((c == '?' || c == '-') && gapAhead rest)
      | [] => false

/-- Whether a colon in a text would end a key. -/
def hasKeyEnd : List Char → Bool
  | [] => false
  | c :: rest => (c == ':' && gapAhead rest) || hasKeyEnd rest

/-- Whether part of a text would be taken for a comment. -/
def hasCommentMark (text : List Char) : Bool :=
  hasNeighbours isGap (fun c => c == '#') text

/-- A text without escapes that no folding changes at its line ends. -/
def needsNoEscape (text : List Char) : Bool :=
  text.all isPrintable && !hasNeighbours isBareSpace isBreak text

/-- Whether single quotes can hold a text. -/
def allowsSingle (text : List Char) : Bool :=
  needsNoEscape text && !hasNeighbours isBreak isBareSpace text

/-- Whether a literal block can hold a text. -/
def allowsLiteral (text : List Char) : Bool :=
  needsNoEscape text && text.getLast? != some ' '

/-- Whether a text can stand without quotes. -/
def allowsPlain (text : List Char) : Bool :=
  allowsSingle text && !text.any isBreak && text.head? != some ' ' && text.getLast? != some ' '
    && !beginsWithIndicator text && !hasKeyEnd text && !hasCommentMark text

/-- The style in which a text is written: a block if it has several lines, single quotes where
    it would be mistaken for something else, and double quotes where nothing else will do. -/
def styleOf (text : String) : TextStyle :=
  let cs := text.toList
  if cs.contains '\n' then if allowsLiteral cs then .literal else .double
  else if !isAmbiguous text && allowsPlain cs then .plain
  else if allowsSingle cs then .single
  else .double

/-! ### The styles -/

/-- Spaces up to a column. -/
def indentation (column : Nat) : List Char := List.replicate column ' '

/-- A text in which every line after the first is indented, save empty ones; `fresh` says that
    a line begins here.  `write` gives the text of a character. -/
def indentLines (column : Nat) (write : Char → List Char) : Bool → List Char → List Char
  | _, [] => []
  | fresh, c :: rest =>
    if isBreak c then c :: indentLines column write true rest
    else
      let front := if fresh then indentation column else []
      front ++ write c ++ indentLines column write false rest

/-- Whether a text ends with a line break. -/
def endsWithBreak (text : List Char) : Bool := text.getLast?.any isBreak

/-- A text in single quotes, in which a quote is written twice. -/
def spellSingle (column : Nat) (text : List Char) : List Char :=
  let body := indentLines column (fun c => if c == '\x27' then [c, c] else [c]) false text
  let close := if endsWithBreak text then indentation column else []
  '\x27' :: body ++ close ++ ['\x27']

/-- The indicators of a literal block: its indentation if the text does not show it, and what
    becomes of the line breaks at its end. -/
def literalHeader (text : List Char) : List Char :=
  -- Lines are indented by two columns, which a first line with spaces would hide.
  let shown := if text.head?.any fun c => c == ' ' || isBreak c then ['2'] else []
  let chomping :=
    match text.reverse with
    | last :: rest =>
      if !isBreak last then ['-']
      else if rest.head?.all isBreak then ['+']
      else []
    | [] => ['-']
  '|' :: shown ++ chomping

/-- A text as a literal block. -/
def spellLiteral (column : Nat) (text : List Char) : List Char :=
  literalHeader text ++ ['\n'] ++ indentLines column (fun c => [c]) true text

/-- The characters with an escape of their own, and its letter. -/
def escapes : List (Char × Char) :=
  [('\x00', '0'), ('\x07', 'a'), ('\x08', 'b'), ('\x09', 't'), ('\x0a', 'n'), ('\x0b', 'v'),
   ('\x0c', 'f'), ('\x0d', 'r'), ('\x1b', 'e'), ('\x22', '\x22'), ('\\', '\\'),
   ('\u0085', 'N'), ('\u2028', 'L'), ('\u2029', 'P')]

/-- The last digits of a number in radix 16, `count` of them. -/
def hexDigits (count number : Nat) : List Char :=
  (List.range count).reverse.map fun place =>
    let digit := (number >>> (4 * place)) % 16
    if digit < 10 then Char.ofNat (48 + digit) else Char.ofNat (55 + digit)

/-- A character as its number. -/
def escapeNumber (c : Char) : List Char :=
  let number := c.toNat
  if number ≤ 0xff then 'x' :: hexDigits 2 number
  else if number ≤ 0xffff then 'u' :: hexDigits 4 number
  else 'U' :: hexDigits 8 number

/-- A character in double quotes. -/
def spellCharacter (c : Char) : List Char :=
  match escapes.lookup c with
  | some letter => ['\\', letter]
  | none => if isPrintable c then [c] else '\\' :: escapeNumber c

/-- A text in double quotes. -/
def spellDouble (text : List Char) : List Char :=
  '\x22' :: text.flatMap spellCharacter ++ ['\x22']

/-- A text as a value, up to the end of its last line; lines after the first begin at
    `column`. -/
def spell (column : Nat) (text : String) : List Char :=
  let cs := text.toList
  match styleOf text with
  | .plain => cs ++ ['\n']
  | .single => spellSingle column cs ++ ['\n']
  | .literal => spellLiteral column cs ++ if endsWithBreak cs then [] else ['\n']
  | _ => spellDouble cs ++ ['\n']

end GridLookup.Yaml
