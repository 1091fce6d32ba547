import GridLookup.Yaml.Tag

namespace GridLookup.Yaml

/-!
# Tokens

What a document text is made of, before the tokens are put together to nodes.
-/

/-- How a text is written. -/
inductive TextStyle where
  /-- Without quotes. -/
  | plain
  /-- In single quotes, without escapes. -/
  | single
  /-- In double quotes, with escapes. -/
  | double
  /-- As a block whose lines are kept. -/
  | literal
  /-- As a block whose lines are joined. -/
  | folded
  deriving DecidableEq, Repr

/-- A token of a document text. -/
inductive Token where
  /-- The version that a document declares. -/
  | version (major minor : Nat)
  /-- What a tag handle stands for. -/
  | handle (handle : String) (expansion : Tag)
  /-- The mark at the front of a document. -/
  | documentStart
  /-- The mark at the end of a document. -/
  | documentEnd
  /-- The indentation at which the entries of a sequence begin. -/
  | blockSequence
  /-- The indentation at which the keys of a mapping begin. -/
  | blockMapping
  /-- The end of such an indentation. -/
  | blockEnd
  /-- An opening bracket. -/
  | openSequence
  /-- A closing bracket. -/
  | closeSequence
  /-- An opening brace. -/
  | openMapping
  /-- A closing brace. -/
  | closeMapping
  /-- A dash. -/
  | blockEntry
  /-- A comma. -/
  | flowEntry
  /-- The front of a key. -/
  | key
  /-- A colon. -/
  | value
  /-- A reference to an anchor. -/
  | alias (name : String)
  /-- A name for the next node. -/
  | anchor (name : String)
  /-- A tag of the next node; without a handle the suffix is the complete tag. -/
  | tag (handle : String) (suffix : Tag)
  /-- A text. -/
  | text (style : TextStyle) (text : String)
  deriving DecidableEq, Repr

end GridLookup.Yaml
