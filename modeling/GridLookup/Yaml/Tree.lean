namespace GridLookup.Yaml

/-!
# Trees and schemas

* `Leaf`, `Tree` — the content of a document, every part of a known kind.
* `Schema` — which kinds are expected where.
-/

/-- A value without parts.  A document text alone does not say whether `1` is a text, a count or
    another number; a leaf does. -/
inductive Leaf where
  /-- A text. -/
  | text (text : String)
  /-- A truth value. -/
  | flag (value : Bool)
  /-- A number. -/
  | number (value : Float)
  /-- A natural number. -/
  | count (value : Nat)
  deriving Repr

/-- The content of a document. -/
inductive Tree where
  /-- A value without parts. -/
  | leaf (leaf : Leaf)
  /-- A list. -/
  | list (items : List Tree)
  /-- Named fields, in order. -/
  | record (fields : List (String × Tree))
  deriving Repr

mutual

/-- What is expected of a part of a document. -/
inductive Schema where
  /-- A text. -/
  | text
  /-- The name of a variant, which may also be written as a tag. -/
  | variant
  /-- A truth value. -/
  | flag
  /-- A number. -/
  | number
  /-- A natural number that a 64-bit word holds. -/
  | count
  /-- A list of like items. -/
  | list (item : Schema)
  /-- Some of the given fields, each at most once. -/
  | record (fields : Fields)

/-- The fields that a record may have. -/
inductive Fields where
  /-- No field. -/
  | none
  /-- A field and more fields.  A nullable field may be written with nothing as its value, which
      means the same as leaving it out. -/
  | field (name : String) (nullable : Bool) (schema : Schema) (rest : Fields)

end

end GridLookup.Yaml
