namespace GridLookup.Yaml

/-!
# YAML faults

* `Fault` — why a text is no document, or a document does not describe what it should.
* `Fault.message` — the wording.
-/

/-- Why a document was refused. -/
inductive Fault where
  /-- The text holds a character that no document may hold. -/
  | forbiddenCharacter (c : Char)
  /-- No token begins with this character. -/
  | strayCharacter (c : Char)
  /-- A tab stands where indentation belongs. -/
  | tabIndentation (line : Nat)
  /-- A quoted text has no end. -/
  | unterminatedQuote (line : Nat)
  /-- A backslash is followed by no escape. -/
  | badEscape (line : Nat)
  /-- A colon inside a flow collection runs into an indicator. -/
  | adjoiningColon (line : Nat)
  /-- A block text has no valid header. -/
  | badBlockHeader (line : Nat)
  /-- A directive is malformed or unknown. -/
  | badDirective (line : Nat)
  /-- An anchor or alias has no valid name. -/
  | badAnchor (line : Nat)
  /-- A tag is malformed. -/
  | badTag (line : Nat)
  /-- A key must be followed by its colon. -/
  | missingColon (line : Nat)
  /-- An entry, key or value may not stand here. -/
  | misplaced (line : Nat)
  /-- The tokens do not form a document. -/
  | badStructure
  /-- A tag has an undeclared handle. -/
  | unknownHandle (handle : String)
  /-- An alias refers to no anchor. -/
  | unknownAlias (name : String)
  /-- There is no document, or more than one. -/
  | notOneDocument
  /-- Aliases repeat too much of the document. -/
  | tooManyAliases
  /-- A node is not of the kind that belongs here. -/
  | wrongKind (expected : String)
  /-- A mapping has a key that it may not have. -/
  | unknownField (name : String)
  /-- A mapping has a key twice. -/
  | duplicateField (name : String)
  /-- A mapping lacks a key. -/
  | missingField (name : String)
  deriving DecidableEq, Repr

/-- The wording of a fault. -/
def Fault.message : Fault → String
  | .forbiddenCharacter c => s!"control character U+{c.toNat} is not allowed"
  | .strayCharacter c => s!"character U+{c.toNat} cannot start any token"
  | .tabIndentation line => s!"tab used for indentation on line {line}"
  | .unterminatedQuote line => s!"quoted text that begins on line {line} has no end"
  | .badEscape line => s!"unknown escape on line {line}"
  | .adjoiningColon line => s!"unexpected colon on line {line}"
  | .badBlockHeader line => s!"malformed block text header on line {line}"
  | .badDirective line => s!"malformed directive on line {line}"
  | .badAnchor line => s!"malformed anchor or alias on line {line}"
  | .badTag line => s!"malformed tag on line {line}"
  | .missingColon line => s!"key without colon on line {line}"
  | .misplaced line => s!"indicator not allowed in this context on line {line}"
  | .badStructure => "the tokens do not form a document"
  | .unknownHandle handle => s!"undefined tag handle {handle}"
  | .unknownAlias name => s!"unknown anchor {name}"
  | .notOneDocument => "expected exactly one document"
  | .tooManyAliases => "repetition limit exceeded"
  | .wrongKind expected => s!"expected {expected}"
  | .unknownField name => s!"unknown field {name}"
  | .duplicateField name => s!"duplicate field {name}"
  | .missingField name => s!"missing field {name}"

end GridLookup.Yaml
