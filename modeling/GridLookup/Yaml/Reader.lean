import GridLookup.Yaml.Node
import GridLookup.Yaml.Plain
import GridLookup.Yaml.Token.Scan
import GridLookup.Yaml.Tree

namespace GridLookup.Yaml

/-!
# Reading documents

Reads the nodes of a document as its schema expects them.

* `Following` — an action that may follow references, and counts them.
* `Document.readNode` — the tree of a node.
* `Document.read` — the tree of a document.
* `readTree` — the tree of a document text.
-/

/-- An action on the nodes of a document; the state counts the references followed. -/
abbrev Following := StateT Nat (Except Fault)

namespace Document

/-! ### Following references -/

/-- The node with an anchor.  Where an anchor was given twice, its last node counts. -/
def target? (document : Document) (anchor : Nat) : Option Target :=
  let candidates := document.targets.filter fun target => target.anchor == anchor
  candidates.foldl (fun best target =>
    match best with
    | some other => if other.position < target.position then some target else best
    | none => some target) none

/-- Most references that may be followed, so that few references cannot stand for a huge
    document. -/
def followLimit (document : Document) : Nat := 100 * document.parts

/-- The node itself, or the one it refers to. -/
def follow (document : Document) (node : Node) : Following Node := do
  match node with
  | .alias anchor =>
    let followed := (← get) + 1
    if document.followLimit < followed then throw .tooManyAliases
    set followed
    match document.target? anchor with
    | some target => return target.node
    | none => throw (.unknownAlias (Numeral.text anchor))
  | node => return node

end Document

/-! ### Texts and what they denote -/

/-- Whether a text may denote something else than itself: it has no quotes, or it is a literal
    block with the tag of what it denotes. -/
def mayDenote (kind : String) (tag : Option Tag) (style : TextStyle) : Bool :=
  style == .plain || (style == .literal && tag == some (Tag.core kind))

/-- The value that a text node of the given kind denotes. -/
def denoted {α : Type} (kind : String) (read : String → Option α) (node : Node) :
    Except Fault α :=
  match node with
  | .text tag style text =>
    if mayDenote kind tag style then
      match read text with
      | some value => .ok value
      | none => .error (.wrongKind kind)
    else .error (.wrongKind kind)
  | _ => .error (.wrongKind kind)

/-- The characters of a text node. -/
def characters : Node → Except Fault String
  | .text _ _ text => .ok text
  | _ => .error (.wrongKind "text")

/-- The name of a variant: its tag, in front of nothing, or its text. -/
def variantName : Node → Except Fault String
  | .text tag style text =>
    match tag.bind Tag.name? with
    | some name =>
      if style == .plain && isNothing text then .ok name else .error (.wrongKind "variant")
    | none => .ok text
  | _ => .error (.wrongKind "variant")

/-- Whether a node is nothing.  A plain text with the tag of nothing must be a word for it. -/
def isNull : Node → Except Fault Bool
  | .text tag .plain text =>
    match tag with
    | none => .ok (isNothing text)
    | some tag =>
      if tag == Tag.core "null" then
        if isNullWord text then .ok true else .error (.wrongKind "null")
      else .ok false
  | _ => .ok false

/-- Whether a node is left out: a plain text without characters. -/
def isLeftOut : Node → Bool
  | .text _ .plain text => text.isEmpty
  | _ => false

namespace Document

/-! ### Lists and records -/

/-- The items of a list.  A list that is left out is empty. -/
def items (node : Node) : Except Fault (List Node) :=
  match node with
  | .sequence items => .ok items
  | node => if isLeftOut node then .ok [] else .error (.wrongKind "list")

/-- The entries of a record, which is empty if it is left out. -/
def entries (node : Node) : Except Fault (List (Node × Node)) :=
  match node with
  | .mapping entries => .ok entries
  | node => if isLeftOut node then .ok [] else .error (.wrongKind "record")

/-- The names and values of a record, whose names must differ; `before` holds the names already
    passed. -/
def named (document : Document) (before : List String) :
    List (Node × Node) → Following (List (String × Node))
  | [] => return []
  | (key, value) :: rest => do
    let name ← characters (← document.follow key)
    if before.contains name then throw (.duplicateField name)
    return (name, value) :: (← document.named (before ++ [name]) rest)

/-! ### Trees -/

mutual

/-- The tree of a node, as its schema expects it. -/
def readNode (document : Document) : Schema → Node → Following Tree
  | .text, node => return .leaf (.text (← characters (← document.follow node)))
  | .variant, node => return .leaf (.text (← variantName (← document.follow node)))
  | .flag, node => return .leaf (.flag (← denoted "bool" flag? (← document.follow node)))
  | .number, node => return .leaf (.number (← denoted "float" number? (← document.follow node)))
  | .count, node => return .leaf (.count (← denoted "int" count? (← document.follow node)))
  | .list item, node => do
    let nodes ← items (← document.follow node)
    return .list (← nodes.mapM fun node => document.readNode item node)
  | .record fields, node => do
    let named ← document.named [] (← entries (← document.follow node))
    let found ← named.mapM fun (name, value) => document.readField fields name value
    return .record (found.filterMap id)

/-- The tree of the field with a name, unless its value is nothing. -/
def readField (document : Document) : Fields → String → Node → Following (Option (String × Tree))
  | .none, name, _ => throw (.unknownField name)
  | .field known nullable schema rest, name, node =>
    if known = name then do
      let node ← document.follow node
      if nullable then
        if ← isNull node then return none
      return some (name, ← document.readNode schema node)
    else document.readField rest name node

end

/-- The tree of a document. -/
def read (document : Document) (schema : Schema) : Except Fault Tree :=
  (document.readNode schema document.root).run' 0

end Document

/-- The tree of a document text. -/
def readTree (schema : Schema) (text : List Char) : Except Fault Tree := do
  let document ← Document.ofTokens (← tokenize text)
  document.read schema

end GridLookup.Yaml
