import GridLookup.Yaml.Fault
import GridLookup.Yaml.Token.Basic

namespace GridLookup.Yaml

/-!
# Nodes

The tree that a document text describes.

* `Node` — a text, a sequence, a mapping or a reference to another node.
* `Document` — the root node with the nodes that references lead to.
* `Document.ofTokens` — the document that tokens form.
-/

/-- A node of a document. -/
inductive Node where
  /-- A text, with its tag if it has one. -/
  | text (tag : Option Tag) (style : TextStyle) (text : String)
  /-- A list of nodes. -/
  | sequence (items : List Node)
  /-- A list of keys and values. -/
  | mapping (entries : List (Node × Node))
  /-- The node with this anchor. -/
  | alias (anchor : Nat)

/-- A node that has an anchor. -/
structure Target where
  /-- The number of the anchor. -/
  anchor : Nat
  /-- How many parts of the document begin before the node. -/
  position : Nat
  /-- The node. -/
  node : Node

/-- A document. -/
structure Document where
  /-- The outermost node. -/
  root : Node
  /-- The nodes with anchors. -/
  targets : List Target
  /-- The number of parts: texts, references, and fronts and ends of collections. -/
  parts : Nat

/-! ### Building nodes from tokens -/

/-- A document partly built. -/
structure Builder where
  /-- The tokens that are left. -/
  tokens : List Token
  /-- What tag handles stand for. -/
  handles : List (String × Tag)
  /-- The anchor names with the number each had last. -/
  anchors : List (String × Nat)
  /-- The nodes with anchors so far. -/
  targets : List Target
  /-- The number of parts so far. -/
  parts : Nat

/-- An action that builds nodes. -/
abbrev Building := StateT Builder (Except Fault)

namespace Building

/-- The next token. -/
def peek : Building (Option Token) := do return (← get).tokens.head?

/-- Drops the next token. -/
def drop : Building Unit := modify fun builder =>
  ⟨builder.tokens.tail, builder.handles, builder.anchors, builder.targets, builder.parts⟩

/-- Counts another part of the document. -/
def count : Building Unit := modify fun builder =>
  ⟨builder.tokens, builder.handles, builder.anchors, builder.targets, builder.parts + 1⟩

/-- The number of an anchor: as many different names as were declared before it.  A name that
    was declared before belongs to the new number from now on. -/
def declare (name : String) : Building Nat := do
  let builder ← get
  let number := builder.anchors.length
  let others := builder.anchors.filter fun (other, _) => other != name
  set (⟨builder.tokens, builder.handles, (name, number) :: others, builder.targets,
    builder.parts⟩ : Builder)
  return number

/-- Keeps a node for references to its anchor. -/
def keep (target : Target) : Building Unit := modify fun builder =>
  ⟨builder.tokens, builder.handles, builder.anchors, target :: builder.targets, builder.parts⟩

/-- The complete tag of a handle and a suffix. -/
def expandTag (handle : String) (suffix : Tag) : Building Tag := do
  if handle.isEmpty then return suffix
  match (← get).handles.lookup handle with
  | some expansion => return expansion ++ suffix
  | none => throw (.unknownHandle handle)

/-- The anchor and the tag in front of a node, in either order. -/
structure Properties where
  /-- The name of the anchor. -/
  anchor : Option String
  /-- The tag. -/
  tag : Option Tag

/-- Reads the anchor in front of a node, if there is one. -/
def readAnchor? : Building (Option String) := do
  match ← peek with
  | some (.anchor name) => drop; return some name
  | _ => return none

/-- Reads the tag in front of a node, if there is one. -/
def readTag? : Building (Option (String × Tag)) := do
  match ← peek with
  | some (.tag handle suffix) => drop; return some (handle, suffix)
  | _ => return none

/-- Reads the anchor and the tag in front of a node. -/
def readProperties : Building Properties := do
  let first ← readAnchor?
  let tag ← readTag?
  let anchor ← match first with
    | some name => pure (some name)
    | none => readAnchor?
  match tag with
  | some (handle, suffix) => return ⟨anchor, some (← expandTag handle suffix)⟩
  | none => return ⟨anchor, none⟩

/-- A text node without characters, where a node is left out. -/
def emptyText : Building Node := do
  count
  return .text none .plain ""

/-- Whether the next token is none of these, and not the end. -/
def nodeAhead (ends : List Token) : Building Bool := do
  match ← peek with
  | some token => return !ends.contains token
  | none => return false

/-- Takes the next token if it is the given one. -/
def accept (token : Token) : Building Bool := do
  if (← peek) == some token then drop; return true else return false

mutual

/-- A node.  Block collections may begin only where `block` says so, and a sequence without an
    indentation of its own only where `dashes` says so.  Every call of these functions comes
    with less `fuel`. -/
def node (fuel : Nat) (block dashes : Bool) : Building Node := do
  match fuel with
  | 0 => throw .badStructure
  | fuel + 1 =>
    match ← peek with
    | some (.alias name) =>
      drop
      count
      match (← get).anchors.lookup name with
      | some number => return .alias number
      | none => throw (.unknownAlias name)
    | _ =>
      let properties ← readProperties
      let position := (← get).parts
      -- The number is taken before the content is read, which may already refer to it.
      let number ← properties.anchor.mapM declare
      let built ← content fuel block dashes properties
      if let some number := number then keep ⟨number, position, built⟩
      return built

/-- The content of a node after its properties. -/
def content (fuel : Nat) (block dashes : Bool) (properties : Properties) : Building Node := do
  match fuel with
  | 0 => throw .badStructure
  | fuel + 1 =>
    match ← peek with
    | some (.text style text) =>
      drop
      count
      return .text properties.tag style text
    | some .openSequence =>
      drop
      count
      return .sequence (← flowItems fuel true)
    | some .openMapping =>
      drop
      count
      return .mapping (← flowEntries fuel true)
    | some .blockSequence =>
      if block then drop; count; return .sequence (← blockItems fuel) else throw .badStructure
    | some .blockMapping =>
      if block then drop; count; return .mapping (← blockEntries fuel) else throw .badStructure
    -- Nothing stands here, unless a list begins at once or properties make an empty text of it.
    | token =>
      if dashes && token == some .blockEntry then
        count
        return .sequence (← dashItems fuel)
      else if properties.anchor.isSome || properties.tag.isSome then
        count
        return .text properties.tag .plain ""
      else throw .badStructure

/-- The entries of a block sequence, up to the end of its indentation. -/
def blockItems (fuel : Nat) : Building (List Node) := do
  match fuel with
  | 0 => throw .badStructure
  | fuel + 1 =>
    if ← accept .blockEntry then
      let item ←
        if ← nodeAhead [.blockEntry, .blockEnd] then node fuel true false else emptyText
      return item :: (← blockItems fuel)
    else if ← accept .blockEnd then
      count
      return []
    else throw .badStructure

/-- The entries of a sequence without an indentation of its own, as long as there are dashes. -/
def dashItems (fuel : Nat) : Building (List Node) := do
  match fuel with
  | 0 => throw .badStructure
  | fuel + 1 =>
    if ← accept .blockEntry then
      let item ←
        if ← nodeAhead [.blockEntry, .key, .value, .blockEnd] then node fuel true false
        else emptyText
      return item :: (← dashItems fuel)
    else
      count
      return []

/-- The keys and values of a block mapping, up to the end of its indentation. -/
def blockEntries (fuel : Nat) : Building (List (Node × Node)) := do
  match fuel with
  | 0 => throw .badStructure
  | fuel + 1 =>
    if ← accept .key then
      let name ← blockPart fuel
      let value ← if ← accept .value then blockPart fuel else emptyText
      return (name, value) :: (← blockEntries fuel)
    else if ← accept .blockEnd then
      count
      return []
    else throw .badStructure

/-- A key or a value of a block mapping, after its token. -/
def blockPart (fuel : Nat) : Building Node := do
  match fuel with
  | 0 => throw .badStructure
  | fuel + 1 =>
    if ← nodeAhead [.key, .value, .blockEnd] then node fuel true true else emptyText

/-- The entries of a flow sequence, up to its closing bracket.  An entry with a key is a mapping
    of its own. -/
def flowItems (fuel : Nat) (first : Bool) : Building (List Node) := do
  match fuel with
  | 0 => throw .badStructure
  | fuel + 1 =>
    if ← accept .closeSequence then
      count
      return []
    if !first && !(← accept .flowEntry) then throw .badStructure
    -- A comma may stand behind the last entry.
    if ← accept .closeSequence then
      count
      return []
    else if ← accept .key then
      count
      let entry ← flowPair fuel
      count
      return .mapping [entry] :: (← flowItems fuel false)
    else
      let item ← node fuel false false
      return item :: (← flowItems fuel false)

/-- A key and a value as an entry of a flow sequence.  Where the key is left out, so is the
    token after it. -/
def flowPair (fuel : Nat) : Building (Node × Node) := do
  match fuel with
  | 0 => throw .badStructure
  | fuel + 1 =>
    let name ←
      if ← nodeAhead [.value, .flowEntry, .closeSequence] then node fuel false false
      else do drop; emptyText
    let value ←
      if ← accept .value then
        if ← nodeAhead [.flowEntry, .closeSequence] then node fuel false false else emptyText
      else emptyText
    return (name, value)

/-- The keys and values of a flow mapping, up to its closing brace. -/
def flowEntries (fuel : Nat) (first : Bool) : Building (List (Node × Node)) := do
  match fuel with
  | 0 => throw .badStructure
  | fuel + 1 =>
    if ← accept .closeMapping then
      count
      return []
    if !first && !(← accept .flowEntry) then throw .badStructure
    -- A comma may stand behind the last entry.
    if ← accept .closeMapping then
      count
      return []
    else if ← accept .key then
      let name ←
        if ← nodeAhead [.value, .flowEntry, .closeMapping] then node fuel false false
        else emptyText
      let value ←
        if ← accept .value then
          if ← nodeAhead [.flowEntry, .closeMapping] then node fuel false false else emptyText
        else emptyText
      return (name, value) :: (← flowEntries fuel false)
    else
      let name ← node fuel false false
      let value ← emptyText
      return (name, value) :: (← flowEntries fuel false)

end

/-! ### Documents -/

/-- Reads the directives in front of a document; `version` says whether one has declared the
    version. -/
def readDirectives (fuel : Nat) (versioned : Bool) : Building Bool := do
  match fuel with
  | 0 => throw .badStructure
  | fuel + 1 =>
    match ← peek with
    | some (.version major minor) =>
      -- One version may be declared, and only these two are known.
      if versioned || major != 1 || (minor != 1 && minor != 2) then throw .badStructure
      drop
      let _ ← readDirectives fuel true
      return true
    | some (.handle handle expansion) =>
      let builder ← get
      if (builder.handles.lookup handle).isSome then throw .badStructure
      set (⟨builder.tokens.tail, (handle, expansion) :: builder.handles, builder.anchors,
        builder.targets, builder.parts⟩ : Builder)
      let _ ← readDirectives fuel versioned
      return true
    | _ => return versioned

/-- What the two handles stand for that need no declaration. -/
def standardHandles : List (String × Tag) := [("!", Tag.spelling "!"), ("!!", Tag.core "")]

/-- Adds the standard handles that no directive has declared. -/
def addStandardHandles : Building Unit := modify fun builder =>
  ⟨builder.tokens, builder.handles ++ standardHandles, builder.anchors, builder.targets,
    builder.parts⟩

/-- Reads the only document of a token list. -/
def document (fuel : Nat) : Building Node := do
  if (← peek).isNone then throw .notOneDocument
  let declared ← readDirectives fuel false
  addStandardHandles
  let marked ← accept .documentStart
  if declared && !marked then throw .badStructure
  let root ←
    if marked && !(← nodeAhead [.documentStart, .documentEnd]) then emptyText
    else node fuel true false
  let ended := (← get).tokens.dropWhile fun token => token == .documentEnd
  if ended.isEmpty then return root else throw .notOneDocument

end Building

/-- The document that tokens form.  Each token lets the recursion go a bounded number of calls
    deeper. -/
def Document.ofTokens (tokens : List Token) : Except Fault Document := do
  let builder : Builder := ⟨tokens, [], [], [], 0⟩
  let (root, built) ← (Building.document (4 * tokens.length + 8)).run builder
  .ok ⟨root, built.targets, built.parts⟩

end GridLookup.Yaml
