import GridLookup.Proofs.Yaml.Schema

namespace GridLookup.Yaml

/-!
# Trees as tokens

The tokens of the text of a tree form a document that shows the tree.

* `Tree.toNode`, `Tree.tokens` — the node that the text of a tree stands for, and its tokens.
* `Building.Yields` — what an action makes of the tokens at the front.
* `Document.ofTokens_tokens` — the tokens of a tree form its node.
-/

/-! ### Nodes and tokens of trees -/

namespace Leaf

/-- The style in which a value without parts is written. -/
def style : Leaf → TextStyle
  | .text content => styleOf content
  | _ => .plain

/-- The characters that it is written with, apart from quotes and escapes. -/
def content : Leaf → String
  | .text content => content
  | .flag value => if value then "true" else "false"
  | .number value => NumberFormat.yaml.write value
  | .count value => Numeral.text value

end Leaf

namespace Tree

mutual

/-- The node that the text of a tree stands for. -/
def toNode : Tree → Node
  | .leaf value => .text none value.style value.content
  | .list items => .sequence (toNodes items)
  | .record fields => .mapping (toEntries fields)

/-- The nodes of some trees. -/
def toNodes : List Tree → List Node
  | [] => []
  | item :: items => item.toNode :: toNodes items

/-- The keys and values of some fields. -/
def toEntries : List (String × Tree) → List (Node × Node)
  | [] => []
  | (name, tree) :: fields => (.text none .plain name, tree.toNode) :: toEntries fields

end

mutual

/-- The tokens of the text of a tree.  `own` says that the entries of a list have an indentation of
    their own. -/
def tokens (own : Bool) : Tree → List Token
  | .leaf value => [.text value.style value.content]
  | .list [] => [.openSequence, .closeSequence]
  | .list (item :: items) =>
    if own then .blockSequence :: itemTokens (item :: items) ++ [.blockEnd]
    else itemTokens (item :: items)
  | .record [] => [.openMapping, .closeMapping]
  | .record (field :: fields) => .blockMapping :: fieldTokens (field :: fields) ++ [.blockEnd]

/-- The tokens of the entries of a list. -/
def itemTokens : List Tree → List Token
  | [] => []
  | item :: items => .blockEntry :: item.tokens true ++ itemTokens items

/-- The tokens of the fields of a record. -/
def fieldTokens : List (String × Tree) → List Token
  | [] => []
  | (name, tree) :: fields =>
    .key :: .text .plain name :: .value :: tree.tokens false ++ fieldTokens fields

end

end Tree

/-! ### Actions on tokens -/

namespace Building

variable {α β : Type} {action : Building α} {next : α → Building β} {a : α} {b : β}
  {token : Token} {front middle rest : List Token}

/-- An action that uses up the front of the tokens `front` up to `rest`, and gives `a`. -/
def Yields (action : Building α) (front rest : List Token) (a : α) : Prop :=
  ∀ builder : Builder, builder.tokens = front →
    ∃ after, action builder = .ok (a, after) ∧ after.tokens = rest

/-- What is built from one part of the tokens and then from the next is built from both. -/
theorem Yields.bind (h : Yields action front middle a) (hnext : Yields (next a) middle rest b) :
    Yields (action >>= next) front rest b := by
  intro builder hfront
  obtain ⟨between, h, hmiddle⟩ := h builder hfront
  obtain ⟨after, hnext, hrest⟩ := hnext between hmiddle
  refine ⟨after, ?_, hrest⟩
  show action builder >>= _ = _
  rw [h]
  exact hnext

/-- What is built from no tokens leaves them as they are. -/
theorem yields_pure (a : α) : Yields (pure a) rest rest a :=
  fun builder h => ⟨builder, rfl, h⟩

/-- The tokens ahead may be looked at. -/
theorem yields_get {next : Builder → Building β}
    (h : ∀ builder : Builder, builder.tokens = front → Yields (next builder) front rest b) :
    Yields (get >>= next) front rest b := fun builder hfront => h builder hfront builder hfront

/-- Looking at the next token leaves it there. -/
theorem yields_peek : Yields peek rest rest rest.head? :=
  fun builder h => ⟨builder, by rw [← h]; rfl, h⟩

/-- One token is dropped. -/
theorem yields_drop : Yields drop (token :: rest) rest () :=
  fun _ h => ⟨_, rfl, congrArg List.tail h⟩

/-- Counting takes no token. -/
theorem yields_count : Yields count rest rest () := fun _ h => ⟨_, rfl, h⟩

/-- The standard handles take no token. -/
theorem yields_addStandardHandles : Yields addStandardHandles rest rest () :=
  fun _ h => ⟨_, rfl, h⟩

/-- The token asked for is taken. -/
theorem yields_accept : Yields (accept token) (token :: rest) rest true := by
  refine yields_peek.bind ?_
  rw [if_pos (by simp)]
  exact yields_drop.bind (yields_pure true)

/-- Any other token is left where it is. -/
theorem yields_accept_other (h : rest.head? ≠ some token) :
    Yields (accept token) rest rest false := by
  refine yields_peek.bind ?_
  rw [if_neg (by simpa using h)]
  exact yields_pure false

/-- A node is ahead unless the next token ends the collection. -/
theorem yields_nodeAhead {ends : List Token} (h : token ∉ ends) :
    Yields (nodeAhead ends) (token :: rest) (token :: rest) true := by
  refine yields_peek.bind ?_
  rw [List.head?_cons]
  have hcontains : (!ends.contains token) = true := by simpa using h
  rw [← hcontains]
  exact yields_pure _

/-- Whether a token begins the content of a node. -/
def beginsContent : Token → Bool
  | .text .. | .openSequence | .openMapping | .blockSequence | .blockMapping | .blockEntry => true
  | _ => false

/-- A node without anchor and tag is its content. -/
theorem yields_node {fuel : Nat} {block dashes : Bool} {built : Node}
    (htoken : beginsContent token = true)
    (h : Yields (content fuel block dashes ⟨none, none⟩) (token :: middle) rest built) :
    Yields (node (fuel + 1) block dashes) (token :: middle) rest built := by
  have hanchor : Yields readAnchor? (token :: middle) (token :: middle) none := by
    refine yields_peek.bind ?_
    cases token <;> first | exact yields_pure _ | cases htoken
  have htag : Yields readTag? (token :: middle) (token :: middle) none := by
    refine yields_peek.bind ?_
    cases token <;> first | exact yields_pure _ | cases htoken
  have hproperties : Yields readProperties (token :: middle) (token :: middle) ⟨none, none⟩ :=
    hanchor.bind (htag.bind (hanchor.bind (yields_pure _)))
  unfold node
  refine yields_peek.bind ?_
  -- No token of these is a reference.
  cases token <;> first
    | exact hproperties.bind (yields_get fun builder _ =>
        (yields_pure none).bind (h.bind (yields_pure built)))
    | cases htoken

/-! ### Trees from their tokens -/

variable {fuel : Nat} {block dashes : Bool}

/-- A scalar is built from its token. -/
theorem yields_text {style : TextStyle} {text : String} :
    Yields (node (fuel + 2) block dashes) (.text style text :: rest) rest
      (.text none style text) := by
  refine yields_node rfl ?_
  unfold content
  exact yields_peek.bind (yields_drop.bind (yields_count.bind (yields_pure _)))

/-- Brackets with nothing between them make an empty sequence. -/
theorem yields_emptySequence :
    Yields (node (fuel + 3) block dashes) (.openSequence :: .closeSequence :: rest) rest
      (.sequence []) := by
  refine yields_node rfl ?_
  unfold content
  refine yields_peek.bind (yields_drop.bind (yields_count.bind ?_))
  refine Yields.bind ?_ (yields_pure _)
  unfold flowItems
  exact yields_accept.bind (yields_count.bind (yields_pure _))

/-- Braces with nothing between them make an empty mapping. -/
theorem yields_emptyMapping :
    Yields (node (fuel + 3) block dashes) (.openMapping :: .closeMapping :: rest) rest
      (.mapping []) := by
  refine yields_node rfl ?_
  unfold content
  refine yields_peek.bind (yields_drop.bind (yields_count.bind ?_))
  refine Yields.bind ?_ (yields_pure _)
  unfold flowEntries
  exact yields_accept.bind (yields_count.bind (yields_pure _))

/-- The first token of a tree begins the content of a node. -/
theorem tokens_eq_cons (own : Bool) (tree : Tree) :
    ∃ first more, tree.tokens own = first :: more ∧ beginsContent first = true ∧
      (own = true → first ≠ .blockEntry) := by
  cases tree with
  | leaf value => exact ⟨.text value.style value.content, [], rfl, rfl, nofun⟩
  | list items =>
    cases items with
    | nil => exact ⟨.openSequence, _, rfl, rfl, nofun⟩
    | cons item items =>
      cases own with
      | true => exact ⟨.blockSequence, _, rfl, rfl, nofun⟩
      | false => exact ⟨.blockEntry, _, rfl, rfl, nofun⟩
  | record fields =>
    cases fields with
    | nil => exact ⟨.openMapping, _, rfl, rfl, nofun⟩
    | cons field fields => exact ⟨.blockMapping, _, rfl, rfl, nofun⟩

/-- A node is ahead at the first token of every tree. -/
theorem yields_nodeAhead_tokens {own : Bool} {tree : Tree} {ends : List Token}
    (hends : ∀ token ∈ ends, beginsContent token = false ∨ own = true ∧ token = .blockEntry) :
    Yields (nodeAhead ends) (tree.tokens own ++ rest) (tree.tokens own ++ rest) true := by
  obtain ⟨first, more, htokens, hfirst, hentry⟩ := tokens_eq_cons own tree
  rw [htokens]
  refine yields_nodeAhead fun hmem => ?_
  rcases hends first hmem with hcontent | ⟨hown, heq⟩
  · rw [hfirst] at hcontent
    cases hcontent
  · exact hentry hown heq

mutual

/-- A node is built from the tokens of its tree. -/
theorem yields_tree : ∀ (own : Bool) (tree : Tree) {fuel : Nat} {rest : List Token},
    3 * (tree.tokens own).length + 3 ≤ fuel → (own = false → rest.head? ≠ some .blockEntry) →
      Yields (node fuel true !own) (tree.tokens own ++ rest) rest tree.toNode
  | own, .leaf value, fuel, rest, hfuel, _ => by
    -- Two calls lie between a node and its content, and one more where brackets are read.
    obtain ⟨fuel, rfl⟩ : ∃ less, fuel = less + 2 := ⟨fuel - 2, by omega⟩
    rw [Tree.tokens, Tree.toNode]
    exact yields_text
  | own, .list [], fuel, rest, hfuel, _ => by
    obtain ⟨fuel, rfl⟩ : ∃ less, fuel = less + 3 := ⟨fuel - 3, by omega⟩
    rw [Tree.tokens, Tree.toNode, Tree.toNodes]
    exact yields_emptySequence
  | own, .record [], fuel, rest, hfuel, _ => by
    obtain ⟨fuel, rfl⟩ : ∃ less, fuel = less + 3 := ⟨fuel - 3, by omega⟩
    rw [Tree.tokens, Tree.toNode, Tree.toEntries]
    exact yields_emptyMapping
  | true, .list (item :: items), fuel, rest, hfuel, _ => by
    rw [Tree.tokens, if_pos rfl] at hfuel ⊢
    rw [List.length_append, List.length_cons, List.length_singleton] at hfuel
    obtain ⟨fuel, rfl⟩ : ∃ less, fuel = less + 2 := ⟨fuel - 2, by omega⟩
    simp only [List.cons_append, List.append_assoc, List.nil_append, Tree.toNode]
    refine yields_node rfl ?_
    unfold content
    refine yields_peek.bind (yields_drop.bind (yields_count.bind ?_))
    exact (yields_blockItems (item :: items) (by omega)).bind (yields_pure _)
  | false, .list (item :: items), fuel, rest, hfuel, hrest => by
    rw [Tree.tokens, if_neg Bool.false_ne_true] at hfuel ⊢
    obtain ⟨fuel, rfl⟩ : ∃ less, fuel = less + 2 := ⟨fuel - 2, by omega⟩
    -- A list that is not indented has no token for its end. It ends where no entry follows.
    have hitems : Yields (dashItems fuel) (Tree.itemTokens (item :: items) ++ rest) rest
        (Tree.toNodes (item :: items)) := yields_dashItems (item :: items) (by omega) (hrest rfl)
    rw [Tree.itemTokens] at hitems ⊢
    rw [Tree.toNode]
    refine yields_node rfl ?_
    unfold content
    refine yields_peek.bind (yields_count.bind ?_)
    exact hitems.bind (yields_pure _)
  | own, .record (field :: fields), fuel, rest, hfuel, _ => by
    rw [Tree.tokens] at hfuel ⊢
    rw [List.length_append, List.length_cons, List.length_singleton] at hfuel
    obtain ⟨fuel, rfl⟩ : ∃ less, fuel = less + 2 := ⟨fuel - 2, by omega⟩
    simp only [List.cons_append, List.append_assoc, List.nil_append, Tree.toNode]
    refine yields_node rfl ?_
    unfold content
    refine yields_peek.bind (yields_drop.bind (yields_count.bind ?_))
    exact (yields_blockEntries (field :: fields) (by omega)).bind (yields_pure _)

/-- The items of an indented sequence are built from their tokens. -/
theorem yields_blockItems : ∀ (items : List Tree) {fuel : Nat} {rest : List Token},
    3 * (Tree.itemTokens items).length + 1 ≤ fuel →
      Yields (blockItems fuel) (Tree.itemTokens items ++ .blockEnd :: rest) rest
        (Tree.toNodes items)
  | [], fuel, rest, hfuel => by
    obtain ⟨fuel, rfl⟩ : ∃ less, fuel = less + 1 := ⟨fuel - 1, by omega⟩
    rw [Tree.itemTokens, Tree.toNodes, List.nil_append]
    unfold blockItems
    refine (yields_accept_other (by simp)).bind (yields_accept.bind ?_)
    exact yields_count.bind (yields_pure _)
  | item :: items, fuel, rest, hfuel => by
    rw [Tree.itemTokens] at hfuel ⊢
    rw [List.cons_append, List.length_cons, List.length_append] at hfuel
    obtain ⟨fuel, rfl⟩ : ∃ less, fuel = less + 1 := ⟨fuel - 1, by omega⟩
    simp only [List.cons_append, List.append_assoc, Tree.toNodes]
    unfold blockItems
    refine yields_accept.bind ?_
    have hitem : Yields (node fuel true false)
        (item.tokens true ++ (Tree.itemTokens items ++ .blockEnd :: rest))
        (Tree.itemTokens items ++ .blockEnd :: rest) item.toNode :=
      yields_tree true item (by omega) nofun
    refine (yields_nodeAhead_tokens (by simp [beginsContent])).bind (hitem.bind ?_)
    exact (yields_blockItems items (by omega)).bind (yields_pure _)

/-- The items of a sequence that is not indented are built from their tokens. -/
theorem yields_dashItems : ∀ (items : List Tree) {fuel : Nat} {rest : List Token},
    3 * (Tree.itemTokens items).length + 1 ≤ fuel → rest.head? ≠ some .blockEntry →
      Yields (dashItems fuel) (Tree.itemTokens items ++ rest) rest (Tree.toNodes items)
  | [], fuel, rest, hfuel, hrest => by
    obtain ⟨fuel, rfl⟩ : ∃ less, fuel = less + 1 := ⟨fuel - 1, by omega⟩
    rw [Tree.itemTokens, Tree.toNodes, List.nil_append]
    unfold dashItems
    exact (yields_accept_other hrest).bind (yields_count.bind (yields_pure _))
  | item :: items, fuel, rest, hfuel, hrest => by
    rw [Tree.itemTokens] at hfuel ⊢
    rw [List.cons_append, List.length_cons, List.length_append] at hfuel
    obtain ⟨fuel, rfl⟩ : ∃ less, fuel = less + 1 := ⟨fuel - 1, by omega⟩
    simp only [List.cons_append, List.append_assoc, Tree.toNodes]
    unfold dashItems
    refine yields_accept.bind ?_
    have hitem : Yields (node fuel true false)
        (item.tokens true ++ (Tree.itemTokens items ++ rest)) (Tree.itemTokens items ++ rest)
        item.toNode := yields_tree true item (by omega) nofun
    refine (yields_nodeAhead_tokens (by simp [beginsContent])).bind (hitem.bind ?_)
    exact (yields_dashItems items (by omega) hrest).bind (yields_pure _)

/-- The entries of a mapping are built from their tokens. -/
theorem yields_blockEntries : ∀ (fields : List (String × Tree)) {fuel : Nat} {rest : List Token},
    3 * (Tree.fieldTokens fields).length + 1 ≤ fuel →
      Yields (blockEntries fuel) (Tree.fieldTokens fields ++ .blockEnd :: rest) rest
        (Tree.toEntries fields)
  | [], fuel, rest, hfuel => by
    obtain ⟨fuel, rfl⟩ : ∃ less, fuel = less + 1 := ⟨fuel - 1, by omega⟩
    rw [Tree.fieldTokens, Tree.toEntries, List.nil_append]
    unfold blockEntries
    refine (yields_accept_other (by simp)).bind (yields_accept.bind ?_)
    exact yields_count.bind (yields_pure _)
  | (name, tree) :: fields, fuel, rest, hfuel => by
    rw [Tree.fieldTokens] at hfuel ⊢
    simp only [List.cons_append, List.length_cons, List.length_append] at hfuel
    obtain ⟨fuel, rfl⟩ : ∃ less, fuel = less + 4 := ⟨fuel - 4, by omega⟩
    have hname : Yields (blockPart (fuel + 3)) (.text .plain name :: .value ::
        (tree.tokens false ++ (Tree.fieldTokens fields ++ .blockEnd :: rest)))
        (.value :: (tree.tokens false ++ (Tree.fieldTokens fields ++ .blockEnd :: rest)))
        (.text none .plain name) := by
      unfold blockPart
      exact (yields_nodeAhead (by simp)).bind yields_text
    have hvalue : Yields (blockPart (fuel + 3))
        (tree.tokens false ++ (Tree.fieldTokens fields ++ .blockEnd :: rest))
        (Tree.fieldTokens fields ++ .blockEnd :: rest) tree.toNode := by
      unfold blockPart
      refine (yields_nodeAhead_tokens (by simp [beginsContent])).bind ?_
      refine yields_tree false tree (by omega) fun _ => ?_
      -- Another field, or the end of the block, but no entry of a list.
      cases fields <;> simp [Tree.fieldTokens]
    simp only [List.cons_append, List.append_assoc, Tree.toEntries]
    unfold blockEntries
    refine yields_accept.bind (hname.bind (yields_accept.bind (hvalue.bind ?_)))
    exact (yields_blockEntries fields (by omega)).bind (yields_pure _)

end

/-- **A document** is the tree whose tokens it has. -/
theorem yields_document {tree : Tree} {fuel : Nat}
    (hfuel : 3 * (tree.tokens true).length + 3 ≤ fuel) :
    Yields (document fuel) (tree.tokens true) [] tree.toNode := by
  obtain ⟨first, more, htokens, hfirst, -⟩ := tokens_eq_cons true tree
  -- The first token begins a tree, so there is neither a directive nor a mark in front of it.
  have hdirectives : Yields (readDirectives fuel false) (first :: more) (first :: more) false := by
    obtain ⟨fuel, rfl⟩ : ∃ less, fuel = less + 1 := ⟨fuel - 1, by omega⟩
    unfold readDirectives
    refine yields_peek.bind ?_
    cases first <;> first | exact yields_pure false | cases hfirst
  have hstart : Yields (accept .documentStart) (first :: more) (first :: more) false :=
    yields_accept_other fun h => by
      rw [Option.some.inj h] at hfirst
      cases hfirst
  have hroot : Yields (node fuel true false) (tree.tokens true ++ []) [] tree.toNode :=
    yields_tree true tree hfuel nofun
  rw [List.append_nil, htokens] at hroot
  rw [htokens]
  unfold document
  refine yields_peek.bind (hdirectives.bind (yields_addStandardHandles.bind (hstart.bind ?_)))
  have hahead : Yields (nodeAhead [.documentStart, .documentEnd]) (first :: more) (first :: more)
      true := yields_nodeAhead (by cases first <;> first | cases hfirst; done | simp)
  simp only [Bool.false_and, Bool.false_eq_true, if_false]
  refine hahead.bind (hroot.bind (yields_get fun builder hbuilder => ?_))
  rw [hbuilder]
  exact yields_pure _

end Building

/-- The tokens of a tree form its node. -/
theorem Document.ofTokens_tokens (tree : Tree) :
    ∃ document, ofTokens (tree.tokens true) = .ok document ∧ document.root = tree.toNode := by
  have hbuilds :
      (Building.document (4 * (tree.tokens true).length + 8)).Yields (tree.tokens true) []
        tree.toNode := Building.yields_document (by omega)
  obtain ⟨after, hdocument, -⟩ := hbuilds ⟨tree.tokens true, [], [], [], 0⟩ rfl
  refine ⟨⟨tree.toNode, after.targets, after.parts⟩, ?_, rfl⟩
  rw [ofTokens]
  show Building.document _ _ >>= _ = _
  rw [hdocument]
  rfl

end GridLookup.Yaml
