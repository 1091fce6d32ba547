import GridLookup.Yaml.Printer
import GridLookup.Yaml.Reader
import Mathlib.Data.List.Forall2
import Mathlib.Data.List.Nodup

namespace GridLookup.Yaml

/-!
# Reading by a schema

A schema finds in a document the very tree that the document shows, if the tree is one of those it
describes.

* `Leaf.Denoted` — how a text stands for a value without parts.
* `Node.Shows` — a node, without references, and the tree it shows.
* `Schema.Fits` — the trees that a schema describes: every field is known and comes once.
* `Document.readNode_of_shows` — what a schema describes and a node shows is what is read.
-/

/-! ### What nodes show -/

/-- Texts and their styles that denote a value.  Without quotes, a text denotes itself only if it
    denotes nothing else. -/
inductive Leaf.Denoted : Leaf → TextStyle → String → Prop where
  /-- A text, which denotes itself. -/
  | text {style : TextStyle} {text : String}
      (clear : style = .plain → isAmbiguous text = false) : Denoted (.text text) style text
  /-- A word for a truth value. -/
  | flag {text : String} {value : Bool} (h : flag? text = some value) :
      Denoted (.flag value) .plain text
  /-- The text of a number. -/
  | number {text : String} {value : Float} (h : number? text = some value) :
      Denoted (.number value) .plain text
  /-- The text of a natural number. -/
  | count {text : String} {value : Nat} (h : count? text = some value) :
      Denoted (.count value) .plain text

/-- A node without references shows a tree.  Names of fields are texts in any style. -/
inductive Node.Shows : Node → Tree → Prop where
  /-- A text for a value without parts. -/
  | leaf {style : TextStyle} {text : String} {leaf : Leaf} (h : leaf.Denoted style text) :
      Shows (.text none style text) (.leaf leaf)
  /-- A sequence for a list. -/
  | list {nodes : List Node} {items : List Tree} (h : List.Forall₂ Shows nodes items) :
      Shows (.sequence nodes) (.list items)
  /-- A mapping for a record. -/
  | record {entries : List (Node × Node)} {fields : List (String × Tree)}
      (names : List.Forall₂ (fun entry field => ∃ style, entry.1 = .text none style field.1)
        entries fields)
      (values : List.Forall₂ (fun entry field => Shows entry.2 field.2) entries fields) :
      Shows (.mapping entries) (.record fields)

/-- A text that denotes a flag or a number is none for nothing. -/
theorem isNothing_eq_false {α : Type} {read : String → Option α} {text : String} {value : α}
    (h : read text = some value)
    (hnone : ∀ text ∈ ["", "null", "Null", "NULL", "~"], read text = none) :
    isNothing text = false := by
  by_contra hnothing
  have hmem : text ∈ ["", "null", "Null", "NULL", "~"] := by
    rw [Bool.not_eq_false] at hnothing
    simpa [isNothing, isNullWord] using hnothing
  rw [hnone text hmem] at h
  cases h

/-- No tree is shown by nothing. -/
theorem Node.Shows.isNull {node : Node} {tree : Tree} (h : node.Shows tree) :
    isNull node = .ok false := by
  have hplain : ∀ {text : String}, isNothing text = false →
      Yaml.isNull (.text none .plain text) = .ok false := fun h => by rw [Yaml.isNull, h]
  cases h with
  | @leaf style text _ h =>
    cases h with
    | text clear =>
      cases style with
      | plain =>
        have hclear := clear rfl
        simp only [isAmbiguous, Bool.or_eq_false_iff] at hclear
        exact hplain hclear.1.1.1.1
      | _ => rfl
    | flag h => exact hplain (isNothing_eq_false h (by decide +kernel))
    | number h => exact hplain (isNothing_eq_false h (by decide +kernel))
    | count h => exact hplain (isNothing_eq_false h (by decide +kernel))
  | list h => rfl
  | record names values => rfl

/-! ### What schemas describe -/

mutual

/-- The trees that a schema describes. -/
def Schema.Fits : Schema → Tree → Prop
  | .text, tree => ∃ text, tree = .leaf (.text text)
  | .variant, tree => ∃ name, tree = .leaf (.text name)
  | .flag, tree => ∃ value, tree = .leaf (.flag value)
  | .number, tree => ∃ value, tree = .leaf (.number value)
  | .count, tree => ∃ value, tree = .leaf (.count value)
  | .list item, tree => ∃ items, tree = .list items ∧ ∀ tree ∈ items, item.Fits tree
  | .record known, tree => ∃ fields, tree = .record fields ∧ (fields.map Prod.fst).Nodup ∧
      ∀ field ∈ fields, known.Fits field.1 field.2

/-- The fields, each a name with a tree, that may stand in a record. -/
def Fields.Fits : Fields → String → Tree → Prop
  | .none, _, _ => False
  | .field known _ schema rest, name, tree =>
    if known = name then schema.Fits tree else rest.Fits name tree

end

/-! ### What is read -/

/-- Actions that all do nothing but give a result give all their results. -/
theorem mapM_eq_pure {m : Type → Type} [Monad m] [LawfulMonad m] {α β : Type} {f : α → m β}
    {items : List α} {results : List β} (h : List.Forall₂ (fun a b => f a = pure b) items results) :
    items.mapM f = pure results := by
  induction h with
  | nil => rfl
  | cons first _ ih => rw [List.mapM_cons, first, pure_bind, ih, pure_bind]

/-- A relation between lists follows from another where it does so for the second list's members. -/
theorem forall₂_imp_of_mem {α β : Type} {R S : α → β → Prop} {as : List α} {bs : List β}
    (h : List.Forall₂ R as bs) (himp : ∀ {a : α} {b : β}, b ∈ bs → R a b → S a b) :
    List.Forall₂ S as bs :=
  List.forall₂_iff_zip.mpr ⟨h.length_eq, fun hmem =>
    himp (List.of_mem_zip hmem).2 ((List.forall₂_iff_zip.mp h).2 hmem)⟩

namespace Document

variable {document : Document} {node : Node} {tree : Tree}

/-- A result on its own follows no reference. -/
theorem lift_ok {α : Type} {value : α} :
    (liftM (Except.ok value : Except Fault α) : Following α) = pure value := rfl

/-- A text is no reference. -/
theorem follow_text {tag : Option Tag} {style : TextStyle} {text : String} :
    document.follow (.text tag style text) = pure (.text tag style text) := rfl

/-- A node that shows a tree is no reference. -/
theorem follow_of_shows (h : node.Shows tree) : document.follow node = pure node := by
  cases h <;> rfl

/-- The names and values of a mapping whose names differ. -/
theorem named_of_shows {entries : List (Node × Node)} {fields : List (String × Tree)}
    (names : List.Forall₂ (fun entry field => ∃ style, entry.1 = .text none style field.1)
      entries fields)
    (values : List.Forall₂ (fun entry field => entry.2.Shows field.2) entries fields)
    {before : List String} (hdistinct : (before ++ fields.map Prod.fst).Nodup) :
    ∃ found, document.named before entries = pure found ∧
      List.Forall₂ (fun entry field => entry.1 = field.1 ∧ entry.2.Shows field.2) found fields := by
  induction names generalizing before with
  | nil => exact ⟨[], rfl, .nil⟩
  | @cons entry field _ _ name _ ih =>
    obtain ⟨key, value⟩ := entry
    obtain ⟨style, rfl⟩ := name
    obtain ⟨hvalue, values⟩ := List.forall₂_cons.mp values
    rw [List.map_cons, List.append_cons] at hdistinct
    have hnew : field.1 ∉ before := fun hmem =>
      (List.nodup_append.mp (List.Nodup.of_append_left hdistinct)).2.2 _ hmem _
        (List.mem_singleton_self _) rfl
    obtain ⟨found, hfound, hshows⟩ := ih values hdistinct
    refine ⟨(field.1, value) :: found, ?_, .cons ⟨rfl, hvalue⟩ hshows⟩
    have hcontains : before.contains field.1 = false := by simpa using hnew
    rw [named, follow_text, pure_bind,
      characters, lift_ok, pure_bind]
    simp only [hcontains, Bool.false_eq_true, if_false, pure_bind, hfound]

/-- A text without quotes denotes what it is read as. -/
theorem denoted_of_shows {kind : String} {α : Type} {read : String → Option α} {text : String}
    {value : α} (h : read text = some value) :
    denoted kind read (.text none .plain text) = .ok value := by
  simp [denoted, mayDenote, h]

/-- A list is read item by item. -/
theorem readNode_list {item : Schema} {nodes : List Node} {items : List Tree}
    (h : List.Forall₂ Node.Shows nodes items)
    (hitems : List.Forall₂ (fun node tree => document.readNode item node = pure tree)
      nodes items) :
    document.readNode (.list item) (.sequence nodes) = pure (.list items) := by
  rw [readNode, follow_of_shows (.list h), pure_bind, Document.items, lift_ok, pure_bind,
    mapM_eq_pure hitems, pure_bind]

/-- A record is read field by field, once its names are known to differ. -/
theorem readNode_record {known : Fields} {entries : List (Node × Node)}
    {fields : List (String × Tree)}
    (names : List.Forall₂ (fun entry field => ∃ style, entry.1 = .text none style field.1)
      entries fields)
    (values : List.Forall₂ (fun entry field => entry.2.Shows field.2) entries fields)
    (hdistinct : (fields.map Prod.fst).Nodup)
    (hread : ∀ {field : String × Tree} {node : Node}, field ∈ fields → node.Shows field.2 →
      document.readField known field.1 node = pure (some field)) :
    document.readNode (.record known) (.mapping entries) = pure (.record fields) := by
  have hdistinct : ([] ++ fields.map Prod.fst).Nodup := hdistinct
  obtain ⟨found, hfound, hshows⟩ := named_of_shows names values hdistinct
  have hfields : List.Forall₂ (fun (entry : String × Node) result =>
      document.readField known entry.1 entry.2 = pure result) found (fields.map some) := by
    rw [List.forall₂_map_right_iff]
    refine forall₂_imp_of_mem hshows fun hmem ⟨hname, hvalue⟩ => ?_
    rw [hname]
    exact hread hmem hvalue
  rw [readNode, follow_of_shows (.record names values), pure_bind, Document.entries, lift_ok,
    pure_bind, hfound, pure_bind, mapM_eq_pure hfields, pure_bind]
  -- Every field is known, so none is dropped.
  simp [List.filterMap_map]

mutual

/-- A node that shows a tree is read as that tree if the schema describes it. -/
theorem readNode_of_shows : ∀ {schema : Schema} {node : Node} {tree : Tree}, schema.Fits tree →
    node.Shows tree → document.readNode schema node = pure tree
  | .text, node, _, hfits, h => by
    obtain ⟨text, rfl⟩ := hfits
    cases h with
    | leaf h => cases h with
      | text clear => rfl
  | .variant, node, _, hfits, h => by
    obtain ⟨text, rfl⟩ := hfits
    cases h with
    | leaf h => cases h with
      | text clear => rfl
  | .flag, node, _, hfits, h => by
    obtain ⟨value, rfl⟩ := hfits
    cases h with
    | leaf h => cases h with
      | flag h =>
        rw [readNode, follow_text, pure_bind, denoted_of_shows h, lift_ok, pure_bind]
  | .number, node, _, hfits, h => by
    obtain ⟨value, rfl⟩ := hfits
    cases h with
    | leaf h => cases h with
      | number h =>
        rw [readNode, follow_text, pure_bind, denoted_of_shows h, lift_ok, pure_bind]
  | .count, node, _, hfits, h => by
    obtain ⟨value, rfl⟩ := hfits
    cases h with
    | leaf h => cases h with
      | count h =>
        rw [readNode, follow_text, pure_bind, denoted_of_shows h, lift_ok, pure_bind]
  | .list item, node, _, hfits, h => by
    obtain ⟨items, rfl, hfits⟩ := hfits
    cases h with
    | list h =>
      exact readNode_list h (forall₂_imp_of_mem h fun hmem hshows =>
        readNode_of_shows (hfits _ hmem) hshows)
  | .record known, node, _, hfits, h => by
    obtain ⟨fields, rfl, hdistinct, hfits⟩ := hfits
    cases h with
    | record names values =>
      exact readNode_record names values hdistinct fun hmem hshows =>
        readField_of_shows (hfits _ hmem) hshows

/-- A field that is known is read as the tree that its node shows. -/
theorem readField_of_shows : ∀ {known : Fields} {name : String} {node : Node} {tree : Tree},
    known.Fits name tree → node.Shows tree →
      document.readField known name node = pure (some (name, tree))
  | .none, _, _, _, hfits, h => hfits.elim
  | .field known nullable schema rest, name, node, tree, hfits, h => by
    unfold Fields.Fits at hfits
    unfold readField
    by_cases hname : known = name
    · rw [if_pos hname] at hfits ⊢
      rw [follow_of_shows h, pure_bind, readNode_of_shows hfits h]
      cases nullable with
      | false => rfl
      | true =>
        rw [h.isNull]
        rfl
    · rw [if_neg hname] at hfits ⊢
      exact readField_of_shows hfits h

end

end Document

/-- The text of a tree is taken for a document that shows it. -/
def Tree.Restored (tree : Tree) : Prop :=
  ∃ document, tokenize tree.write.toList >>= Document.ofTokens = .ok document ∧
    document.root.Shows tree

/-- A tree whose text is taken for a document that shows it is read again by every schema that
    describes it. -/
theorem readTree_of_restored {tree : Tree} {schema : Schema} (h : tree.Restored)
    (hfits : schema.Fits tree) : readTree schema tree.write.toList = .ok tree := by
  obtain ⟨document, hdocument, hshows⟩ := h
  have hread : document.read schema = .ok tree := by
    rw [Document.read, Document.readNode_of_shows hfits hshows]
    rfl
  have hread' : readTree schema tree.write.toList
      = (tokenize tree.write.toList >>= Document.ofTokens)
        >>= fun document => document.read schema := (bind_assoc _ _ _).symm
  rw [hread', hdocument]
  exact hread

end GridLookup.Yaml
