import GridLookup.Proofs.Numeral
import GridLookup.Proofs.Yaml.Tokens
import Mathlib.Tactic.IntervalCases

namespace GridLookup

/-!
# Values without parts

* `Yaml.count?_text` — the text of a natural number denotes this number.
* `Yaml.Tree.toNode_shows` — the node of the text of a tree shows the tree.
-/

namespace Yaml

/-- A digit other than zero announces nothing about the digits after it. -/
theorem announces_nothing {d : Nat} (hd : d < 10) (hzero : d ≠ 0) (rest : List Char) :
    dropPlus (Numeral.digitChar d :: rest) = Numeral.digitChar d :: rest ∧
      beginsWithSign (Numeral.digitChar d :: rest) = false ∧
      hasLeadingZero (Numeral.digitChar d :: rest) = false ∧
      radix? (Numeral.digitChar d :: rest) = none := by
  interval_cases d
  · exact absurd rfl hzero
  all_goals exact ⟨rfl, rfl, rfl, rfl⟩

/-- The text of a natural number denotes it. -/
theorem count?_text {n : Nat} (h : n < 1 <<< 64) : count? (Numeral.text n) = some n := by
  obtain ⟨d, rest, hd, hwrite, hzero⟩ := Numeral.write_eq_cons n
  by_cases hd0 : d = 0
  · obtain ⟨rfl, -⟩ := hzero hd0
    decide +kernel
  · obtain ⟨hplus, hsign, hleading, hradix⟩ := announces_nothing hd hd0 rest
    rw [count?, Numeral.text, String.toList_ofList, unsigned?, hwrite]
    rw [hplus, hsign, hleading, hradix, if_neg (by simp), ← hwrite, readBelow?, Numeral.read?_write]
    simpa using h

/-- What a text without quotes looks like: it has one line, and would not be taken for anything
    else. -/
theorem of_styleOf_plain {text : String} (h : styleOf text = .plain) :
    text.toList.contains '\n' = false ∧ isAmbiguous text = false ∧
      allowsPlain text.toList = true := by
  unfold styleOf at h
  dsimp only at h
  split at h
  · split at h <;> cases h
  next hline =>
    split at h
    next hplain =>
      rw [Bool.and_eq_true, Bool.not_eq_true'] at hplain
      exact ⟨by simpa using hline, hplain.1, hplain.2⟩
    next =>
      split at h <;> cases h

/-- A text is denoted in its own style. -/
theorem Leaf.text_denoted (content : String) :
    (Leaf.text content).Denoted (styleOf content) content :=
  .text fun hplain => (of_styleOf_plain hplain).2.1

/-- A flag is read back from its name. -/
theorem flag?_content (value : Bool) : flag? (Leaf.flag value).content = some value := by
  cases value <;> decide +kernel

/-! ### Trees of values -/

/-- Properties of all values without parts, and of all names of fields. -/
inductive Tree.All (p : Leaf → Prop) (q : String → Prop) : Tree → Prop where
  /-- The value has the property. -/
  | leaf {value : Leaf} (h : p value) : All p q (.leaf value)
  /-- The values in all items have it. -/
  | list {items : List Tree} (h : ∀ item ∈ items, All p q item) : All p q (.list items)
  /-- The values in all fields have it, and their names theirs. -/
  | record {fields : List (String × Tree)} (names : ∀ field ∈ fields, q field.1)
      (values : ∀ field ∈ fields, All p q field.2) : All p q (.record fields)

/-- What follows from a property of all values and names holds of all of them. -/
theorem Tree.All.imp {p p' : Leaf → Prop} {q q' : String → Prop} {tree : Tree} (h : tree.All p q)
    (hp : ∀ value, p value → p' value) (hq : ∀ name, q name → q' name) : tree.All p' q' := by
  induction h with
  | leaf h => exact .leaf (hp _ h)
  | list _ ih => exact .list ih
  | record names _ ih => exact .record (fun field hfield => hq _ (names field hfield)) ih

/-- The keys of the entries are the names of the fields. -/
theorem Tree.toEntries_names (fields : List (String × Tree)) :
    List.Forall₂ (fun entry field => ∃ style, entry.1 = Node.text none style field.1)
      (toEntries fields) fields := by
  induction fields with
  | nil => exact .nil
  | cons field fields ih => exact .cons ⟨.plain, rfl⟩ ih

mutual

/-- The node of a tree shows it if each of its values is denoted by what is written for it. -/
theorem Tree.toNode_shows {q : String → Prop} : ∀ tree : Tree,
    tree.All (fun value => value.Denoted value.style value.content) q → tree.toNode.Shows tree
  | .leaf _, .leaf h => .leaf h
  | .list items, .list h => .list (toNodes_show items h)
  | .record fields, .record _ values =>
    .record (toEntries_names fields) (toEntries_show fields values)

/-- The nodes of some trees show them. -/
theorem Tree.toNodes_show {q : String → Prop} : ∀ items : List Tree,
    (∀ item ∈ items, item.All (fun value => value.Denoted value.style value.content) q) →
      List.Forall₂ Node.Shows (toNodes items) items
  | [], _ => .nil
  | item :: items, h =>
    .cons (item.toNode_shows (h _ List.mem_cons_self))
      (toNodes_show items fun _ hmem => h _ (List.mem_cons_of_mem _ hmem))

/-- The entries of some fields show their values. -/
theorem Tree.toEntries_show {q : String → Prop} : ∀ fields : List (String × Tree),
    (∀ field ∈ fields, field.2.All (fun value => value.Denoted value.style value.content) q) →
      List.Forall₂ (fun entry field => Node.Shows entry.2 field.2) (toEntries fields) fields
  | [], _ => .nil
  | (_, tree) :: fields, h =>
    .cons (tree.toNode_shows (h _ List.mem_cons_self))
      (toEntries_show fields fun _ hmem => h _ (List.mem_cons_of_mem _ hmem))

end

/-- A tree whose text is cut into its tokens survives the text. -/
theorem Tree.restored_of_tokenize {q : String → Prop} {tree : Tree}
    (htokens : tokenize tree.write.toList = .ok (tree.tokens true))
    (h : tree.All (fun value => value.Denoted value.style value.content) q) : tree.Restored := by
  obtain ⟨document, hdocument, hroot⟩ := Document.ofTokens_tokens tree
  refine ⟨document, ?_, ?_⟩
  · rw [htokens]
    exact hdocument
  · rw [hroot]
    exact tree.toNode_shows h

end Yaml

end GridLookup
