import GridLookup.Proofs.Yaml.NumberText

namespace GridLookup.Yaml

/-!
# Documents

* `Readable` — texts of characters that a document may hold.
* `tokenize_write` — the tokens of a document are those of its tree.
* `Tree.restored` — **trees survive their texts**.
-/

/-! ### Characters of a document -/

/-- A text that a document may hold. -/
def Readable (text : List Char) : Prop := ∀ c ∈ text, isReadable c = true

section Readable

variable {column : Nat} {text more : List Char} {c : Char}

/-- No character is unreadable in an empty text. -/
theorem readable_nil : Readable [] := nofun

/-- A text is readable if its first character and the others are. -/
theorem readable_cons : Readable (c :: text) ↔ isReadable c = true ∧ Readable text :=
  List.forall_mem_cons

/-- Two texts are readable in a row exactly if both of them are. -/
theorem readable_append : Readable (text ++ more) ↔ Readable text ∧ Readable more :=
  List.forall_mem_append

/-- Printable characters may stand in a document. -/
theorem isReadable_of_isPrintable (h : isPrintable c = true) : isReadable c = true := by
  simp only [isPrintable, printableRanges, List.any_cons, List.any_nil, Bool.or_false,
    Bool.or_eq_true, Bool.and_eq_true, decide_eq_true_eq] at h
  simp only [isReadable, readableRanges, List.any_cons, List.any_nil, Bool.or_false,
    Bool.or_eq_true, Bool.and_eq_true, decide_eq_true_eq]
  omega

/-- A text of printable characters is readable. -/
theorem readable_of_printable (h : ∀ c ∈ text, isPrintable c = true) : Readable text :=
  fun c hc => isReadable_of_isPrintable (h c hc)

/-- Indentation is readable. -/
theorem readable_indentation : Readable (indentation column) := fun c hc => by
  rw [List.eq_of_mem_replicate hc]
  decide

/-- Indented lines are readable if their characters are written readably. -/
theorem readable_indentLines {write : Char → List Char} {fresh : Bool} (htext : Readable text)
    (hwrite : ∀ c ∈ text, Readable (write c)) :
    Readable (indentLines column write fresh text) := by
  induction text generalizing fresh with
  | nil => exact readable_nil
  | cons c text ih =>
    rw [readable_cons] at htext
    rw [List.forall_mem_cons] at hwrite
    rw [indentLines]
    split
    · exact readable_cons.mpr ⟨htext.1, ih htext.2 hwrite.2⟩
    · refine readable_append.mpr ⟨readable_append.mpr ⟨?_, hwrite.1⟩, ih htext.2 hwrite.2⟩
      cases fresh
      · exact readable_nil
      · exact readable_indentation

/-- Hexadecimal digits are readable. -/
theorem readable_hexDigits (count number : Nat) : Readable (hexDigits count number) := by
  have hdigit : ∀ digit < 16, isReadable
      (if digit < 10 then Char.ofNat (48 + digit) else Char.ofNat (55 + digit)) = true := by decide
  intro c hc
  obtain ⟨place, -, rfl⟩ := List.mem_map.mp hc
  exact hdigit _ (Nat.mod_lt _ (by decide))

/-- A character is spelled readably, whether it is escaped or not. -/
theorem readable_spellCharacter (c : Char) : Readable (spellCharacter c) := by
  unfold spellCharacter
  split
  next letter hletter =>
    have hentry : (c, letter) ∈ escapes := by
      obtain ⟨before, after, h, -⟩ := List.lookup_eq_some_iff.mp hletter
      simp [h]
    have hall : ∀ entry ∈ escapes, isReadable entry.2 = true := by decide
    exact readable_cons.mpr ⟨by decide, readable_cons.mpr ⟨hall _ hentry, readable_nil⟩⟩
  next =>
    split
    next hprintable =>
      exact readable_cons.mpr ⟨isReadable_of_isPrintable hprintable, readable_nil⟩
    next =>
      refine readable_cons.mpr ⟨by decide, ?_⟩
      unfold escapeNumber
      dsimp only
      split
      · exact readable_cons.mpr ⟨by decide, readable_hexDigits _ _⟩
      split
      · exact readable_cons.mpr ⟨by decide, readable_hexDigits _ _⟩
      · exact readable_cons.mpr ⟨by decide, readable_hexDigits _ _⟩

/-- The indicator of a literal text is readable. -/
theorem readable_indicator (chomping : Chomping) : Readable chomping.indicator := by
  cases chomping
  · exact readable_cons.mpr ⟨by decide, readable_nil⟩
  · exact readable_nil
  · exact readable_cons.mpr ⟨by decide, readable_nil⟩

/-- The first line of a literal text is readable. -/
theorem readable_declaration (text : List Char) : Readable (declaration text) := by
  unfold declaration
  split
  · exact readable_cons.mpr ⟨by decide, readable_nil⟩
  · exact readable_nil

/-- A text without escapes is readable. -/
theorem readable_of_needsNoEscape (h : needsNoEscape text = true) : Readable text := by
  rw [needsNoEscape, Bool.and_eq_true] at h
  exact readable_of_printable (List.all_eq_true.mp h.1)

/-- A text that may stand between single quotes is readable. -/
theorem readable_of_allowsSingle (h : allowsSingle text = true) : Readable text := by
  rw [allowsSingle, Bool.and_eq_true] at h
  exact readable_of_needsNoEscape h.1

/-- A text that may stand without quotes is readable. -/
theorem readable_of_allowsPlain (h : allowsPlain text = true) : Readable text := by
  simp only [allowsPlain, Bool.and_eq_true] at h
  exact readable_of_allowsSingle h.1.1.1.1.1.1

/-- The end of a line keeps a text readable. -/
theorem readable_line (h : Readable text) : Readable (text ++ ['\n']) :=
  readable_append.mpr ⟨h, readable_cons.mpr ⟨by decide, readable_nil⟩⟩

/-- A text between single quotes is readable. -/
theorem readable_spellSingle (h : Readable text) : Readable (spellSingle column text) := by
  rw [spellSingle_eq, singleBody]
  have hquote : isReadable '\'' = true := by decide
  have hbody : Readable (indentLines column spellInSingle false text) :=
    readable_indentLines h fun c hc => by
      unfold spellInSingle
      split
      · exact readable_cons.mpr ⟨h c hc, readable_cons.mpr ⟨h c hc, readable_nil⟩⟩
      · exact readable_cons.mpr ⟨h c hc, readable_nil⟩
  have hclose : Readable (if endsWithBreak text then indentation column else []) := by
    split
    · exact readable_indentation
    · exact readable_nil
  exact readable_cons.mpr ⟨hquote, readable_append.mpr
    ⟨readable_append.mpr ⟨hbody, hclose⟩, readable_cons.mpr ⟨hquote, readable_nil⟩⟩⟩

/-- A literal text is readable. -/
theorem readable_spellLiteral (h : Readable text) : Readable (spellLiteral column text) := by
  rw [spellLiteral, literalHeader_eq]
  have hheader : Readable (declaration text ++ (chompingOf text).indicator) :=
    readable_append.mpr ⟨readable_declaration text, readable_indicator _⟩
  have hbody : Readable (indentLines column (fun c => [c]) true text) :=
    readable_indentLines h fun c hc => readable_cons.mpr ⟨h c hc, readable_nil⟩
  exact readable_append.mpr ⟨readable_line (readable_cons.mpr ⟨by decide, hheader⟩), hbody⟩

/-- What is written for a text. -/
theorem readable_spell (content : String) : Readable (spell column content) := by
  -- The characters of the text itself are readable by its style. Only double quotes hold others,
  -- and spell them by escapes.
  rcases styleOf_cases content with hstyle | hstyle | ⟨hstyle, -, hsingle⟩ | ⟨hstyle, -, hliteral⟩
  · rw [spell, hstyle]
    exact readable_line (readable_of_allowsPlain (of_styleOf_plain hstyle).2.2)
  · rw [spell, hstyle]
    have hbody : Readable (content.toList.flatMap spellCharacter) := by
      intro c hc
      obtain ⟨b, -, hb⟩ := List.mem_flatMap.mp hc
      exact readable_spellCharacter b c hb
    exact readable_line (readable_append.mpr ⟨readable_cons.mpr ⟨by decide, hbody⟩,
      readable_cons.mpr ⟨by decide, readable_nil⟩⟩)
  · rw [spell, hstyle]
    exact readable_line (readable_spellSingle (readable_of_allowsSingle hsingle))
  · rw [allowsLiteral, Bool.and_eq_true] at hliteral
    rw [spell, hstyle]
    refine readable_append.mpr ⟨readable_spellLiteral (readable_of_needsNoEscape hliteral.1), ?_⟩
    split
    · exact readable_nil
    · exact readable_cons.mpr ⟨by decide, readable_nil⟩

/-- Scalars are written readably. -/
theorem readable_leaf {value : Leaf} (h : value.Writable) :
    Readable (value.write column).toList := by
  by_cases hplain : value.style = .plain
  · rw [Leaf.write_plain hplain]
    exact readable_line (readable_of_allowsPlain (h hplain).1)
  · cases value with
    | text content =>
      show Readable (String.ofList (spell column content)).toList
      rw [String.toList_ofList]
      exact readable_spell content
    | _ => exact absurd rfl hplain

mutual

/-- What is written behind a colon is readable. -/
theorem readable_colon : ∀ tree : Tree, tree.All Leaf.Writable Scan.IsName → ∀ column : Nat,
    Readable (Tree.afterColon column tree).toList
  | .leaf value, .leaf h, column => by
    rw [Tree.toList_afterColon_leaf]
    exact readable_cons.mpr ⟨by decide, readable_leaf h⟩
  | .list [], _, column => by
    rw [Tree.toList_afterColon_noItems]
    exact List.all_eq_true.mp (by decide)
  | .record [], _, column => by
    rw [Tree.toList_afterColon_noFields]
    exact List.all_eq_true.mp (by decide)
  | .list (item :: items), .list h, column => by
    rw [Tree.toList_afterColon_list]
    exact readable_cons.mpr ⟨by decide, readable_append.mpr
      ⟨readable_indentation, readable_items (item :: items) h column⟩⟩
  | .record (field :: fields), .record names values, column => by
    rw [Tree.toList_afterColon_record]
    exact readable_cons.mpr ⟨by decide, readable_append.mpr
      ⟨readable_indentation, readable_fields (field :: fields) names values (column + 2)⟩⟩

/-- What is written behind a dash is readable. -/
theorem readable_dash : ∀ tree : Tree, tree.All Leaf.Writable Scan.IsName → ∀ column : Nat,
    Readable (Tree.afterDash column tree).toList
  | .leaf value, .leaf h, column => by
    rw [Tree.toList_afterDash_leaf]
    exact readable_cons.mpr ⟨by decide, readable_leaf h⟩
  | .list [], _, column => by
    rw [Tree.toList_afterDash_noItems]
    exact List.all_eq_true.mp (by decide)
  | .record [], _, column => by
    rw [Tree.toList_afterDash_noFields]
    exact List.all_eq_true.mp (by decide)
  | .list (item :: items), .list h, column => by
    rw [Tree.toList_afterDash_list]
    exact readable_cons.mpr ⟨by decide, readable_items (item :: items) h (column + 2)⟩
  | .record (field :: fields), .record names values, column => by
    rw [Tree.toList_afterDash_record]
    exact readable_cons.mpr ⟨by decide,
      readable_fields (field :: fields) names values (column + 2)⟩

/-- The lines of a sequence are readable. -/
theorem readable_items : ∀ items : List Tree, (∀ item ∈ items, item.All Leaf.Writable Scan.IsName) →
    ∀ column : Nat, Readable (Tree.rows column (Tree.entryLines column items))
  | [], _, column => readable_nil
  | item :: items, h, column => by
    have hrest : Readable (if items = [] then [] else indentation column
        ++ (Tree.rows column (Tree.entryLines column items) ++ [])) := by
      split
      · exact readable_nil
      · rw [List.append_nil]
        exact readable_append.mpr ⟨readable_indentation,
          readable_items items (fun tree hmem => h tree (List.mem_cons_of_mem item hmem)) column⟩
    rw [← List.append_nil (Tree.rows _ _), Tree.rows_items]
    exact readable_cons.mpr ⟨by decide, readable_append.mpr
      ⟨readable_dash item (h item List.mem_cons_self) column, hrest⟩⟩

/-- The lines of a mapping are readable. -/
theorem readable_fields : ∀ fields : List (String × Tree), (∀ field ∈ fields, Scan.IsName field.1) →
    (∀ field ∈ fields, field.2.All Leaf.Writable Scan.IsName) → ∀ column : Nat,
    Readable (Tree.rows column (Tree.fieldLines column fields))
  | [], _, _, column => readable_nil
  | (name, tree) :: fields, names, values, column => by
    have hrest : Readable (if fields = [] then [] else indentation column
        ++ (Tree.rows column (Tree.fieldLines column fields) ++ [])) := by
      split
      · exact readable_nil
      · rw [List.append_nil]
        exact readable_append.mpr ⟨readable_indentation, readable_fields fields
          (fun field hmem => names field (List.mem_cons_of_mem _ hmem))
          (fun field hmem => values field (List.mem_cons_of_mem _ hmem)) column⟩
    have hname : Readable name.toList :=
      readable_of_allowsPlain (names (name, tree) List.mem_cons_self).plain
    rw [← List.append_nil (Tree.rows _ _), Tree.rows_fields]
    exact readable_append.mpr ⟨hname, readable_cons.mpr ⟨by decide, readable_append.mpr
      ⟨readable_colon tree (values (name, tree) List.mem_cons_self) column, hrest⟩⟩⟩

end

/-- **Every document written** consists of readable characters. -/
theorem readable_write {tree : Tree} (h : tree.All Leaf.Writable Scan.IsName) :
    Readable tree.write.toList := by
  cases h with
  | @leaf value h => exact readable_leaf h
  | @list items h =>
    cases items with
    | nil =>
      rw [Tree.toList_write_noItems]
      exact List.all_eq_true.mp (by decide)
    | cons item items =>
      rw [Tree.toList_write_list]
      exact readable_items (item :: items) h 0
  | @record fields names values =>
    cases fields with
    | nil =>
      rw [Tree.toList_write_noFields]
      exact List.all_eq_true.mp (by decide)
    | cons field fields =>
      rw [Tree.toList_write_record]
      exact readable_fields (field :: fields) names values 0

end Readable

/-- The tokens of a document. -/
theorem tokenize_write {tree : Tree} (h : tree.All Leaf.Writable Scan.IsName) :
    tokenize tree.write.toList = .ok (tree.tokens true) := by
  have hreadable : tree.write.toList.find? (fun c => !isReadable c) = none :=
    List.find?_eq_none.mpr fun c hc => by simpa using readable_write h c hc
  rw [tokenize, hreadable]
  have hrun : (Scan.start tree.write.toList).run (tree.write.toList.length + 1) = .ok _ :=
    Scan.run_of_leads (Scan.leads_write h)
  simp only [hrun]
  rfl

/-- **Trees survive their texts**: a document whose text is written for a tree shows this tree. -/
theorem Tree.restored {tree : Tree} (h : tree.All Leaf.Bounded Scan.IsName) : tree.Restored := by
  have htokens : tokenize tree.write.toList = .ok (tree.tokens true) :=
    tokenize_write (h.imp (fun value _ => value.writable) fun _ hname => hname)
  exact restored_of_tokenize htokens
    (h.imp (fun _ hvalue => Leaf.denoted hvalue) fun _ hname => hname)

end GridLookup.Yaml
