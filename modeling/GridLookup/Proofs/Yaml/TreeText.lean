import GridLookup.Proofs.Yaml.Leaves
import GridLookup.Proofs.Yaml.Values

namespace GridLookup.Yaml

/-!
# Scanning trees

A scan of the text of a tree leads to the tokens of the tree.

* `Tree.rows` — lines at a column; `rows_items` and `rows_fields` take the first one off.
* `Leaf.Writable` — the values that a document can hold.
* `Scan.leads_colon`, `Scan.leads_dash` — what is written behind a colon or a dash for a tree.
* `Scan.leads_write` — a document leads to the tokens of its tree.
-/

/-! ### Lines of a tree -/

namespace Tree

variable {column : Nat}

/-- The margin is the indentation of a line. -/
theorem toList_margin : (margin column).toList = indentation column := String.toList_ofList

/-- Lines at a column, the first of which is indented already. -/
def rows (column : Nat) (lines : List String) : List Char :=
  (indentation column).intercalate (lines.map String.toList)

/-- Every line but the first is indented. -/
theorem rows_cons (first : String) {lines : List String} (hlines : lines ≠ []) :
    rows column (first :: lines) = first.toList ++ (indentation column ++ rows column lines) := by
  obtain ⟨second, lines, rfl⟩ := List.exists_cons_of_ne_nil hlines
  simp [rows, List.intercalate]

/-- A single line stands as it is. -/
theorem rows_singleton (first : String) : rows column [first] = first.toList := by
  simp [rows, List.intercalate]

/-- Lines with the margin between them stand at its column. -/
theorem toList_intercalate_margin (lines : List String) :
    ((margin column).intercalate lines).toList = rows column lines := by
  rw [String.toList_intercalate, toList_margin, rows]

/-- Lines with the margin in front of each stand at its column. -/
theorem toList_join_margin {lines : List String} (hlines : lines ≠ []) :
    (String.join (lines.map fun text => margin column ++ text)).toList
      = indentation column ++ rows column lines := by
  rw [String.toList_join]
  induction lines with
  | nil => exact absurd rfl hlines
  | cons first lines ih =>
    cases lines with
    | nil => simp [rows_singleton, toList_margin]
    | cons second lines =>
      rw [List.map_cons, List.flatMap_cons, ih (List.cons_ne_nil second lines),
        rows_cons first (List.cons_ne_nil second lines), String.toList_append, toList_margin,
        List.append_assoc]

/-- Lines without a margin stand at the first column. -/
theorem toList_join (lines : List String) : (String.join lines).toList = rows 0 lines := by
  cases lines with
  | nil => rfl
  | cons first lines =>
    have hjoin : (String.join ((first :: lines).map fun text => margin 0 ++ text)).toList
        = indentation 0 ++ rows 0 (first :: lines) :=
      toList_join_margin (List.cons_ne_nil first lines)
    simpa [margin, indentation] using hjoin

variable (item : Tree) (items : List Tree) (field : String × Tree) (fields : List (String × Tree))

/-- Behind a colon the items of a list stand on lines of their own. -/
theorem toList_afterColon_list : (afterColon column (.list (item :: items))).toList
    = '\n' :: (indentation column ++ rows column (entryLines column (item :: items))) := by
  have hlines : entryLines column (item :: items) ≠ [] := by simp [entryLines]
  rw [← toList_join_margin hlines]
  simp [afterColon, entryLines]

/-- Behind a colon the fields of a record stand on lines of their own, two columns deeper. -/
theorem toList_afterColon_record : (afterColon column (.record (field :: fields))).toList
    = '\n' :: (indentation (column + 2)
      ++ rows (column + 2) (fieldLines (column + 2) (field :: fields))) := by
  have hlines : fieldLines (column + 2) (field :: fields) ≠ [] := by simp [fieldLines]
  rw [← toList_join_margin hlines]
  simp [afterColon, fieldLines]

/-- Behind a dash the first item of a list stands on the same line. -/
theorem toList_afterDash_list : (afterDash column (.list (item :: items))).toList
    = ' ' :: rows (column + 2) (entryLines (column + 2) (item :: items)) := by
  rw [← toList_intercalate_margin]
  simp [afterDash, entryLines]

/-- Behind a dash the first field of a record stands on the same line. -/
theorem toList_afterDash_record : (afterDash column (.record (field :: fields))).toList
    = ' ' :: rows (column + 2) (fieldLines (column + 2) (field :: fields)) := by
  rw [← toList_intercalate_margin]
  simp [afterDash, fieldLines]

/-- Behind a colon a value without parts stands on the same line. -/
theorem toList_afterColon_leaf (value : Leaf) :
    (afterColon column (.leaf value)).toList = ' ' :: (value.write (column + 2)).toList :=
  String.toList_append

/-- Behind a dash a value without parts stands on the same line. -/
theorem toList_afterDash_leaf (value : Leaf) :
    (afterDash column (.leaf value)).toList = ' ' :: (value.write (column + 2)).toList :=
  String.toList_append

/-- A line ends with a line feed. -/
theorem toList_line (text : List Char) : (line (String.ofList text)).toList = text ++ ['\n'] := by
  rw [line, String.toList_append, String.toList_ofList]
  rfl

/-- Behind a colon an empty list is a pair of brackets. -/
theorem toList_afterColon_noItems :
    (afterColon column (.list [])).toList = [' ', '[', ']', '\n'] := by
  rw [afterColon, entryLines]
  exact toList_line [' ', '[', ']']

/-- Behind a colon an empty record is a pair of braces. -/
theorem toList_afterColon_noFields :
    (afterColon column (.record [])).toList = [' ', '\x7b', '\x7d', '\n'] := by
  rw [afterColon, fieldLines]
  exact toList_line [' ', '\x7b', '\x7d']

/-- Behind a dash an empty list is a pair of brackets. -/
theorem toList_afterDash_noItems :
    (afterDash column (.list [])).toList = [' ', '[', ']', '\n'] := by
  rw [afterDash, entryLines]
  exact toList_line [' ', '[', ']']

/-- Behind a dash an empty record is a pair of braces. -/
theorem toList_afterDash_noFields :
    (afterDash column (.record [])).toList = [' ', '\x7b', '\x7d', '\n'] := by
  rw [afterDash, fieldLines]
  exact toList_line [' ', '\x7b', '\x7d']

/-- A document that is a list has its items at the first column. -/
theorem toList_write_list : (Tree.list (item :: items)).write.toList
    = rows 0 (entryLines 0 (item :: items)) := toList_join _

/-- A document that is a record has its fields at the first column. -/
theorem toList_write_record : (Tree.record (field :: fields)).write.toList
    = rows 0 (fieldLines 0 (field :: fields)) := toList_join _

/-- A document that is an empty list is a pair of brackets. -/
theorem toList_write_noItems : (Tree.list []).write.toList = ['[', ']', '\n'] :=
  toList_line ['[', ']']

/-- A document that is an empty record is a pair of braces. -/
theorem toList_write_noFields : (Tree.record []).write.toList = ['\x7b', '\x7d', '\n'] :=
  toList_line ['\x7b', '\x7d']

/-- A colon is followed by a gap. -/
theorem gapAhead_afterColon (tree : Tree) (after : List Char) :
    gapAhead ((afterColon column tree).toList ++ after) = true := by
  rcases tree with value | (_ | ⟨item, items⟩) | (_ | ⟨field, fields⟩)
  · rw [toList_afterColon_leaf]
    rfl
  · rw [toList_afterColon_noItems]
    rfl
  · rw [toList_afterColon_list]
    rfl
  · rw [toList_afterColon_noFields]
    rfl
  · rw [toList_afterColon_record]
    rfl

/-- A dash is followed by a gap. -/
theorem gapAhead_afterDash (tree : Tree) (after : List Char) :
    gapAhead ((afterDash column tree).toList ++ after) = true := by
  rcases tree with value | (_ | ⟨item, items⟩) | (_ | ⟨field, fields⟩)
  · rw [toList_afterDash_leaf]
    rfl
  · rw [toList_afterDash_noItems]
    rfl
  · rw [toList_afterDash_list]
    rfl
  · rw [toList_afterDash_noFields]
    rfl
  · rw [toList_afterDash_record]
    rfl

/-- The entries of a list begin with a dash. -/
theorem rows_items (after : List Char) : rows column (entryLines column (item :: items)) ++ after
    = '-' :: ((afterDash column item).toList ++ (if items = [] then after
      else indentation column ++ (rows column (entryLines column items) ++ after))) := by
  rw [entryLines]
  cases items with
  | nil => simp [entryLines, rows_singleton]
  | cons next items =>
    rw [rows_cons _ (by simp [entryLines])]
    simp

/-- The fields of a record begin with a name. -/
theorem rows_fields (name : String) (tree : Tree) (after : List Char) :
    rows column (fieldLines column ((name, tree) :: fields)) ++ after
      = name.toList ++ ':' :: ((afterColon column tree).toList ++ (if fields = [] then after
        else indentation column ++ (rows column (fieldLines column fields) ++ after))) := by
  rw [fieldLines]
  cases fields with
  | nil => simp [fieldLines, rows_singleton]
  | cons next fields =>
    rw [rows_cons _ (by simp [fieldLines])]
    simp

end Tree

/-! ### Values without parts -/

/-- A value that a document can hold: if it is written without quotes, it can be. -/
def Leaf.Writable (value : Leaf) : Prop :=
  value.style = .plain → allowsPlain value.content.toList = true ∧ value.content.toList ≠ []

/-- A text is written in one of four styles, and the last two of them only if the text allows
    them. -/
theorem styleOf_cases (text : String) :
    styleOf text = .plain ∨ styleOf text = .double ∨
      styleOf text = .single ∧ '\n' ∉ text.toList ∧ allowsSingle text.toList = true ∨
      styleOf text = .literal ∧ '\n' ∈ text.toList ∧ allowsLiteral text.toList = true := by
  unfold styleOf
  dsimp only
  split
  -- Texts of several lines are literal where they can be, and in double quotes otherwise.
  next hline =>
    split
    next hliteral => exact Or.inr (Or.inr (Or.inr ⟨rfl, by simpa using hline, hliteral⟩))
    next => exact Or.inr (Or.inl rfl)
  next hline =>
    split
    next => exact Or.inl rfl
    next =>
      split
      next hsingle => exact Or.inr (Or.inr (Or.inl ⟨rfl, by simpa using hline, hsingle⟩))
      next => exact Or.inr (Or.inl rfl)

/-- Without quotes a value is written as it is. -/
theorem Leaf.write_plain {value : Leaf} {column : Nat} (h : value.style = .plain) :
    (value.write column).toList = value.content.toList ++ ['\n'] := by
  cases value with
  | text content =>
    have hstyle : styleOf content = .plain := h
    rw [write, String.toList_ofList, spell, hstyle]
    rfl
  | flag value => exact String.toList_append
  | number value => exact String.toList_append
  | count value => exact String.toList_append

namespace Scan

variable {scan : Scan} {tokens : List Token} {indents outer : List Nat} {allowed : Bool}
  {column? : Option Nat} {rest after : List Char} {index line column width : Nat}

/-- A text that is not written without quotes is found. -/
theorem finds_text {content : String} (hplain : styleOf content ≠ .plain)
    (hindents : ∀ indent ∈ indents.head?, indent < width)
    (hfollows : Follows indents after column? rest) :
    (block ⟨spell (indents.head?.getD 0 + 2) content ++ after, index, line, width⟩ tokens indents
      allowed).Finds rest column? (tokens ++ [.text (styleOf content) content]) indents := by
  -- For each style: what is spelled, with the quotes or the bar in front, and that it is found.
  rcases styleOf_cases content with
    hstyle | hstyle | ⟨hstyle, hline, hsingle⟩ | ⟨hstyle, hline, hliteral⟩
  · exact absurd hstyle hplain
  · have hspell : spell (indents.head?.getD 0 + 2) content ++ after = quote false
        :: (content.toList.flatMap spellCharacter ++ quote false :: '\n' :: after) := by
      rw [spell, hstyle]
      simp [spellDouble, quote]
    rw [hspell, hstyle]
    exact finds_quoted (quoted_double content.toList) hindents hfollows.lands
  · have hspell : spell (indents.head?.getD 0 + 2) content ++ after
        = quote true :: (singleBody (indents.head?.getD 0 + 2) content.toList
          ++ quote true :: '\n' :: after) := by
      rw [spell, hstyle]
      simp [spellSingle_eq, quote]
    simp only [allowsSingle, needsNoEscape, Bool.and_eq_true, Bool.not_eq_true',
      List.all_eq_true] at hsingle
    rw [hspell, hstyle]
    exact finds_quoted (quoted_single hsingle.1.1 hsingle.1.2 hsingle.2 hline (Nat.succ_pos _))
      hindents hfollows.lands
  · have hspell : spell (indents.head?.getD 0 + 2) content
        = spellLiteral (indents.head?.getD 0 + 2) content.toList
          ++ if endsWithBreak content.toList then [] else ['\n'] := by
      rw [spell, hstyle]
    simp only [allowsLiteral, needsNoEscape, Bool.and_eq_true, Bool.not_eq_true',
      List.all_eq_true] at hliteral
    obtain ⟨body, hbody⟩ : ∃ body, spell (indents.head?.getD 0 + 2) content = '|' :: body := by
      rw [hspell, spellLiteral, literalHeader_eq]
      exact ⟨_, rfl⟩
    rw [hbody, hstyle]
    exact finds_literal (List.ne_nil_of_mem hline) hliteral.1.1 hfollows (hspell.symm.trans hbody)

/-- A value without parts is found. -/
theorem finds_leaf {value : Leaf} (hvalue : value.Writable)
    (hparent : indents.head?.getD 0 = column) (hindents : ∀ indent ∈ indents.head?, indent < width)
    (hfollows : Follows indents after column? rest) :
    (block ⟨(value.write (column + 2)).toList ++ after, index, line, width⟩ tokens
      indents allowed).Finds rest column? (tokens ++ [.text value.style value.content])
      indents := by
  subst hparent
  -- Only texts need anything but plain style.
  by_cases hplain : value.style = .plain
  · rw [Leaf.write_plain hplain, hplain, List.append_assoc]
    exact finds_plain (hvalue hplain).1 (hvalue hplain).2 hindents hfollows
  · cases value with
    | text content =>
      show (block ⟨(String.ofList (spell _ content)).toList ++ after, _, _, _⟩ _ _ _).Finds _ _
        (tokens ++ [.text (styleOf content) content]) _
      rw [String.toList_ofList]
      exact finds_text hplain hindents hfollows
    | _ => exact absurd rfl hplain

/-! ### Trees -/

/-- What is found behind some tokens is found from in front of them. -/
theorem Reaches.leads {next : Scan} (h : scan.Reaches next)
    (hnext : next.Leads rest column? tokens indents) : scan.Leads rest column? tokens indents := by
  obtain ⟨last, hlast, hbefore⟩ := hnext
  exact ⟨last, h.trans hlast, hbefore⟩

/-- A block collection ends before a line in an outer column. -/
theorem Leads.close {indent : Nat} (h : scan.Leads rest column? tokens (indent :: indents))
    (hcolumn : column?.all (· < indent) = true) :
    scan.Leads rest column? (tokens ++ [.blockEnd]) indents := by
  obtain ⟨next, hreaches, hbefore⟩ := h
  exact ⟨next, hreaches, hbefore.close hcolumn⟩

/-- A collection behind a space begins in the same line. -/
theorem before_of_space {place : Nat} (h : Lands after (some place) rest)
    (hindents : ∀ indent ∈ indents.head?, indent ≤ column + 1) :
    (block ⟨' ' :: rest, index, line, column⟩ tokens indents true).Before rest (some (column + 1))
      tokens indents := by
  obtain ⟨c, more, rfl, hvisible⟩ : ∃ c more, rest = c :: more ∧ isVisible c = true := by
    cases h with
    | line visible => exact ⟨_, _, rfl, visible⟩
  refine ⟨Nat.le_succ _, index + 1, line, ?_⟩
  rw [closeTo_self _ rfl hindents]
  exact arrive_space hvisible hindents

/-- What follows a value follows its last part. -/
theorem Follows.nested {more : Nat} (h : Follows (column :: outer) after column? rest) :
    Follows ((column + more) :: indents) after column? rest :=
  ⟨h.lands, nofun, by
    rintro _ ⟨⟩
    exact (h.le column rfl).trans (Nat.le_add_right column more)⟩

/-- A block collection inside of a value ends with it. -/
theorem Leads.close_nested {opening : Token} {found : List Token}
    (h : scan.Leads rest column? (tokens ++ ([opening] ++ found)) ((column + 2) :: column :: outer))
    (hfollows : Follows (column :: outer) after column? rest) :
    scan.Leads rest column? (tokens ++ (opening :: found ++ [.blockEnd])) (column :: outer) := by
  have hdeeper : column?.all (· < column + 2) = true := by
    cases column? with
    | none => rfl
    | some place =>
      have hle : place ≤ column := hfollows.le column rfl
      exact decide_eq_true (by omega)
  have hclose := h.close hdeeper
  simpa using hclose

/-- A value without parts behind a space. -/
theorem leads_leaf {value : Leaf} (hvalue : value.Writable) (hwidth : column ≤ width)
    (hfollows : Follows (column :: outer) after column? rest) :
    (block ⟨' ' :: ((value.write (column + 2)).toList ++ after), index, line, width⟩ tokens
      (column :: outer) allowed).Leads rest column? (tokens ++ [.text value.style value.content])
        (column :: outer) := by
  refine Finds.leads_space (finds_leaf hvalue rfl ?_ hfollows) ?_
  · rintro _ ⟨⟩
    exact Nat.lt_succ_of_le hwidth
  · rintro _ ⟨⟩
    exact Nat.le_succ_of_le hwidth

/-- An empty collection behind a space. -/
theorem leads_empty {first last : Char} {opening closing : Token}
    (h : Brackets first last opening closing) (hwidth : column ≤ width)
    (hland : Lands after column? rest) :
    (block ⟨[' ', first, last, '\n'] ++ after, index, line, width⟩ tokens (column :: outer)
      allowed).Leads rest column? (tokens ++ [opening, closing]) (column :: outer) := by
  have hfirst : isVisible first = true := by cases h <;> rfl
  have hless : ∀ indent ∈ (column :: outer).head?, indent < width + 1 := by
    rintro _ ⟨⟩
    exact Nat.lt_succ_of_le hwidth
  have harrive : (block ⟨' ' :: first :: last :: '\n' :: after, index, line, width⟩ tokens
      (column :: outer) allowed).arrive = .ok _ :=
    arrive_space hfirst fun indent hindent => (hless indent hindent).le
  have hleads := leads_brackets h hland hless harrive (Nat.le_succ _)
  simpa using hleads

/-- The name of a field in a document. -/
def IsName (name : String) : Prop := IsFieldName name.toList

/-- A name begins with a visible character. -/
theorem IsName.exists_visible {name : String} (h : IsName name) :
    ∃ c more, name.toList = c :: more ∧ isVisible c = true := by
  obtain ⟨c, more, hcons⟩ := List.exists_cons_of_ne_nil h.word.nonempty
  have hplain := h.plain
  rw [hcons] at hplain
  exact ⟨c, more, hcons, isVisible_of_allowsPlain hplain⟩

/-- A record may be opened two columns deeper. -/
theorem opens_nested (column : Nat) :
    ∀ indent ∈ (column :: outer).head?, indent < column + 2 := by
  rintro _ ⟨⟩
  omega

/-- The line of an entry. -/
theorem lands_items (item : Tree) (items : List Tree) :
    Lands (indentation column
        ++ (Tree.rows column (Tree.entryLines column (item :: items)) ++ after)) (some column)
      (Tree.rows column (Tree.entryLines column (item :: items)) ++ after) := by
  rw [Tree.rows_items]
  exact .line rfl

/-- The line of a field. -/
theorem lands_fields {field : String × Tree} (hname : IsName field.1)
    (fields : List (String × Tree)) :
    Lands (indentation column
        ++ (Tree.rows column (Tree.fieldLines column (field :: fields)) ++ after)) (some column)
      (Tree.rows column (Tree.fieldLines column (field :: fields)) ++ after) := by
  obtain ⟨c, more, hcons, hvisible⟩ := hname.exists_visible
  rw [Tree.rows_fields, hcons]
  exact .line hvisible

/-- A line at the column of a block collection follows what is in the collection. -/
theorem Follows.of_lands (h : Lands after (some column) rest) :
    Follows (column :: outer) after (some column) rest :=
  ⟨h, nofun, by
    rintro _ ⟨⟩
    exact le_rfl⟩

mutual

/-- What is written behind a colon. -/
theorem leads_colon : ∀ tree : Tree, tree.All Leaf.Writable IsName →
    ∀ {column width index line : Nat} {outer : List Nat} {tokens : List Token}
      {after : List Char} {column? : Option Nat} {rest : List Char}, column ≤ width →
      Follows (column :: outer) after column? rest →
      (block ⟨(Tree.afterColon column tree).toList ++ after, index, line, width⟩ tokens
        (column :: outer) false).Leads rest column? (tokens ++ tree.tokens false) (column :: outer)
  | .leaf value, .leaf h, column, _, _, _, _, _, _, _, _, hwidth, hfollows => by
    rw [Tree.toList_afterColon_leaf, Tree.tokens]
    exact leads_leaf h hwidth hfollows
  | .list [], _, column, _, _, _, _, _, _, _, _, hwidth, hfollows => by
    rw [Tree.toList_afterColon_noItems, Tree.tokens]
    exact leads_empty .list hwidth hfollows.lands
  | .record [], _, column, _, _, _, _, _, _, _, _, hwidth, hfollows => by
    rw [Tree.toList_afterColon_noFields, Tree.tokens]
    exact leads_empty .record hwidth hfollows.lands
  | .list (item :: items), .list h, column, _, _, _, _, _, _, _, _, hwidth, hfollows => by
    rw [Tree.toList_afterColon_list, Tree.tokens, if_neg Bool.false_ne_true, List.cons_append,
      List.append_assoc]
    exact leads_items (item :: items) (List.cons_ne_nil item items) h hfollows .again
      (before_of_line (lands_items item items) (Or.inl rfl))
  | .record (field :: fields), .record names values, column, _, _, _, _, _, _, _, _, hwidth,
      hfollows => by
    rw [Tree.toList_afterColon_record, Tree.tokens, List.cons_append, List.append_assoc]
    exact (leads_fields (field :: fields) (List.cons_ne_nil field fields) names values
      hfollows.nested (.first (opens_nested column))
      (before_of_line (lands_fields (names field List.mem_cons_self) fields)
        (Or.inl rfl))).close_nested hfollows

/-- What is written behind a dash. -/
theorem leads_dash : ∀ tree : Tree, tree.All Leaf.Writable IsName →
    ∀ {column index line : Nat} {outer : List Nat} {tokens : List Token} {after : List Char}
      {column? : Option Nat} {rest : List Char}, Follows (column :: outer) after column? rest →
      (block ⟨(Tree.afterDash column tree).toList ++ after, index, line, column + 1⟩ tokens
        (column :: outer) true).Leads rest column? (tokens ++ tree.tokens true) (column :: outer)
  | .leaf value, .leaf h, column, _, _, _, _, _, _, _, hfollows => by
    rw [Tree.toList_afterDash_leaf, Tree.tokens]
    exact leads_leaf h (Nat.le_succ column) hfollows
  | .list [], _, column, _, _, _, _, _, _, _, hfollows => by
    rw [Tree.toList_afterDash_noItems, Tree.tokens]
    exact leads_empty .list (Nat.le_succ column) hfollows.lands
  | .record [], _, column, _, _, _, _, _, _, _, hfollows => by
    rw [Tree.toList_afterDash_noFields, Tree.tokens]
    exact leads_empty .record (Nat.le_succ column) hfollows.lands
  | .list (item :: items), .list h, column, _, _, _, _, _, _, _, hfollows => by
    rw [Tree.toList_afterDash_list, Tree.tokens, if_pos rfl]
    exact (leads_items (item :: items) (List.cons_ne_nil item items) h hfollows.nested
      (.first (opens_nested column)) (before_of_space (lands_items item items)
        fun indent hindent => (opens_nested column indent hindent).le)).close_nested hfollows
  | .record (field :: fields), .record names values, column, _, _, _, _, _, _, _, hfollows => by
    rw [Tree.toList_afterDash_record, Tree.tokens]
    exact (leads_fields (field :: fields) (List.cons_ne_nil field fields) names values
      hfollows.nested (.first (opens_nested column))
      (before_of_space (lands_fields (names field List.mem_cons_self) fields)
        fun indent hindent => (opens_nested column indent hindent).le)).close_nested hfollows

/-- The entries of a list. -/
theorem leads_items : ∀ items : List Tree, items ≠ [] →
    (∀ item ∈ items, item.All Leaf.Writable IsName) →
    ∀ {scan : Scan} {column : Nat} {indents outer : List Nat} {tokens opening : List Token}
      {after : List Char} {column? : Option Nat} {rest : List Char},
      Follows (column :: outer) after column? rest →
      Opens .blockSequence column indents outer opening →
      scan.Before (Tree.rows column (Tree.entryLines column items) ++ after) (some column) tokens
        indents →
      scan.Leads rest column? (tokens ++ (opening ++ Tree.itemTokens items)) (column :: outer)
  | [], hsome, _, _, _, _, _, _, _, _, _, _, _, _, _ => absurd rfl hsome
  | [item], _, h, scan, column, indents, outer, tokens, opening, after, column?, rest, hfollows,
      hopens, hbefore => by
    rw [Tree.rows_items, if_pos rfl] at hbefore
    obtain ⟨index, line, hdash⟩ := hbefore.dash hopens (Tree.gapAhead_afterDash item after)
    have hleads := hdash.leads (leads_dash item (h item List.mem_cons_self) hfollows)
    simpa [Tree.itemTokens] using hleads
  | item :: next :: items, _, h, scan, column, indents, outer, tokens, opening, after, column?,
      rest, hfollows, hopens, hbefore => by
    rw [Tree.rows_items, if_neg (List.cons_ne_nil next items)] at hbefore
    obtain ⟨index, line, hdash⟩ := hbefore.dash hopens (Tree.gapAhead_afterDash item _)
    -- The value of this entry ends where the next entry lands. From there on the block is open, so
    -- no further token opens it.
    obtain ⟨middle, hmiddle, hbetween⟩ := hdash.leads
      (leads_dash item (h item List.mem_cons_self) (.of_lands (lands_items next items)))
    have hleads := hmiddle.leads (leads_items (next :: items) (List.cons_ne_nil next items)
      (fun tree hmem => h tree (List.mem_cons_of_mem item hmem)) hfollows .again hbetween)
    simpa [Tree.itemTokens] using hleads

/-- The fields of a record. -/
theorem leads_fields : ∀ fields : List (String × Tree), fields ≠ [] →
    (∀ field ∈ fields, IsName field.1) →
    (∀ field ∈ fields, field.2.All Leaf.Writable IsName) →
    ∀ {scan : Scan} {column : Nat} {indents outer : List Nat} {tokens opening : List Token}
      {after : List Char} {column? : Option Nat} {rest : List Char},
      Follows (column :: outer) after column? rest →
      Opens .blockMapping column indents outer opening →
      scan.Before (Tree.rows column (Tree.fieldLines column fields) ++ after) (some column) tokens
        indents →
      scan.Leads rest column? (tokens ++ (opening ++ Tree.fieldTokens fields)) (column :: outer)
  | [], hsome, _, _, _, _, _, _, _, _, _, _, _, _, _, _ => absurd rfl hsome
  | [(name, tree)], _, names, values, scan, column, indents, outer, tokens, opening, after, column?,
      rest, hfollows, hopens, hbefore => by
    rw [Tree.rows_fields, if_pos rfl] at hbefore
    obtain ⟨index, line, hfield⟩ := hbefore.field (names _ List.mem_cons_self) hopens
      (Tree.gapAhead_afterColon tree after)
    have hleads := hfield.leads
      (leads_colon tree (values _ List.mem_cons_self) (by omega) hfollows)
    simpa [Tree.fieldTokens] using hleads
  | (name, tree) :: next :: fields, _, names, values, scan, column, indents, outer, tokens, opening,
      after, column?, rest, hfollows, hopens, hbefore => by
    rw [Tree.rows_fields, if_neg (List.cons_ne_nil next fields)] at hbefore
    obtain ⟨index, line, hfield⟩ := hbefore.field (names _ List.mem_cons_self) hopens
      (Tree.gapAhead_afterColon tree _)
    -- As for the entries of a list.
    obtain ⟨middle, hmiddle, hbetween⟩ := hfield.leads
      (leads_colon tree (values _ List.mem_cons_self) (by omega)
        (.of_lands (lands_fields (names next (by simp)) fields)))
    have hleads := hmiddle.leads (leads_fields (next :: fields) (List.cons_ne_nil next fields)
      (fun part hmem => names part (List.mem_cons_of_mem _ hmem))
      (fun part hmem => values part (List.mem_cons_of_mem _ hmem)) hfollows .again hbetween)
    simpa [Tree.fieldTokens] using hleads

end

/-! ### Documents -/

/-- A scan that leads to the end of the text finds all tokens. -/
theorem run_of_leads (h : scan.Leads [] none tokens []) :
    scan.run (scan.cursor.rest.length + 1) = .ok tokens.toArray := by
  obtain ⟨next, ⟨count, hless, hrun⟩, -, index, line, harrive⟩ := h
  obtain ⟨fuel, hfuel⟩ : ∃ fuel, scan.cursor.rest.length + 1 = fuel + 1 + count :=
    ⟨scan.cursor.rest.length - count, by omega⟩
  rw [hfuel, hrun]
  exact run_end harrive rfl rfl

/-- The end of the text follows every value. -/
theorem follows_end : Follows indents [] none [] :=
  ⟨.ended, fun _ => rfl, fun _ _ => Nat.zero_le _⟩

/-- A document that is an empty collection. -/
theorem leads_closed {first last : Char} {opening closing : Token}
    (h : Brackets first last opening closing) :
    (start [first, last, '\n']).Leads [] none [opening, closing] [] := by
  have hfirst : isVisible first = true := by cases h <;> rfl
  have harrive : (block ⟨[first, last, '\n'], 0, 0, 0⟩ [] [] true).arrive = .ok _ :=
    arrive_token hfirst (by simp)
  exact leads_brackets h .ended (by simp) harrive le_rfl

/-- The text of a tree leads to its tokens. -/
theorem leads_write {tree : Tree} (h : tree.All Leaf.Writable IsName) :
    (start tree.write.toList).Leads [] none (tree.tokens true) [] := by
  cases h with
  | @leaf value h =>
    have hfound : (block ⟨(value.write 2).toList ++ [], 0, 0, 0⟩ [] [] true).Finds [] none
        ([] ++ [.text value.style value.content]) [] := finds_leaf h rfl nofun follows_end
    rw [List.append_nil] at hfound
    exact hfound.leads_token nofun
  | @list items h =>
    cases items with
    | nil =>
      rw [Tree.toList_write_noItems]
      exact leads_closed .list
    | cons item items =>
      have hopens : Opens .blockSequence 0 [] [] [.blockSequence] := .first nofun
      rw [Tree.toList_write_list, ← List.append_nil (Tree.rows _ _)]
      exact (leads_items (item :: items) (List.cons_ne_nil item items) h follows_end hopens
        (before_of_lands (lands_items item items) (Or.inl rfl))).close rfl
  | @record fields names values =>
    cases fields with
    | nil =>
      rw [Tree.toList_write_noFields]
      exact leads_closed .record
    | cons field fields =>
      have hopens : Opens .blockMapping 0 [] [] [.blockMapping] := .first nofun
      rw [Tree.toList_write_record, ← List.append_nil (Tree.rows _ _)]
      exact (leads_fields (field :: fields) (List.cons_ne_nil field fields) names values follows_end
        hopens (before_of_lands (lands_fields (names field List.mem_cons_self) fields)
          (Or.inl rfl))).close rfl

end Scan

end GridLookup.Yaml
