import GridLookup.Command.Point
import GridLookup.Proofs.Arrangement
import GridLookup.Proofs.Decimal.Characters
import GridLookup.Proofs.Fields

namespace GridLookup

/-!
# Points as they are written

A text is read as a point exactly if it is one written out: numbers, or names with numbers, between
commas, with blanks and empty fields wherever one likes.

* `Point.Written` — fields that hold items in order, among empty ones.
* `Point.WritesValue`, `Point.WritesComponent` — how the items are written in their fields.
* `Point.read_eq_positional_iff`, `Point.read_eq_named_iff` — the texts of either form.
* `Point.read_written` — what is written reads back, and forms are never mixed.
-/

/-! ### Fields between commas -/

/-- A character other than the separator stands in one of the fields. -/
theorem mem_iff_mem_splitOn {text : List Char} {c separator : Char} (h : c ≠ separator) :
    c ∈ text ↔ ∃ field ∈ text.splitOn separator, c ∈ field := by
  rw [List.splitOn_eq_splitOnP]
  induction text with
  | nil => simp
  | cons a text ih =>
    obtain ⟨first, rest, hsplit⟩ :=
      List.exists_cons_of_ne_nil (List.splitOnP_ne_nil (fun x => x == separator) text)
    rw [hsplit] at ih
    rw [List.splitOnP_cons_eq_if_modifyHead, hsplit, List.mem_cons, ih]
    by_cases ha : a = separator
    · simp [ha, h]
    · simp [ha, or_assoc]

/-- A field between separators has none. -/
theorem separator_notMem_of_mem_splitOn {text field : List Char} {separator : Char}
    (h : field ∈ text.splitOn separator) : separator ∉ field := by
  rw [List.splitOn_eq_splitOnP] at h
  induction text generalizing field with
  | nil =>
    obtain rfl : field = [] := by simpa using h
    exact List.not_mem_nil
  | cons a text ih =>
    obtain ⟨first, rest, hsplit⟩ :=
      List.exists_cons_of_ne_nil (List.splitOnP_ne_nil (fun x => x == separator) text)
    -- The list of fields of the tail is not empty; its first one is what `a` is put in front of.
    rw [hsplit] at ih
    rw [List.splitOnP_cons_eq_if_modifyHead, hsplit] at h
    by_cases ha : a = separator
    · rw [if_pos (by simp [ha]), List.mem_cons] at h
      rcases h with rfl | h
      · exact List.not_mem_nil
      · exact ih h
    · rw [if_neg (by simp [ha]), List.modifyHead_cons, List.mem_cons] at h
      rcases h with rfl | h
      · exact List.not_mem_cons_of_ne_of_not_mem (Ne.symm ha) (ih List.mem_cons_self)
      · exact ih (List.mem_cons_of_mem _ h)

namespace Point

/-- Blanks and nothing else. -/
def IsPadding (text : List Char) : Prop := ∀ c ∈ text, isBlank c = true

instance (text : List Char) : Decidable (IsPadding text) :=
  decidable_of_iff (text.all isBlank = true) List.all_eq_true

/-- An empty text is padding. -/
theorem isPadding_nil : IsPadding [] := List.forall_mem_nil _

/-- Padding is blank. -/
theorem notMem_of_isPadding {text : List Char} {c : Char} (h : IsPadding text)
    (hc : isBlank c = false) : c ∉ text := by
  intro hmem
  rw [h c hmem] at hc
  cases hc

/-- Fields that hold items, in order.  There may be empty fields anywhere among them. -/
inductive Written {α : Type} (writes : List Char → α → Prop) :
    List (List Char) → List α → Prop where
  /-- No field. -/
  | nil : Written writes [] []
  /-- An empty field in front. -/
  | empty {field : List Char} {fields : List (List Char)} {items : List α}
      (padding : IsPadding field) (rest : Written writes fields items) :
      Written writes (field :: fields) items
  /-- A field with an item in front. -/
  | item {field : List Char} {a : α} {fields : List (List Char)} {items : List α}
      (first : writes field a) (rest : Written writes fields items) :
      Written writes (field :: fields) (a :: items)

section Written

variable {α : Type} {writes : List Char → α → Prop} {fields : List (List Char)} {items : List α}

/-- Every field is empty or holds an item. -/
theorem Written.padding_or_item (h : Written writes fields items) :
    ∀ field ∈ fields, IsPadding field ∨ ∃ a ∈ items, writes field a := by
  induction h with
  | nil => simp
  | empty padding _ ih => exact List.forall_mem_cons.mpr ⟨Or.inl padding, ih⟩
  | item first _ ih =>
    refine List.forall_mem_cons.mpr ⟨Or.inr ⟨_, List.mem_cons_self, first⟩, fun field hfield => ?_⟩
    exact (ih field hfield).imp_right fun ⟨a, ha, hwrites⟩ =>
      ⟨a, List.mem_cons_of_mem _ ha, hwrites⟩

/-- Every item stands in a field. -/
theorem Written.exists_field (h : Written writes fields items) (hitems : items ≠ []) :
    ∃ field ∈ fields, ∃ a ∈ items, writes field a := by
  induction h with
  | nil => exact absurd rfl hitems
  | empty _ _ ih =>
    obtain ⟨field, hfield, a, ha, hwrites⟩ := ih hitems
    exact ⟨field, List.mem_cons_of_mem _ hfield, a, ha, hwrites⟩
  | item first _ => exact ⟨_, List.mem_cons_self, _, List.mem_cons_self, first⟩

/-- Fields without an item are all empty. -/
theorem Written.all_padding (h : Written writes fields []) : ∀ field ∈ fields, IsPadding field :=
  fun field hfield => (h.padding_or_item field hfield).resolve_right (by simp)

/-- Reading the trimmed fields that are left gives the items that are written in them, if this is
    so for every single field. -/
theorem mapM_eq_ok_iff_written {ε : Type} {read : List Char → Except ε α}
    (hread : ∀ field ∈ fields, ∀ a, read (trim field) = .ok a ↔ writes field a)
    (hsome : ∀ field a, writes field a → ¬ IsPadding field) :
    ((fields.map trim).filter fun field => !field.isEmpty).mapM read = .ok items
      ↔ Written writes fields items := by
  induction fields generalizing items with
  | nil =>
    constructor
    · intro h
      cases h
      exact .nil
    · rintro ⟨⟩
      rfl
  | cons field fields ih =>
    rw [List.forall_mem_cons] at hread
    have ih {items : List α} : (fields.map trim |>.filter fun field => !field.isEmpty).mapM read
        = .ok items ↔ Written writes fields items := ih hread.2
    -- Padding is dropped, and nothing is written in it; anything else is read as an item.
    by_cases hpadding : IsPadding field
    · rw [List.map_cons, trim_eq_nil_iff.mpr hpadding, List.filter_cons_of_neg (by simp), ih]
      constructor
      · exact .empty hpadding
      · rintro (_ | ⟨-, rest⟩ | ⟨first, -⟩)
        · exact rest
        · exact absurd hpadding (hsome _ _ first)
    · have htrim : trim field ≠ [] := fun h => hpadding (trim_eq_nil_iff.mp h)
      rw [List.map_cons, List.filter_cons_of_pos (by simpa using htrim), List.mapM_cons,
        bind_eq_ok_iff]
      simp only [bind_eq_ok_iff, hread.1, ih]
      constructor
      · rintro ⟨a, first, items, rest, h⟩
        cases h
        exact .item first rest
      · rintro (_ | ⟨padding, -⟩ | ⟨first, rest⟩)
        · exact absurd padding hpadding
        · exact ⟨_, first, _, rest, rfl⟩

end Written

/-! ### Values and components in their fields -/

/-- A value is written as a number with blanks around it. -/
inductive WritesValue : List Char → Float → Prop where
  /-- The number and the blanks around it. -/
  | padded {front number back : List Char} {x : Float} (hfront : IsPadding front)
      (hnumber : readNumber number = .ok x) (hback : IsPadding back) :
      WritesValue (front ++ number ++ back) x

/-- What a component can be called: no comma and no equals sign occurs in the name, and no blank at
    its ends. -/
structure IsName (name : List Char) : Prop where
  /-- There is no comma in it. -/
  comma : ',' ∉ name
  /-- There is no equals sign in it. -/
  equals : '=' ∉ name
  /-- No blank at its ends. -/
  bare : (∀ c ∈ name.head?, isBlank c = false) ∧ ∀ c ∈ name.getLast?, isBlank c = false

/-- A component is written as its name, an equals sign and its value, with blanks around both. -/
inductive WritesComponent : List Char → String × Float → Prop where
  /-- The name, the sign and the value. -/
  | padded {front name back value : List Char} {x : Float} (hfront : IsPadding front)
      (hname : IsName name) (hback : IsPadding back) (hvalue : WritesValue value x) :
      WritesComponent (front ++ name ++ back ++ '=' :: value) (String.ofList name, x)

variable {field : List Char} {x : Float} {component : String × Float}

/-- A field writes a value exactly if the value is read from what is between the blanks. -/
theorem writesValue_iff : WritesValue field x ↔ readNumber (trim field) = .ok x := by
  constructor
  · rintro ⟨hfront, hnumber, hback⟩
    obtain ⟨-, hcharacters⟩ := numberCharacters_of_readNumber hnumber
    have hbare : ∀ c ∈ _, isBlank c = false := fun c hc =>
      (isNumberCharacter_apart (hcharacters c hc)).1
    rw [trim_eq_iff.mpr ⟨⟨fun c hc => hbare c (List.mem_of_mem_head? hc),
      fun c hc => hbare c (List.mem_of_mem_getLast? hc)⟩, _, _, rfl, hfront, hback⟩]
    exact hnumber
  · intro hnumber
    obtain ⟨front, back, hfield, hfront, hback⟩ := exists_trim field
    rw [hfield]
    exact .padded hfront hnumber hback

/-- A value has neither a comma nor an equals sign. -/
theorem WritesValue.notMem {c : Char} (h : WritesValue field x) (hc : c = ',' ∨ c = '=') :
    c ∉ field := by
  obtain ⟨hfront, hnumber, hback⟩ := h
  obtain ⟨-, hcharacters⟩ := numberCharacters_of_readNumber hnumber
  have hblank : isBlank c = false := by rcases hc with rfl | rfl <;> decide
  have hnumber : c ∉ _ := fun hmem => by
    obtain ⟨-, hcomma, hequals⟩ := isNumberCharacter_apart (hcharacters c hmem)
    exact hc.elim hcomma hequals
  exact List.not_mem_append (List.not_mem_append (notMem_of_isPadding hfront hblank) hnumber)
    (notMem_of_isPadding hback hblank)

/-- A value is not blank. -/
theorem WritesValue.not_padding (h : WritesValue field x) : ¬ IsPadding field := by
  intro hpadding
  have hnumber := writesValue_iff.mp h
  rw [trim_eq_nil_iff.mpr hpadding] at hnumber
  cases hnumber

/-- A component with a name has an equals sign. -/
theorem WritesComponent.mem_equals (h : WritesComponent field component) : '=' ∈ field := by
  obtain ⟨-, -, -, -⟩ := h
  exact List.mem_append_right _ List.mem_cons_self

/-- A component with a name has no comma. -/
theorem WritesComponent.notMem_comma (h : WritesComponent field component) : ',' ∉ field := by
  obtain ⟨hfront, hname, hback, hvalue⟩ := h
  refine List.not_mem_append (List.not_mem_append (List.not_mem_append ?_ hname.comma) ?_) ?_
  · exact notMem_of_isPadding hfront (by decide)
  · exact notMem_of_isPadding hback (by decide)
  · exact List.not_mem_cons_of_ne_of_not_mem (by decide) (hvalue.notMem (Or.inl rfl))

/-- A component is read from what stands before and behind its first equals sign. -/
theorem readNamed_append {front back : List Char} (h : '=' ∉ front) :
    readNamed (front ++ '=' :: back) = .ok component ↔
      String.ofList (trim front) = component.1 ∧ readNumber (trim back) = .ok component.2 := by
  have hfront : ∀ c ∈ front, (c != '=') = true := fun c hc => by
    simpa using ne_of_mem_of_not_mem hc h
  unfold readNamed
  rw [List.dropWhile_append_of_pos hfront, List.takeWhile_append_of_pos hfront,
    List.dropWhile_cons_of_neg (by simp), List.takeWhile_cons_of_neg (by simp), List.append_nil]
  dsimp only
  cases hnumber : readNumber (trim back) with
  | ok x =>
    constructor
    · rintro ⟨⟩
      exact ⟨rfl, rfl⟩
    · rintro ⟨hname, hx⟩
      obtain rfl := Except.ok.inj hx
      rw [hname]
  | error fault =>
    constructor
    · rintro ⟨⟩
    · rintro ⟨-, ⟨⟩⟩

/-- Without an equals sign the name is missing. -/
theorem readNamed_of_notMem (h : '=' ∉ field) :
    readNamed field = .error (.nameMissing (String.ofList field)) := by
  have hall : ∀ c ∈ field, (c != '=') = true := fun c hc => by
    simpa using ne_of_mem_of_not_mem hc h
  unfold readNamed
  rw [List.dropWhile_eq_nil_iff.mpr hall]

/-- Blanks around a component make no difference. -/
theorem readNamed_trim :
    readNamed (trim field) = .ok component ↔ readNamed field = .ok component := by
  obtain ⟨before, after, hfield, hbefore, hafter⟩ := exists_trim field
  have hsplit : '=' ∈ trim field → ∃ front back, trim field = front ++ '=' :: back ∧ '=' ∉ front :=
    List.eq_append_cons_of_mem
  generalize trim field = core at hfield hsplit
  subst hfield
  -- Blanks hold no equals sign, so the first one stays the first; each of its sides is trimmed
  -- anyhow.
  by_cases hequals : '=' ∈ core
  · obtain ⟨front, back, rfl, hfront⟩ := hsplit hequals
    have hbefore' : '=' ∉ before ++ front :=
      List.not_mem_append (notMem_of_isPadding hbefore (by decide)) hfront
    have hregroup : before ++ (front ++ '=' :: back) ++ after
        = (before ++ front) ++ '=' :: (back ++ after) := by simp
    have hname : trim (before ++ front ++ []) = trim front := trim_padded hbefore isPadding_nil
    have hvalue : trim ([] ++ back ++ after) = trim back := trim_padded isPadding_nil hafter
    rw [List.append_nil] at hname
    rw [List.nil_append] at hvalue
    rw [hregroup, readNamed_append hfront, readNamed_append hbefore', hname, hvalue]
  · have hnone : '=' ∉ before ++ core ++ after :=
      List.not_mem_append
        (List.not_mem_append (notMem_of_isPadding hbefore (by decide)) hequals)
        (notMem_of_isPadding hafter (by decide))
    rw [readNamed_of_notMem hequals, readNamed_of_notMem hnone]
    exact iff_of_false nofun nofun

/-- A field writes a component exactly if it is read from what is between the blanks. -/
theorem writesComponent_iff (hcomma : ',' ∉ field) :
    WritesComponent field component ↔ readNamed (trim field) = .ok component := by
  rw [readNamed_trim]
  constructor
  · rintro ⟨hfront, hname, hback, hvalue⟩
    have hequals : '=' ∉ _ ++ _ ++ _ :=
      List.not_mem_append
        (List.not_mem_append (notMem_of_isPadding hfront (by decide)) hname.equals)
        (notMem_of_isPadding hback (by decide))
    have htrim := trim_eq_iff.mpr ⟨hname.bare, _, _, rfl, hfront, hback⟩
    exact (readNamed_append hequals).mpr ⟨by rw [htrim], writesValue_iff.mp hvalue⟩
  · intro h
    by_cases hequals : '=' ∈ field
    · obtain ⟨front, back, rfl, hfront⟩ := List.eq_append_cons_of_mem hequals
      obtain ⟨hname, hnumber⟩ := (readNamed_append hfront).mp h
      obtain ⟨hbare, before, after, hsplit, hbefore, hafter⟩ :=
        trim_eq_iff.mp (rfl : trim front = _)
      -- The name is a part of what stands before the equals sign, so it holds no other one and no
      -- comma.
      have hpart : ∀ c ∈ trim front, c ∈ front := fun c hc => by
        rw [hsplit]
        simp [hc]
      obtain ⟨name, x⟩ := component
      obtain rfl : String.ofList (trim front) = name := hname
      have hwritten : WritesComponent (before ++ trim front ++ after ++ '=' :: back)
          (String.ofList (trim front), x) :=
        .padded hbefore ⟨fun hc => hcomma (List.mem_append_left _ (hpart _ hc)),
          fun hc => hfront (hpart _ hc), hbare⟩ hafter (writesValue_iff.mpr hnumber)
      rwa [← hsplit] at hwritten
    · rw [readNamed_of_notMem hequals] at h
      cases h

/-! ### The texts of points -/

variable {text : List Char} {point : Point} {values : List Float}
  {components : List (String × Float)}

/-- Something is left of a text exactly if not all its fields are empty. -/
theorem split_eq_nil_iff : split text = [] ↔ ∀ field ∈ text.splitOn ',', IsPadding field := by
  unfold split
  rw [List.filter_eq_nil_iff, List.forall_mem_map]
  refine forall₂_congr fun field _ => ?_
  rw [Bool.not_not_eq, List.isEmpty_iff]
  exact trim_eq_nil_iff

/-- An equals sign in a text is in a field that is left of it. -/
theorem any_isNamed_split_iff : (split text).any isNamed = true ↔ '=' ∈ text := by
  have hcomma : '=' ≠ ',' := by decide
  have htrim : ∀ field, '=' ∈ trim field ↔ '=' ∈ field := fun field => by
    obtain ⟨before, after, hfield, hbefore, hafter⟩ := exists_trim field
    have hbefore := notMem_of_isPadding hbefore (by decide : isBlank '=' = false)
    have hafter := notMem_of_isPadding hafter (by decide : isBlank '=' = false)
    rw [congrArg ('=' ∈ ·) hfield]
    simp [hbefore, hafter]
  rw [mem_iff_mem_splitOn hcomma, List.any_eq_true]
  simp only [isNamed, split, List.mem_filter, List.mem_map, List.contains_iff_mem]
  constructor
  · rintro ⟨_, ⟨⟨field, hfield, rfl⟩, -⟩, hequals⟩
    exact ⟨field, hfield, (htrim field).mp hequals⟩
  · rintro ⟨field, hfield, hequals⟩
    have hsome := (htrim field).mpr hequals
    exact ⟨_, ⟨⟨field, hfield, rfl⟩, by simpa using List.ne_nil_of_mem hsome⟩, hsome⟩

/-- Values are read exactly from the texts that write them. -/
theorem mapM_readValue_iff :
    (split text).mapM readValue = .ok values ↔ Written WritesValue (text.splitOn ',') values := by
  refine mapM_eq_ok_iff_written (fun field _ x => ?_) fun _ _ => WritesValue.not_padding
  rw [writesValue_iff, readValue]
  cases readNumber (trim field) <;> simp [Except.mapError]

/-- Components with names are read exactly from the texts that write them. -/
theorem mapM_readNamed_iff :
    (split text).mapM readNamed = .ok components ↔
      Written WritesComponent (text.splitOn ',') components := by
  refine mapM_eq_ok_iff_written (fun field hfield component => ?_) fun field component h => ?_
  · exact (writesComponent_iff (separator_notMem_of_mem_splitOn hfield)).symm
  · exact fun hpadding => notMem_of_isPadding hpadding (by decide) h.mem_equals

/-- A text without fields is empty. -/
theorem read_of_empty (h : split text = []) : read text = .error .empty := by
  unfold read
  rw [h]
  rfl

/-- A text with an equals sign is one of components. -/
theorem read_of_equals (h : '=' ∈ text) :
    read text = .ok point ↔ ∃ components, (split text).mapM readNamed = .ok components ∧
      point = .named components := by
  have hnamed := any_isNamed_split_iff.mpr h
  have hsome : split text ≠ [] := by
    intro hnone
    rw [hnone] at hnamed
    cases hnamed
  unfold read
  dsimp only
  rw [if_neg (by simpa using hsome), if_pos hnamed]
  cases (split text).mapM readNamed <;> simp [Except.map, eq_comm]

/-- Any other text is one of values, if something is left of it. -/
theorem read_of_notMem (h : '=' ∉ text) (hsome : split text ≠ []) :
    read text = .ok point ↔ ∃ values, (split text).mapM readValue = .ok values ∧
      point = .positional values := by
  unfold read
  dsimp only
  rw [if_neg (by simpa using hsome), if_neg (mt any_isNamed_split_iff.mp h)]
  cases (split text).mapM readValue <;> simp [Except.map, eq_comm]

/-- Where something is written there are fields. -/
theorem Written.split_ne_nil {α : Type} {writes : List Char → α → Prop} {items : List α}
    (h : Written writes (text.splitOn ',') items) (hitems : items ≠ [])
    (hsome : ∀ field a, writes field a → ¬ IsPadding field) : split text ≠ [] := by
  obtain ⟨field, hfield, a, -, hwrites⟩ := h.exists_field hitems
  exact fun hnone => hsome field a hwrites (split_eq_nil_iff.mp hnone field hfield)

/-- Where there are fields something is written. -/
theorem Written.ne_nil {α : Type} {writes : List Char → α → Prop} {items : List α}
    (h : Written writes (text.splitOn ',') items) (hsome : split text ≠ []) : items ≠ [] := by
  rintro rfl
  exact hsome (split_eq_nil_iff.mpr h.all_padding)

/-- There is no equals sign in a text of values. -/
theorem Written.notMem_equals (h : Written WritesValue (text.splitOn ',') values) :
    '=' ∉ text := by
  have hcomma : '=' ≠ ',' := by decide
  rw [mem_iff_mem_splitOn hcomma]
  rintro ⟨field, hfield, hequals⟩
  rcases h.padding_or_item field hfield with hpadding | ⟨x, -, hvalue⟩
  · exact notMem_of_isPadding hpadding (by decide) hequals
  · exact hvalue.notMem (Or.inr rfl) hequals

/-- There is one in a text of components. -/
theorem Written.mem_equals (h : Written WritesComponent (text.splitOn ',') components)
    (hcomponents : components ≠ []) : '=' ∈ text := by
  have hcomma : '=' ≠ ',' := by decide
  obtain ⟨field, hfield, component, -, hcomponent⟩ := h.exists_field hcomponents
  exact (mem_iff_mem_splitOn hcomma).mpr ⟨field, hfield, hcomponent.mem_equals⟩

/-- **Points without names.**  They are read from the texts in which values are written. -/
theorem read_eq_positional_iff : read text = .ok (.positional values) ↔
    values ≠ [] ∧ Written WritesValue (text.splitOn ',') values := by
  constructor
  · intro h
    by_cases hsome : split text = []
    · rw [read_of_empty hsome] at h
      cases h
    by_cases hequals : '=' ∈ text
    · obtain ⟨components, -, ⟨⟩⟩ := (read_of_equals hequals).mp h
    · obtain ⟨_, hread, ⟨⟩⟩ := (read_of_notMem hequals hsome).mp h
      have hwritten := mapM_readValue_iff.mp hread
      exact ⟨hwritten.ne_nil hsome, hwritten⟩
  · rintro ⟨hvalues, hwritten⟩
    have hsome := hwritten.split_ne_nil hvalues fun _ _ => WritesValue.not_padding
    exact (read_of_notMem hwritten.notMem_equals hsome).mpr
      ⟨values, mapM_readValue_iff.mpr hwritten, rfl⟩

/-- **Points with names.**  They are read from the texts in which components are written. -/
theorem read_eq_named_iff : read text = .ok (.named components) ↔
    components ≠ [] ∧ Written WritesComponent (text.splitOn ',') components := by
  constructor
  · intro h
    by_cases hsome : split text = []
    · rw [read_of_empty hsome] at h
      cases h
    by_cases hequals : '=' ∈ text
    · obtain ⟨_, hread, ⟨⟩⟩ := (read_of_equals hequals).mp h
      have hwritten := mapM_readNamed_iff.mp hread
      exact ⟨hwritten.ne_nil hsome, hwritten⟩
    · obtain ⟨values, -, ⟨⟩⟩ := (read_of_notMem hequals hsome).mp h
  · rintro ⟨hcomponents, hwritten⟩
    exact (read_of_equals (hwritten.mem_equals hcomponents)).mpr
      ⟨components, mapM_readNamed_iff.mpr hwritten, rfl⟩

/-- Fields without commas in them are what the text that joins them is split into. -/
theorem Written.splitOn_join {α : Type} {writes : List Char → α → Prop}
    {fields : List (List Char)} {items : List α} (h : Written writes fields items)
    (hitems : items ≠ []) (hcomma : ∀ field a, writes field a → ',' ∉ field) :
    ([','].intercalate fields).splitOn ',' = fields := by
  obtain ⟨field, hfield, -⟩ := h.exists_field hitems
  refine List.splitOn_intercalate ',' (fun field hfield => ?_) (List.ne_nil_of_mem hfield)
  rcases h.padding_or_item field hfield with hpadding | ⟨a, -, hwrites⟩
  · exact notMem_of_isPadding hpadding (by decide)
  · exact hcomma field a hwrites

/-- **Written points.**  Values written in fields between commas are read as the point of just these
    values, and components as the point of just these components, in order; blanks and empty fields
    make no difference.  A text with an equals sign is never read as values, and each of its fields
    that is not empty must have one.  A text of empty fields is refused. -/
theorem read_written :
    (∀ fields values, values ≠ [] → Written WritesValue fields values →
      read ([','].intercalate fields) = .ok (.positional values)) ∧
    (∀ fields components, components ≠ [] → Written WritesComponent fields components →
      read ([','].intercalate fields) = .ok (.named components)) ∧
    (∀ text point, '=' ∈ text → read text = .ok point →
      (∃ components, point = .named components) ∧
        ∀ field ∈ text.splitOn ',', ¬ IsPadding field → '=' ∈ field) ∧
    ∀ text : List Char, (∀ field ∈ text.splitOn ',', IsPadding field) →
      read text = .error .empty := by
  refine ⟨fun fields values hvalues h => ?_, fun fields components hcomponents h => ?_,
    fun text point hequals h => ?_, fun text h => read_of_empty (split_eq_nil_iff.mpr h)⟩
  · refine read_eq_positional_iff.mpr ⟨hvalues, ?_⟩
    rwa [h.splitOn_join hvalues fun _ _ hvalue => hvalue.notMem (Or.inl rfl)]
  · refine read_eq_named_iff.mpr ⟨hcomponents, ?_⟩
    rwa [h.splitOn_join hcomponents fun _ _ => WritesComponent.notMem_comma]
  · obtain ⟨components, hread, rfl⟩ := (read_of_equals hequals).mp h
    refine ⟨⟨components, rfl⟩, fun field hfield hsome => ?_⟩
    obtain ⟨component, -, hcomponent⟩ :=
      ((mapM_readNamed_iff.mp hread).padding_or_item field hfield).resolve_left hsome
    exact hcomponent.mem_equals

/-- Blanks of several kinds, empty fields, a name that is empty, and one with blanks inside that
    comes twice. -/
theorem read_written_padded :
    read " 412,\u00a0, -0.1e1\t".toList = .ok (.positional [412.0, -1.0]) ∧
      read "sun zenith\u2003= 30,=1,,sun zenith=2".toList
        = .ok (.named [("sun zenith", 30.0), ("", 1.0), ("sun zenith", 2.0)]) ∧
      (∀ point, read "30,=1".toList ≠ .ok point) ∧ read " ,\u00a0".toList = .error .empty := by
  obtain ⟨hvalues, hcomponents, hmixed, hempty⟩ := read_written
  have hspace : IsPadding [' '] := by decide +kernel
  refine ⟨?_, ?_, fun point h => ?_, hempty _ (by decide +kernel)⟩
  · have h412 : WritesValue " 412".toList 412.0 :=
      .padded hspace (by decide +kernel : readNumber "412".toList = .ok 412.0) isPadding_nil
    have hminus : WritesValue " -0.1e1\t".toList (-1.0) :=
      .padded hspace (by decide +kernel : readNumber "-0.1e1".toList = .ok (-1.0))
        (by decide +kernel : IsPadding ['\t'])
    have htext : " 412,\u00a0, -0.1e1\t".toList
        = [','].intercalate [" 412".toList, ['\u00a0'], " -0.1e1\t".toList] := by decide +kernel
    rw [htext]
    exact hvalues _ _ (by simp) (.item h412 (.empty (by decide +kernel) (.item hminus .nil)))
  · have hname : IsName "sun zenith".toList :=
      ⟨by decide +kernel, by decide +kernel, by simp; decide +kernel, by simp; decide +kernel⟩
    have hbare : IsName [] := ⟨by decide +kernel, by decide +kernel, nofun, nofun⟩
    have h30 : WritesComponent "sun zenith\u2003= 30".toList ("sun zenith", 30.0) :=
      .padded isPadding_nil hname (by decide +kernel : IsPadding ['\u2003'])
        (.padded hspace (by decide +kernel : readNumber "30".toList = .ok 30.0) isPadding_nil)
    have h1 : WritesComponent "=1".toList ("", 1.0) :=
      .padded isPadding_nil hbare isPadding_nil
        (.padded isPadding_nil (by decide +kernel : readNumber "1".toList = .ok 1.0) isPadding_nil)
    have h2 : WritesComponent "sun zenith=2".toList ("sun zenith", 2.0) :=
      .padded isPadding_nil hname isPadding_nil
        (.padded isPadding_nil (by decide +kernel : readNumber "2".toList = .ok 2.0) isPadding_nil)
    have htext : "sun zenith\u2003= 30,=1,,sun zenith=2".toList = [','].intercalate
        ["sun zenith\u2003= 30".toList, "=1".toList, [], "sun zenith=2".toList] := by decide +kernel
    rw [htext]
    exact hcomponents _ _ (by simp) (.item h30 (.item h1 (.empty isPadding_nil (.item h2 .nil))))
  · have hfield : "30".toList ∈ "30,=1".toList.splitOn ',' := by decide +kernel
    have hequals := (hmixed _ point (by decide +kernel) h).2 _ hfield (by decide +kernel)
    revert hequals
    decide +kernel

end Point

end GridLookup
