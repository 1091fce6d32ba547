import GridLookup.Text.Blank
import Mathlib.Data.List.TakeWhile

namespace GridLookup

/-!
# Fields and gaps

The fields of a text do not depend on what the gaps between them are made of, and the blanks around
a text belong to gaps.

* `takeWhile_front` — the front of a text, up to where a property of its characters ends.
* `Cut` — how a text is cut into fields and gaps.
* `fields_eq_iff` — the fields are those of the one cut there is.
* `fields_change_gap` — another gap in the place of a gap leaves the fields as they are.
* `exists_trim`, `fields_trim` — trimming takes away blanks, and no fields if blanks separate.
* `head?_trim` — the character that a trimmed text begins with.
* `trim_eq_iff` — what trimming leaves.
-/

/-! ### Fronts -/

/-- The characters at the front of a text that have a property, and what follows them. -/
theorem exists_front (p : Char → Bool) (text : List Char) :
    ∃ front rest, text = front ++ rest ∧ (∀ c ∈ front, p c = true) ∧
      ∀ c ∈ rest.head?, p c = false := by
  refine ⟨text.takeWhile p, text.dropWhile p, List.takeWhile_append_dropWhile.symm,
    fun c hc => List.mem_takeWhile_imp hc, fun c hc => ?_⟩
  have hnot := List.head?_dropWhile_not p text
  rw [hc] at hnot
  simpa using hnot

/-- The characters at the front of a text that have a property, if what follows them has it not. -/
theorem takeWhile_front {p : Char → Bool} {front rest : List Char}
    (hfront : ∀ c ∈ front, p c = true) (hrest : ∀ c ∈ rest.head?, p c = false) :
    (front ++ rest).takeWhile p = front := by
  have hnone : rest.takeWhile p = [] := by
    cases rest with
    | nil => rfl
    | cons c rest => exact List.takeWhile_cons_of_neg (by simp [hrest c rfl])
  rw [List.takeWhile_append_of_pos hfront, hnone, List.append_nil]

/-- What follows the front of a text. -/
theorem dropWhile_front {p : Char → Bool} {front rest : List Char}
    (hfront : ∀ c ∈ front, p c = true) (hrest : ∀ c ∈ rest.head?, p c = false) :
    (front ++ rest).dropWhile p = rest := by
  rw [List.dropWhile_append_of_pos hfront]
  cases rest with
  | nil => rfl
  | cons c rest => exact List.dropWhile_cons_of_neg (by simp [hrest c rfl])

/-! ### Cuts -/

/-- A text is cut into fields.  Between fields there are gaps of characters that separate, and there
    may be one in front of the first and one behind the last. -/
inductive Cut (separates : Char → Bool) : List Char → List (List Char) → Prop where
  /-- A gap alone. -/
  | gap {gap : List Char} (separating : ∀ c ∈ gap, separates c = true) : Cut separates gap []
  /-- One more field, up to the next gap or the end. -/
  | field {gap field rest : List Char} {fields : List (List Char)}
      (separating : ∀ c ∈ gap, separates c = true) (some_field : field ≠ [])
      (joining : ∀ c ∈ field, separates c = false)
      (ends : ∀ c ∈ rest.head?, separates c = true) (cut : Cut separates rest fields) :
      Cut separates (gap ++ field ++ rest) (field :: fields)

section Fields

variable {separates : Char → Bool}

@[simp] theorem fields_nil : fields separates [] = [] := by
  simp [fields, List.splitOnP_nil]

/-- Wherever a character separates, the fields are those before it and those after it. -/
theorem fields_append_cons {c : Char} (h : separates c = true) (front back : List Char) :
    fields separates (front ++ c :: back) = fields separates front ++ fields separates back := by
  unfold fields
  rw [List.splitOnP_append_cons front back h, List.filter_append]

/-- A gap in front of a text adds no field. -/
theorem fields_gap_append {gap : List Char} (h : ∀ c ∈ gap, separates c = true)
    (back : List Char) : fields separates (gap ++ back) = fields separates back := by
  induction gap with
  | nil => rfl
  | cons c gap ih =>
    rw [List.forall_mem_cons] at h
    have hfront := fields_append_cons h.1 [] (gap ++ back)
    rw [fields_nil, List.nil_append, List.nil_append] at hfront
    rw [List.cons_append, hfront, ih h.2]

/-- A gap alone has no fields. -/
theorem fields_gap {gap : List Char} (h : ∀ c ∈ gap, separates c = true) :
    fields separates gap = [] := by
  have happend := fields_gap_append h []
  rwa [List.append_nil, fields_nil] at happend

/-- A gap at the end of a text adds no field. -/
theorem fields_append_gap {gap : List Char} (h : ∀ c ∈ gap, separates c = true)
    (front : List Char) : fields separates (front ++ gap) = fields separates front := by
  cases gap with
  | nil => rw [List.append_nil]
  | cons c gap =>
    rw [List.forall_mem_cons] at h
    rw [fields_append_cons h.1, fields_gap h.2, List.append_nil]

/-- A text without gaps is one field. -/
theorem fields_field {field : List Char} (hsome : field ≠ [])
    (h : ∀ c ∈ field, separates c = false) : fields separates field = [field] := by
  unfold fields
  rw [List.splitOnP_eq_singleton h]
  simpa using hsome

/-- **Gaps.**  Of a gap that is not empty it does not matter what it is made of. -/
theorem fields_change_gap {gap gap' : List Char} (hsome : gap ≠ []) (hsome' : gap' ≠ [])
    (h : ∀ c ∈ gap, separates c = true) (h' : ∀ c ∈ gap', separates c = true)
    (front back : List Char) :
    fields separates (front ++ gap ++ back) = fields separates (front ++ gap' ++ back) := by
  have hcut : ∀ gap : List Char, gap ≠ [] → (∀ c ∈ gap, separates c = true) →
      fields separates (front ++ gap ++ back)
        = fields separates front ++ fields separates back := by
    intro gap hsome h
    obtain ⟨c, gap, rfl⟩ := List.exists_cons_of_ne_nil hsome
    rw [List.forall_mem_cons] at h
    rw [List.append_assoc, List.cons_append, fields_append_cons h.1, fields_gap_append h.2]
  rw [hcut gap hsome h, hcut gap' hsome' h']

/-- A text cut at gaps has the fields between them. -/
theorem Cut.fields_eq {text : List Char} {words : List (List Char)}
    (h : Cut separates text words) : fields separates text = words := by
  induction h with
  | gap h => exact fields_gap h
  | @field gap field rest words hgap hsome hfield hends _ ih =>
    rw [List.append_assoc, fields_gap_append hgap]
    cases rest with
    | nil =>
      rw [fields_nil] at ih
      rw [List.append_nil, fields_field hsome hfield, ← ih]
    | cons c rest =>
      have hc : separates c = true := hends c rfl
      have hrest := fields_append_cons hc [] rest
      rw [fields_nil, List.nil_append, List.nil_append] at hrest
      rw [fields_append_cons hc, ← hrest, ih, fields_field hsome hfield]
      rfl

/-- A character in front of a cut text makes the gap there longer, or the field, or is a field
    of its own. -/
theorem Cut.exists_cons {text : List Char} {words : List (List Char)}
    (h : Cut separates text words) (c : Char) : ∃ words', Cut separates (c :: text) words' := by
  cases hc : separates c with
  | true =>
    cases h with
    | gap hgap => exact ⟨[], .gap (List.forall_mem_cons.mpr ⟨hc, hgap⟩)⟩
    | field hgap hsome hfield hends hcut =>
      exact ⟨_, .field (List.forall_mem_cons.mpr ⟨hc, hgap⟩) hsome hfield hends hcut⟩
  | false =>
    have hnone : ∀ d ∈ ([] : List Char), separates d = true := by simp
    have hsingle : ∀ d ∈ [c], separates d = false := by simpa using hc
    -- The character begins a field. It is the front of the one behind it if there is no gap
    -- between.
    cases h with
    | gap hgap =>
      refine ⟨[[c]], .field hnone (List.cons_ne_nil c []) hsingle ?_ (.gap hgap)⟩
      exact fun d hd => hgap d (List.mem_of_mem_head? hd)
    | @field gap field rest words hgap hsome hfield hends hcut =>
      cases gap with
      | nil =>
        refine ⟨_, .field hnone (List.cons_ne_nil c field)
          (List.forall_mem_cons.mpr ⟨hc, hfield⟩) hends hcut⟩
      | cons d gap =>
        refine ⟨_, .field hnone (List.cons_ne_nil c []) hsingle ?_
          (.field hgap hsome hfield hends hcut)⟩
        rintro e ⟨⟩
        exact hgap d List.mem_cons_self

/-- **Fields.**  A text is cut into its fields and in no other way. -/
theorem fields_eq_iff {text : List Char} {words : List (List Char)} :
    fields separates text = words ↔ Cut separates text words := by
  constructor
  · rintro rfl
    have hcut : ∃ words, Cut separates text words := by
      induction text with
      | nil => exact ⟨[], .gap (by simp)⟩
      | cons c text ih =>
        obtain ⟨words, hcut⟩ := ih
        exact hcut.exists_cons c
    obtain ⟨words, hcut⟩ := hcut
    rwa [hcut.fields_eq]
  · exact Cut.fields_eq

end Fields

/-! ### Trimming -/

/-- Behind the blanks in front there are the trimmed text and more blanks. -/
theorem exists_dropWhile_blank (text : List Char) :
    ∃ back, text.dropWhile isBlank = trim text ++ back ∧ ∀ c ∈ back, isBlank c = true := by
  have hback := List.takeWhile_append_dropWhile (p := isBlank)
    (l := (text.dropWhile isBlank).reverse)
  refine ⟨((text.dropWhile isBlank).reverse.takeWhile isBlank).reverse, ?_, fun c hc => ?_⟩
  · rw [trim, ← List.reverse_append, hback, List.reverse_reverse]
  · exact List.mem_takeWhile_imp (List.mem_reverse.mp hc)

/-- Trimming takes blanks away at both ends. -/
theorem exists_trim (text : List Char) :
    ∃ front back, text = front ++ trim text ++ back ∧
      (∀ c ∈ front, isBlank c = true) ∧ ∀ c ∈ back, isBlank c = true := by
  obtain ⟨back, hmiddle, hback⟩ := exists_dropWhile_blank text
  refine ⟨text.takeWhile isBlank, back, ?_, fun c hc => List.mem_takeWhile_imp hc, hback⟩
  rw [List.append_assoc, ← hmiddle, List.takeWhile_append_dropWhile]

/-- Fields are the same whether blanks around the text are taken away or not. -/
theorem fields_trim {separates : Char → Bool}
    (h : ∀ c, isBlank c = true → separates c = true) (text : List Char) :
    fields separates (trim text) = fields separates text := by
  obtain ⟨front, back, htext, hfront, hback⟩ := exists_trim text
  rw [congrArg (fields separates) htext, fields_append_gap fun c hc => h c (hback c hc),
    fields_gap_append fun c hc => h c (hfront c hc)]

/-- A trimmed text begins with the first character that is no blank. -/
theorem head?_trim (text : List Char) :
    (trim text).head? = text.find? fun c => !isBlank c := by
  obtain ⟨back, hmiddle, hback⟩ := exists_dropWhile_blank text
  have hfirst : text.find? (fun c => !isBlank c) = (text.dropWhile isBlank).head? := by
    rw [List.find?_eq_head?_dropWhile_not]
    simp
  rw [hfirst, hmiddle]
  cases htrim : trim text with
  | cons c rest => rfl
  | nil =>
    -- Only blanks would be left, but what is left begins with another character.
    rw [htrim, List.nil_append] at hmiddle
    cases back with
    | nil => rfl
    | cons c back =>
      have hc := List.head?_dropWhile_not isBlank text
      rw [hmiddle] at hc
      exact absurd (hback c List.mem_cons_self) (by simpa using hc)

/-- Nothing is dropped from a text that begins otherwise. -/
theorem dropWhile_of_head? {text : List Char} {p : Char → Bool}
    (h : ∀ c ∈ text.head?, p c = false) : text.dropWhile p = text := by
  cases text with
  | nil => rfl
  | cons c rest => exact List.dropWhile_cons_of_neg (by simp [h c rfl])

/-- **Trimming.**  What is left is the one text without blanks at its ends that there are only
    blanks around. -/
theorem trim_eq_iff {text core : List Char} :
    trim text = core ↔
      ((∀ c ∈ core.head?, isBlank c = false) ∧ ∀ c ∈ core.getLast?, isBlank c = false) ∧
        ∃ front back, text = front ++ core ++ back ∧
          (∀ c ∈ front, isBlank c = true) ∧ ∀ c ∈ back, isBlank c = true := by
  constructor
  · rintro rfl
    refine ⟨⟨fun c hc => ?_, fun c hc => ?_⟩, exists_trim text⟩
    · rw [head?_trim] at hc
      simpa using List.find?_some hc
    · have hlast := List.head?_dropWhile_not isBlank (text.dropWhile isBlank).reverse
      rw [trim, List.getLast?_reverse] at hc
      rw [Option.mem_def.mp hc] at hlast
      exact hlast
  · rintro ⟨⟨hfirst, hlast⟩, front, back, rfl, hfront, hback⟩
    -- The blanks behind go with those in front only if there is nothing between them.
    have hkept : (core ++ back).dropWhile isBlank = core ++ if core = [] then [] else back := by
      cases core with
      | nil => exact List.dropWhile_eq_nil_iff.mpr hback
      | cons c rest => exact dropWhile_of_head? hfirst
    unfold trim
    rw [List.append_assoc, List.dropWhile_append_of_pos hfront, hkept, List.reverse_append,
      List.dropWhile_append_of_pos, dropWhile_of_head?, List.reverse_reverse]
    · rwa [List.head?_reverse]
    · intro c hc
      split at hc
      · cases hc
      · exact hback c (List.mem_reverse.mp hc)

/-- Blanks around a text make no difference. -/
theorem trim_padded {front text back : List Char} (hfront : ∀ c ∈ front, isBlank c = true)
    (hback : ∀ c ∈ back, isBlank c = true) : trim (front ++ text ++ back) = trim text := by
  obtain ⟨hbare, before, after, htext, hbefore, hafter⟩ := trim_eq_iff.mp (rfl : trim text = _)
  refine trim_eq_iff.mpr ⟨hbare, front ++ before, after ++ back, ?_,
    List.forall_mem_append.mpr ⟨hfront, hbefore⟩, List.forall_mem_append.mpr ⟨hafter, hback⟩⟩
  rw [congrArg (front ++ · ++ back) htext]
  simp only [List.append_assoc]

/-- Nothing is left of a blank text only. -/
theorem trim_eq_nil_iff {text : List Char} : trim text = [] ↔ ∀ c ∈ text, isBlank c = true := by
  rw [trim_eq_iff]
  constructor
  · rintro ⟨-, front, back, rfl, hfront, hback⟩ c hc
    rw [List.append_nil, List.mem_append] at hc
    exact hc.elim (hfront c) (hback c)
  · intro h
    exact ⟨by simp, text, [], by simp, h, by simp⟩

end GridLookup
