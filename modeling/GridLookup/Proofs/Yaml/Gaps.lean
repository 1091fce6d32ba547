import GridLookup.Yaml.Spelling
import GridLookup.Yaml.Token.FlowText
import GridLookup.Proofs.Fields

namespace GridLookup.Yaml

/-!
# Gaps

Where the reading of a document goes on after a line.

* `Lands` — a text that begins with the indentation of a line, and where this line begins.
* `readGap_indentation`, `readGap_line` — the gaps inside and after a text of words.
-/

/-! ### Characters -/

/-- What begins no gap is no space. -/
theorem isSpace_of_isGap {c : Char} (h : isGap c = false) : isSpace c = false :=
  (Bool.or_eq_false_iff.mp h).1

/-- What begins no gap breaks no line. -/
theorem isBreak_of_isGap {c : Char} (h : isGap c = false) : isBreak c = false :=
  (Bool.or_eq_false_iff.mp h).2

/-- A character that no gap, comment or mark of the byte order begins with. -/
def isVisible (c : Char) : Bool := !isGap c && c != '#' && c != '\ufeff'

/-- Visible characters begin no gap. -/
theorem isGap_of_isVisible {c : Char} (h : isVisible c = true) : isGap c = false := by
  simp only [isVisible, Bool.and_eq_true, Bool.not_eq_true'] at h
  exact h.1.1

/-! ### Lines -/

/-- A text begins with the indentation of a line: the text ends there, or the line begins at a
    column. -/
inductive Lands : List Char → Option Nat → List Char → Prop where
  /-- The text ends. -/
  | ended : Lands [] none []
  /-- The line begins at a column with a character that can be seen. -/
  | line {column : Nat} {c : Char} {rest : List Char} (visible : isVisible c = true) :
      Lands (indentation column ++ c :: rest) (some column) (c :: rest)

variable {after rest : List Char} {column? : Option Nat}

/-- The indentation, and what is behind it. -/
theorem Lands.eq_append (h : Lands after column? rest) :
    after = indentation (column?.getD 0) ++ rest ∧ ∀ c ∈ rest.head?, isVisible c = true := by
  cases h with
  | ended => exact ⟨rfl, nofun⟩
  | line visible =>
    refine ⟨rfl, fun c hc => ?_⟩
    cases hc
    exact visible

/-- A text that ends at once. -/
theorem Lands.eq_nil (h : Lands [] column? rest) : rest = [] :=
  (List.append_eq_nil_iff.mp h.eq_append.1.symm).2

/-- Indentation has a space for every column. -/
theorem length_indentation (column : Nat) : (indentation column).length = column :=
  List.length_replicate

/-! ### Gaps between words -/

/-- A gap with more spaces, which make no difference after a line break. -/
def Gap.widen (gap : Gap) (count : Nat) : Gap :=
  if gap.folded then gap else ⟨gap.spaces ++ indentation count, false, gap.first, gap.later⟩

variable {indent fuel index line column count : Nat} {gap : Gap}

theorem Gap.widen_zero : gap.widen 0 = gap := by
  obtain ⟨spaces, folded, first, later⟩ := gap
  cases folded <;> simp [Gap.widen, indentation]

/-- Spaces are added up. -/
theorem Gap.widen_widen {more : Nat} : (gap.widen more).widen count = gap.widen (more + count) := by
  obtain ⟨spaces, folded, first, later⟩ := gap
  cases folded <;> simp [Gap.widen, indentation]

/-- A space widens the gap. -/
theorem readGap_space {more : List Char} :
    readGap indent (fuel + 1) gap ⟨' ' :: more, index, line, column⟩
      = readGap indent fuel (gap.widen 1) ⟨more, index + 1, line, column + 1⟩ := by
  obtain ⟨spaces, folded, first, later⟩ := gap
  cases folded <;> rfl

/-- A gap ends where no white space is. -/
theorem readGap_stop (hrest : ∀ c ∈ rest.head?, isGap c = false) :
    readGap indent fuel gap ⟨rest, index, line, column⟩
      = .ok (gap, ⟨rest, index, line, column⟩) := by
  cases fuel with
  | zero => rfl
  | succ fuel =>
    cases rest with
    | nil => rfl
    | cons c rest =>
      have hgap := hrest c rfl
      simp [readGap, Cursor.peek?, isSpace_of_isGap hgap, isBreak_of_isGap hgap]

/-- Spaces are read up to a character that is none. -/
theorem readGap_indentation (hrest : ∀ c ∈ rest.head?, isGap c = false) (hfuel : count ≤ fuel) :
    readGap indent fuel gap ⟨indentation count ++ rest, index, line, column⟩
      = .ok (gap.widen count, ⟨rest, index + count, line, column + count⟩) := by
  induction count generalizing fuel gap index column with
  | zero =>
    rw [Gap.widen_zero]
    exact readGap_stop hrest
  | succ count ih =>
    obtain ⟨fuel, rfl⟩ : ∃ less, fuel = less + 1 := ⟨fuel - 1, by omega⟩
    have hspaces : indentation (count + 1) ++ rest = ' ' :: (indentation count ++ rest) := rfl
    rw [hspaces, readGap_space, ih (by omega), Gap.widen_widen, Nat.add_comm 1 count]
    simp only [Nat.add_assoc, Nat.add_comm 1 count]

/-- A line break and the indentation of the next line. -/
theorem readGap_line (h : Lands after column? rest) (hfuel : after.length < fuel) :
    ∃ gap, gap.folded = true ∧ readGap indent fuel .none ⟨'\n' :: after, index, line, column⟩
      = .ok (gap, ⟨rest, index + 1 + column?.getD 0, line + 1, column?.getD 0⟩) := by
  obtain ⟨rfl, hvisible⟩ := h.eq_append
  obtain ⟨fuel, rfl⟩ : ∃ less, fuel = less + 1 := ⟨fuel - 1, by omega⟩
  have hrest : ∀ c ∈ rest.head?, isGap c = false := fun c hc => isGap_of_isVisible (hvisible c hc)
  refine ⟨Gap.widen ⟨[], true, ['\n'], []⟩ (column?.getD 0), rfl, ?_⟩
  rw [List.length_append, length_indentation] at hfuel
  have hspaces : readGap indent fuel ⟨[], true, ['\n'], []⟩
      ⟨indentation (column?.getD 0) ++ rest, index + 1, line + 1, 0⟩
        = .ok (_, ⟨rest, index + 1 + column?.getD 0, line + 1, 0 + column?.getD 0⟩) :=
    readGap_indentation hrest (by omega)
  rw [Nat.zero_add] at hspaces
  exact hspaces

end GridLookup.Yaml
