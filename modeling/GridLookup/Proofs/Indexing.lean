import GridLookup.Proofs.GridPoint
import GridLookup.Proofs.Machine

namespace GridLookup

/-!
# Indexing

What a table stores at a multi-index.

* `Shape.FirstOutside` — the first entry of a multi-index that is out of range.
* `Table.Indexed` — the cell and the value, or the refusal, that a multi-index calls for.
* `Table.build_indexed` — the tables that are built number their cells without gaps and without
  repetition, and every way to a stored value takes the number of its cell.
-/

/-! ### Entries out of range -/

/-- The entry `i` of a multi-index, on an axis of `length` nodes, is out of range, and no entry
    before it is. -/
def Shape.FirstOutside (shape index : List Nat) (i length : Nat) : Prop :=
  ∃ lengths rest entries others, shape = lengths ++ length :: rest ∧
    index = entries ++ i :: others ∧ Shape.Contains lengths entries ∧ length ≤ i

namespace Table

/-- What is found is the first component outside its axis. -/
theorem firstOutside?_spec {shape index : List Nat} {i length : Nat}
    (h : firstOutside? shape index = some (i, length)) :
    Shape.FirstOutside shape index i length := by
  induction shape generalizing index with
  | nil =>
    unfold firstOutside? at h
    rw [List.zip_nil_right] at h
    cases h
  | cons first shape ih =>
    match index, h with
    | entry :: index, h =>
      rw [firstOutside?_cons] at h
      -- Either this entry is the first one outside, or it is inside and stands before the first
      -- one.
      split at h
      · next hout =>
        cases h
        exact ⟨[], shape, [], index, rfl, rfl, trivial, hout⟩
      · next hin =>
        obtain ⟨lengths, rest, entries, others, rfl, rfl, hbefore, hout⟩ := ih h
        exact ⟨first :: lengths, rest, entry :: entries, others, rfl, rfl,
          ⟨Nat.lt_of_not_le hin, hbefore⟩, hout⟩

/-! ### Cells and values -/

variable {α : Type} [Scalar α]

/-- The cell and the stored value that a multi-index calls for, or why there is none. -/
inductive Indexed (table : Table α) (index : List Nat) :
    Option Nat → Except (TableError α) α → Prop where
  /-- One entry per axis, all in range: the cell of that number. -/
  | cell (inside : Shape.Contains table.shape index)
      (bound : Shape.rowMajor table.shape index < table.values.size) :
      Indexed table index (some (Shape.rowMajor table.shape index))
        (.ok table.values[Shape.rowMajor table.shape index])
  /-- Too few entries, or too many. -/
  | arity (h : index.length ≠ table.dimensions) :
      Indexed table index none (.error (.arityMismatch table.dimensions index.length))
  /-- One entry per axis, but not all in range: the first one that is not. -/
  | outside (h : index.length = table.dimensions) {i length : Nat}
      (first : Shape.FirstOutside table.shape index i length) :
      Indexed table index none (.error (.indexOutOfRange i length))

/-- Cells and values are looked up alike. -/
theorem indexed (table : Table α) (index : List Nat) :
    table.Indexed index (table.cell? index) (table.stored index) := by
  unfold cell? stored
  by_cases hlength : index.length = table.dimensions
  · have hshape : index.length = table.shape.length := hlength.trans table.shape_length.symm
    rw [if_pos hlength, if_pos hlength]
    -- The wrong number of entries has been refused, so each has a length to be compared with.
    cases hout : firstOutside? table.shape index with
    | some outside =>
      obtain ⟨i, length⟩ := outside
      exact .outside hlength (firstOutside?_spec hout)
    | none =>
      have hinside := (firstOutside?_eq_none_iff hshape).mp hout
      have hbound : Shape.rowMajor table.shape index < table.values.size := by
        rw [Shape.rowMajor_eq_offset hshape]
        exact offset_lt_size hinside
      dsimp only
      rw [← Shape.rowMajor_eq_offset hshape, value_of_lt hbound]
      exact .cell hinside hbound
  · rw [if_neg hlength, if_neg hlength]
    exact .arity hlength

/-- Only the multi-indices of the shape have a cell. -/
theorem cell?_eq_some_iff {table : Table α} {index : List Nat} {cell : Nat} :
    table.cell? index = some cell ↔
      Shape.Contains table.shape index ∧ Shape.rowMajor table.shape index = cell := by
  constructor
  · intro h
    have hindexed := table.indexed index
    rw [h] at hindexed
    generalize table.stored index = outcome at hindexed
    cases hindexed with
    | cell hinside => exact ⟨hinside, rfl⟩
  · rintro ⟨hinside, rfl⟩
    unfold cell?
    rw [if_pos (hinside.length_eq.trans table.shape_length),
      (firstOutside?_eq_none_iff hinside.length_eq).mpr hinside,
      Shape.rowMajor_eq_offset hinside.length_eq]

/-- The cells of a table are its multi-indices, one to one. -/
theorem rowMajor_bijOn (table : Table α) :
    Set.BijOn (Shape.rowMajor table.shape) {index | Shape.Contains table.shape index}
      (Set.Iio table.values.size) := by
  rw [table.values_size_eq]
  refine (Shape.offset_bijOn table.shape).congr fun index hindex => ?_
  exact (Shape.rowMajor_eq_offset (Shape.Contains.length_eq hindex)).symm

/-- A table is built over one axis or more, up to the limit, with a value for every cell. -/
theorem exists_build_iff {values : Array α} {axes : List (Axis α)} :
    (∃ table, build values axes = .ok table) ↔
      axes ≠ [] ∧ axes.length ≤ axisLimit ∧ values.size = Shape.cells (axes.map Axis.size) := by
  constructor
  · rintro ⟨table, h⟩
    obtain ⟨rfl, rfl⟩ := build_eq_ok_iff.mp h
    exact ⟨table.axes_ne_nil, table.axes_length_le, table.values_size⟩
  · rintro ⟨nonempty, few, complete⟩
    exact ⟨⟨axes, values, nonempty, few, complete⟩, build_eq_ok_iff.mpr ⟨rfl, rfl⟩⟩

/-- **Indexing.**  A table is built exactly over up to 32 axes, with as many values as the product
    of the axis lengths, and a machine that cuts this product off builds the same tables.  The
    numbers of its multi-indices are its cells, one to one.  Every multi-index is looked up as it
    calls for, for its cell as well as for its value, and on the way no number gets too large. -/
theorem build_indexed {values : Array α} (room : values.size < 2 ^ 63) (axes : List (Axis α)) :
    ((∃ table, build values axes = .ok table) ↔
        (1 ≤ axes.length ∧ axes.length ≤ 32) ∧ values.size = (axes.map Axis.size).prod) ∧
      Machine.accept values axes = (build values axes).map (fun _ => ()) ∧
      ∀ table, build values axes = .ok table →
        (table.axes = axes ∧ table.values = values) ∧
        Set.BijOn (Shape.rowMajor table.shape) {index | Shape.Contains table.shape index}
          (Set.Iio table.values.size) ∧
        Machine.strides table.shape = .ok (Shape.strides table.shape) ∧
        ∀ index,
          (∀ cell, table.cell? index = some cell ↔
            Shape.Contains table.shape index ∧ Shape.rowMajor table.shape index = cell) ∧
          table.Indexed index (table.cell? index) (table.stored index) ∧
          Machine.cell? table index = .ok (table.cell? index) ∧
          Machine.stored table index = .ok (table.stored index) := by
  have hlargest : 2 ^ 63 < largestCount := by decide
  refine ⟨?_, Machine.accept_eq (room.trans hlargest) axes, fun table htable => ?_⟩
  · rw [exists_build_iff, ← List.length_pos_iff, Shape.cells_eq_prod, and_assoc]
    rfl
  · obtain ⟨rfl, rfl⟩ := build_eq_ok_iff.mp htable
    have hcount : table.values.size ≤ largestCount := (room.trans hlargest).le
    exact ⟨⟨rfl, rfl⟩, table.rowMajor_bijOn, Machine.strides_shape hcount, fun index =>
      ⟨fun cell => cell?_eq_some_iff, table.indexed index, Machine.cell?_eq hcount index,
        Machine.stored_eq hcount index⟩⟩

/-- The last of six cells, and an entry too large on each axis. -/
theorem build_indexed_speckled :
    speckled.values.size < 2 ^ 63 ∧ Machine.accept speckled.values speckled.axes = .ok () ∧
      Machine.cell? speckled [1, 2] = .ok (some 5) ∧
      Machine.stored speckled [1, 2] = .ok (.ok 6.0) ∧
      Machine.stored speckled [2, 3] = .ok (.error (.indexOutOfRange 2 2)) := by
  have room : speckled.values.size < 2 ^ 63 := by decide
  have built : build speckled.values speckled.axes = .ok speckled := build_eq_ok_iff.mpr ⟨rfl, rfl⟩
  obtain ⟨-, haccept, htable⟩ := build_indexed room speckled.axes
  obtain ⟨-, -, -, hindex⟩ := htable speckled built
  refine ⟨room, ?_, ?_, ?_, ?_⟩
  · rw [haccept, built]
    rfl
  · obtain ⟨-, -, hcell, -⟩ := hindex [1, 2]
    rw [hcell]
    rfl
  · obtain ⟨-, -, -, hstored⟩ := hindex [1, 2]
    rw [hstored]
    rfl
  · obtain ⟨-, -, -, hstored⟩ := hindex [2, 3]
    rw [hstored]
    rfl

end Table

end GridLookup
