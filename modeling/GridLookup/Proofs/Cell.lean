import GridLookup.Proofs.Shape
import GridLookup.Table.Basic

namespace GridLookup

/-!
# Tables and their stored values

A table can be built wherever its fields say so, and has a stored value for each multi-index of its
shape.

* `Table.build_eq_ok_iff` — building a table takes its axes and values as they are.
* `Table.firstOutside?_eq_none_iff` — the multi-indices without an entry out of range.
* `Table.stored_eq_ok` — the stored value at a multi-index of the shape.
-/

namespace Table

variable {α : Type} [Scalar α]

/-- What is built has the axes and values it was built from. -/
theorem build_eq_ok_iff {values : Array α} {axes : List (Axis α)} {table : Table α} :
    build values axes = .ok table ↔ table.axes = axes ∧ table.values = values := by
  unfold build
  constructor
  · intro h
    split at h
    · cases h
    · split at h
      · split at h
        · cases h
          exact ⟨rfl, rfl⟩
        · cases h
      · cases h
  · -- The three tests are proved by the fields of the table itself.
    rintro ⟨rfl, rfl⟩
    rw [dif_neg table.axes_ne_nil, dif_pos table.axes_length_le, dif_pos table.values_size]

/-- No entry is out of range exactly at the multi-indices of the shape. -/
theorem firstOutside?_eq_none_iff {shape index : List Nat} (hlength : index.length = shape.length) :
    firstOutside? shape index = none ↔ Shape.Contains shape index := by
  unfold firstOutside?
  induction shape generalizing index with
  | nil =>
    obtain rfl : index = [] := List.eq_nil_of_length_eq_zero hlength
    simp
  | cons length shape ih =>
    match index, hlength with
    | i :: index, hlength =>
      rw [List.zip_cons_cons, Shape.contains_cons, ← ih (Nat.succ.inj hlength)]
      by_cases hi : i < length
      · simp [hi]
      · simp [hi, Nat.not_lt.mp hi]

/-- The first component outside its axis is the leading one, or else the first of the others. -/
theorem firstOutside?_cons (length i : Nat) (shape index : List Nat) :
    firstOutside? (length :: shape) (i :: index)
      = if length ≤ i then some (i, length) else firstOutside? shape index := by
  unfold firstOutside?
  rw [List.zip_cons_cons, List.find?_cons]
  by_cases hi : length ≤ i <;> simp [hi]

/-- A shape has a length for every dimension. -/
theorem shape_length (table : Table α) : table.shape.length = table.dimensions := by
  rw [shape, List.length_map, dimensions]

/-- Every axis has a node. -/
theorem size_pos_of_mem_map {axes : List (Axis α)} : ∀ length ∈ axes.map Axis.size, 0 < length := by
  intro length hlength
  obtain ⟨axis, -, rfl⟩ := List.mem_map.mp hlength
  exact axis.size_pos

/-- A table has at least one cell. -/
theorem cells_shape_pos (table : Table α) : 0 < Shape.cells table.shape :=
  Shape.cells_pos size_pos_of_mem_map

/-- Every multi-index of the shape has a value. -/
theorem offset_lt_size {table : Table α} {index : List Nat} (h : Shape.Contains table.shape index) :
    Shape.offset table.shape index < table.values.size := by
  rw [values_size_eq]
  exact Shape.offset_lt_cells h

/-- The value of a cell is the entry of the array. -/
theorem value_of_lt {table : Table α} {cell : Nat} (h : cell < table.values.size) :
    table.value cell = table.values[cell] := by
  unfold value
  rw [Array.getD_eq_getD_getElem?, Array.getElem?_eq_getElem h, Option.getD_some]

/-- At an index within the shape there is a stored value. -/
theorem stored_eq_ok {table : Table α} {index : List Nat}
    (h : Shape.Contains table.shape index) :
    table.stored index = .ok (table.value (Shape.offset table.shape index)) := by
  have hlength : index.length = table.dimensions := h.length_eq.trans table.shape_length
  unfold stored
  rw [if_pos hlength, (firstOutside?_eq_none_iff h.length_eq).mpr h]

/-- Only the multi-indices of the shape have a stored value. -/
theorem stored_eq_ok_iff {table : Table α} {index : List Nat} {value : α} :
    table.stored index = .ok value ↔
      Shape.Contains table.shape index ∧ table.value (Shape.offset table.shape index) = value := by
  constructor
  · intro h
    have hstored := h
    unfold stored at hstored
    split at hstored
    · next hlength =>
      split at hstored
      · cases hstored
      · next hinside =>
        have hshape : index.length = table.shape.length := hlength.trans table.shape_length.symm
        exact ⟨(firstOutside?_eq_none_iff hshape).mp hinside, Except.ok.inj hstored⟩
    · cases hstored
  · rintro ⟨hindex, rfl⟩
    exact stored_eq_ok hindex

end Table

end GridLookup
