import GridLookup.Shape
import Mathlib.Algebra.BigOperators.Group.List.Basic
import Mathlib.Algebra.GroupWithZero.Nat
import Mathlib.Data.List.GetD
import Mathlib.Data.Set.Function
import Mathlib.Order.Interval.Set.Basic

namespace GridLookup

/-!
# Cell numbers

A shape numbers its cells without gaps and without repetition:

* `Shape.rowMajor_eq_offset` — the numeral of a multi-index and the sum over the strides are
  the same number.
* `Shape.digits_offset`, `Shape.offset_digits` — `Shape.digits` is the inverse of that number.
* `Shape.offset_bijOn` — hence the multi-indices of a shape are its cells, one to one.
* `Shape.offset_eq_sum` — the cell number as a sum over axis indices, which does not mind the
  order in which the axes are visited.
-/

namespace Shape

@[simp] theorem cells_nil : cells [] = 1 := rfl

/-- The leading length multiplies the cells. -/
@[simp] theorem cells_cons (length : Nat) (rest : List Nat) :
    cells (length :: rest) = length * cells rest := rfl

@[simp] theorem offset_nil (index : List Nat) : offset [] index = 0 := by
  cases index <;> rfl

/-- The leading component moves the offset by all cells of the other axes. -/
@[simp] theorem offset_cons (length i : Nat) (shape index : List Nat) :
    offset (length :: shape) (i :: index) = i * cells shape + offset shape index := rfl

/-- The number of cells is the product of the axis lengths. -/
theorem cells_eq_prod (shape : List Nat) : cells shape = shape.prod := by
  induction shape with
  | nil => rfl
  | cons length rest ih => rw [cells_cons, ih, List.prod_cons]

/-- Nested in another order, the axes have as many cells. -/
theorem cells_perm {shape other : List Nat} (h : shape.Perm other) : cells shape = cells other := by
  rw [cells_eq_prod, cells_eq_prod, h.prod_eq]

/-- A shape without empty axes has cells. -/
theorem cells_pos {shape : List Nat} (h : ∀ length ∈ shape, 0 < length) : 0 < cells shape := by
  induction shape with
  | nil => exact Nat.one_pos
  | cons length rest ih =>
    rw [List.forall_mem_cons] at h
    exact Nat.mul_pos h.1 (ih h.2)

/-- A shape with cells has no empty axis. -/
theorem pos_of_cells_pos {shape : List Nat} (h : 0 < cells shape) :
    ∀ length ∈ shape, 0 < length := by
  induction shape with
  | nil => simp
  | cons length rest ih =>
    rw [cells_cons] at h
    rintro l (_ | ⟨_, hl⟩)
    · exact Nat.pos_of_mul_pos_right h
    · exact ih (Nat.pos_of_mul_pos_left h) l hl

/-- No axis is longer than there are cells. -/
theorem length_le_cells {shape : List Nat} (hpos : 0 < cells shape) {length : Nat}
    (h : length ∈ shape) : length ≤ cells shape := by
  induction shape with
  | nil => cases h
  | cons first rest ih =>
    rw [cells_cons] at hpos ⊢
    rcases List.mem_cons.mp h with rfl | h
    · exact Nat.le_mul_of_pos_right _ (Nat.pos_of_mul_pos_left hpos)
    · exact (ih (Nat.pos_of_mul_pos_left hpos) h).trans
        (Nat.le_mul_of_pos_left _ (Nat.pos_of_mul_pos_right hpos))

/-- No step is longer than there are cells. -/
theorem stride_le_cells {shape : List Nat} (hpos : 0 < cells shape) {stride : Nat}
    (h : stride ∈ strides shape) : stride ≤ cells shape := by
  induction shape with
  | nil => cases h
  | cons length rest ih =>
    rw [cells_cons] at hpos ⊢
    have hrest : cells rest ≤ length * cells rest :=
      Nat.le_mul_of_pos_left _ (Nat.pos_of_mul_pos_right hpos)
    rcases List.mem_cons.mp h with rfl | h
    · exact hrest
    · exact (ih (Nat.pos_of_mul_pos_left hpos) h).trans hrest

/-! ### Multi-indices -/

@[simp] theorem contains_nil : Contains [] [] := trivial

/-- An index lies within a shape if its leading component does and the others do. -/
@[simp] theorem contains_cons (length i : Nat) (shape index : List Nat) :
    Contains (length :: shape) (i :: index) ↔ i < length ∧ Contains shape index := Iff.rfl

/-- An index within a shape has a component for every axis. -/
theorem Contains.length_eq {shape index : List Nat} (h : Contains shape index) :
    index.length = shape.length := by
  induction shape generalizing index with
  | nil =>
    cases index with
    | nil => rfl
    | cons i index => exact absurd h (by simp [Contains])
  | cons length shape ih =>
    cases index with
    | nil => exact absurd h (by simp [Contains])
    | cons i index => simp [ih h.2]

/-- Membership by position: one entry per axis, each below the axis length. -/
theorem contains_iff_getD {shape index : List Nat} :
    Contains shape index ↔ index.length = shape.length ∧
      ∀ axis < shape.length, index.getD axis 0 < shape.getD axis 1 := by
  induction shape generalizing index with
  | nil => cases index <;> simp [Contains]
  | cons length shape ih =>
    cases index with
    | nil => simp [Contains]
    | cons i index =>
      rw [contains_cons, ih]
      constructor
      · rintro ⟨hi, hlen, h⟩
        refine ⟨by simp [hlen], fun axis haxis => ?_⟩
        cases axis with
        | zero => simpa using hi
        | succ axis => simpa using h axis (by simpa using haxis)
      · rintro ⟨hlen, h⟩
        refine ⟨by simpa using h 0 (by simp), by simpa using hlen, fun axis haxis => ?_⟩
        simpa using h (axis + 1) (by simpa using haxis)

/-- Every entry is below the length of its axis. -/
theorem Contains.exists_lt {shape index : List Nat} {axis i : Nat} (h : Contains shape index)
    (hi : index[axis]? = some i) : ∃ length, shape[axis]? = some length ∧ i < length := by
  induction shape generalizing index axis with
  | nil =>
    obtain rfl : index = [] := List.eq_nil_of_length_eq_zero h.length_eq
    simp at hi
  | cons length shape ih =>
    match index, axis, h with
    | j :: index, 0, ⟨hj, _⟩ =>
      obtain rfl : j = i := Option.some.inj hi
      exact ⟨length, rfl, hj⟩
    | j :: index, axis + 1, ⟨_, h⟩ => exact ih h hi

/-! ### The two ways to number a cell -/

/-- The numeral of a multi-index continues a leading number `number` by the cell number. -/
private theorem foldl_eq_offset (shape index : List Nat) (number : Nat)
    (h : index.length = shape.length) :
    (shape.zip index).foldl (fun number (length, digit) => number * length + digit) number
      = number * cells shape + offset shape index := by
  induction shape generalizing index number with
  | nil => simp
  | cons length shape ih =>
    cases index with
    | nil => simp at h
    | cons i index =>
      have h : index.length = shape.length := by simpa using h
      simp only [List.zip_cons_cons, List.foldl_cons, offset_cons, cells_cons]
      rw [ih index _ h, Nat.add_mul, Nat.mul_assoc, Nat.add_assoc]

/-- The numeral of a multi-index is its cell number. -/
theorem rowMajor_eq_offset {shape index : List Nat} (h : index.length = shape.length) :
    rowMajor shape index = offset shape index := by
  rw [rowMajor, foldl_eq_offset shape index 0 h]
  simp

/-- The offset of an index within the shape is that of a cell. -/
theorem offset_lt_cells {shape index : List Nat} (h : Contains shape index) :
    offset shape index < cells shape := by
  induction shape generalizing index with
  | nil => simp
  | cons length shape ih =>
    cases index with
    | nil => exact absurd h (by simp [Contains])
    | cons i index =>
      obtain ⟨hi, h⟩ := h
      have hrest := ih h
      calc offset (length :: shape) (i :: index)
          = i * cells shape + offset shape index := offset_cons ..
        _ < i * cells shape + cells shape := by omega
        _ = (i + 1) * cells shape := by rw [Nat.add_mul, Nat.one_mul]
        _ ≤ length * cells shape := Nat.mul_le_mul_right _ hi

/-! ### Digits -/

/-- The digits of a cell are an index within the shape. -/
theorem digits_contains {shape : List Nat} {number : Nat} (h : number < cells shape) :
    Contains shape (digits shape number) := by
  induction shape generalizing number with
  | nil => exact contains_nil
  | cons length shape ih =>
    rw [cells_cons] at h
    have hpos : 0 < cells shape := Nat.pos_of_ne_zero fun h0 => by simp [h0] at h
    rw [digits, contains_cons]
    exact ⟨(Nat.div_lt_iff_lt_mul hpos).mpr h, ih (Nat.mod_lt _ hpos)⟩

/-- The digits of a cell number make that cell number. -/
theorem offset_digits {shape : List Nat} {number : Nat} (h : number < cells shape) :
    offset shape (digits shape number) = number := by
  induction shape generalizing number with
  | nil =>
    have h : number < 1 := h
    rw [offset_nil]
    omega
  | cons length shape ih =>
    rw [cells_cons] at h
    have hpos : 0 < cells shape := Nat.pos_of_ne_zero fun h0 => by simp [h0] at h
    rw [digits, offset_cons, ih (Nat.mod_lt _ hpos), Nat.mul_comm, Nat.div_add_mod]

/-- A multi-index is read back from its cell number. -/
theorem digits_offset {shape index : List Nat} (h : Contains shape index) :
    digits shape (offset shape index) = index := by
  induction shape generalizing index with
  | nil =>
    have := h.length_eq
    simp_all [digits]
  | cons length shape ih =>
    cases index with
    | nil => exact absurd h (by simp [Contains])
    | cons i index =>
      obtain ⟨-, h⟩ := h
      have hlt := offset_lt_cells h
      have hpos : 0 < cells shape := by omega
      rw [digits, offset_cons, Nat.mul_comm]
      rw [Nat.mul_add_div hpos, Nat.div_eq_of_lt hlt, Nat.add_zero, Nat.mul_add_mod,
        Nat.mod_eq_of_lt hlt, ih h]

/-- **Cells are multi-indices.**  Every cell number belongs to exactly one multi-index of the
    shape. -/
theorem offset_bijOn (shape : List Nat) :
    Set.BijOn (offset shape) {index | Contains shape index} (Set.Iio (cells shape)) := by
  refine ⟨fun index h => offset_lt_cells h, fun index h other hother heq => ?_, fun number h => ?_⟩
  · rw [← digits_offset h, heq, digits_offset hother]
  · exact ⟨digits shape number, digits_contains h, offset_digits h⟩

/-! ### The cell number as a sum over axes -/

/-- The cell number added up axis by axis. -/
theorem offset_eq_sum {shape index : List Nat} (h : index.length = shape.length) :
    offset shape index
      = ((List.range shape.length).map
          fun axis => index.getD axis 0 * (strides shape).getD axis 1).sum := by
  induction shape generalizing index with
  | nil => simp
  | cons length shape ih =>
    cases index with
    | nil => simp at h
    | cons i index =>
      have h : index.length = shape.length := by simpa using h
      rw [offset_cons, ih h, List.length_cons, List.range_succ_eq_map]
      simp [strides, List.map_map, Function.comp_def]

end Shape

end GridLookup
