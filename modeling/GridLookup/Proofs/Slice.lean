import GridLookup.Proofs.GridPoint

namespace GridLookup

/-!
# Slices

Fixing an axis of a table at one of its nodes leaves a table with one axis less.  Where the node
stands for the component of a coordinate, both give the same result, operation by operation.

* `Table.get_set_node`, `Table.get_clamp` — a component may be replaced by the node that stands for
  it, and components out of range by the ends.
* `Table.IsSlice`, `Table.slice` — the table that is left; `Table.IsSlice.get_eraseIdx` queries it.
* `Table.widen`, `Table.get_widen` — an axis of a single node may be put in anywhere.
* `Table.get_eq_slice` — all of this together.
-/

/-! ### One entry more -/

namespace Shape

/-- An entry in range put into a multi-index of the other axes. -/
theorem Contains.insertIdx {shape index : List Nat} {k i length : Nat}
    (hk : shape[k]? = some length) (hi : i < length) (h : Contains (shape.eraseIdx k) index) :
    Contains shape (index.insertIdx k i) := by
  induction shape generalizing k index with
  | nil => simp at hk
  | cons first shape ih =>
    cases k with
    | zero =>
      obtain rfl : first = length := Option.some.inj hk
      exact ⟨hi, h⟩
    | succ k =>
      match index, h with
      | j :: index, ⟨hj, h⟩ => exact ⟨hj, ih hk h⟩

/-- An axis of a single node has no cells of its own. -/
theorem cells_insertIdx_one {shape : List Nat} {k : Nat} (hk : k ≤ shape.length) :
    cells (shape.insertIdx k 1) = cells shape := by
  rw [cells_perm (List.perm_insertIdx 1 shape hk), cells_cons, Nat.one_mul]

/-- An axis with a single node, put in anywhere, changes no offset. -/
theorem offset_insertIdx_zero {shape index : List Nat} {k : Nat} (hk : k ≤ shape.length)
    (hlength : index.length = shape.length) :
    offset (shape.insertIdx k 1) (index.insertIdx k 0) = offset shape index := by
  induction shape generalizing k index with
  | nil =>
    obtain rfl : k = 0 := Nat.le_zero.mp hk
    simp
  | cons length shape ih =>
    match index, hlength with
    | i :: index, hlength =>
      cases k with
      | zero => simp
      | succ k =>
        have hk : k ≤ shape.length := Nat.le_of_succ_le_succ hk
        rw [List.insertIdx_succ_cons, List.insertIdx_succ_cons, offset_cons, offset_cons,
          cells_insertIdx_one hk, ih hk (Nat.succ.inj hlength)]

end Shape

/-- Leaving out an entry of two lists and combining the others. -/
theorem zipWith_eraseIdx {α β γ : Type} (f : α → β → γ) (as : List α) (bs : List β) (k : Nat) :
    List.zipWith f (as.eraseIdx k) (bs.eraseIdx k) = (List.zipWith f as bs).eraseIdx k := by
  induction as generalizing bs k with
  | nil => simp
  | cons a as ih =>
    match bs, k with
    | [], _ => simp
    | b :: bs, 0 => rfl
    | b :: bs, k + 1 => simp [ih]

variable {α : Type} [Scalar α] [LawfulScalar α]

/-! ### Ends of an axis -/

namespace Axis

variable {axis : Axis α} {x : α} {i : Nat}

/-- A node stands for itself. -/
theorem hits_node (hi : i < axis.size) : axis.Hits (axis.node i) i :=
  have hle := Scalar.le_refl (isNaN_node hi)
  .on hi (LawfulScalar.eq_iff.mpr ⟨hle, hle⟩)

/-- The only node of an axis stands for every number. -/
theorem hits_of_size_eq_one (hsize : axis.size = 1) (hx : Scalar.isNaN x = false) :
    axis.Hits x 0 := by
  have hlast : axis.last = 0 := by
    unfold last
    omega
  have hnode : Scalar.isNaN (axis.node 0) = false := isNaN_node axis.size_pos
  by_cases hle : Scalar.le x (axis.node 0) = true
  · by_cases hge : Scalar.le (axis.node 0) x = true
    · exact .on axis.size_pos (LawfulScalar.eq_iff.mpr ⟨hle, hge⟩)
    · rw [Bool.not_eq_true] at hge
      exact .below rfl (LawfulScalar.lt_iff.mpr ⟨hle, hge⟩)
  · rw [Bool.not_eq_true] at hle
    refine .above hlast.symm ?_
    unfold greatest
    rw [hlast]
    exact Scalar.lt_of_not_le hnode hx hle

/-- A coordinate out of range moved to the end of the axis; the undefined one is left alone. -/
def clamp (axis : Axis α) (x : α) : α :=
  if Scalar.lt x axis.least then axis.least
  else if Scalar.lt axis.greatest x then axis.greatest
  else x

/-- Bracketing clamps by itself. -/
theorem bracket_clamp (axis : Axis α) (x : α) : axis.bracket (axis.clamp x) = axis.bracket x := by
  unfold clamp
  by_cases hbelow : Scalar.lt x axis.least = true
  · rw [if_pos hbelow, bracket_of_hits (.below rfl hbelow)]
    exact bracket_of_hits (hits_node axis.size_pos)
  rw [if_neg hbelow]
  by_cases habove : Scalar.lt axis.greatest x = true
  · rw [if_pos habove, bracket_of_hits (.above rfl habove)]
    exact bracket_of_hits (hits_node axis.last_lt_size)
  rw [if_neg habove]

end Axis

namespace Table

variable {table part : Table α} {k i : Nat} {axis : Axis α} {coordinate other : List α} {x : α}

/-! ### Coordinates with the same brackets -/

omit [LawfulScalar α] in
/-- A query knows its coordinate by the brackets only. -/
theorem get_congr (hlength : other.length = coordinate.length)
    (hbrackets : table.brackets other = table.brackets coordinate) :
    table.get other = table.get coordinate := by
  unfold get interpolate
  rw [hlength, hbrackets]

/-- A component on a node may be replaced by that node. -/
theorem get_set_node (haxis : table.axes[k]? = some axis) (hx : coordinate[k]? = some x)
    (hits : axis.Hits x i) : table.get (coordinate.set k (axis.node i)) = table.get coordinate := by
  refine get_congr List.length_set (List.ext_getElem? fun j => ?_)
  unfold brackets
  rw [List.getElem?_zipWith, List.getElem?_zipWith]
  by_cases hj : k = j
  · subst j
    have hset : (coordinate.set k (axis.node i))[k]? = some (axis.node i) := by
      rw [List.getElem?_set_self (List.getElem?_eq_some_iff.mp hx).1]
    rw [hset, haxis, hx]
    dsimp only
    rw [Axis.bracket_of_hits hits, Axis.bracket_of_hits (Axis.hits_node hits.lt_size)]
  · rw [List.getElem?_set_ne hj]

/-- Components outside their axes may be replaced by the nearest ends. -/
theorem get_clamp (hlength : coordinate.length = table.dimensions) :
    table.get (List.zipWith Axis.clamp table.axes coordinate) = table.get coordinate := by
  refine get_congr (by simp [hlength, dimensions]) (List.ext_getElem? fun j => ?_)
  unfold brackets
  simp only [List.getElem?_zipWith]
  cases table.axes[j]? with
  | none => rfl
  | some axis =>
    cases coordinate[j]? with
    | none => rfl
    | some x => exact congrArg some (axis.bracket_clamp x)

/-! ### Slices -/

/-- The other table has the axes except the one at a position, and the values stored at one index
    of that axis. -/
structure IsSlice (table : Table α) (k i : Nat) (part : Table α) : Prop where
  /-- The axes. -/
  axes : part.axes = table.axes.eraseIdx k
  /-- The values. -/
  stored : ∀ index, Shape.Contains part.shape index →
    part.stored index = table.stored (index.insertIdx k i)

/-- The values stored at one index of an axis, over the other axes. -/
def slice (table : Table α) (k i : Nat) (several : 2 ≤ table.dimensions) : Table α where
  axes := table.axes.eraseIdx k
  values := Array.ofFn fun cell : Fin (Shape.cells (table.shape.eraseIdx k)) =>
    table.value (Shape.offset table.shape
      ((Shape.digits (table.shape.eraseIdx k) cell).insertIdx k i))
  axes_ne_nil := by
    have hlength := List.le_length_eraseIdx table.axes k
    unfold dimensions at several
    intro hnil
    rw [hnil, List.length_nil] at hlength
    omega
  axes_length_le := Nat.le_trans (List.length_eraseIdx_le table.axes k) table.axes_length_le
  values_size := by rw [Array.size_ofFn, shape, List.eraseIdx_map]

omit [LawfulScalar α] in
/-- A slice has the shape without its axis. -/
theorem IsSlice.shape_eq (h : table.IsSlice k i part) : part.shape = table.shape.eraseIdx k := by
  unfold shape
  rw [h.axes, List.eraseIdx_map]

omit [LawfulScalar α] in
/-- An index of the slice and an index of the axis make an index of the table. -/
theorem contains_insertIdx {index : List Nat} (haxis : table.axes[k]? = some axis)
    (hi : i < axis.size) (h : Shape.Contains (table.shape.eraseIdx k) index) :
    Shape.Contains table.shape (index.insertIdx k i) := by
  have hlength : table.shape[k]? = some axis.size := by simp [shape, haxis]
  exact h.insertIdx hlength hi

omit [LawfulScalar α] in
/-- The values of a slice are those at the node of its axis. -/
theorem value_slice (several : 2 ≤ table.dimensions) {cell : Nat}
    (hcell : cell < Shape.cells (table.shape.eraseIdx k)) :
    (table.slice k i several).value cell = table.value (Shape.offset table.shape
      ((Shape.digits (table.shape.eraseIdx k) cell).insertIdx k i)) := by
  simp [value, slice, hcell]

omit [LawfulScalar α] in
/-- There is such a table, unless no axis would be left. -/
theorem isSlice_slice (several : 2 ≤ table.dimensions) (haxis : table.axes[k]? = some axis)
    (hi : i < axis.size) : table.IsSlice k i (table.slice k i several) := by
  have hshape : (table.slice k i several).shape = table.shape.eraseIdx k :=
    (List.eraseIdx_map ..).symm
  refine ⟨rfl, fun index hindex => ?_⟩
  rw [stored_eq_ok hindex]
  rw [hshape] at hindex ⊢
  rw [stored_eq_ok (contains_insertIdx haxis hi hindex),
    value_slice several (Shape.offset_lt_cells hindex), Shape.digits_offset hindex]

omit [LawfulScalar α] in
/-- The value of a cell of a slice. -/
theorem IsSlice.value_eq (h : table.IsSlice k i part) (haxis : table.axes[k]? = some axis)
    (hi : i < axis.size) {index : List Nat} (hindex : Shape.Contains part.shape index) :
    part.value (Shape.offset part.shape index)
      = table.value (Shape.offset table.shape (index.insertIdx k i)) := by
  have hstored := h.stored index hindex
  rw [stored_eq_ok hindex] at hstored
  rw [h.shape_eq] at hindex
  rw [stored_eq_ok (contains_insertIdx haxis hi hindex)] at hstored
  exact Except.ok.inj hstored

/-- **Queries on a slice.**  A query on the slice at a node that stands for a component gives what
    the query on the whole table does. -/
theorem IsSlice.get_eraseIdx [DefinedZero α] (h : table.IsSlice k i part)
    (haxis : table.axes[k]? = some axis) (hlength : coordinate.length = table.dimensions)
    (hx : coordinate[k]? = some x) (hits : axis.Hits x i) :
    part.get (coordinate.eraseIdx k) = table.get coordinate := by
  have hsingle : (table.brackets coordinate)[k]? = some (.single i) := by
    simp [brackets, List.getElem?_zipWith, haxis, hx, Axis.bracket_of_hits hits]
  obtain ⟨hk, hbracket⟩ := List.getElem?_eq_some_iff.mp hsingle
  have hrest : part.brackets (coordinate.eraseIdx k) = (table.brackets coordinate).eraseIdx k := by
    unfold brackets
    rw [h.axes, zipWith_eraseIdx]
  have hrestLength : (coordinate.eraseIdx k).length = part.axes.length := by
    rw [h.axes, List.length_eraseIdx, List.length_eraseIdx, hlength, dimensions]
  have hfixed := interpolant_eraseIdx hk (hbracket ▸ Bracket.isSingle_single i)
    (hbracket ▸ Bracket.isUndefined_single i)
    fun index => table.value (Shape.offset table.shape index)
  rw [get_of_length part hrestLength, get_of_length table hlength,
    interpolate_eq_interpolant part hrestLength, interpolate_eq_interpolant table hlength, hfixed,
    hbracket, ← hrest]
  -- The nodes of the brackets are cells of the slice.
  refine congrArg Except.ok (interpolant_congr fun index hpicks => ?_)
  exact h.value_eq haxis hits.lt_size (contains_of_picks hrestLength hpicks)

/-! ### Axes of a single node -/

omit [LawfulScalar α] in
/-- An axis with a single node puts a length of one into the shape. -/
theorem map_size_insertIdx (hsize : axis.size = 1) :
    (table.axes.insertIdx k axis).map Axis.size = table.shape.insertIdx k 1 := by
  rw [List.map_insertIdx, hsize, shape]

/-- The same values with one axis more, which has a single node. -/
def widen (table : Table α) (k : Nat) (axis : Axis α) (hk : k ≤ table.shape.length)
    (hsize : axis.size = 1) (few : table.dimensions < axisLimit) : Table α where
  axes := table.axes.insertIdx k axis
  values := table.values
  axes_ne_nil := by
    intro hnil
    have herase := List.eraseIdx_insertIdx_self (i := k) (l := table.axes) axis
    rw [hnil] at herase
    exact table.axes_ne_nil herase.symm
  axes_length_le := by
    have hlength : (table.axes.insertIdx k axis).length ≤ table.dimensions + 1 :=
      List.length_insertIdx_le_succ
    omega
  values_size := by
    rw [map_size_insertIdx hsize, Shape.cells_insertIdx_one hk, values_size_eq]

omit [LawfulScalar α] in
/-- The table before is the slice of the table after. -/
theorem isSlice_widen (hk : k ≤ table.shape.length) (hsize : axis.size = 1)
    (few : table.dimensions < axisLimit) :
    (table.widen k axis hk hsize few).IsSlice k 0 table := by
  have hwide : (table.widen k axis hk hsize few).shape = table.shape.insertIdx k 1 :=
    map_size_insertIdx hsize
  refine ⟨(List.eraseIdx_insertIdx_self axis).symm, fun index hindex => ?_⟩
  have hone : (table.shape.insertIdx k 1)[k]? = some 1 := by
    rw [List.getElem?_insertIdx_self, if_pos hk]
  have hcontains : Shape.Contains (table.shape.insertIdx k 1) (index.insertIdx k 0) := by
    refine Shape.Contains.insertIdx hone Nat.one_pos ?_
    rwa [List.eraseIdx_insertIdx_self]
  rw [← hwide] at hcontains
  rw [stored_eq_ok hindex, stored_eq_ok hcontains, hwide,
    Shape.offset_insertIdx_zero hk hindex.length_eq]
  rfl

/-- One more axis of a single node makes no difference to a query, whatever number its component
    is. -/
theorem get_widen [DefinedZero α] (hk : k ≤ table.shape.length) (hsize : axis.size = 1)
    (few : table.dimensions < axisLimit) (hlength : coordinate.length = table.dimensions)
    (hx : Scalar.isNaN x = false) :
    (table.widen k axis hk hsize few).get (coordinate.insertIdx k x) = table.get coordinate := by
  have haxes : k ≤ table.axes.length := by simpa [shape] using hk
  have hcoordinate : k ≤ coordinate.length := hlength ▸ haxes
  have haxis : (table.axes.insertIdx k axis)[k]? = some axis := by
    rw [List.getElem?_insertIdx_self, if_pos haxes]
  have hcomponent : (coordinate.insertIdx k x)[k]? = some x := by
    rw [List.getElem?_insertIdx_self, if_pos hcoordinate]
  have hwideLength : (coordinate.insertIdx k x).length = (table.axes.insertIdx k axis).length := by
    rw [List.length_insertIdx_of_le_length hcoordinate, List.length_insertIdx_of_le_length haxes,
      hlength, dimensions]
  -- The table is the slice of the wide one at the only node of the new axis.
  have hget := (isSlice_widen hk hsize few).get_eraseIdx haxis hwideLength hcomponent
    (Axis.hits_of_size_eq_one hsize hx)
  rw [List.eraseIdx_insertIdx_self] at hget
  exact hget.symm

/-! ### Fixing an axis -/

/-- **Slices.**  Where a node stands for a component, the component may be replaced by the node, or
    left out if the table is replaced by its slice at the node.  So components out of range may be
    clamped beforehand, and axes of a single node may be put in anywhere. -/
theorem get_eq_slice [DefinedZero α] (table : Table α) :
    (∀ k i axis coordinate x, table.axes[k]? = some axis → coordinate.length = table.dimensions →
      coordinate[k]? = some x → axis.Hits x i →
        axis.bracket x = .single i ∧
        table.get (coordinate.set k (axis.node i)) = table.get coordinate ∧
        (2 ≤ table.dimensions → ∃ part, table.IsSlice k i part) ∧
        ∀ part, table.IsSlice k i part →
          part.get (coordinate.eraseIdx k) = table.get coordinate) ∧
    (∀ coordinate, coordinate.length = table.dimensions →
      table.get (List.zipWith Axis.clamp table.axes coordinate) = table.get coordinate) ∧
    ∀ k axis, k ≤ table.dimensions → axis.size = 1 → table.dimensions < axisLimit →
      ∃ wide, build table.values (table.axes.insertIdx k axis) = .ok wide ∧
        ∀ coordinate x, coordinate.length = table.dimensions → Scalar.isNaN x = false →
          wide.get (coordinate.insertIdx k x) = table.get coordinate := by
  refine ⟨?_, fun coordinate hlength => get_clamp hlength, ?_⟩
  · intro k i axis coordinate x haxis hlength hx hits
    refine ⟨Axis.bracket_of_hits hits, get_set_node haxis hx hits, fun several => ?_,
      fun part hpart => hpart.get_eraseIdx haxis hlength hx hits⟩
    exact ⟨_, isSlice_slice several haxis hits.lt_size⟩
  · intro k axis hk hsize few
    have hk : k ≤ table.shape.length := by simpa [shape, dimensions] using hk
    -- What is built from the axes and the values is the widened table.
    refine ⟨table.widen k axis hk hsize few, build_eq_ok_iff.mpr ⟨rfl, rfl⟩, ?_⟩
    intro coordinate x hlength hx
    exact get_widen hk hsize few hlength hx

/-- The negative zero is on the first node, so the first axis can be fixed there; both components of
    the other coordinate are out of range. -/
theorem get_eq_slice_speckled :
    speckled.get [0.0, 2.5] = speckled.get [Float.ofBits 0x8000000000000000, 2.5] ∧
      (∃ part, speckled.IsSlice 0 0 part ∧
        part.get [2.5] = speckled.get [Float.ofBits 0x8000000000000000, 2.5]) ∧
      speckled.get [0.0, 5.0] = speckled.get [-1.0, 7.0] ∧
      ∃ wide, build speckled.values (speckled.axes.insertIdx 1 ⟨#[9.0], by decide +kernel⟩)
          = .ok wide ∧
        wide.get [0.5, 4.0, 2.5] = speckled.get [0.5, 2.5] := by
  obtain ⟨hfix, hclamp, hwiden⟩ := get_eq_slice speckled
  obtain ⟨-, hset, hexists, hslice⟩ := hfix 0 0 _ [Float.ofBits 0x8000000000000000, 2.5] _ rfl rfl
    rfl (.on (by decide) (by decide +kernel))
  obtain ⟨part, hpart⟩ := hexists (Nat.le_refl 2)
  have hends : List.zipWith Axis.clamp speckled.axes [-1.0, 7.0] = [0.0, 5.0] := by decide +kernel
  obtain ⟨wide, hbuild, hget⟩ := hwiden 1 ⟨#[9.0], by decide +kernel⟩ (by decide) rfl (by decide)
  refine ⟨hset, ⟨part, hpart, hslice part hpart⟩, ?_, wide, hbuild, ?_⟩
  · rw [← hends]
    exact hclamp _ rfl
  · exact hget [0.5, 2.5] 4.0 rfl (by decide +kernel)

end Table

end GridLookup
