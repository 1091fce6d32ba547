import GridLookup.Proofs.Assignment
import GridLookup.Proofs.Bits
import GridLookup.Proofs.Cell
import GridLookup.Proofs.Corners

namespace GridLookup

/-!
# Queries on grid points

Where every component of a coordinate is on a node or beyond an end, a query only looks a value up.

* `DefinedZero` — scalars of which the weight of a single node is a number.
* `Axis.Hits` — a coordinate that one node stands for; `Axis.bracket_of_hits` brackets it.
* `OnGrid` — a coordinate that a multi-index stands for.
* `Table.get_eq_stored` — all queries at such a coordinate return the stored value.
-/

/-- A scalar whose zero is a number. -/
class DefinedZero (α : Type) [Scalar α] : Prop where
  /-- Zero is not undefined. -/
  isNaN_zero : Scalar.isNaN (0.0 : α) = false

instance : DefinedZero Float := ⟨by decide⟩

instance : DefinedZero ℚ := ⟨rfl⟩

variable {α : Type} [Scalar α]

theorem Bracket.isSingle_single (i : Nat) : (Bracket.single i : Bracket α).isSingle = true := by
  simp [isSingle, single]

theorem Bracket.isUndefined_single [DefinedZero α] (i : Nat) :
    (Bracket.single i : Bracket α).isUndefined = false := DefinedZero.isNaN_zero

variable [LawfulScalar α]

/-! ### Hit nodes -/

namespace Axis

/-- The node stands for the coordinate: they are numerically equal, or the coordinate is beyond the
    end at which the node is. -/
inductive Hits (axis : Axis α) (x : α) (i : Nat) : Prop where
  /-- On the node. -/
  | on (size : i < axis.size) (h : Scalar.eq x (axis.node i) = true)
  /-- Below the first node. -/
  | below (first : i = 0) (h : Scalar.lt x axis.least = true)
  /-- Above the last node. -/
  | above (last : i = axis.last) (h : Scalar.lt axis.greatest x = true)

variable {axis : Axis α} {x : α} {i : Nat}

omit [LawfulScalar α] in
/-- Only nodes of the axis are hit. -/
theorem Hits.lt_size (h : axis.Hits x i) : i < axis.size := by
  cases h with
  | on size => exact size
  | below first => rw [first]; exact axis.size_pos
  | above last => rw [last]; exact axis.last_lt_size

/-- What the three cases have in common: the coordinate is a number, above the node only if this is
    the last one and below it only if it is the first. -/
theorem Hits.bounds (h : axis.Hits x i) : Scalar.isNaN x = false ∧
    (Scalar.le x (axis.node i) = true ∨ i = axis.last) ∧
      (Scalar.le (axis.node i) x = true ∨ i = 0) := by
  cases h with
  | on _ heq =>
    obtain ⟨hle, hge⟩ := LawfulScalar.eq_iff.mp heq
    exact ⟨(LawfulScalar.number_of_le hle).1, Or.inl hle, Or.inl hge⟩
  | below first hlt =>
    subst first
    have hle := Scalar.le_of_lt hlt
    exact ⟨(LawfulScalar.number_of_le hle).1, Or.inl hle, Or.inr rfl⟩
  | above last hlt =>
    subst last
    have hle := Scalar.le_of_lt hlt
    exact ⟨(LawfulScalar.number_of_le hle).2, Or.inr rfl, Or.inl hle⟩

/-- A node that is not above another one does not come after it. -/
theorem le_of_node_le_node {j : Nat} (hi : i < axis.size)
    (h : Scalar.le (axis.node i) (axis.node j) = true) : i ≤ j := by
  by_contra hlt
  have hnot := (LawfulScalar.lt_iff.mp (node_lt_node (Nat.lt_of_not_le hlt) hi)).2
  rw [h] at hnot
  cases hnot

/-- A node that is below another one comes before it. -/
theorem lt_of_node_lt_node {j : Nat} (hi : i < axis.size)
    (h : Scalar.lt (axis.node i) (axis.node j) = true) : i < j := by
  by_contra hle
  have hnot := (LawfulScalar.lt_iff.mp h).2
  rw [node_le_node (Nat.le_of_not_lt hle) hi] at hnot
  cases hnot

/-- **Hit nodes are found.**  The bracket of a coordinate that a node stands for is that node. -/
theorem bracket_of_hits (h : axis.Hits x i) : axis.bracket x = .single i := by
  obtain ⟨hnumber, hupper, hlower⟩ := h.bounds
  have hi := h.lt_size
  have hlast : ∀ j < axis.size, j ≤ axis.last := fun j hj => Nat.le_sub_one_of_lt hj
  have hlocated := axis.bracket_located hnumber
  generalize axis.bracket x = bracket at hlocated
  cases hlocated with
  | below hbelow =>
    rcases hlower with hlower | rfl
    · rw [Nat.le_zero.mp (le_of_node_le_node hi (LawfulScalar.le_trans hlower hbelow))]
    · rfl
  | above habove =>
    rcases hupper with hupper | rfl
    · have hle := le_of_node_le_node axis.last_lt_size (LawfulScalar.le_trans habove hupper)
      rw [Nat.le_antisymm (hlast i hi) hle]
    · rfl
  | @on j size heq =>
    obtain ⟨hle, hge⟩ := LawfulScalar.eq_iff.mp heq
    have hij : i ≤ j := by
      rcases hlower with hlower | rfl
      · exact le_of_node_le_node hi (LawfulScalar.le_trans hlower hle)
      · exact Nat.zero_le j
    have hji : j ≤ i := by
      rcases hupper with hupper | rfl
      · exact le_of_node_le_node size (LawfulScalar.le_trans hge hupper)
      · exact hlast j size
    rw [Nat.le_antisymm hij hji]
  | @between j size lower upper =>
    -- The node would have to come after the lower one and before the upper one.
    have hji : j < i := by
      rcases hupper with hupper | rfl
      · exact lt_of_node_lt_node (Nat.lt_of_succ_lt size) (Scalar.lt_of_lt_of_le lower hupper)
      · exact hlast (j + 1) size
    have hij : i < j + 1 := by
      rcases hlower with hlower | rfl
      · exact lt_of_node_lt_node hi (Scalar.lt_of_le_of_lt hlower upper)
      · exact Nat.succ_pos j
    omega

end Axis

/-! ### Grid points -/

/-- The multi-index stands for the coordinate: on every axis its node does. -/
inductive OnGrid : List (Axis α) → List α → List Nat → Prop where
  /-- No axis is left. -/
  | nil : OnGrid [] [] []
  /-- One more axis in front. -/
  | cons {axis : Axis α} {x : α} {i : Nat} {axes : List (Axis α)} {coordinate : List α}
      {index : List Nat} (hits : axis.Hits x i) (rest : OnGrid axes coordinate index) :
      OnGrid (axis :: axes) (x :: coordinate) (i :: index)

namespace OnGrid

variable {axes : List (Axis α)} {coordinate : List α} {index : List Nat}

omit [LawfulScalar α] in
/-- A coordinate on the grid has a component for every axis. -/
theorem length_eq (h : OnGrid axes coordinate index) : coordinate.length = axes.length := by
  induction h with
  | nil => rfl
  | cons _ _ ih => simp [ih]

omit [LawfulScalar α] in
/-- The index of a coordinate on the grid lies within the shape. -/
theorem contains (h : OnGrid axes coordinate index) :
    Shape.Contains (axes.map Axis.size) index := by
  induction h with
  | nil => trivial
  | cons hits _ ih => exact ⟨hits.lt_size, ih⟩

/-- On the grid there is one node around every component. -/
theorem brackets_eq (h : OnGrid axes coordinate index) :
    List.zipWith Axis.bracket axes coordinate = index.map Bracket.single := by
  induction h with
  | nil => rfl
  | cons hits _ ih => rw [List.zipWith_cons_cons, Axis.bracket_of_hits hits, ih, List.map_cons]

end OnGrid

omit [LawfulScalar α] in
/-- Where every bracket is a single node, nothing is calculated. -/
theorem interpolant_single [DefinedZero α] (index : List Nat) (values : List Nat → α) :
    interpolant (index.map Bracket.single) values = values index := by
  have hdefined : (index.map Bracket.single).any (Bracket.isUndefined (α := α)) = false := by
    simp [Bracket.isUndefined_single]
  have hsingle : (index.map Bracket.single).all (Bracket.isSingle (α := α)) = true := by
    simp [Bracket.isSingle_single]
  have hlower : (index.map Bracket.single).map (Bracket.lo (α := α)) = index := by
    simp [Function.comp_def, Bracket.single]
  unfold interpolant
  rw [hdefined, hsingle, hlower]
  rfl

namespace Table

variable [DefinedZero α] {table : Table α} {coordinate : List α} {index : List Nat}

/-- On the grid a table is interpolated to its own value. -/
theorem interpolate_of_onGrid (h : OnGrid table.axes coordinate index) :
    table.interpolate coordinate = table.value (Shape.offset table.shape index) := by
  rw [table.interpolate_eq_interpolant h.length_eq, brackets, h.brackets_eq, interpolant_single]

/-- The query of one coordinate gives the value of the node that is hit. -/
theorem get1_of_onGrid {x : α} (h : OnGrid table.axes [x] index) :
    table.get1 x = .ok (table.value (Shape.offset table.shape index)) := by
  match haxes : table.axes, index, h with
  | [axis], [i], .cons hits .nil =>
    have hlower : (Bracket.single i : Bracket α).lo = i := rfl
    rw [get1_of_axis haxes, offset_of_axis haxes, interpolate1, Axis.bracket_of_hits hits,
      Bracket.isUndefined_single, Bracket.isSingle_single, hlower]
    simp

/-- **Grid points.**  At a coordinate that a multi-index stands for, a query returns the value that
    is stored there, and applies no arithmetic to it: by position, by name with the components in
    any order, and by the only component where there is one. -/
theorem get_eq_stored (h : OnGrid table.axes coordinate index) :
    ∃ value, table.stored index = .ok value ∧ table.get coordinate = .ok value ∧
      (∀ named : NamedTable α, named.toTable = table →
        named.get coordinate = .ok value ∧
          ∀ components : List (String × α), components.Perm (named.names.zip coordinate) →
            named.getNamed components = .ok value) ∧
      ∀ x, coordinate = [x] → table.get1 x = .ok value := by
  have hget : table.get coordinate = .ok (table.value (Shape.offset table.shape index)) := by
    rw [table.get_of_length h.length_eq, interpolate_of_onGrid h]
  refine ⟨_, stored_eq_ok h.contains, hget, ?_, ?_⟩
  · rintro named rfl
    refine ⟨hget, fun components hperm => ?_⟩
    rw [NamedTable.getNamed_of_perm h.length_eq hperm, interpolate_of_onGrid h]
  · rintro x rfl
    exact get1_of_onGrid h

/-- A table with an undefined value. -/
def speckled : Table Float where
  axes := [⟨#[0.0, 1.0], by decide +kernel⟩, ⟨#[2.0, 3.0, 5.0], by decide +kernel⟩]
  values := #[1.0, 2.0, Float.ofBits 0x7ff8000000000000, 4.0, 5.0, 6.0]
  axes_ne_nil := by simp
  axes_length_le := by decide
  values_size := by decide

/-- The negative zero is on the first node of one axis, and infinity is above the other. -/
theorem get_eq_stored_speckled :
    OnGrid speckled.axes [Float.ofBits 0x8000000000000000, Float.ofBits 0x7ff0000000000000] [0, 2] ∧
      ∃ value, speckled.stored [0, 2] = .ok value ∧
        speckled.get [Float.ofBits 0x8000000000000000, Float.ofBits 0x7ff0000000000000]
          = .ok value ∧
        (NamedTable.ofTable speckled).getNamed [("dim1", Float.ofBits 0x7ff0000000000000),
          ("dim0", Float.ofBits 0x8000000000000000)] = .ok value := by
  have onGrid : OnGrid speckled.axes
      [Float.ofBits 0x8000000000000000, Float.ofBits 0x7ff0000000000000] [0, 2] :=
    .cons (.on (by decide) (by decide +kernel)) (.cons (.above rfl (by decide +kernel)) .nil)
  obtain ⟨value, hstored, hget, hnamed, -⟩ := get_eq_stored onGrid
  have hnames : (NamedTable.ofTable speckled).names = ["dim0", "dim1"] := by decide +kernel
  obtain ⟨-, hcomponents⟩ := hnamed (.ofTable speckled) rfl
  refine ⟨onGrid, value, hstored, hget, hcomponents _ ?_⟩
  rw [hnames]
  exact List.Perm.swap ..

end Table

end GridLookup
