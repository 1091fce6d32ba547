import GridLookup.Proofs.GridPoint

namespace GridLookup

/-!
# Locality

A query reads the enclosing cell and nothing else.  Of two tables that store the same values there,
it cannot tell one from the other, whatever they store elsewhere.

* `Table.overwrite` — a table with one other value; `Table.stored_overwrite_ne` keeps the rest.
* `Table.get_congr_stored`, `Table.get1_congr_stored` — only the nodes of the brackets are read.
* `getElem?_of_picks` — on an axis that is hit, only the node that is hit.
* `Table.get_local` — all of this together.
-/

variable {α : Type} [Scalar α]

namespace Shape

/-- Cells of different multi-indices are different. -/
theorem offset_ne_offset {shape index other : List Nat} (hindex : Contains shape index)
    (hother : Contains shape other) (h : other ≠ index) :
    offset shape other ≠ offset shape index := by
  intro hoffset
  refine h ?_
  rw [← digits_offset hother, hoffset, digits_offset hindex]

end Shape

/-! ### Nodes that are read -/

/-- An index of the nodes of some brackets has the node of each bracket of a single one. -/
theorem getElem?_of_picks {brackets : List (Bracket α)} {index : List Nat} {k i : Nat}
    (h : Picks brackets index) (hsingle : brackets[k]? = some (.single i)) :
    index[k]? = some i := by
  induction h generalizing k with
  | nil => simp at hsingle
  | @cons bracket node brackets index hnode _ ih =>
    cases k with
    | zero =>
      obtain rfl : bracket = .single i := Option.some.inj hsingle
      rcases hnode with rfl | rfl <;> rfl
    | succ k => exact ih hsingle

namespace Table

/-! ### Other values -/

/-- The same table with another value at a multi-index. -/
def overwrite (table : Table α) (index : List Nat) (value : α) : Table α where
  axes := table.axes
  values := table.values.setIfInBounds (Shape.offset table.shape index) value
  axes_ne_nil := table.axes_ne_nil
  axes_length_le := table.axes_length_le
  values_size := by rw [Array.size_setIfInBounds, table.values_size]

variable {table other : Table α} {coordinate : List α} {index : List Nat}

/-- Overwriting takes effect. -/
theorem stored_overwrite_self (value : α) (h : Shape.Contains table.shape index) :
    (table.overwrite index value).stored index = .ok value := by
  have hcell := offset_lt_size h
  have h' : Shape.Contains (table.overwrite index value).shape index := h
  rw [stored_eq_ok h']
  show Except.ok ((table.values.setIfInBounds (Shape.offset table.shape index) value).getD
    (Shape.offset table.shape index) Scalar.nan) = .ok value
  simp [hcell]

/-- Overwriting a value changes no other one. -/
theorem stored_overwrite_ne (value : α) {place : List Nat} (h : Shape.Contains table.shape place)
    (hindex : Shape.Contains table.shape index) (hne : index ≠ place) :
    (table.overwrite place value).stored index = table.stored index := by
  have hcell := (Shape.offset_ne_offset h hindex hne).symm
  have hindex' : Shape.Contains (table.overwrite place value).shape index := hindex
  rw [stored_eq_ok hindex, stored_eq_ok hindex']
  show Except.ok ((table.values.setIfInBounds (Shape.offset table.shape place) value).getD
    (Shape.offset table.shape index) Scalar.nan) = .ok (table.values.getD _ Scalar.nan)
  simp [hcell]

/-! ### Two tables with the same cell -/

/-- The values of a cell are those that are stored there. -/
theorem value_congr_stored (haxes : other.axes = table.axes)
    (h : Shape.Contains table.shape index) (hstored : other.stored index = table.stored index) :
    other.value (Shape.offset other.shape index)
      = table.value (Shape.offset table.shape index) := by
  have hshape : other.shape = table.shape := congrArg (List.map Axis.size) haxes
  have hother : Shape.Contains other.shape index := hshape.symm ▸ h
  rw [stored_eq_ok h, stored_eq_ok hother] at hstored
  exact Except.ok.inj hstored

variable [LawfulScalar α]

/-- A query tells tables apart by the values at the nodes of its brackets only. -/
theorem get_congr_stored (haxes : other.axes = table.axes)
    (hstored : ∀ index, Picks (table.brackets coordinate) index →
      other.stored index = table.stored index) :
    other.get coordinate = table.get coordinate := by
  have hdimensions : other.dimensions = table.dimensions := congrArg List.length haxes
  have hbrackets : other.brackets coordinate = table.brackets coordinate := by
    rw [brackets, haxes, brackets]
  by_cases hlength : coordinate.length = table.dimensions
  · rw [get_of_length other (hlength.trans hdimensions.symm), get_of_length table hlength,
      interpolate_eq_interpolant other (hlength.trans hdimensions.symm),
      interpolate_eq_interpolant table hlength, hbrackets]
    refine congrArg Except.ok (interpolant_congr fun index hindex => ?_)
    exact value_congr_stored haxes (contains_of_picks hlength hindex) (hstored index hindex)
  · -- Both tables refuse the coordinate.
    rw [get_of_length_ne table hlength, get_of_length_ne other (hdimensions ▸ hlength), hdimensions]

/-- The query of one coordinate depends on the values around it only. -/
theorem get1_congr_stored {x : α} (haxes : other.axes = table.axes)
    (hstored : ∀ index, Picks (table.brackets [x]) index →
      other.stored index = table.stored index) :
    other.get1 x = table.get1 x := by
  have hdimensions : other.dimensions = table.dimensions := congrArg List.length haxes
  by_cases hone : table.dimensions = 1
  · obtain ⟨axis, htable⟩ := exists_axis hone
    have hother : other.axes = [axis] := haxes.trans htable
    have hlength : [x].length = table.dimensions := hone.symm
    -- Along one axis the cells are the nodes.
    have hvalue (node : Nat) (hnode : node = (axis.bracket x).lo ∨ node = (axis.bracket x).hi) :
        other.value node = table.value node := by
      have hpicks : Picks (table.brackets [x]) [node] := by
        rw [brackets_of_axis htable]
        exact .cons hnode .nil
      have hvalue := value_congr_stored haxes (contains_of_picks hlength hpicks)
        (hstored _ hpicks)
      rwa [offset_of_axis htable, offset_of_axis hother] at hvalue
    rw [get1_of_axis htable, get1_of_axis hother]
    unfold interpolate1
    rw [hvalue _ (Or.inl rfl), hvalue _ (Or.inr rfl)]
  · rw [get1_of_dimensions_ne hone, get1_of_dimensions_ne (hdimensions ▸ hone), hdimensions]

/-- What is stored elsewhere than at the nodes of its brackets may be overwritten. -/
theorem get_overwrite (value : α) (h : Shape.Contains table.shape index)
    (hpicks : ¬ Picks (table.brackets coordinate) index) :
    (table.overwrite index value).get coordinate = table.get coordinate := by
  by_cases hlength : coordinate.length = table.dimensions
  · refine get_congr_stored rfl fun picked hpicked => ?_
    refine stored_overwrite_ne value h (contains_of_picks hlength hpicked) ?_
    rintro rfl
    exact hpicks hpicked
  · rw [get_of_length_ne table hlength]
    exact get_of_length_ne (table.overwrite index value) hlength

/-- **Locality.**  Tables with the same axes that store the same at all nodes of the brackets of a
    coordinate give the same result there, bit for bit, or the same error.  So the value of a cell
    elsewhere may be anything, and on an axis of which the coordinate hits a node, or is beyond it,
    so may the values at all other nodes. -/
theorem get_local (table : Table α) (coordinate : List α) :
    (∀ other : Table α, other.axes = table.axes →
      (∀ index, Picks (table.brackets coordinate) index →
        other.stored index = table.stored index) →
      other.get coordinate = table.get coordinate ∧
        ∀ x, coordinate = [x] → other.get1 x = table.get1 x) ∧
    (∀ index value, Shape.Contains table.shape index →
      ¬ Picks (table.brackets coordinate) index →
        (table.overwrite index value).get coordinate = table.get coordinate) ∧
    ∀ (k i : Nat) (axis : Axis α) (x : α) (index : List Nat) (value : α),
      table.axes[k]? = some axis → coordinate[k]? = some x → axis.Hits x i →
        Shape.Contains table.shape index → index[k]? ≠ some i →
        (table.overwrite index value).get coordinate = table.get coordinate := by
  refine ⟨fun other haxes hstored => ⟨get_congr_stored haxes hstored, ?_⟩,
    fun index value h hpicks => get_overwrite value h hpicks, ?_⟩
  · rintro x rfl
    exact get1_congr_stored haxes hstored
  · intro k i axis x index value haxis hx hits h hne
    -- A node that is hit is the only one of its bracket, so no other entry is picked there.
    have hsingle : (table.brackets coordinate)[k]? = some (.single i) := by
      simp [brackets, List.getElem?_zipWith, haxis, hx, Axis.bracket_of_hits hits]
    exact get_overwrite value h fun hpicks => hne (getElem?_of_picks hpicks hsingle)

/-- The undefined value is not at a node of the brackets of the first coordinate.  The second one
    hits a node of the first axis, so the value next to it does not matter either. -/
theorem get_local_speckled :
    Picks (speckled.brackets [0.25, 2.5]) [1, 1] ∧
      (speckled.overwrite [0, 2] 7.0).stored [0, 2] = .ok 7.0 ∧
      (speckled.overwrite [0, 2] 7.0).get [0.25, 2.5] = speckled.get [0.25, 2.5] ∧
      (speckled.overwrite [1, 1] (Float.ofBits 0x7ff0000000000000)).get [0.0, 2.5]
        = speckled.get [0.0, 2.5] := by
  have hcontains : Shape.Contains speckled.shape [0, 2] := ⟨by decide, by decide, trivial⟩
  have hoff : ¬ Picks (speckled.brackets [0.25, 2.5]) [0, 2] := by decide +kernel
  obtain ⟨hcongr, -, -⟩ := get_local speckled [0.25, 2.5]
  obtain ⟨-, -, hhit⟩ := get_local speckled [0.0, 2.5]
  refine ⟨by decide +kernel, stored_overwrite_self 7.0 hcontains, ?_, ?_⟩
  · refine (hcongr (speckled.overwrite [0, 2] 7.0) rfl fun index hindex => ?_).1
    refine stored_overwrite_ne 7.0 hcontains (contains_of_picks rfl hindex) ?_
    rintro rfl
    exact hoff hindex
  · exact hhit 0 0 _ _ [1, 1] _ rfl rfl (.on (by decide) (by decide +kernel))
      ⟨by decide, by decide, trivial⟩ (by decide)

end Table

end GridLookup
