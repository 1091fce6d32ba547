import GridLookup.Proofs.Shape
import GridLookup.Store.Nesting
import Mathlib.Data.List.Perm.Basic

namespace GridLookup

/-!
# Places in a block

When the storage order names every axis once, the places of a block and the multi-indices of
the table are the same things in another order.

* `Nesting.storedDigits` — the digits that a cell's place is read from, outermost first.
* `Nesting.indexAt` — the multi-index whose value lies at a place.
* `Nesting.place_bijOn`, `Nesting.indexAt_bijOn` — every multi-index has its own place, and every
  place is taken.
* `Nesting.place_of_isPlain` — in a plain nesting the place of a cell is its number.
-/

namespace Nesting

variable {nesting : Nesting}

/-! ### Flipped axes -/

/-- A node of an axis is still one when the axis is turned. -/
theorem flip_lt {axis node : Nat} (h : node < nesting.lengthAt axis) :
    nesting.flip axis node < nesting.lengthAt axis := by
  unfold flip
  split <;> omega

/-- Flipping an axis twice leaves its nodes where they were. -/
theorem flip_flip {axis node : Nat} (h : node < nesting.lengthAt axis) :
    nesting.flip axis (nesting.flip axis node) = node := by
  unfold flip
  split <;> omega

/-! ### The stored shape -/

/-- The positions of a cell's nodes on the nested axes, outermost first. -/
def storedDigits (nesting : Nesting) (index : List Nat) : List Nat :=
  nesting.storage.map fun axis => nesting.flip axis (index.getD axis 0)

/-- The place of an index is the offset of its digits as they are stored. -/
theorem place_eq (index : List Nat) :
    nesting.place index = Shape.offset nesting.storedShape (nesting.storedDigits index) := by
  unfold place storedDigits
  rw [Shape.rowMajor_eq_offset]
  simp [storedShape]

/-- Entries taken axis by axis lie in the shape taken axis by axis. -/
private theorem contains_map {axes : List Nat} {lengthOf digitOf : Nat → Nat} :
    Shape.Contains (axes.map lengthOf) (axes.map digitOf)
      ↔ ∀ axis ∈ axes, digitOf axis < lengthOf axis := by
  induction axes with
  | nil => simp
  | cons axis axes ih =>
    rw [List.map_cons, List.map_cons, Shape.contains_cons, ih]
    simp

variable (complete : nesting.storage.Perm (List.range nesting.shape.length))

include complete

/-- The storage order has all axes. -/
theorem mem_storage_iff {axis : Nat} : axis ∈ nesting.storage ↔ axis < nesting.shape.length := by
  rw [complete.mem_iff, List.mem_range]

/-- The storage order has no axis twice. -/
theorem storage_nodup : nesting.storage.Nodup :=
  complete.nodup_iff.mpr List.nodup_range

/-- The stored shape has the axis lengths of the table in another order. -/
theorem storedShape_perm : nesting.storedShape.Perm nesting.shape := by
  have h : (List.range nesting.shape.length).map nesting.lengthAt = nesting.shape := by
    refine List.ext_getElem (by simp) fun axis h h' => ?_
    simp [lengthAt, List.getD_eq_getElem?_getD, List.getElem?_eq_getElem h']
  have h' := complete.map nesting.lengthAt
  rwa [h] at h'

/-- There are as many cells in the order they are stored in. -/
theorem cells_storedShape : Shape.cells nesting.storedShape = Shape.cells nesting.shape :=
  Shape.cells_perm (storedShape_perm complete)

/-- An index within the shape is stored within the stored one. -/
theorem contains_storedDigits {index : List Nat} (h : Shape.Contains nesting.shape index) :
    Shape.Contains nesting.storedShape (nesting.storedDigits index) := by
  obtain ⟨-, h⟩ := Shape.contains_iff_getD.mp h
  refine contains_map.mpr fun axis haxis => flip_lt ?_
  exact h axis ((mem_storage_iff complete).mp haxis)

/-- An index within the shape has its place in the block. -/
theorem place_lt {index : List Nat} (h : Shape.Contains nesting.shape index) :
    nesting.place index < Shape.cells nesting.shape := by
  rw [place_eq, ← cells_storedShape complete]
  exact Shape.offset_lt_cells (contains_storedDigits complete h)

/-- The digits of a place determine the multi-index. -/
theorem storedDigits_injOn :
    Set.InjOn nesting.storedDigits {index | Shape.Contains nesting.shape index} := by
  intro index hindex other hother heq
  obtain ⟨hlen, hlt⟩ := Shape.contains_iff_getD.mp hindex
  obtain ⟨hlen', hlt'⟩ := Shape.contains_iff_getD.mp hother
  have hflip : ∀ axis ∈ nesting.storage,
      nesting.flip axis (index.getD axis 0) = nesting.flip axis (other.getD axis 0) :=
    List.map_inj_left.mp heq
  refine List.ext_getElem (by rw [hlen, hlen']) fun axis h h' => ?_
  have haxis : axis < nesting.shape.length := by omega
  have hsame := congrArg (nesting.flip axis) (hflip axis ((mem_storage_iff complete).mpr haxis))
  rw [flip_flip (hlt axis haxis), flip_flip (hlt' axis haxis)] at hsame
  simpa [List.getD_eq_getElem?_getD, List.getElem?_eq_getElem h, List.getElem?_eq_getElem h']
    using hsame

omit complete

/-! ### The multi-index at a place -/

/-- The multi-index whose value lies at a place: every digit of the place goes back to its
    axis. -/
def indexAt (nesting : Nesting) (place : Nat) : List Nat :=
  (List.range nesting.shape.length).map fun axis =>
    nesting.flip axis ((Shape.digits nesting.storedShape place).getD (nesting.storage.idxOf axis) 0)

include complete

/-- The index at a place has the digits of that place. -/
theorem indexAt_spec {place : Nat} (h : place < Shape.cells nesting.shape) :
    Shape.Contains nesting.shape (nesting.indexAt place) ∧
      nesting.storedDigits (nesting.indexAt place) = Shape.digits nesting.storedShape place := by
  rw [← cells_storedShape complete] at h
  have hdigits := Shape.digits_contains h
  obtain ⟨hlen, hlt⟩ := Shape.contains_iff_getD.mp hdigits
  have hstored : nesting.storedShape.length = nesting.storage.length := by simp [storedShape]
  rw [hstored] at hlen hlt
  -- The digit of an axis stands where the axis stands in the storage order.
  have hdigit : ∀ axis < nesting.shape.length,
      (Shape.digits nesting.storedShape place).getD (nesting.storage.idxOf axis) 0
        < nesting.lengthAt axis := by
    intro axis haxis
    have hpos := List.idxOf_lt_length_of_mem ((mem_storage_iff complete).mpr haxis)
    have := hlt _ hpos
    simpa [storedShape, List.getD_eq_getElem?_getD, List.getElem?_eq_getElem hpos] using this
  have hentry : ∀ axis < nesting.shape.length, (nesting.indexAt place).getD axis 0
      = nesting.flip axis
          ((Shape.digits nesting.storedShape place).getD (nesting.storage.idxOf axis) 0) := by
    intro axis haxis
    simp [indexAt, List.getD_eq_getElem?_getD, List.getElem?_range haxis]
  constructor
  · refine Shape.contains_iff_getD.mpr ⟨by simp [indexAt], fun axis haxis => ?_⟩
    rw [hentry axis haxis]
    exact flip_lt (hdigit axis haxis)
  · refine List.ext_getElem (by simp [storedDigits, hlen]) fun k hk hk' => ?_
    have hk : k < nesting.storage.length := by omega
    have haxis := (mem_storage_iff complete).mp (List.getElem_mem hk)
    have hidx : nesting.storage.idxOf nesting.storage[k] = k :=
      (storage_nodup complete).idxOf_getElem k hk
    simp only [storedDigits, List.getElem_map]
    rw [hentry _ haxis, flip_flip (hdigit _ haxis), hidx]
    simp [List.getD_eq_getElem?_getD, List.getElem?_eq_getElem hk']

/-- The index at a place lies within the shape. -/
theorem contains_indexAt {place : Nat} (h : place < Shape.cells nesting.shape) :
    Shape.Contains nesting.shape (nesting.indexAt place) :=
  (indexAt_spec complete h).1

/-- The value of `indexAt` lies at the place it was made from. -/
theorem place_indexAt {place : Nat} (h : place < Shape.cells nesting.shape) :
    nesting.place (nesting.indexAt place) = place := by
  rw [place_eq, (indexAt_spec complete h).2]
  exact Shape.offset_digits (by rwa [cells_storedShape complete])

/-- **Places are multi-indices.**  Every multi-index has a place of its own in the block, and
    every place of the block belongs to a multi-index. -/
theorem place_bijOn :
    Set.BijOn nesting.place {index | Shape.Contains nesting.shape index}
      (Set.Iio (Shape.cells nesting.shape)) := by
  refine ⟨fun index h => place_lt complete h, fun index h other hother heq => ?_,
    fun place h => ⟨_, contains_indexAt complete h, place_indexAt complete h⟩⟩
  rw [place_eq, place_eq] at heq
  have hdigits := (Shape.offset_bijOn nesting.storedShape).injOn
    (contains_storedDigits complete h) (contains_storedDigits complete hother) heq
  exact storedDigits_injOn complete h hother hdigits

/-- Every place has a multi-index of its own, and every multi-index has a place. -/
theorem indexAt_bijOn :
    Set.BijOn nesting.indexAt (Set.Iio (Shape.cells nesting.shape))
      {index | Shape.Contains nesting.shape index} := by
  have hplaces := place_bijOn complete
  have hinverse :
      Set.LeftInvOn nesting.place nesting.indexAt (Set.Iio (Shape.cells nesting.shape)) :=
    fun place h => place_indexAt complete h
  refine hplaces.symm ⟨hinverse, ?_⟩
  exact hplaces.injOn.rightInvOn_of_leftInvOn hinverse hplaces.mapsTo
    fun place h => contains_indexAt complete h

/-! ### Plain nestings -/

/-- In a plain nesting a value lies at the number of its cell. -/
theorem place_of_isPlain (plain : nesting.isPlain = true) {index : List Nat}
    (h : Shape.Contains nesting.shape index) :
    nesting.place index = Shape.offset nesting.shape index := by
  simp only [isPlain, Bool.and_eq_true, beq_iff_eq, List.all_eq_true, Bool.not_eq_true'] at plain
  obtain ⟨horder, hforward⟩ := plain
  have hlen := complete.length_eq
  rw [List.length_range] at hlen
  rw [hlen] at horder
  have hindex := h.length_eq
  -- The axes are stored in their order and forward, so lengths and digits are those of the table.
  have hshape : nesting.storedShape = nesting.shape := by
    refine List.ext_getElem (by simp [storedShape, hlen]) fun axis hk hk' => ?_
    simp [storedShape, horder, lengthAt, List.getD_eq_getElem?_getD, List.getElem?_eq_getElem hk']
  have hdigits : nesting.storedDigits index = index := by
    refine List.ext_getElem (by simp [storedDigits, hlen, hindex]) fun axis hk hk' => ?_
    have haxis : axis ∈ nesting.storage := by
      rw [mem_storage_iff complete]
      omega
    simp only [storedDigits, horder, List.getElem_map, List.getElem_range]
    simp [flip, hforward axis haxis, List.getD_eq_getElem?_getD, List.getElem?_eq_getElem hk']
  rw [place_eq, hshape, hdigits]

end Nesting

end GridLookup
