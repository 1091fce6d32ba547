import GridLookup.Proofs.Odometer
import GridLookup.Store.Reading

namespace GridLookup

/-!
# The values of a block

Reading a block moves every word to a cell of the table, along the odometer of the nesting.

* `Odometer.toList_cells_start` — the odometer visits every cell once.
* `scatter` — the words written to the cells it visits.
* `unnest_getElem` — the value of a cell is the word at the place of its multi-index.
* `scatter_eq_unnest` — the words of a block in the order of the table stay in this order.
-/

/-! ### Placing words -/

theorem placeWords_size (pairs : List (Nat × Word)) (values : Array Float) :
    (placeWords pairs values).size = values.size := by
  induction pairs generalizing values with
  | nil => rfl
  | cons pair pairs ih =>
    rw [placeWords, ih, Array.size_setIfInBounds]

/-- A cell that no word goes to keeps its value. -/
private theorem placeWords_getElem_of_notMem {pairs : List (Nat × Word)} {cell : Nat}
    (h : cell ∉ pairs.map Prod.fst) (values : Array Float) :
    (placeWords pairs values)[cell]? = values[cell]? := by
  induction pairs generalizing values with
  | nil => rfl
  | cons pair pairs ih =>
    rw [List.map_cons, List.mem_cons, not_or] at h
    obtain ⟨hne, h⟩ := h
    rw [placeWords, ih h, Array.getElem?_setIfInBounds_ne (Ne.symm hne)]

/-- Where no cell gets two words, each gets its own. -/
theorem placeWords_getElem {pairs : List (Nat × Word)} (distinct : (pairs.map Prod.fst).Nodup)
    {cell : Nat} {word : Word} (h : (cell, word) ∈ pairs) {values : Array Float}
    (hcell : cell < values.size) :
    (placeWords pairs values)[cell]? = some word.widen := by
  induction pairs generalizing values with
  | nil => exact absurd h List.not_mem_nil
  | cons pair pairs ih =>
    rw [List.map_cons, List.nodup_cons] at distinct
    obtain ⟨hfresh, distinct⟩ := distinct
    rw [placeWords]
    rcases List.mem_cons.mp h with rfl | h
    · rw [placeWords_getElem_of_notMem hfresh, Array.getElem?_setIfInBounds_self_of_lt hcell]
    · exact ih distinct h (by rwa [Array.size_setIfInBounds])

/-! ### Every cell is visited once -/

section Nested

variable {nesting : Nesting}
  (complete : nesting.storage.Perm (List.range nesting.shape.length))

include complete

/-- At its `k`-th position the odometer points at the cell whose value lies at place `k`. -/
theorem Odometer.toList_cells_start :
    (Odometer.start nesting).cells.toList
      = (List.range (Shape.cells nesting.shape)).map fun place =>
          Shape.offset nesting.shape (nesting.indexAt place) := by
  refine List.ext_getElem? fun place => ?_
  by_cases h : place < Shape.cells nesting.shape
  · have hcell := Odometer.cells_getElem_place complete (Nesting.contains_indexAt complete h)
    rw [Nesting.place_indexAt complete h] at hcell
    rw [hcell, List.getElem?_map, List.getElem?_range h, Option.map_some]
  · have hsize : (Odometer.start nesting).cells.toList.length ≤ place := by
      rw [Array.length_toList, Odometer.size_cells_start]
      omega
    rw [List.getElem?_eq_none hsize, List.getElem?_eq_none]
    simpa using h

theorem Odometer.nodup_cells_start : (Odometer.start nesting).cells.toList.Nodup := by
  have hcells := (Shape.offset_bijOn nesting.shape).comp (Nesting.indexAt_bijOn complete)
  rw [Odometer.toList_cells_start complete]
  refine List.Nodup.map_on (fun place hplace other hother heq => ?_) List.nodup_range
  exact hcells.injOn (List.mem_range.mp hplace) (List.mem_range.mp hother) heq

/-! ### Unnesting -/

/-- The words of a block, each written to the cell that the odometer points at. -/
def scatter (nesting : Nesting) (block : Array Word) : Array Float :=
  placeWords ((Odometer.start nesting).cells.toList.zip block.toList)
    (Array.replicate block.size 0.0)

omit complete in
theorem scatter_size {block : Array Word} : (scatter nesting block).size = block.size := by
  rw [scatter, placeWords_size, Array.size_replicate]

omit complete in
theorem unnest_size {block : Array Word} : (unnest nesting block).size = block.size := by
  unfold unnest
  split
  · exact Array.size_map
  · exact scatter_size

theorem scatter_getElem {block : Array Word} (hsize : block.size = Shape.cells nesting.shape)
    {index : List Nat} (h : Shape.Contains nesting.shape index) :
    (scatter nesting block)[Shape.offset nesting.shape index]?
      = block[nesting.place index]?.map Word.widen := by
  have hplace : nesting.place index < block.size := hsize ▸ Nesting.place_lt complete h
  have hoffset := Shape.offset_lt_cells h
  have hcells := Odometer.cells_getElem_place complete h
  have hlength : block.toList.length = (Odometer.start nesting).cells.toList.length := by
    rw [Array.length_toList, Array.length_toList, Odometer.size_cells_start, hsize]
  -- The word at the place of the multi-index is the one that is paired with its cell.
  have hpair : (Shape.offset nesting.shape index, block[nesting.place index])
      ∈ (Odometer.start nesting).cells.toList.zip block.toList := by
    refine List.mem_of_getElem? (i := nesting.place index) ?_
    rw [List.getElem?_zip_eq_some]
    exact ⟨hcells, by simp [hplace]⟩
  rw [Array.getElem?_eq_getElem hplace, Option.map_some]
  refine placeWords_getElem ?_ hpair (by rw [Array.size_replicate]; omega)
  rw [List.map_fst_zip (by omega)]
  exact Odometer.nodup_cells_start complete

/-- **Unnesting.**  The value of a cell is the word that lies at the place of its
    multi-index. -/
theorem unnest_getElem {block : Array Word} (hsize : block.size = Shape.cells nesting.shape)
    {index : List Nat} (h : Shape.Contains nesting.shape index) :
    (unnest nesting block)[Shape.offset nesting.shape index]?
      = block[nesting.place index]?.map Word.widen := by
  unfold unnest
  split
  · next plain =>
    rw [Nesting.place_of_isPlain complete plain h, Array.getElem?_map]
  · exact scatter_getElem complete hsize h

/-- A block in the order of the table need not be scattered, but it may be. -/
theorem scatter_eq_unnest {block : Array Word} (hsize : block.size = Shape.cells nesting.shape) :
    scatter nesting block = unnest nesting block := by
  refine Array.ext_getElem? fun cell => ?_
  by_cases hcell : cell < Shape.cells nesting.shape
  · have hindex := Shape.digits_contains hcell
    have hscatter := scatter_getElem complete hsize hindex
    rw [← unnest_getElem complete hsize hindex, Shape.offset_digits hcell] at hscatter
    exact hscatter
  · rw [Array.getElem?_eq_none (by rw [scatter_size]; omega),
      Array.getElem?_eq_none (by rw [unnest_size]; omega)]

end Nested

end GridLookup
