import GridLookup.Proofs.Walk

namespace GridLookup

/-!
# Calling an odometer

A reader does not ask an odometer for all of its cells: it calls it for one after another until
none comes, and might call it again after that.

* `Odometer.call`, `Odometer.after` — one call, and the odometer after some of them.
* `Odometer.call_after` — what the calls give are the cells the odometer has left, then nothing.
* `Odometer.rowMajor_indexAt_bijOn` — the cells of all places are all cells, each once.
* `Odometer.start_visits` — the whole way of a nesting's odometer.
-/

namespace Odometer

/-! ### Calls -/

/-- One call: the cell that comes, if there is one left, and the odometer after it. -/
def call (odometer : Odometer) : Option Nat × Odometer :=
  match odometer.next? with
  | some (cell, rest) => (some cell, rest)
  | none => (none, odometer)

/-- The odometer after some calls. -/
def after (odometer : Odometer) (calls : Nat) : Odometer :=
  (fun odometer => odometer.call.2)^[calls] odometer

/-- How many cells an odometer announces, at least and at most. -/
def sizeHint (odometer : Odometer) : Nat × Option Nat :=
  (odometer.remaining, some odometer.remaining)

/-- The calls but the first are made of the odometer that the first one leaves. -/
theorem after_succ (odometer : Odometer) (calls : Nat) :
    odometer.after (calls + 1) = odometer.call.2.after calls :=
  Function.iterate_succ_apply _ calls odometer

/-- A call takes the first of the cells that are left. -/
theorem call_spec (odometer : Odometer) :
    odometer.call.1 = odometer.cells.toList.head? ∧
      odometer.call.2.cells.toList = odometer.cells.toList.tail := by
  unfold call
  cases hnext : odometer.next? with
  | none => simp [toList_cells_of_none hnext]
  | some step => simp [toList_cells_of_some hnext]

/-- Every call takes one cell off the front. -/
theorem toList_cells_after (odometer : Odometer) (calls : Nat) :
    (odometer.after calls).cells.toList = odometer.cells.toList.drop calls := by
  induction calls generalizing odometer with
  | zero => rfl
  | succ calls ih => rw [after_succ, ih, odometer.call_spec.2, List.drop_tail]

/-- **Calls.**  After some calls comes the cell that lies behind as many others, and nothing
    once all of them have come. -/
theorem call_after (odometer : Odometer) (calls : Nat) :
    (odometer.after calls).call.1 = odometer.cells.toList[calls]? := by
  rw [(odometer.after calls).call_spec.1, toList_cells_after, List.head?_drop]

/-- Every call leaves one cell fewer. -/
theorem remaining_after (odometer : Odometer) (calls : Nat) :
    (odometer.after calls).remaining = odometer.remaining - calls := by
  rw [← size_cells, ← size_cells, ← Array.length_toList, toList_cells_after, List.length_drop,
    Array.length_toList]

/-! ### Calls of a nesting's odometer -/

section Nested

variable {nesting : Nesting}

/-- A sound odometer stays so, whatever the number of calls. -/
theorem sound_after {odometer : Odometer} (sound : Machine.Sound nesting odometer) (calls : Nat) :
    Machine.Sound nesting (odometer.after calls) := by
  induction calls generalizing odometer with
  | zero => exact sound
  | succ calls ih =>
    rw [after_succ]
    refine ih ?_
    unfold call
    cases hnext : odometer.next? with
    | none => exact sound -- An odometer with no cells left stays where it is.
    | some step => exact sound.next? hnext

variable (complete : nesting.storage.Perm (List.range nesting.shape.length))

include complete

/-- The cell visited at a place is the one whose index is reached there. -/
theorem rowMajor_indexAt {place : Nat} (h : place < Shape.cells nesting.shape) :
    Shape.rowMajor nesting.shape (nesting.indexAt place)
      = Shape.offset nesting.shape (nesting.indexAt place) :=
  Shape.rowMajor_eq_offset (Nesting.contains_indexAt complete h).length_eq

/-- A call gives the cell at its place, as long as there is one. -/
theorem call_after_start (calls : Nat) :
    ((start nesting).after calls).call.1
      = if calls < Shape.cells nesting.shape then
          some (Shape.rowMajor nesting.shape (nesting.indexAt calls))
        else none := by
  rw [call_after, toList_cells_start complete, List.getElem?_map]
  split
  · next h => rw [List.getElem?_range h, Option.map_some, rowMajor_indexAt complete h]
  · next h => rw [List.getElem?_eq_none (by rw [List.length_range]; omega), Option.map_none]

/-- Every cell belongs to one place of the block. -/
theorem rowMajor_indexAt_bijOn :
    Set.BijOn (fun place => Shape.rowMajor nesting.shape (nesting.indexAt place))
      (Set.Iio (Shape.cells nesting.shape)) (Set.Iio (Shape.cells nesting.shape)) := by
  refine ((Shape.offset_bijOn nesting.shape).comp (Nesting.indexAt_bijOn complete)).congr ?_
  intro place hplace
  exact (rowMajor_indexAt complete hplace).symm

/-- In a plain nesting the cells come in the order of their numbers. -/
theorem rowMajor_indexAt_of_isPlain (plain : nesting.isPlain = true) {place : Nat}
    (h : place < Shape.cells nesting.shape) :
    Shape.rowMajor nesting.shape (nesting.indexAt place) = place := by
  rw [rowMajor_indexAt complete h,
    ← Nesting.place_of_isPlain complete plain (Nesting.contains_indexAt complete h),
    Nesting.place_indexAt complete h]

end Nested

/-! ### The whole way -/

/-- **The walk of a nesting.**  A machine starts the odometer and calls it any number of times
    without a fault.  Call by call comes the cell of the next place, at the multi-index that the
    digits of the place make, and after the last place nothing comes any more; the number of cells
    left is announced, and the odometer never points outside the table.  Every cell comes once.
    The cells of a plain nesting come in the order of their numbers, so the words of a block need
    not be written to them one by one: left in their order they make the same values. -/
theorem start_visits (nesting : Nesting) (positive : ∀ length ∈ nesting.shape, 0 < length)
    (room : nesting.shape.prod < 2 ^ 63) (flags : nesting.reversed.length = nesting.shape.length)
    (complete : nesting.storage.Perm (List.range nesting.shape.length)) :
    Machine.start nesting = .ok (start nesting) ∧
      (∀ calls,
        ((start nesting).after calls).call.1
            = (if calls < nesting.shape.prod then
                some (Shape.rowMajor nesting.shape (nesting.indexAt calls))
              else none) ∧
          ((start nesting).after calls).sizeHint
            = (nesting.shape.prod - calls, some (nesting.shape.prod - calls)) ∧
          (0 ≤ ((start nesting).after calls).cell ∧
            ((start nesting).after calls).cell < nesting.shape.prod) ∧
          Machine.next? ((start nesting).after calls) = .ok ((start nesting).after calls).next?) ∧
      Set.BijOn (fun place => Shape.rowMajor nesting.shape (nesting.indexAt place))
        (Set.Iio nesting.shape.prod) (Set.Iio nesting.shape.prod) ∧
      (nesting.isPlain = true → ∀ place < nesting.shape.prod,
        Shape.rowMajor nesting.shape (nesting.indexAt place) = place) ∧
      ∀ block : Array Word, block.size = nesting.shape.prod →
        Machine.unnest nesting block = .ok (unnest nesting block) ∧
        Machine.scatter block.toList (start nesting) (Array.replicate block.size 0.0)
          = .ok (unnest nesting block) ∧
        (nesting.isPlain = true → unnest nesting block = block.map Word.widen) := by
  have hpos : 0 < Shape.cells nesting.shape := Shape.cells_pos positive
  rw [← Shape.cells_eq_prod] at room ⊢
  have hroom : Shape.cells nesting.shape ≤ Machine.largestSigned := Nat.le_sub_one_of_lt room
  -- Every call keeps the odometer sound, and a sound one points at a cell and has a number left.
  have hsound := Machine.sound_start complete hpos
  refine ⟨Machine.start_eq complete hpos hroom flags, fun calls => ⟨call_after_start complete calls,
      ?_, ?_, Machine.next?_eq complete hpos hroom (sound_after hsound calls)⟩,
    rowMajor_indexAt_bijOn complete, fun plain place => rowMajor_indexAt_of_isPlain complete plain,
    fun block hsize => ⟨Machine.unnest_eq complete hpos hroom flags hsize, ?_, fun plain =>
      if_pos plain⟩⟩
  · rw [sizeHint, remaining_after]
    rfl
  · obtain ⟨cell, hcell, heq⟩ := (sound_after hsound calls).exists_cell complete
    omega
  · -- Word by word the machine makes `scatter`, and that is the same values for every nesting.
    have hzeros : (Array.replicate block.size (0.0 : Float)).size = Shape.cells nesting.shape := by
      rw [Array.size_replicate, hsize]
    rw [Machine.scatter_eq complete hpos hroom block.toList hsound hzeros,
      ← scatter_eq_unnest complete hsize, scatter]

/-- Two rows of three columns with an axis of one node between them.  The columns are nested
    outermost, the last of them first. -/
def swerving : Nesting where
  shape := [2, 1, 3]
  reversed := [false, true, true]
  storage := [2, 0, 1]

/-- Two rows of three columns as they stand. -/
def straight : Nesting where
  shape := [2, 3]
  reversed := [false, false]
  storage := [0, 1]

/-- The six cells of a block with the columns outermost, and two calls too many; and a block in the
    order of the table, written one by one. -/
theorem start_visits_swerving :
    (∀ length ∈ swerving.shape, 0 < length) ∧ swerving.shape.prod < 2 ^ 63 ∧
      swerving.reversed.length = swerving.shape.length ∧
      swerving.storage.Perm (List.range swerving.shape.length) ∧
      (List.range 8).map (fun calls => ((start swerving).after calls).call.1)
        = [some 2, some 5, some 1, some 4, some 0, some 3, none, none] ∧
      ((start swerving).after 4).sizeHint = (2, some 2) ∧
      straight.isPlain = true ∧
      Machine.scatter [1, 2, 3, 4, 5, 6] (start straight) (Array.replicate 6 0.0)
        = .ok (#[1, 2, 3, 4, 5, 6].map Word.widen) := by
  have complete : swerving.storage.Perm (List.range swerving.shape.length) := by decide
  obtain ⟨-, hcalls, -⟩ := start_visits swerving (by decide) (by decide) rfl complete
  obtain ⟨-, -, -, -, hblock⟩ := start_visits straight (by decide) (by decide) rfl (by decide)
  obtain ⟨-, hwritten, hplain⟩ := hblock #[1, 2, 3, 4, 5, 6] rfl
  refine ⟨by decide, by decide, rfl, complete, ?_, (hcalls 4).2.1, rfl, ?_⟩
  · rw [List.map_congr_left fun calls _ => (hcalls calls).1]
    decide
  · rw [← hplain rfl]
    exact hwritten

end Odometer

end GridLookup
