import GridLookup.Proofs.Nesting
import GridLookup.Store.Odometer
import Mathlib.Algebra.BigOperators.Ring.Finset
import Mathlib.Tactic.Linarith
import Mathlib.Tactic.Ring

namespace GridLookup

/-!
# The cells an odometer visits

An odometer never looks at a multi-index: it keeps one signed cell number and moves it by the
stride of whichever wheel turns.  Behind it stands the numeral that its wheels show.

* `Odometer.reading` — the number that the positions of the wheels make.
* `Odometer.shift` — how far the positions of the wheels have moved the cell.
* `reading_turn`, `cell_turn` — one turn adds one to the reading, and moves the cell exactly as
  far as the positions have moved.
* `Odometer.run_spec` — hence after `k` turns the wheels read `k`.
* `Odometer.exists_cell` — wherever the wheels stand, they point at a cell of the table.
* `Odometer.cells_getElem_place` — the cell visited at the place of a multi-index is the cell of
  that multi-index.
-/

namespace Odometer

/-! ### What the wheels show -/

/-- The number that the wheels make, the first one being the lowest digit. -/
def reading : List Wheel → Nat
  | [] => 0
  | wheel :: wheels => reading wheels * wheel.length + wheel.position

/-- How far the positions of the wheels have moved the cell number. -/
def shift (wheels : List Wheel) : Int :=
  (wheels.map fun wheel => wheel.step * (wheel.position : Int)).sum

/-- Every wheel stands at one of its positions. -/
def Fits (wheels : List Wheel) : Prop := ∀ wheel ∈ wheels, wheel.position < wheel.length

/-- What a turn leaves as it is: the lengths and the steps of the wheels. -/
def frame (wheels : List Wheel) : List (Nat × Int) :=
  wheels.map fun wheel => (wheel.length, wheel.step)

/-- The number of readings. -/
def capacity (wheels : List Wheel) : Nat := Shape.cells (wheels.map Wheel.length)

/-- The fastest wheel has the last digit of the reading. -/
@[simp] theorem reading_cons (wheel : Wheel) (wheels : List Wheel) :
    reading (wheel :: wheels) = reading wheels * wheel.length + wheel.position := rfl

/-- Each wheel moves the cell by its step for every position. -/
@[simp] theorem shift_cons (wheel : Wheel) (wheels : List Wheel) :
    shift (wheel :: wheels) = wheel.step * wheel.position + shift wheels := rfl

/-- A wheel multiplies the readings by its length. -/
@[simp] theorem capacity_cons (wheel : Wheel) (wheels : List Wheel) :
    capacity (wheel :: wheels) = wheel.length * capacity wheels := rfl

/-- All wheels are within their lengths exactly if the fastest and the others are. -/
@[simp] theorem fits_cons (wheel : Wheel) (wheels : List Wheel) :
    Fits (wheel :: wheels) ↔ wheel.position < wheel.length ∧ Fits wheels := by
  simp [Fits]

/-- The number of readings does not depend on the positions. -/
theorem capacity_eq_of_frame_eq {wheels others : List Wheel} (h : frame wheels = frame others) :
    capacity wheels = capacity others := by
  have h := congrArg (List.map Prod.fst) h
  simp only [frame, List.map_map] at h
  exact congrArg Shape.cells h

/-- The reading is the cell number of the positions in the shape of the wheels, the last wheel
    being the outermost axis. -/
theorem reading_eq_offset (wheels : List Wheel) :
    reading wheels
      = Shape.offset (wheels.reverse.map Wheel.length) (wheels.reverse.map Wheel.position) := by
  rw [← Shape.rowMajor_eq_offset (by simp), Shape.rowMajor, List.zip_map', List.foldl_map,
    List.foldl_reverse]
  induction wheels with
  | nil => rfl
  | cons wheel wheels ih => rw [reading_cons, ih, List.foldr_cons]

/-- The positions of wheels within their lengths are an index within the shape of these. -/
theorem Fits.contains {wheels : List Wheel} (h : Fits wheels) :
    Shape.Contains (wheels.map Wheel.length) (wheels.map Wheel.position) := by
  induction wheels with
  | nil => exact Shape.contains_nil
  | cons wheel wheels ih =>
    obtain ⟨hwheel, h⟩ := (fits_cons wheel wheels).mp h
    exact ⟨hwheel, ih h⟩

/-- The reading stays below the number of readings. -/
theorem Fits.reading_lt {wheels : List Wheel} (h : Fits wheels) :
    reading wheels < capacity wheels := by
  have hreverse : Fits wheels.reverse := fun wheel hwheel => h wheel (List.mem_reverse.mp hwheel)
  rw [reading_eq_offset, capacity,
    ← Shape.cells_perm ((List.reverse_perm wheels).map Wheel.length)]
  exact Shape.offset_lt_cells hreverse.contains

/-! ### One turn -/

/-- A turn changes positions only. -/
theorem frame_turn (wheels : List Wheel) (cell : Int) :
    frame (turn wheels cell).1 = frame wheels := by
  induction wheels generalizing cell with
  | nil => rfl
  | cons wheel wheels ih =>
    unfold turn
    split
    · rfl
    · show (wheel.length, wheel.step) :: frame (turn wheels _).1 = _
      rw [ih]
      rfl

/-- A turn leaves the wheels within their lengths. -/
theorem fits_turn {wheels : List Wheel} (h : Fits wheels) (cell : Int) :
    Fits (turn wheels cell).1 := by
  induction wheels generalizing cell with
  | nil => exact h
  | cons wheel wheels ih =>
    obtain ⟨hwheel, h⟩ := (fits_cons wheel wheels).mp h
    unfold turn
    split
    · exact (fits_cons _ _).mpr ⟨by assumption, h⟩
    · have hfirst : 0 < wheel.length := by omega
      exact (fits_cons _ _).mpr ⟨hfirst, ih h _⟩

/-- **A turn counts.**  Short of the last reading, a turn raises the reading by one. -/
theorem reading_turn {wheels : List Wheel} (h : Fits wheels)
    (hroom : reading wheels + 1 < capacity wheels) (cell : Int) :
    reading (turn wheels cell).1 = reading wheels + 1 := by
  induction wheels generalizing cell with
  | nil => exact absurd hroom (by simp [reading, capacity])
  | cons wheel wheels ih =>
    obtain ⟨hwheel, h⟩ := (fits_cons wheel wheels).mp h
    rw [reading_cons, capacity_cons] at hroom
    unfold turn
    split
    · show reading wheels * wheel.length + (wheel.position + 1) = _
      rw [reading_cons, Nat.add_assoc]
    · -- The wheel comes round: it stood at its last position, and the next wheel takes the carry.
      have hlast : wheel.position + 1 = wheel.length := by omega
      have hnext : reading wheels + 1 < capacity wheels := by
        refine Nat.lt_of_mul_lt_mul_left (a := wheel.length) ?_
        calc wheel.length * (reading wheels + 1)
            = reading wheels * wheel.length + wheel.position + 1 := by
              rw [Nat.mul_add, Nat.mul_comm]; omega
          _ < wheel.length * capacity wheels := hroom
      show reading (turn wheels _).1 * wheel.length + 0 = _
      rw [ih h hnext, reading_cons, Nat.add_mul]
      omega

/-- **A turn moves the cell by its wheels.**  The cell number changes by as much as the
    positions have moved it, carries included. -/
theorem cell_turn {wheels : List Wheel} (h : Fits wheels) (cell : Int) :
    (turn wheels cell).2 - shift (turn wheels cell).1 = cell - shift wheels := by
  -- The cell is arbitrary, since a wheel that comes round moves it back before the next one turns.
  induction wheels generalizing cell with
  | nil => rfl
  | cons wheel wheels ih =>
    obtain ⟨hwheel, h⟩ := (fits_cons wheel wheels).mp h
    unfold turn
    split
    · show cell + wheel.step - (wheel.step * (wheel.position + 1 : Nat) + shift wheels) = _
      rw [shift_cons]
      push_cast
      ring
    · have hlast : (wheel.position : Int) = wheel.length - 1 := by omega
      have hrest := ih h (cell - wheel.step * (wheel.length - 1))
      show (turn wheels _).2 - (wheel.step * (0 : Nat) + shift (turn wheels _).1) = _
      rw [shift_cons, hlast]
      push_cast
      linarith

/-! ### A run -/

/-- One turn of wheels and cell together. -/
def turnOn (state : List Wheel × Int) : List Wheel × Int := turn state.1 state.2

/-- **A run counts.**  From a fitting start, after `k` turns the wheels read `k` more, and the
    cell has moved as far as they have. -/
theorem run_spec {wheels : List Wheel} (h : Fits wheels) (cell : Int) {k : Nat}
    (hroom : reading wheels + k < capacity wheels) :
    frame (turnOn^[k] (wheels, cell)).1 = frame wheels ∧
      Fits (turnOn^[k] (wheels, cell)).1 ∧
      reading (turnOn^[k] (wheels, cell)).1 = reading wheels + k ∧
      (turnOn^[k] (wheels, cell)).2 - shift (turnOn^[k] (wheels, cell)).1
        = cell - shift wheels := by
  -- The number of turns is the induction variable; that the wheels still fit is what carries it.
  induction k with
  | zero => exact ⟨rfl, h, rfl, rfl⟩
  | succ k ih =>
    obtain ⟨hframe, hfits, hreading, hcell⟩ := ih (by omega)
    rw [Function.iterate_succ_apply']
    generalize turnOn^[k] (wheels, cell) = state at hframe hfits hreading hcell ⊢
    have hstep : reading state.1 + 1 < capacity state.1 := by
      rw [capacity_eq_of_frame_eq hframe, hreading]
      omega
    refine ⟨?_, fits_turn hfits _, ?_, ?_⟩
    · rw [turnOn, frame_turn, hframe]
    · rw [turnOn, reading_turn hfits hstep, hreading, Nat.add_assoc]
    · rw [turnOn, cell_turn hfits, hcell]

/-- The cells that are left are those before each of the remaining turns. -/
theorem toList_cells (odometer : Odometer) :
    odometer.cells.toList
      = (List.range odometer.remaining).map fun k =>
          (turnOn^[k] (odometer.wheels, odometer.cell)).2.toNat := by
  -- Cells are appended to those that are there already.
  have happend : ∀ (remaining : Nat) (odometer : Odometer) (cells : Array Nat),
      odometer.remaining = remaining →
      (odometer.appendCells cells).toList = cells.toList ++ (List.range remaining).map fun k =>
        (turnOn^[k] (odometer.wheels, odometer.cell)).2.toNat := by
    intro remaining
    induction remaining with
    | zero =>
      intro odometer cells h
      have hnone : odometer.next? = none := by simp [next?, h]
      rw [appendCells]
      split
      · simp
      · next hsome => rw [hnone] at hsome; cases hsome
    | succ remaining ih =>
      intro odometer cells h
      have hnext : odometer.next? = some (odometer.cell.toNat,
          ⟨(turn odometer.wheels odometer.cell).1, (turn odometer.wheels odometer.cell).2,
            remaining⟩) := by
        simp [next?, h]
      rw [appendCells]
      split
      · next hnone => rw [hnext] at hnone; cases hnone
      · next cell rest hsome =>
        rw [hnext] at hsome
        cases hsome
        rw [ih _ _ rfl, List.range_succ_eq_map]
        simp [Function.comp_def, turnOn]
  have h := happend odometer.remaining odometer #[] rfl
  simpa [cells] using h

/-- An odometer that stands still has no cells left. -/
theorem toList_cells_of_none {odometer : Odometer} (h : odometer.next? = none) :
    odometer.cells.toList = [] := by
  have hremaining : odometer.remaining = 0 := by
    unfold next? at h
    split at h
    · assumption
    · cases h
  rw [toList_cells, hremaining]
  rfl

/-- The cell given is the first of those that were left. -/
theorem toList_cells_of_some {odometer rest : Odometer} {cell : Nat}
    (h : odometer.next? = some (cell, rest)) :
    odometer.cells.toList = cell :: rest.cells.toList := by
  unfold next? at h
  split at h
  · cases h
  · next remaining hremaining =>
    cases h
    rw [toList_cells, toList_cells, hremaining, List.range_succ_eq_map]
    simp [turnOn]

/-- There are as many cells left as the odometer counts. -/
theorem size_cells (odometer : Odometer) : odometer.cells.size = odometer.remaining := by
  rw [← Array.length_toList, toList_cells]
  simp

/-! ### The odometer of a nesting -/

variable {nesting : Nesting}

/-- The wheels at the start, the fastest first. -/
def startWheels (nesting : Nesting) : List Wheel := nesting.storage.reverse.map (wheel nesting)

/-- The slowest wheel is that of the outermost axis. -/
theorem reverse_startWheels :
    (startWheels nesting).reverse = nesting.storage.map (wheel nesting) := by
  simp [startWheels]

/-- The cell is moved by the sum of all steps, each as often as its wheel has turned. -/
theorem shift_eq_sum (wheels : List Wheel) :
    shift wheels = (List.zipWith (fun (step : Int) (position : Nat) => step * position)
      (wheels.reverse.map Wheel.step) (wheels.reverse.map Wheel.position)).sum := by
  rw [List.zipWith_map, List.zipWith_self, List.map_reverse, List.sum_reverse]
  rfl

/-- At the start nothing is moved. -/
theorem shift_startWheels : shift (startWheels nesting) = 0 := by
  unfold shift startWheels
  refine List.sum_eq_zero fun x hx => ?_
  simp only [List.mem_map, List.mem_reverse] at hx
  obtain ⟨_, ⟨axis, _, rfl⟩, rfl⟩ := hx
  simp [wheel]

/-- At the start the reading is zero. -/
private theorem reading_startWheels : reading (startWheels nesting) = 0 := by
  unfold startWheels
  induction nesting.storage.reverse with
  | nil => rfl
  | cons axis axes ih => simp [ih, wheel]

/-- There are as many readings as cells. -/
theorem capacity_startWheels :
    capacity (startWheels nesting) = Shape.cells nesting.storedShape := by
  unfold capacity startWheels Nesting.storedShape
  rw [List.map_map]
  refine Shape.cells_perm ?_
  exact (List.reverse_perm nesting.storage).map nesting.lengthAt

variable (complete : nesting.storage.Perm (List.range nesting.shape.length))

include complete

/-- At the start the wheels are within their lengths, if there is a cell at all. -/
theorem fits_startWheels (hpos : 0 < Shape.cells nesting.shape) :
    Fits (startWheels nesting) := by
  rw [← Nesting.cells_storedShape complete] at hpos
  intro w hw
  simp only [startWheels, List.mem_map, List.mem_reverse] at hw
  obtain ⟨axis, haxis, rfl⟩ := hw
  exact Shape.pos_of_cells_pos hpos _ (List.mem_map_of_mem haxis)

/-- The wheels at the turn that is the place of a multi-index stand at its stored digits. -/
private theorem positions_at_place {index : List Nat} (h : Shape.Contains nesting.shape index)
    {wheels : List Wheel} (hframe : frame wheels = frame (startWheels nesting))
    (hfits : Fits wheels) (hreading : reading wheels = nesting.place index) :
    wheels.reverse.map Wheel.length = nesting.storedShape ∧
      wheels.reverse.map Wheel.step = nesting.storage.map (fun axis => (wheel nesting axis).step) ∧
      wheels.reverse.map Wheel.position = nesting.storedDigits index := by
  have hframe' : frame wheels.reverse = frame (nesting.storage.map (wheel nesting)) := by
    rw [← reverse_startWheels]
    simpa [frame] using congrArg List.reverse hframe
  have hlengths : wheels.reverse.map Wheel.length = nesting.storedShape := by
    have := congrArg (List.map Prod.fst) hframe'
    simpa [frame, List.map_map, Function.comp_def, Nesting.storedShape, wheel] using this
  have hsteps : wheels.reverse.map Wheel.step
      = nesting.storage.map (fun axis => (wheel nesting axis).step) := by
    have := congrArg (List.map Prod.snd) hframe'
    simpa only [frame, List.map_map, Function.comp_def] using this
  refine ⟨hlengths, hsteps, ?_⟩
  have hfits' : Fits wheels.reverse := fun w hw => hfits w (List.mem_reverse.mp hw)
  -- Digits with the same number are the same digits.
  refine (Shape.offset_bijOn nesting.storedShape).injOn ?_
    (Nesting.contains_storedDigits complete h) ?_
  · exact hlengths ▸ hfits'.contains
  · rw [← Nesting.place_eq, ← hreading, reading_eq_offset, hlengths]

omit complete in
/-- Along one axis, the start and the move to the stored position of a node together lead to
    that node, whether the axis is reversed or not. -/
private theorem start_add_move {axis node : Nat} (h : node < nesting.lengthAt axis) :
    (if nesting.reversedAt axis then
        ((nesting.lengthAt axis : Int) - 1) * ((Shape.strides nesting.shape).getD axis 1 : Nat)
      else 0) + (wheel nesting axis).step * (nesting.flip axis node : Int)
      = ((node * (Shape.strides nesting.shape).getD axis 1 : Nat) : Int) := by
  by_cases hreversed : nesting.reversedAt axis = true
  · have hflip : (nesting.flip axis node : Int) = nesting.lengthAt axis - 1 - node := by
      simp only [Nesting.flip, hreversed, if_true]
      omega
    simp only [wheel, hreversed, if_true, hflip]
    push_cast
    ring
  · simp only [wheel, Nesting.flip, hreversed]
    push_cast
    ring

/-- From the first cell, moving each axis to its stored position leads to the cell of the
    multi-index. -/
private theorem firstCell_add_shift {index : List Nat} (h : Shape.Contains nesting.shape index) :
    firstCell nesting + (List.zipWith (fun (step : Int) (position : Nat) => step * position)
        (nesting.storage.map fun axis => (wheel nesting axis).step)
        (nesting.storedDigits index)).sum
      = Shape.offset nesting.shape index := by
  have hlt : ∀ axis ∈ nesting.storage, index.getD axis 0 < nesting.lengthAt axis :=
    fun axis haxis => (Shape.contains_iff_getD.mp h).2 axis
      ((Nesting.mem_storage_iff complete).mp haxis)
  have hsum : firstCell nesting
      + (List.zipWith (fun (step : Int) (position : Nat) => step * position)
          (nesting.storage.map fun axis => (wheel nesting axis).step)
          (nesting.storedDigits index)).sum
      = (nesting.storage.map fun axis =>
          ((index.getD axis 0 * (Shape.strides nesting.shape).getD axis 1 : Nat) : Int)).sum := by
    unfold firstCell Nesting.storedDigits
    -- Both sides go along the storage order, so this needs nothing of that order.
    generalize nesting.storage = axes at hlt
    induction axes with
    | nil => rfl
    | cons axis axes ih =>
      have hrest := ih fun a ha => hlt a (List.mem_cons_of_mem _ ha)
      have hmove := start_add_move (hlt axis List.mem_cons_self)
      simp only [List.foldr_cons, List.map_cons, List.zipWith_cons_cons, List.sum_cons]
      rw [← hrest, ← hmove]
      ring
  -- A sum over all axes is the same in every order.
  rw [hsum, (complete.map _).sum_eq, Shape.offset_eq_sum h.length_eq, Nat.cast_list_sum,
    List.map_map]
  rfl

/-- Wheels that read the place of a multi-index have moved the first cell to the cell of that
    multi-index. -/
private theorem cell_of_reading {index : List Nat} (h : Shape.Contains nesting.shape index)
    {wheels : List Wheel} (hframe : frame wheels = frame (startWheels nesting))
    (hfits : Fits wheels) (hreading : reading wheels = nesting.place index) :
    firstCell nesting + shift wheels = Shape.offset nesting.shape index := by
  obtain ⟨-, hsteps, hpositions⟩ := positions_at_place complete h hframe hfits hreading
  rw [shift_eq_sum, hsteps, hpositions]
  exact firstCell_add_shift complete h

/-- Wherever the wheels stand, they have moved the first cell to a cell of the table. -/
theorem exists_cell {wheels : List Wheel} (hframe : frame wheels = frame (startWheels nesting))
    (hfits : Fits wheels) :
    ∃ cell < Shape.cells nesting.shape, firstCell nesting + shift wheels = (cell : Int) := by
  have hreading : reading wheels < Shape.cells nesting.shape := by
    rw [← Nesting.cells_storedShape complete, ← capacity_startWheels,
      ← capacity_eq_of_frame_eq hframe]
    exact hfits.reading_lt
  have hindex := Nesting.contains_indexAt complete hreading
  exact ⟨_, Shape.offset_lt_cells hindex, cell_of_reading complete hindex hframe hfits
    (Nesting.place_indexAt complete hreading).symm⟩

/-- **The odometer visits cells in their stored order.**  At the turn that is the place of a
    multi-index, it points at the cell of that multi-index. -/
theorem cells_getElem_place {index : List Nat} (h : Shape.Contains nesting.shape index) :
    (start nesting).cells.toList[nesting.place index]?
      = some (Shape.offset nesting.shape index) := by
  have hplace := Nesting.place_lt complete h
  have hcapacity : reading (startWheels nesting) + nesting.place index
      < capacity (startWheels nesting) := by
    rw [reading_startWheels, capacity_startWheels, Nesting.cells_storedShape complete]
    omega
  obtain ⟨hframe, hfits, hreading, hcell⟩ :=
    run_spec (fits_startWheels complete (by omega)) (firstCell nesting) hcapacity
  rw [toList_cells]
  show ((List.range (Shape.cells nesting.shape)).map fun k =>
    (turnOn^[k] (startWheels nesting, firstCell nesting)).2.toNat)[nesting.place index]? = _
  rw [List.getElem?_map, List.getElem?_range hplace, Option.map_some]
  generalize turnOn^[nesting.place index] (startWheels nesting, firstCell nesting) = state
    at hframe hfits hreading hcell ⊢
  -- The wheels read the place, so they stand at its digits, which move the cell to the index.
  rw [reading_startWheels, Nat.zero_add] at hreading
  have hoffset := cell_of_reading complete h hframe hfits hreading
  rw [shift_startWheels] at hcell
  have hcell : state.2 = (Shape.offset nesting.shape index : Int) := by linarith
  rw [hcell, Int.toNat_natCast]

omit complete in
/-- At the start all cells are left. -/
theorem size_cells_start : (start nesting).cells.size = Shape.cells nesting.shape := by
  rw [size_cells]
  rfl

end Odometer

end GridLookup
