import GridLookup.Proofs.Block
import GridLookup.Proofs.Machine
import Mathlib.Algebra.Order.BigOperators.Group.List

namespace GridLookup

/-!
# Odometers on a machine

Unnesting a block as a machine does it: lengths, positions and cell numbers are 64-bit words, the
steps of the wheels are signed ones, and every result is checked for fitting its word.  Over a table
whose cells a signed word counts nothing stops the machine, whether or not it fits into memory.

* `Machine.signed`, `Machine.unsigned`, `Machine.write` — more operations.
* `Machine.start`, `Machine.turn`, `Machine.next?`, `Machine.unnest` — the odometer and what is done
  with it.
* `Machine.turn_eq` — a turn does not overflow if all positions of the wheels are cells.
* `Machine.start_eq`, `Machine.unnest_eq` — nothing stops the machine.
-/

namespace Machine

/-! ### Operations -/

/-- A number in a signed word. -/
def signed (number : Int) : Except Fault Int :=
  if -(1 <<< 63) ≤ number ∧ number < 1 <<< 63 then .ok number else .error .overflow

/-- The number of a signed word as one without a sign. -/
def unsigned (number : Int) : Except Fault Nat :=
  if 0 ≤ number then .ok number.toNat else .error .overflow

/-- An array with another entry at an index. -/
def write {α : Type} (entries : Array α) (index : Nat) (entry : α) : Except Fault (Array α) :=
  if index < entries.size then .ok (entries.setIfInBounds index entry) else .error .outOfBounds

/-- The largest number of a signed word. -/
def largestSigned : Nat := 2 ^ 63 - 1

/-- How many values can be in memory at once.  The smallest takes eight bytes, and a block of
    memory has fewer than `2 ^ 63`. -/
def memoryLimit : Nat := 2 ^ 60

/-- The largest signed number is no larger than the largest count. -/
theorem largestSigned_le : largestSigned ≤ largestCount := by decide

/-- What fits the memory fits a signed word. -/
theorem memoryLimit_le : memoryLimit ≤ largestSigned := by decide

/-- A number up to the largest in size fits a signed word. -/
theorem signed_of_abs_le {number : Int}
    (h : -(largestSigned : Int) ≤ number ∧ number ≤ largestSigned) :
    signed number = .ok number := by
  unfold largestSigned at h
  exact if_pos (by omega)

theorem unsigned_natCast (number : Nat) : unsigned number = .ok number :=
  if_pos (Int.natCast_nonneg number)

/-- Entries within an array can be written. -/
theorem write_of_lt {α : Type} {entries : Array α} {index : Nat} (h : index < entries.size)
    (entry : α) : write entries index entry = .ok (entries.setIfInBounds index entry) := if_pos h

/-- Entries within a list can be read from its array. -/
theorem read_toArray {α : Type} {entries : List α} {index : Nat} (h : index < entries.length)
    (otherwise : α) : read entries.toArray index = .ok (entries.getD index otherwise) := by
  rw [read_of_lt (by rwa [List.size_toArray]), List.getElem_toArray,
    List.getD_eq_getElem _ _ h]

/-! ### The odometer -/

/-- The wheel of an axis at its start, and how far its last node lies behind its first if it is
    reversed. -/
def wheel (nesting : Nesting) (strides : List Nat) (axis : Nat) : Except Fault (Wheel × Int) := do
  let stride ← read strides.toArray axis
  let stride ← signed stride
  let length ← read nesting.shape.toArray axis
  let reversed ← read nesting.reversed.toArray axis
  if reversed then
    let step ← signed (-stride)
    let count ← signed length
    let last ← signed (count - 1)
    let shift ← signed (last * stride)
    return (⟨length, step, 0⟩, shift)
  else return (⟨length, stride, 0⟩, 0)

/-- The wheels of some axes, and the cell they lead to. -/
def wheels (nesting : Nesting) (strides : List Nat) :
    List Nat → Int → Except Fault (List Wheel × Int)
  | [], cell => .ok ([], cell)
  | axis :: axes, cell => do
    let (wheel, shift) ← wheel nesting strides axis
    let cell ← signed (cell + shift)
    let (wheels, cell) ← wheels nesting strides axes cell
    return (wheel :: wheels, cell)

/-- The odometer over all cells. -/
def start (nesting : Nesting) : Except Fault Odometer := do
  let strides ← strides nesting.shape
  let (wheels, cell) ← wheels nesting strides nesting.storage 0
  let remaining ← nesting.shape.foldlM mul 1
  return ⟨wheels.reverse, cell, remaining⟩

/-- Turns the first wheel by one position, and the next one when it has come round. -/
def turn : List Wheel → Int → Except Fault (List Wheel × Int)
  | [], cell => .ok ([], cell)
  | wheel :: wheels, cell => do
    let position ← add wheel.position 1
    if position < wheel.length then
      let cell ← signed (cell + wheel.step)
      return (⟨wheel.length, wheel.step, position⟩ :: wheels, cell)
    else
      let count ← signed wheel.length
      let turns ← signed (count - 1)
      let back ← signed (wheel.step * turns)
      let cell ← signed (cell - back)
      let (turned, moved) ← turn wheels cell
      return (⟨wheel.length, wheel.step, 0⟩ :: turned, moved)

/-- The next cell and the odometer over those after it. -/
def next? (odometer : Odometer) : Except Fault (Option (Nat × Odometer)) :=
  match odometer.remaining with
  | 0 => .ok none
  | remaining + 1 => do
    let current ← unsigned odometer.cell
    let (wheels, cell) ← turn odometer.wheels odometer.cell
    return some (current, ⟨wheels, cell, remaining⟩)

/-- Writes words to the cells that an odometer visits. -/
def scatter : List Word → Odometer → Array Float → Except Fault (Array Float)
  | [], _, values => .ok values
  | word :: words, odometer, values => do
    match ← next? odometer with
    | none => return values
    | some (cell, rest) =>
      let values ← write values cell word.widen
      scatter words rest values

/-- The values of a block in the order of the table. -/
def unnest (nesting : Nesting) (block : Array Word) : Except Fault (Array Float) := do
  let odometer ← start nesting
  if nesting.isPlain then return block.map Word.widen
  else scatter block.toList odometer (Array.replicate block.size 0.0)

/-! ### One turn -/

section Turn

open Odometer

/-- From the cell that the wheels point at, every position of the wheels leads to a cell. -/
def Roomy (wheels : List Wheel) (cell : Int) : Prop :=
  ∀ others, frame others = frame wheels → Fits others →
    0 ≤ cell + (shift others - shift wheels) ∧ cell + (shift others - shift wheels) ≤ largestSigned

variable {wheel : Wheel} {wheels : List Wheel} {cell : Int}

/-- Any one wheel can be moved to any of its positions. -/
theorem Roomy.move (room : Roomy (wheel :: wheels) cell) (hfits : Fits wheels) {position : Nat}
    (h : position < wheel.length) :
    0 ≤ cell + wheel.step * (position - wheel.position) ∧
      cell + wheel.step * (position - wheel.position) ≤ largestSigned := by
  have hroom := room (⟨wheel.length, wheel.step, position⟩ :: wheels) rfl
    ((fits_cons _ _).mpr ⟨h, hfits⟩)
  rw [shift_cons, shift_cons] at hroom
  dsimp only at hroom
  rw [Int.mul_sub]
  omega

/-- After the first wheel has gone back to its start there is room for the others. -/
theorem Roomy.back (room : Roomy (wheel :: wheels) cell) (hwheel : 0 < wheel.length) :
    Roomy wheels (cell - wheel.step * wheel.position) := by
  intro others hframe hfits
  have hroom := room (⟨wheel.length, wheel.step, 0⟩ :: others)
    (by rw [frame, List.map_cons, ← frame, hframe]; rfl) ((fits_cons _ _).mpr ⟨hwheel, hfits⟩)
  rw [shift_cons, shift_cons] at hroom
  dsimp only at hroom
  rw [Nat.cast_zero, Int.mul_zero] at hroom
  omega

/-- **A turn does not overflow.**  The cell numbers on the way are cells too: a wheel that goes
    back to its start leaves the others where they are. -/
theorem turn_eq (hfits : Fits wheels) (hlengths : ∀ wheel ∈ wheels, wheel.length ≤ largestSigned)
    (room : Roomy wheels cell) : turn wheels cell = .ok (GridLookup.turn wheels cell) := by
  induction wheels generalizing cell with
  | nil => rfl
  | cons wheel wheels ih =>
    obtain ⟨hwheel, hfits⟩ := (fits_cons wheel wheels).mp hfits
    rw [List.forall_mem_cons] at hlengths
    obtain ⟨hlength, hlengths⟩ := hlengths
    have hposition : add wheel.position 1 = .ok (wheel.position + 1) :=
      word_of_le (Nat.le_trans hwheel (hlength.trans largestSigned_le))
    unfold turn GridLookup.turn
    rw [bind_of_ok hposition]
    -- A wheel that moves on reaches a cell; one that comes round passes its first cell.
    by_cases hnext : wheel.position + 1 < wheel.length
    · have hmove := room.move hfits hnext
      push_cast at hmove
      rw [add_sub_cancel_left, Int.mul_one] at hmove
      rw [if_pos hnext, if_pos hnext, bind_of_ok (signed_of_abs_le (by omega))]
      rfl
    · -- The wheel stands at its last position, and what is undone are the turns it has made.
      have hlast : (wheel.length : Int) - 1 = wheel.position := by omega
      have hpositive : 0 < wheel.length := by omega
      have hhere := room.move hfits hwheel
      have hback := room.move hfits hpositive
      rw [Int.sub_self, Int.mul_zero] at hhere
      rw [Nat.cast_zero, Int.zero_sub, Int.mul_neg] at hback
      rw [if_neg hnext, if_neg hnext, bind_of_ok (signed_of_abs_le (by omega)),
        bind_of_ok (signed_of_abs_le (by omega)), hlast,
        bind_of_ok (signed_of_abs_le (by omega)), bind_of_ok (signed_of_abs_le (by omega)),
        bind_of_ok (ih hfits hlengths (room.back hpositive))]
      rfl

end Turn

/-! ### From the first cell to the last -/

section Nested

open Odometer

/-- The odometer of a nesting, somewhere on its way. -/
structure Sound (nesting : Nesting) (odometer : Odometer) : Prop where
  /-- It has the wheels it started with. -/
  frame_eq : frame odometer.wheels = frame (startWheels nesting)
  /-- They stand at positions they have. -/
  fits : Fits odometer.wheels
  /-- It points at the cell that the wheels have moved to. -/
  cell_eq : odometer.cell = firstCell nesting + shift odometer.wheels

/-- How far the last node of an axis lies behind its first if it is reversed. -/
def firstShift (nesting : Nesting) (axis : Nat) : Int :=
  if nesting.reversedAt axis then
    ((nesting.lengthAt axis : Int) - 1) * ((Shape.strides nesting.shape).getD axis 1 : Nat)
  else 0

/-- The first cell is that of all reversed axes at their ends. -/
theorem firstCell_eq_sum (nesting : Nesting) :
    firstCell nesting = (nesting.storage.map (firstShift nesting)).sum := by
  rw [List.sum_eq_foldr, List.foldr_map]
  rfl

/-- A step keeps an odometer sound. -/
theorem Sound.next? {nesting : Nesting} {odometer rest : Odometer} {cell : Nat}
    (sound : Sound nesting odometer) (h : odometer.next? = some (cell, rest)) :
    Sound nesting rest := by
  unfold Odometer.next? at h
  split at h
  · cases h
  · cases h
    have hcell := cell_turn sound.fits odometer.cell
    rw [sound.cell_eq] at hcell
    exact ⟨(frame_turn ..).trans sound.frame_eq, fits_turn sound.fits _, by
      dsimp only; rw [sound.cell_eq]; omega⟩

variable {nesting : Nesting} {odometer : Odometer}
  (complete : nesting.storage.Perm (List.range nesting.shape.length))
  (hpos : 0 < Shape.cells nesting.shape) (room : Shape.cells nesting.shape ≤ largestSigned)

include complete

/-- An odometer is sound at the start. -/
theorem sound_start (hpos : 0 < Shape.cells nesting.shape) :
    Sound nesting (Odometer.start nesting) where
  frame_eq := rfl
  fits := fits_startWheels complete hpos
  cell_eq := by
    show firstCell nesting = firstCell nesting + shift (startWheels nesting)
    rw [shift_startWheels, Int.add_zero]

/-- A sound odometer is at a cell of the table. -/
theorem Sound.exists_cell (sound : Sound nesting odometer) :
    ∃ cell < Shape.cells nesting.shape, odometer.cell = (cell : Int) := by
  rw [sound.cell_eq]
  exact Odometer.exists_cell complete sound.frame_eq sound.fits

/-- The cell visited is one of the table. -/
theorem Sound.cell_lt {rest : Odometer} {cell : Nat} (sound : Sound nesting odometer)
    (h : odometer.next? = some (cell, rest)) : cell < Shape.cells nesting.shape := by
  obtain ⟨current, hcurrent, heq⟩ := sound.exists_cell complete
  unfold Odometer.next? at h
  split at h
  · cases h
  · cases h
    rw [heq]
    exact hcurrent

include room

/-- A sound odometer turns without a stop. -/
theorem Sound.roomy (sound : Sound nesting odometer) : Roomy odometer.wheels odometer.cell := by
  intro others hframe hfits
  obtain ⟨cell, hcell, heq⟩ :=
    Odometer.exists_cell complete (hframe.trans sound.frame_eq) hfits
  have hcell_eq := sound.cell_eq
  omega

include hpos

/-- The length of an axis fits a signed word. -/
theorem lengthAt_le {axis : Nat} (h : axis ∈ nesting.storage) :
    nesting.lengthAt axis ≤ largestSigned := by
  rw [← Nesting.cells_storedShape complete] at hpos room
  exact (Shape.length_le_cells hpos (List.mem_map_of_mem h)).trans room

/-- The lengths of the wheels fit a signed word. -/
theorem Sound.length_le (sound : Sound nesting odometer) :
    ∀ wheel ∈ odometer.wheels, wheel.length ≤ largestSigned := by
  intro w hw
  have hmem : (w.length, w.step) ∈ frame odometer.wheels := List.mem_map_of_mem hw
  rw [sound.frame_eq] at hmem
  obtain ⟨w', hw', heq⟩ := List.mem_map.mp hmem
  obtain ⟨axis, haxis, rfl⟩ := List.mem_map.mp hw'
  rw [← (Prod.mk.inj heq).1]
  exact lengthAt_le complete hpos room (List.mem_reverse.mp haxis)

/-- Nothing stops the machine from a step of a sound odometer. -/
theorem next?_eq (sound : Sound nesting odometer) : next? odometer = .ok odometer.next? := by
  obtain ⟨cell, -, hcell⟩ := sound.exists_cell complete
  have hturn := turn_eq sound.fits (sound.length_le complete hpos room) (sound.roomy complete room)
  unfold Machine.next? Odometer.next?
  cases odometer.remaining with
  | zero => rfl
  | succ remaining =>
    dsimp only
    rw [hcell] at hturn ⊢
    rw [bind_of_ok (unsigned_natCast cell), bind_of_ok hturn]
    rfl

/-- **A walk.**  The machine writes every word to the cell where it belongs. -/
theorem scatter_eq (words : List Word) (sound : Sound nesting odometer) {values : Array Float}
    (hsize : values.size = Shape.cells nesting.shape) :
    scatter words odometer values = .ok (placeWords (odometer.cells.toList.zip words) values) := by
  induction words generalizing odometer values with
  | nil =>
    rw [List.zip_nil_right]
    rfl
  | cons word words ih =>
    rw [scatter, bind_of_ok (next?_eq complete hpos room sound)]
    -- The odometer ends where its cells do, and words that are left have no place.
    cases hnext : odometer.next? with
    | none =>
      rw [toList_cells_of_none hnext]
      rfl
    | some step =>
      obtain ⟨cell, rest⟩ := step
      have hcell : cell < values.size := hsize ▸ sound.cell_lt complete hnext
      dsimp only
      rw [bind_of_ok (write_of_lt hcell _), toList_cells_of_some hnext,
        ih (sound.next? hnext) (by rw [Array.size_setIfInBounds, hsize])]
      rfl

/-! ### The start -/

omit room in
/-- No axis moves the first cell backwards. -/
theorem firstShift_nonneg : ∀ axis ∈ nesting.storage, 0 ≤ firstShift nesting axis := by
  intro axis haxis
  unfold firstShift
  split
  · have hlength : 0 < nesting.lengthAt axis := by
      rw [← Nesting.cells_storedShape complete] at hpos
      exact Shape.pos_of_cells_pos hpos _ (List.mem_map_of_mem haxis)
    exact Int.mul_nonneg (by omega) (Int.natCast_nonneg _)
  · exact le_rfl

/-- The first cell fits a signed word. -/
theorem firstCell_le : firstCell nesting ≤ largestSigned := by
  obtain ⟨cell, hcell, heq⟩ := (sound_start complete hpos).exists_cell complete
  have hstart : firstCell nesting = (cell : Int) := heq
  omega

omit complete

/-- The wheel of an axis is found without overflow, because even the last node of the axis is at
    a cell. -/
theorem wheel_eq (hreversed : nesting.reversed.length = nesting.shape.length) {axis : Nat}
    (haxis : axis < nesting.shape.length) (hlower : 0 ≤ firstShift nesting axis)
    (hupper : firstShift nesting axis ≤ largestSigned) :
    wheel nesting (Shape.strides nesting.shape) axis
      = .ok (Odometer.wheel nesting axis, firstShift nesting axis) := by
  have hstrides : axis < (Shape.strides nesting.shape).length := by rwa [Shape.strides_length]
  have hstride : (Shape.strides nesting.shape).getD axis 1 ≤ largestSigned := by
    rw [List.getD_eq_getElem _ _ hstrides]
    exact (Shape.stride_le_cells hpos (List.getElem_mem _)).trans room
  have hlength : nesting.lengthAt axis ≤ largestSigned := by
    rw [Nesting.lengthAt, List.getD_eq_getElem _ _ haxis]
    exact (Shape.length_le_cells hpos (List.getElem_mem _)).trans room
  have hstrideAt : read (Shape.strides nesting.shape).toArray axis
      = .ok ((Shape.strides nesting.shape).getD axis 1) := read_toArray hstrides 1
  have hlengthAt : read nesting.shape.toArray axis = .ok (nesting.lengthAt axis) :=
    read_toArray haxis 1
  have hreversedAt : read nesting.reversed.toArray axis = .ok (nesting.reversedAt axis) :=
    read_toArray (hreversed ▸ haxis) false
  unfold firstShift at hlower hupper ⊢
  unfold wheel Odometer.wheel
  rw [bind_of_ok hstrideAt, bind_of_ok (signed_of_abs_le (by omega)), bind_of_ok hlengthAt,
    bind_of_ok hreversedAt]
  dsimp only
  -- A reversed axis begins at its last node and steps back, so its distance is calculated too.
  split
  · next hback =>
    rw [if_pos hback] at hlower hupper
    rw [bind_of_ok (signed_of_abs_le (by omega)), bind_of_ok (signed_of_abs_le (by omega)),
      bind_of_ok (signed_of_abs_le (by omega)), bind_of_ok (signed_of_abs_le (by omega))]
    rfl
  · rfl

/-- Nothing stops the machine from setting the wheels up. -/
theorem wheels_eq (hreversed : nesting.reversed.length = nesting.shape.length) {axes : List Nat}
    (haxes : ∀ axis ∈ axes, axis < nesting.shape.length ∧ 0 ≤ firstShift nesting axis) {cell : Int}
    (hcell : 0 ≤ cell) (hlast : cell + (axes.map (firstShift nesting)).sum ≤ largestSigned) :
    wheels nesting (Shape.strides nesting.shape) axes cell
      = .ok (axes.map (Odometer.wheel nesting), cell + (axes.map (firstShift nesting)).sum) := by
  induction axes generalizing cell with
  | nil =>
    rw [List.map_nil, List.map_nil, List.sum_nil, Int.add_zero]
    rfl
  | cons axis axes ih =>
    rw [List.forall_mem_cons] at haxes
    obtain ⟨⟨haxis, hlower⟩, haxes⟩ := haxes
    rw [List.map_cons, List.sum_cons, ← Int.add_assoc] at hlast
    -- No shift is negative, so every sum on the way is at most the last one.
    have hrest : 0 ≤ (axes.map (firstShift nesting)).sum := by
      refine List.sum_nonneg fun shift hshift => ?_
      obtain ⟨axis, haxis, rfl⟩ := List.mem_map.mp hshift
      exact (haxes axis haxis).2
    rw [wheels, bind_of_ok (wheel_eq hpos room hreversed haxis hlower (by omega))]
    dsimp only
    rw [bind_of_ok (signed_of_abs_le (by omega)), bind_of_ok (ih haxes (by omega) hlast),
      List.map_cons, List.map_cons, List.sum_cons, ← Int.add_assoc]
    rfl

include complete

/-- **The start.**  The machine finds the odometer over all cells. -/
theorem start_eq (hreversed : nesting.reversed.length = nesting.shape.length) :
    start nesting = .ok (Odometer.start nesting) := by
  have haxes : ∀ axis ∈ nesting.storage, axis < nesting.shape.length ∧
      0 ≤ firstShift nesting axis :=
    fun axis haxis => ⟨(Nesting.mem_storage_iff complete).mp haxis,
      firstShift_nonneg complete hpos axis haxis⟩
  -- The wheels add up to the first cell, so none of them leads beyond the table.
  have hlast := firstCell_le complete hpos room
  rw [firstCell_eq_sum, ← Int.zero_add (List.sum _)] at hlast
  have hcount : nesting.shape.foldlM mul 1 = .ok (Shape.cells nesting.shape) := by
    rw [foldlM_mul (fun length h => Shape.pos_of_cells_pos hpos length h) (by decide), Nat.one_mul,
      word_of_le (room.trans largestSigned_le)]
  unfold start
  rw [bind_of_ok (strides_eq hpos (room.trans largestSigned_le)),
    bind_of_ok (wheels_eq hpos room hreversed haxes le_rfl hlast), Int.zero_add,
    ← firstCell_eq_sum]
  dsimp only
  rw [bind_of_ok hcount, ← List.map_reverse]
  rfl

/-- **Unnesting.**  Over a table whose cells a signed word counts, nothing stops the machine. -/
theorem unnest_eq (hreversed : nesting.reversed.length = nesting.shape.length) {block : Array Word}
    (hsize : block.size = Shape.cells nesting.shape) :
    unnest nesting block = .ok (GridLookup.unnest nesting block) := by
  unfold unnest GridLookup.unnest
  rw [bind_of_ok (start_eq complete hpos room hreversed)]
  split
  · rfl
  · exact scatter_eq complete hpos room block.toList (sound_start complete hpos)
      (by rw [Array.size_replicate, hsize])

end Nested

end Machine

end GridLookup
