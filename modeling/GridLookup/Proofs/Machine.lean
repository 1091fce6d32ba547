import GridLookup.Proofs.Cell

namespace GridLookup

/-!
# Tables on a machine

The numbers of cells, as a machine works them out: on 64-bit words, where a result that does not fit
stops it, as does a read beyond the end of an array.  For a table whose values can be counted at all
nothing stops it, and it finds what the library finds with numbers of any size.

* `Machine.Fault` — what stops the machine.
* `Machine.add`, `Machine.mul`, `Machine.sub`, `Machine.bit`, `Machine.read` — its operations.
* `Machine.accept`, `Machine.strides`, `Machine.cell?`, `Machine.stored` — tables and their values.
* `Machine.accept_eq` — what tables are built.
* `Machine.strides_shape`, `Machine.cell?_eq`, `Machine.stored_eq` — nothing stops the others.
-/

namespace Machine

/-- What stops a machine. -/
inductive Fault where
  /-- A number does not fit a word. -/
  | overflow
  /-- There is no entry at the index. -/
  | outOfBounds
  deriving DecidableEq, Repr

/-! ### Operations -/

/-- A number in a word. -/
def word (number : Nat) : Except Fault Nat :=
  if number ≤ largestCount then .ok number else .error .overflow

/-- A sum of words. -/
def add (a b : Nat) : Except Fault Nat := word (a + b)

/-- A product of words. -/
def mul (a b : Nat) : Except Fault Nat := word (a * b)

/-- A difference of words. -/
def sub (a b : Nat) : Except Fault Nat := if b ≤ a then .ok (a - b) else .error .overflow

/-- The word of one bit. -/
def bit (place : Nat) : Except Fault Nat :=
  if place < 64 then .ok (1 <<< place) else .error .overflow

/-- The entry of an array at an index. -/
def read {α : Type} (entries : Array α) (index : Nat) : Except Fault α :=
  match entries[index]? with
  | some entry => .ok entry
  | none => .error .outOfBounds

/-- A number up to the largest count fits a word. -/
theorem word_of_le {number : Nat} (h : number ≤ largestCount) : word number = .ok number := if_pos h

/-- What is not larger can be taken away. -/
theorem sub_of_le {a b : Nat} (h : b ≤ a) : sub a b = .ok (a - b) := if_pos h

/-- A word has 64 bits to shift one to. -/
theorem bit_of_lt {place : Nat} (h : place < 64) : bit place = .ok (1 <<< place) := if_pos h

/-- Entries within an array can be read. -/
theorem read_of_lt {α : Type} {entries : Array α} {index : Nat} (h : index < entries.size) :
    read entries index = .ok entries[index] := by
  unfold read
  rw [Array.getElem?_eq_getElem h]

/-- What has not stopped the machine is carried on with. -/
theorem bind_of_ok {α β : Type} {outcome : Except Fault α} {next : α → Except Fault β} {a : α}
    (h : outcome = .ok a) : (outcome >>= next) = next a := by
  rw [h]
  rfl

/-! ### Counting cells -/

/-- The number of cells as far as a word holds it, multiplied up from the first axis on. -/
def cells (shape : List Nat) : Nat :=
  match shape.foldlM mul 1 with
  | .ok count => count
  | .error _ => largestCount

/-- The lengths are multiplied without a stop exactly if all of them together still fit a word. -/
theorem foldlM_mul {shape : List Nat} (hpos : ∀ length ∈ shape, 0 < length) {count : Nat}
    (h : count ≤ largestCount) : shape.foldlM mul count = word (count * Shape.cells shape) := by
  induction shape generalizing count with
  | nil => rw [List.foldlM_nil, Shape.cells_nil, Nat.mul_one, word_of_le h]; rfl
  | cons length shape ih =>
    rw [List.forall_mem_cons] at hpos
    rw [List.foldlM_cons, Shape.cells_cons, ← Nat.mul_assoc, mul]
    by_cases hfits : count * length ≤ largestCount
    · rw [bind_of_ok (word_of_le hfits), ih hpos.2 hfits]
    · -- What does not fit is not made to fit by more axes.
      have hover : ¬ count * length * Shape.cells shape ≤ largestCount := fun hle =>
        hfits ((Nat.le_mul_of_pos_right _ (Shape.cells_pos hpos.2)).trans hle)
      unfold word
      rw [if_neg hfits, if_neg hover]
      rfl

/-- A machine counts the cells up to the largest count and stays there. -/
theorem cells_eq_min {shape : List Nat} (hpos : ∀ length ∈ shape, 0 < length) :
    cells shape = min (Shape.cells shape) largestCount := by
  unfold cells
  rw [foldlM_mul hpos (by decide), Nat.one_mul, word]
  split
  · next count h =>
    split at h
    · next hle =>
      cases h
      rw [Nat.min_eq_left hle]
    · cases h
  · next fault h =>
    split at h
    · cases h
    · next hgt => rw [Nat.min_eq_right (Nat.le_of_not_le hgt)]

/-! ### Strides and cell numbers -/

/-- The strides, from the last axis to the first. -/
def strides : List Nat → Except Fault (List Nat)
  | [] => .ok []
  | [_] => .ok [1]
  | _ :: length :: rest => do
    let later ← strides (length :: rest)
    let stride ← mul (later.headD 1) length
    return stride :: later

/-- Adds up a cell number, unless an entry is out of range. -/
def cellFrom : List Nat → List Nat → List Nat → Nat → Except Fault (Option Nat)
  | i :: index, length :: shape, stride :: strides, cell =>
    if length ≤ i then .ok none
    else do
      let distance ← mul i stride
      let cell ← add cell distance
      cellFrom index shape strides cell
  | _, _, _, cell => .ok (some cell)

/-- Adds up a cell number. -/
def total : List Nat → List Nat → Nat → Except Fault Nat
  | i :: index, stride :: strides, cell => do
    let distance ← mul i stride
    let cell ← add cell distance
    total index strides cell
  | _, _, cell => .ok cell

/-- The strides of a shape whose cells can be counted are those of numbers of any size. -/
theorem strides_eq {shape : List Nat} (hpos : 0 < Shape.cells shape)
    (room : Shape.cells shape ≤ largestCount) : strides shape = .ok (Shape.strides shape) := by
  induction shape with
  | nil => rfl
  | cons first rest ih =>
    rw [Shape.cells_cons] at hpos room
    have hfirst : 0 < first := Nat.pos_of_mul_pos_right hpos
    have hrest : Shape.cells rest ≤ largestCount := (Nat.le_mul_of_pos_left _ hfirst).trans room
    have ih := ih (Nat.pos_of_mul_pos_left hpos) hrest
    -- The product of the later lengths is at most the number of all cells, so it does not wrap.
    cases rest with
    | nil => rfl
    | cons length rest =>
      rw [Shape.cells_cons, Nat.mul_comm] at hrest
      rw [strides, bind_of_ok ih]
      dsimp only [Shape.strides, List.headD_cons]
      rw [mul, bind_of_ok (word_of_le hrest), Nat.mul_comm, Shape.cells_cons]
      rfl

/-- The cell number that is reached leaves room for the entries to come. -/
theorem step_le {length i cell : Nat} {shape : List Nat} (hi : i < length)
    (hpos : 0 < Shape.cells shape)
    (room : cell + Shape.cells (length :: shape) ≤ largestCount + 1) :
    i * Shape.cells shape ≤ largestCount ∧ cell + i * Shape.cells shape ≤ largestCount ∧
      cell + i * Shape.cells shape + Shape.cells shape ≤ largestCount + 1 := by
  have hstep : (i + 1) * Shape.cells shape ≤ length * Shape.cells shape :=
    Nat.mul_le_mul_right _ hi
  rw [Nat.add_mul, Nat.one_mul] at hstep
  rw [Shape.cells_cons] at room
  omega

/-- A cell is found, or an index is found to lie outside, as with numbers of any size, as long as
    the cells behind the one begun at can be counted. -/
theorem cellFrom_eq {shape index : List Nat} (hlength : index.length = shape.length)
    (hpos : 0 < Shape.cells shape) {cell : Nat}
    (room : cell + Shape.cells shape ≤ largestCount + 1) :
    cellFrom index shape (Shape.strides shape) cell
      = .ok ((Table.firstOutside? shape index).elim (some (cell + Shape.offset shape index))
          fun _ => none) := by
  induction shape generalizing index cell with
  | nil =>
    obtain rfl : index = [] := List.eq_nil_of_length_eq_zero hlength
    rfl
  | cons length shape ih =>
    match index, hlength with
    | i :: index, hlength =>
      rw [Shape.strides, cellFrom, Table.firstOutside?_cons]
      by_cases hi : length ≤ i
      · rw [if_pos hi, if_pos hi, Option.elim_some]
      · have hrest : 0 < Shape.cells shape := Nat.pos_of_mul_pos_left hpos
        -- The invariant: what is added up so far has room for a whole table of the axes to come.
        obtain ⟨hmul, hadd, room⟩ := step_le (Nat.lt_of_not_le hi) hrest room
        rw [if_neg hi, if_neg hi, mul, bind_of_ok (word_of_le hmul), add,
          bind_of_ok (word_of_le hadd), ih (Nat.succ.inj hlength) hrest room, Shape.offset_cons,
          Nat.add_assoc]

/-- The sum of the steps along all axes is the offset of the index. -/
theorem total_eq {shape index : List Nat} (h : Shape.Contains shape index) {cell : Nat}
    (room : cell + Shape.cells shape ≤ largestCount + 1) :
    total index (Shape.strides shape) cell = .ok (cell + Shape.offset shape index) := by
  induction shape generalizing index cell with
  | nil =>
    obtain rfl : index = [] := List.eq_nil_of_length_eq_zero h.length_eq
    rfl
  | cons length shape ih =>
    match index, h with
    | i :: index, ⟨hi, h⟩ =>
      have hrest : 0 < Shape.cells shape := (Nat.zero_le _).trans_lt (Shape.offset_lt_cells h)
      obtain ⟨hmul, hadd, room⟩ := step_le hi hrest room
      rw [Shape.strides, total, mul, bind_of_ok (word_of_le hmul), add,
        bind_of_ok (word_of_le hadd), ih h room, Shape.offset_cons, Nat.add_assoc]

/-! ### Tables -/

variable {α : Type} [Scalar α]

/-- Whether these values over these axes make a table. -/
def accept (values : Array α) (axes : List (Axis α)) : Except (TableError α) Unit :=
  if axes = [] then .error .noAxes
  else if axisLimit < axes.length then .error (.tooManyAxes axes.length axisLimit)
  else
    let expected := cells (axes.map Axis.size)
    if values.size = expected then .ok () else .error (.sizeMismatch expected values.size)

/-- The cell at a multi-index, if it has one entry per axis and all are in range. -/
def cell? (table : Table α) (index : List Nat) : Except Fault (Option Nat) :=
  if index.length = table.dimensions then do
    let strides ← strides table.shape
    cellFrom index table.shape strides 0
  else .ok none

/-- The stored value at a multi-index. -/
def stored (table : Table α) (index : List Nat) : Except Fault (Except (TableError α) α) :=
  if index.length = table.dimensions then
    match Table.firstOutside? table.shape index with
    | some (i, length) => .ok (.error (.indexOutOfRange i length))
    | none => do
      let strides ← strides table.shape
      let cell ← total index strides 0
      let value ← read table.values cell
      return .ok value
  else .ok (.error (.arityMismatch table.dimensions index.length))

/-- **Tables are accepted alike.**  The number of values is never the largest number of a word, so
    it does not matter that the number of cells is cut off there. -/
theorem accept_eq {values : Array α} (room : values.size < largestCount) (axes : List (Axis α)) :
    accept values axes = (Table.build values axes).map fun _ => () := by
  unfold accept Table.build
  by_cases hnone : axes = []
  · rw [if_pos hnone, dif_pos hnone]
    rfl
  by_cases hfew : axes.length ≤ axisLimit
  · have hiff : values.size = min (Shape.cells (axes.map Axis.size)) largestCount
        ↔ values.size = Shape.cells (axes.map Axis.size) := by omega
    rw [if_neg hnone, dif_neg hnone, if_neg (Nat.not_lt.mpr hfew), dif_pos hfew,
      cells_eq_min Table.size_pos_of_mem_map]
    by_cases hsize : values.size = Shape.cells (axes.map Axis.size)
    · rw [dif_pos hsize, if_pos (hiff.mpr hsize)]
      rfl
    · rw [dif_neg hsize, if_neg (mt hiff.mp hsize)]
      rfl
  · rw [if_neg hnone, dif_neg hnone, if_pos (Nat.lt_of_not_le hfew), dif_neg hfew]
    rfl

section Counted

variable {table : Table α} (room : table.values.size ≤ largestCount)

include room

/-- Nothing stops the machine from working out the strides of a table. -/
theorem strides_shape : strides table.shape = .ok (Shape.strides table.shape) :=
  strides_eq table.cells_shape_pos (table.values_size_eq ▸ room)

/-- The cells of a table can be counted. -/
theorem room_shape : 0 + Shape.cells table.shape ≤ largestCount + 1 := by
  rw [← table.values_size_eq]
  omega

/-- The machine finds the cell of an index where the library does. -/
theorem cell?_eq (index : List Nat) : cell? table index = .ok (table.cell? index) := by
  unfold cell? Table.cell?
  by_cases hlength : index.length = table.dimensions
  · have hshape : index.length = table.shape.length := hlength.trans table.shape_length.symm
    rw [if_pos hlength, if_pos hlength, bind_of_ok (strides_shape room),
      cellFrom_eq hshape table.cells_shape_pos (room_shape room), Nat.zero_add]
    cases Table.firstOutside? table.shape index <;> rfl
  · rw [if_neg hlength, if_neg hlength]

/-- The machine reads the value at an index as the library does. -/
theorem stored_eq (index : List Nat) : stored table index = .ok (table.stored index) := by
  unfold stored Table.stored
  by_cases hlength : index.length = table.dimensions
  · have hshape : index.length = table.shape.length := hlength.trans table.shape_length.symm
    rw [if_pos hlength, if_pos hlength]
    cases hinside : Table.firstOutside? table.shape index with
    | some => rfl
    | none =>
      have hindex := (Table.firstOutside?_eq_none_iff hshape).mp hinside
      have hcell := Table.offset_lt_size hindex
      dsimp only
      rw [bind_of_ok (strides_shape room), bind_of_ok (total_eq hindex (room_shape room)),
        Nat.zero_add, bind_of_ok (read_of_lt hcell), Table.value_of_lt hcell]
      rfl
  · rw [if_neg hlength, if_neg hlength]

end Counted

end Machine

end GridLookup
