import GridLookup.Proofs.GridPoint
import GridLookup.Proofs.Machine
import GridLookup.Proofs.Mask
import Mathlib.Data.Nat.Bitwise

namespace GridLookup

/-!
# Queries on a machine

A query as a machine works it out, every entry read by its index: nothing stops the machine,
whatever the coordinate is, because no corner of an enclosing cell is beyond the last value.

* `cell_follow_le`, `offset_add_strides` — how far a mask can lead.
* `Table.cornerAt_lt`, `Table.two_pow_steps_le` — all corners are cells of the table, and there are
  no more of them.
* `Machine.bracket`, `Machine.get`, `Machine.get1` — queries on a machine.
* `Table.get_inside` — queries stay inside the table.
-/

variable {α : Type} [Scalar α]

/-! ### Corners of a cell -/

/-- No mask leads further than all the steps together. -/
theorem cell_follow_le (steps : List (Step α)) (mask : Nat) (corner : Corner α) :
    (corner.follow steps mask).cell ≤ corner.cell + (steps.map Step.stride).sum := by
  induction steps generalizing mask corner with
  | nil => simp [Corner.follow]
  | cons step steps ih =>
    rw [Corner.follow, List.map_cons, List.sum_cons]
    split
    · have hupper := ih (mask / 2) (corner.upper step)
      have hcell : (corner.upper step).cell = corner.cell + step.stride := rfl
      omega
    · have hlower := ih (mask / 2) (corner.lower step)
      have hcell : (corner.lower step).cell = corner.cell := rfl
      omega

section Brackets

variable {shape : List Nat} {brackets : List (Bracket α)}
  (hneighbours : ∀ bracket ∈ brackets, bracket.isSingle = false → bracket.hi = bracket.lo + 1)

include hneighbours

omit [Scalar α] in
/-- All the steps together lead from the lower nodes to the upper ones. -/
theorem offset_add_strides (hlength : brackets.length = shape.length) :
    Shape.offset shape (brackets.map Bracket.lo) + ((stepsAlong shape brackets).map Step.stride).sum
      = Shape.offset shape (brackets.map Bracket.hi) := by
  induction brackets generalizing shape with
  | nil =>
    obtain rfl : shape = [] := List.eq_nil_of_length_eq_zero hlength.symm
    rfl
  | cons bracket brackets ih =>
    match shape, hlength with
    | length :: shape, hlength =>
      rw [List.forall_mem_cons] at hneighbours
      have ih := ih hneighbours.2 (Nat.succ.inj hlength)
      simp only [List.map_cons, Shape.offset_cons, stepsAlong_cons]
      -- A bracket of two nodes contributes a step, and the upper node is one stride further.
      by_cases hsingle : bracket.isSingle = true
      · have hhi : bracket.lo = bracket.hi := eq_of_beq hsingle
        rw [if_pos hsingle, ← hhi, ← ih, Nat.add_assoc]
      · have hhi := hneighbours.1 (by simpa using hsingle)
        rw [if_neg hsingle, List.map_cons, List.sum_cons, hhi, ← ih, Nat.add_one_mul]
        dsimp only
        omega

omit [Scalar α] in
/-- An axis along which there is a step has two nodes at least. -/
theorem two_pow_stepsAlong_le (h : Shape.Contains shape (brackets.map Bracket.hi)) :
    2 ^ (stepsAlong shape brackets).length ≤ Shape.cells shape := by
  induction brackets generalizing shape with
  | nil =>
    obtain rfl : shape = [] := List.eq_nil_of_length_eq_zero h.length_eq.symm
    exact Nat.le_refl 1
  | cons bracket brackets ih =>
    match shape, h with
    | length :: shape, ⟨hhi, h⟩ =>
      rw [List.forall_mem_cons] at hneighbours
      have ih := ih hneighbours.2 h
      rw [stepsAlong_cons, Shape.cells_cons]
      -- A step doubles the masks, and its axis multiplies the cells by two at least.
      by_cases hsingle : bracket.isSingle = true
      · rw [if_pos hsingle]
        exact ih.trans (Nat.le_mul_of_pos_left _ ((Nat.zero_le _).trans_lt hhi))
      · have hlo := hneighbours.1 (by simpa using hsingle)
        have htwo : 2 ≤ length := by omega
        rw [if_neg hsingle, List.length_cons, Nat.pow_succ']
        exact Nat.mul_le_mul htwo ih

end Brackets

namespace Table

variable [LawfulScalar α] (table : Table α) {coordinate : List α}

/-- The upper nodes of a coordinate are a cell. -/
theorem contains_map_hi (hlength : coordinate.length = table.dimensions) :
    Shape.Contains table.shape ((table.brackets coordinate).map Bracket.hi) :=
  contains_of_picks hlength (picks_map_hi _)

/-- The last corner of the enclosing cell has a value. -/
theorem baseCell_add_strides_lt (hlength : coordinate.length = table.dimensions) :
    table.baseCell (table.brackets coordinate)
        + ((table.steps (table.brackets coordinate)).map Step.stride).sum < table.values.size := by
  rw [table.steps_eq_stepsAlong, baseCell,
    offset_add_strides (fun _ => table.hi_of_mem_brackets) (table.length_brackets hlength)]
  exact offset_lt_size (table.contains_map_hi hlength)

/-- Every corner of the enclosing cell has a value. -/
theorem cornerAt_lt (hlength : coordinate.length = table.dimensions) (mask : Nat) :
    (cornerAt (table.baseCell (table.brackets coordinate))
      (table.steps (table.brackets coordinate)) mask).cell < table.values.size :=
  (cell_follow_le _ mask _).trans_lt (table.baseCell_add_strides_lt hlength)

/-- The corners are no more than the values. -/
theorem two_pow_steps_le (hlength : coordinate.length = table.dimensions) :
    2 ^ (table.steps (table.brackets coordinate)).length ≤ table.values.size := by
  rw [table.steps_eq_stepsAlong, table.values_size_eq]
  exact two_pow_stepsAlong_le (fun _ => table.hi_of_mem_brackets) (table.contains_map_hi hlength)

omit [LawfulScalar α] in
/-- There are no more steps than axes allowed. -/
theorem length_steps_le (hlength : coordinate.length = table.dimensions) :
    (table.steps (table.brackets coordinate)).length ≤ axisLimit := by
  have hzip : ((table.brackets coordinate).zip (Shape.strides table.shape)).length
      = table.dimensions := by
    rw [List.length_zip, table.length_brackets hlength, Shape.strides_length, Nat.min_self,
      table.shape_length]
  calc (table.steps (table.brackets coordinate)).length
      ≤ ((table.brackets coordinate).zip (Shape.strides table.shape)).length :=
        List.length_filterMap_le ..
    _ = table.dimensions := hzip
    _ ≤ axisLimit := table.axes_length_le

end Table

namespace Machine

/-! ### Brackets on a machine -/

/-- Binary search in `lo ..< hi` for the first node above `x`. -/
def firstAbove (axis : Axis α) (x : α) (lo hi : Nat) : Except Fault Nat :=
  if lo < hi then do
    let middle := (lo + hi) / 2
    let node ← read axis.nodes middle
    if Scalar.le node x then firstAbove axis x (middle + 1) hi
    else firstAbove axis x lo middle
  else .ok lo
termination_by hi - lo

/-- Brackets a coordinate. -/
def bracket (axis : Axis α) (x : α) : Except Fault (Bracket α) := do
  let last ← sub axis.size 1
  if Scalar.isNaN x then return ⟨0, 0, Scalar.nan⟩
  else
    let least ← read axis.nodes 0
    if Scalar.le x least then return .single 0
    else
      let greatest ← read axis.nodes last
      if Scalar.le greatest x then return .single last
      else
        let hi ← firstAbove axis x 0 axis.size
        let lo ← sub hi 1
        let lower ← read axis.nodes lo
        if Scalar.eq x lower then return .single lo
        else
          let upper ← read axis.nodes hi
          return ⟨lo, hi, (x - lower) / (upper - lower)⟩

/-- Nothing stops the machine from reading a node. -/
theorem read_node {axis : Axis α} {i : Nat} (h : i < axis.size) :
    read axis.nodes i = .ok (axis.node i) := by
  rw [Axis.node_eq h]
  exact read_of_lt h

/-- Nothing stops the machine from searching an axis. -/
theorem firstAbove_eq (axis : Axis α) (x : α) {lo hi : Nat} (hhi : hi ≤ axis.size) :
    firstAbove axis x lo hi = .ok (axis.firstAbove x lo hi) := by
  induction hwidth : hi - lo using Nat.strong_induction_on generalizing lo hi with
  | _ width ih =>
    rw [firstAbove, Axis.firstAbove]
    by_cases hlt : lo < hi
    · have hmiddle : (lo + hi) / 2 < axis.size := by omega
      rw [if_pos hlt, if_pos hlt, bind_of_ok (read_node hmiddle)]
      dsimp only
      split
      · exact ih (hi - ((lo + hi) / 2 + 1)) (by omega) hhi rfl
      · exact ih ((lo + hi) / 2 - lo) (by omega) (by omega) rfl
    · rw [if_neg hlt, if_neg hlt]

/-- Every node that bracketing reads is on the axis. -/
theorem bracket_eq [LawfulScalar α] (axis : Axis α) (x : α) :
    bracket axis x = .ok (axis.bracket x) := by
  have hlast : sub axis.size 1 = .ok axis.last := sub_of_le axis.size_pos
  have hleast : read axis.nodes 0 = .ok axis.least := read_node axis.size_pos
  have hgreatest : read axis.nodes axis.last = .ok axis.greatest := read_node axis.last_lt_size
  unfold bracket Axis.bracket
  rw [bind_of_ok hlast]
  by_cases hx : Scalar.isNaN x = true
  · rw [if_pos hx, if_pos hx]
    rfl
  rw [if_neg hx, if_neg hx, bind_of_ok hleast]
  by_cases hbelow : Scalar.le x axis.least = true
  · rw [if_pos hbelow, if_pos hbelow]
    rfl
  rw [if_neg hbelow, if_neg hbelow, bind_of_ok hgreatest]
  by_cases habove : Scalar.le axis.greatest x = true
  · rw [if_pos habove, if_pos habove]
    rfl
  rw [Bool.not_eq_true] at hx hbelow
  rw [if_neg habove, if_neg habove, bind_of_ok (firstAbove_eq axis x (Nat.le_refl _))]
  -- What the search finds is neither the first node nor past the last one.
  obtain ⟨hpositive, hinside⟩ := Axis.firstAbove_inside hx hbelow (by simpa using habove)
  rw [bind_of_ok (sub_of_le hpositive), bind_of_ok (read_node ((Nat.sub_le _ 1).trans_lt hinside))]
  dsimp only
  split
  · rfl
  · rw [bind_of_ok (read_node hinside)]
    rfl

/-! ### The enclosing cell on a machine -/

/-- Adds up the cell at the lower nodes and collects the steps, unless a weight is undefined. -/
def enclose : List (Axis α) → List α → List Nat → Nat → List (Step α) →
    Except Fault (Option (Nat × List (Step α)))
  | axis :: axes, x :: coordinate, stride :: strides, base, active => do
    let bracket ← bracket axis x
    if bracket.isUndefined then return none
    else
      let distance ← mul bracket.lo stride
      let base ← add base distance
      enclose axes coordinate strides base
        (if bracket.isSingle then active else active ++ [⟨stride, bracket.weight⟩])
  | _, _, _, base, active => .ok (some (base, active))

/-- Nothing stops the machine from locating a coordinate, and it finds the same cell and steps. -/
theorem enclose_eq [LawfulScalar α] {axes : List (Axis α)} {coordinate : List α}
    (hlength : coordinate.length = axes.length) {base : Nat}
    (room : base + Shape.cells (axes.map Axis.size) ≤ largestCount + 1) (active : List (Step α)) :
    let shape := axes.map Axis.size
    let brackets := List.zipWith Axis.bracket axes coordinate
    enclose axes coordinate (Shape.strides shape) base active
      = .ok (if brackets.any Bracket.isUndefined then none
        else some (base + Shape.offset shape (brackets.map Bracket.lo),
          active ++ stepsAlong shape brackets)) := by
  dsimp only
  induction axes generalizing coordinate base active with
  | nil =>
    show Except.ok (some (base, active)) = Except.ok (some (base + 0, active ++ []))
    rw [List.append_nil, Nat.add_zero]
  | cons axis axes ih =>
    match coordinate, hlength with
    | x :: coordinate, hlength =>
      obtain ⟨-, hlo, -⟩ := axis.bracket_nodes x
      have hrest : 0 < Shape.cells (axes.map Axis.size) := Shape.cells_pos Table.size_pos_of_mem_map
      obtain ⟨hmul, hadd, room⟩ := step_le hlo hrest room
      -- Where the lower node leads leaves room for the axes to come.
      rw [List.map_cons, Shape.strides, enclose, bind_of_ok (bracket_eq axis x),
        List.zipWith_cons_cons, List.any_cons, List.map_cons, Shape.offset_cons, stepsAlong_cons]
      by_cases hundefined : (axis.bracket x).isUndefined = true
      · rw [if_pos hundefined, hundefined, Bool.true_or, if_pos rfl]
        rfl
      · rw [if_neg hundefined, mul, bind_of_ok (word_of_le hmul), add, bind_of_ok (word_of_le hadd),
          ih (Nat.succ.inj hlength) room]
        by_cases hsingle : (axis.bracket x).isSingle = true <;>
          simp [hundefined, hsingle, Nat.add_assoc]

/-! ### Corners on a machine -/

/-- The corner that a mask leads to, bit by bit. -/
def follow : List (Step α) → Nat → Nat → Corner α → Except Fault (Corner α)
  | [], _, _, corner => .ok corner
  | step :: steps, mask, place, corner => do
    let bit ← bit place
    if mask &&& bit = 0 then follow steps mask (place + 1) (corner.lower step)
    else
      let cell ← add corner.cell step.stride
      follow steps mask (place + 1) ⟨cell, corner.weight * step.weight⟩

/-- The weighted sum of stored values over the corners, mask by mask. -/
def weightedSum (table : Table α) (base : Nat) (steps : List (Step α)) : Except Fault α := do
  let masks ← bit steps.length
  (List.range masks).foldlM (fun sum mask => do
    let corner ← follow steps mask 0 ⟨base, 1.0⟩
    let value ← read table.values corner.cell
    return sum + corner.weight * value) 0.0

/-- A bit is clear in a mask exactly if the mask has nothing in common with it. -/
theorem and_bit_eq_zero_iff (mask place : Nat) :
    mask &&& 1 <<< place = 0 ↔ mask.testBit place = false := by
  rw [Nat.one_shiftLeft, Nat.and_two_pow]
  cases mask.testBit place <;> simp

/-- Nothing stops the machine from following the steps that a mask selects. -/
theorem follow_eq {steps : List (Step α)} {mask place : Nat} (few : place + steps.length ≤ 64)
    {corner : Corner α} (room : corner.cell + (steps.map Step.stride).sum ≤ largestCount) :
    follow steps mask place corner = .ok (corner.follow steps (mask / 2 ^ place)) := by
  induction steps generalizing place corner with
  | nil => rfl
  | cons step steps ih =>
    rw [List.length_cons] at few
    rw [List.map_cons, List.sum_cons] at room
    -- The bits of the steps before are shifted out, so that of this step is the lowest one.
    have hnext : mask / 2 ^ place / 2 = mask / 2 ^ (place + 1) := by
      rw [Nat.div_div_eq_div_mul, Nat.pow_succ]
    have hbit : (mask / 2 ^ place).testBit 0 = mask.testBit place := by
      rw [Nat.testBit_div_two_pow, Nat.zero_add]
    have few' : place + 1 + steps.length ≤ 64 := by omega
    rw [follow, bind_of_ok (bit_of_lt (by omega)), Corner.follow, hbit, hnext]
    by_cases hset : mask.testBit place = true
    · rw [if_neg (by simp [and_bit_eq_zero_iff, hset]), if_pos hset, add,
        bind_of_ok (word_of_le (by omega))]
      exact ih few' (by rw [Nat.add_assoc]; exact room)
    · rw [if_pos ((and_bit_eq_zero_iff _ _).mpr (by simpa using hset)), if_neg hset]
      exact ih few' (by show corner.cell + _ ≤ _; omega)

/-- A loop of which nothing stops a single turn. -/
theorem foldlM_of_ok {β γ : Type} {items : List β} {turn : γ → β → Except Fault γ} {f : γ → β → γ}
    (h : ∀ item ∈ items, ∀ state, turn state item = .ok (f state item)) (start : γ) :
    items.foldlM turn start = .ok (items.foldl f start) := by
  induction items generalizing start with
  | nil => rfl
  | cons item items ih =>
    rw [List.forall_mem_cons] at h
    rw [List.foldlM_cons, List.foldl_cons, bind_of_ok (h.1 start), ih h.2]

/-- Nothing stops the machine from summing over the corners. -/
theorem weightedSum_eq {table : Table α} {base : Nat} {steps : List (Step α)}
    (few : steps.length < 64) (room : table.values.size ≤ largestCount)
    (inside : base + (steps.map Step.stride).sum < table.values.size) :
    weightedSum table base steps = .ok (table.weightedSum (corners base steps)) := by
  unfold weightedSum Table.weightedSum
  rw [bind_of_ok (bit_of_lt few), corners_eq_map_cornerAt, List.foldl_map, Nat.one_shiftLeft]
  -- Whatever the sum is so far, one more mask does not stop the loop.
  refine foldlM_of_ok (fun mask _ sum => ?_) _
  have hcell : (cornerAt base steps mask).cell < table.values.size :=
    (cell_follow_le steps mask _).trans_lt inside
  have hfollow : follow steps mask 0 ⟨base, 1.0⟩ = .ok (cornerAt base steps mask) := by
    rw [follow_eq (by omega) (inside.le.trans room), Nat.pow_zero, Nat.div_one]
    rfl
  rw [bind_of_ok hfollow, bind_of_ok (read_of_lt hcell), ← Table.value_of_lt hcell]
  rfl

/-! ### Queries on a machine -/

/-- The value at a coordinate with one component per axis. -/
def interpolate (table : Table α) (coordinate : List α) : Except Fault α := do
  let strides ← strides table.shape
  let enclosed ← enclose table.axes coordinate strides 0 []
  match enclosed with
  | none => return Scalar.nan
  | some (base, []) => read table.values base
  | some (base, steps) => weightedSum table base steps

/-- The value at a coordinate. -/
def get (table : Table α) (coordinate : List α) : Except Fault (Except (TableError α) α) :=
  if coordinate.length = table.dimensions then do
    let value ← interpolate table coordinate
    return .ok value
  else .ok (.error (.arityMismatch table.dimensions coordinate.length))

/-- The value of a one-dimensional table. -/
def get1 (table : Table α) (x : α) : Except Fault (Except (TableError α) α) :=
  match table.axes with
  | [axis] => do
    let bracket ← bracket axis x
    if bracket.isUndefined then return .ok Scalar.nan
    else if bracket.isSingle then
      let value ← read table.values bracket.lo
      return .ok value
    else
      let lower ← read table.values bracket.lo
      let upper ← read table.values bracket.hi
      return .ok ((1.0 - bracket.weight) * lower + bracket.weight * upper)
  | _ => .ok (.error (.arityMismatch table.dimensions 1))

variable [LawfulScalar α] {table : Table α} (room : table.values.size ≤ largestCount)

include room

/-- Nothing stops the machine from interpolating. -/
theorem interpolate_eq {coordinate : List α} (hlength : coordinate.length = table.dimensions) :
    interpolate table coordinate = .ok (table.interpolate coordinate) := by
  have henclose : enclose table.axes coordinate (Shape.strides table.shape) 0 []
      = .ok (if (table.brackets coordinate).any Bracket.isUndefined then none
          else some (table.baseCell (table.brackets coordinate),
            table.steps (table.brackets coordinate))) := by
    have h := enclose_eq hlength (room_shape room) []
    dsimp only at h
    rw [Nat.zero_add, List.nil_append] at h
    exact h
  -- Every mask stays below this last cell, and the masks fit into a word.
  have hinside := table.baseCell_add_strides_lt hlength
  have hfew : (table.steps (table.brackets coordinate)).length < 64 :=
    (table.length_steps_le hlength).trans_lt (by decide)
  unfold interpolate Table.interpolate
  rw [bind_of_ok (strides_shape room), bind_of_ok henclose]
  by_cases hundefined : (table.brackets coordinate).any Bracket.isUndefined = true
  · rw [if_pos hundefined, if_pos hundefined]
    rfl
  · rw [if_neg hundefined, if_neg hundefined]
    cases hsteps : table.steps (table.brackets coordinate) with
    | nil =>
      have hbase : table.baseCell (table.brackets coordinate) < table.values.size :=
        (Nat.le_add_right _ _).trans_lt hinside
      show read table.values _ = _
      rw [read_of_lt hbase, ← Table.value_of_lt hbase]
    | cons step steps =>
      rw [hsteps] at hinside hfew
      exact weightedSum_eq hfew room hinside

/-- Nothing stops the machine from answering a query. -/
theorem get_eq (coordinate : List α) : get table coordinate = .ok (table.get coordinate) := by
  unfold get Table.get Table.requireArity
  by_cases hlength : coordinate.length = table.dimensions
  · rw [if_pos hlength, if_pos hlength, bind_of_ok (interpolate_eq room hlength)]
    rfl
  · rw [if_neg hlength, if_neg hlength]
    rfl

omit room in
/-- Nothing stops the machine from answering a query of one coordinate. -/
theorem get1_eq (x : α) : get1 table x = .ok (table.get1 x) := by
  unfold get1 Table.get1
  match haxes : table.axes with
  | [] => rfl
  | [axis] =>
    -- The nodes of the only axis are the cells.
    have hsize : axis.size = table.values.size := by
      rw [table.values_size, haxes, List.map_singleton, Shape.cells_cons, Shape.cells_nil,
        Nat.mul_one]
    obtain ⟨-, hlo, hhi⟩ := axis.bracket_nodes x
    rw [hsize] at hlo hhi
    dsimp only
    rw [bind_of_ok (bracket_eq axis x)]
    unfold Table.interpolate1
    by_cases hundefined : (axis.bracket x).isUndefined = true
    · rw [if_pos hundefined, if_pos hundefined]
      rfl
    rw [if_neg hundefined, if_neg hundefined, bind_of_ok (read_of_lt hlo),
      bind_of_ok (read_of_lt hlo), bind_of_ok (read_of_lt hhi), ← Table.value_of_lt hlo,
      ← Table.value_of_lt hhi]
    split <;> rfl
  | _ :: _ :: _ => rfl

end Machine

namespace Table

variable [LawfulScalar α]

/-- **Queries stay inside the table.**  If a word holds the number of values, nothing stops a
    machine: it brackets every coordinate on every axis, infinite and undefined ones as well, and
    answers all queries as they are meant.  The masks of a query fit a word, no mask leads past the
    last value, and there are no more masks than values. -/
theorem get_inside {table : Table α} (room : table.values.size < 2 ^ 64) :
    (∀ (axis : Axis α) (x : α), Machine.bracket axis x = .ok (axis.bracket x) ∧
        (axis.bracket x).lo < axis.size ∧ (axis.bracket x).hi < axis.size) ∧
      (∀ x, Machine.get1 table x = .ok (table.get1 x)) ∧
      (∀ coordinate, Machine.get table coordinate = .ok (table.get coordinate)) ∧
      ∀ coordinate, coordinate.length = table.dimensions →
        let base := table.baseCell (table.brackets coordinate)
        let steps := table.steps (table.brackets coordinate)
        base + (steps.map Step.stride).sum < table.values.size ∧
          (∀ mask, (cornerAt base steps mask).cell < table.values.size) ∧
          steps.length < 64 ∧ 2 ^ steps.length ≤ table.values.size := by
  have hcount : table.values.size ≤ largestCount := Nat.le_sub_one_of_lt room
  refine ⟨fun axis x => ⟨Machine.bracket_eq axis x, (axis.bracket_nodes x).2⟩, Machine.get1_eq,
    Machine.get_eq hcount, fun coordinate hlength => ?_⟩
  have hfew : (table.steps (table.brackets coordinate)).length < 64 :=
    (table.length_steps_le hlength).trans_lt (by decide)
  exact ⟨table.baseCell_add_strides_lt hlength, table.cornerAt_lt hlength, hfew,
    table.two_pow_steps_le hlength⟩

/-- Between the nodes of both axes, and with an undefined component and an infinite one. -/
theorem get_inside_speckled :
    speckled.values.size < 2 ^ 64 ∧ [(0.5 : Float), 4.0].length = speckled.dimensions ∧
      (speckled.steps (speckled.brackets [0.5, 4.0])).length = 2 ∧
      2 ^ (speckled.steps (speckled.brackets [0.5, 4.0])).length ≤ speckled.values.size ∧
      Machine.get speckled [0.5, 4.0] = .ok (speckled.get [0.5, 4.0]) ∧
      Machine.get speckled [Float.ofBits 0x7ff8000000000000, Float.ofBits 0x7ff0000000000000]
        = .ok (speckled.get
          [Float.ofBits 0x7ff8000000000000, Float.ofBits 0x7ff0000000000000]) := by
  have room : speckled.values.size < 2 ^ 64 := by decide
  obtain ⟨-, -, hget, hinside⟩ := get_inside room
  obtain ⟨-, -, -, hmasks⟩ := hinside [0.5, 4.0] rfl
  exact ⟨room, rfl, by decide +kernel, hmasks, hget _, hget _⟩

end Table

end GridLookup
