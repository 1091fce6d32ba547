import GridLookup.Proofs.Corners
import Mathlib.Algebra.BigOperators.Group.Multiset.Basic
import Mathlib.Algebra.BigOperators.Ring.List
import Mathlib.Data.List.Sections
import Mathlib.Tactic.Linarith
import Mathlib.Tactic.Ring

namespace GridLookup

/-!
# Interpolation in exact arithmetic

Read over exact numbers, a query is the multilinear interpolant of any cell that encloses its
coordinate.

* `blend` — values weighted along one axis after the other.
* `sum_sections` — the same as one sum over all corners.
* `Table.interpolate_eq_blend` — leaving exactly hit axes out of the corners changes nothing.
* `Axis.sum_shares_eq` — two neighbouring cells agree on the node they share.
* `Table.get_eq_multilinear` — the interpolant of every enclosing cell.
-/

/-! ### Values weighted axis by axis -/

/-- The nodes of an axis that take part, each with its share. -/
abbrev Shares := List (Nat × ℚ)

/-- The values of a function of node indices, weighted along one axis after the other. -/
def blend : List Shares → (List Nat → ℚ) → ℚ
  | [], f => f []
  | shares :: rest, f =>
    (shares.map fun share => share.2 * blend rest fun index => f (share.1 :: index)).sum

/-- Weighting axis by axis is one sum over all corners, each weighted with the product of its
    shares. -/
theorem sum_sections (axes : List Shares) (f : List Nat → ℚ) :
    (axes.sections.map fun corner =>
      (corner.map Prod.snd).prod * f (corner.map Prod.fst)).sum = blend axes f := by
  induction axes generalizing f with
  | nil => simp [blend]
  | cons shares rest ih =>
    have hcorners (corner : List (Nat × ℚ)) : (shares.map fun share =>
        ((share :: corner).map Prod.snd).prod * f ((share :: corner).map Prod.fst)).sum
          = (shares.map fun share => share.2 * ((corner.map Prod.snd).prod
              * f (share.1 :: corner.map Prod.fst))).sum := by
      refine congrArg List.sum (List.map_congr_left fun share _ => ?_)
      rw [List.map_cons, List.map_cons, List.prod_cons, mul_assoc]
    have hswap := Multiset.sum_map_sum_map (rest.sections : Multiset (List (Nat × ℚ)))
      (shares : Multiset (Nat × ℚ)) (f := fun corner share =>
        share.2 * ((corner.map Prod.snd).prod * f (share.1 :: corner.map Prod.fst)))
    simp only [Multiset.map_coe, Multiset.sum_coe] at hswap
    -- Each corner of the rest goes with each node of the first axis; sum over the node last.
    rw [List.sections, List.map_flatMap, List.flatMap_def, List.sum_flatten, List.map_map, blend]
    simp only [Function.comp_def, List.map_map, hcorners]
    rw [hswap]
    refine congrArg List.sum (List.map_congr_left fun share _ => ?_)
    rw [List.sum_map_mul_left, ih fun index => f (share.1 :: index)]

/-- Axes may be replaced by others that weight every function alike. -/
theorem blend_congr {axes others : List Shares} {f : List Nat → ℚ}
    (h : List.Forall₂ (fun shares shares' : Shares => ∀ g : Nat → ℚ,
      (shares.map fun share => share.2 * g share.1).sum
        = (shares'.map fun share => share.2 * g share.1).sum) axes others) :
    blend axes f = blend others f := by
  induction h generalizing f with
  | nil => rfl
  | cons hsame _ ih =>
    rw [blend, blend, hsame fun node => blend _ fun index => f (node :: index)]
    refine congrArg List.sum (List.map_congr_left fun share _ => ?_)
    rw [ih]

/-- Only lists of one node per axis matter. -/
theorem blend_congr_index {axes : List Shares} {f f' : List Nat → ℚ}
    (h : ∀ index : List Nat, index.length = axes.length → f index = f' index) :
    blend axes f = blend axes f' := by
  induction axes generalizing f f' with
  | nil => exact h [] rfl
  | cons shares rest ih =>
    rw [blend, blend]
    refine congrArg List.sum (List.map_congr_left fun share _ => ?_)
    rw [ih fun index hindex => h (share.1 :: index) (by simpa using hindex)]

/-! ### Sums over steps -/

/-- The values of a function of cells, weighted along one step after the other. -/
def stepSum : List (Step ℚ) → (Nat → ℚ) → Nat → ℚ
  | [], f, cell => f cell
  | step :: steps, f, cell =>
    (1 - step.weight) * stepSum steps f cell + step.weight * stepSum steps f (cell + step.stride)

/-- The lower corner of a step has the share of the lower node. -/
theorem weight_lower (step : Step ℚ) (corner : Corner ℚ) :
    (corner.lower step).weight = corner.weight * (1 - step.weight) := by
  show corner.weight * ((1.0 : ℚ) - step.weight) = _
  norm_num

/-- Corners reached by steps sum up step by step. -/
theorem sum_extendCorners (steps : List (Step ℚ)) (reached : List (Corner ℚ)) (f : Nat → ℚ) :
    ((extendCorners steps reached).map fun corner => corner.weight * f corner.cell).sum
      = (reached.map fun corner => corner.weight * stepSum steps f corner.cell).sum := by
  induction steps generalizing reached with
  | nil => rfl
  | cons step steps ih =>
    rw [extendCorners, ih, List.map_append, List.sum_append, List.map_map, List.map_map,
      ← List.sum_map_add]
    refine congrArg List.sum (List.map_congr_left fun corner _ => ?_)
    simp only [Function.comp_apply, weight_lower, stepSum]
    show corner.weight * (1 - step.weight) * stepSum steps f corner.cell
      + corner.weight * step.weight * stepSum steps f (corner.cell + step.stride) = _
    ring

/-- Adding up one by one is adding up at once. -/
theorem foldl_add_eq_sum {α : Type} (items : List α) (f : α → ℚ) (start : ℚ) :
    items.foldl (fun sum item => sum + f item) start = start + (items.map f).sum := by
  induction items generalizing start with
  | nil => simp
  | cons item items ih => rw [List.foldl_cons, ih, List.map_cons, List.sum_cons, add_assoc]

/-! ### Queries step by step -/

/-- The nodes of a bracket, each with its share. -/
def Bracket.shares (bracket : Bracket ℚ) : Shares :=
  if bracket.isSingle then [(bracket.lo, 1)]
  else [(bracket.lo, 1 - bracket.weight), (bracket.hi, bracket.weight)]

/-- A node that is hit has the whole. -/
theorem Bracket.shares_single (i : Nat) : (Bracket.single i : Bracket ℚ).shares = [(i, 1)] := by
  unfold shares
  rw [if_pos (by simp [isSingle, single])]
  rfl

/-- Two nodes share a whole by the weight. -/
theorem Bracket.shares_pair (i : Nat) (weight : ℚ) :
    (⟨i, i + 1, weight⟩ : Bracket ℚ).shares = [(i, 1 - weight), (i + 1, weight)] := by
  unfold shares
  rw [if_neg (by simp [isSingle])]

/-- Summing over the steps of brackets, and leaving out those of a single node, weights the
    cells axis by axis. -/
theorem stepSum_steps {brackets : List (Bracket ℚ)} {shape : List Nat}
    (hlength : brackets.length = shape.length)
    (hneighbours : ∀ bracket ∈ brackets, bracket.isSingle = false → bracket.hi = bracket.lo + 1)
    (f : Nat → ℚ) (base : Nat) :
    stepSum (stepsAlong shape brackets) f (base + Shape.offset shape (brackets.map Bracket.lo))
      = blend (brackets.map Bracket.shares) fun index => f (base + Shape.offset shape index) := by
  induction brackets generalizing shape base with
  | nil =>
    obtain rfl : shape = [] := List.eq_nil_of_length_eq_zero hlength.symm
    rfl
  | cons bracket brackets ih =>
    match shape, hlength with
    | length :: shape, hlength =>
      have hlength : brackets.length = shape.length := Nat.succ.inj hlength
      rw [List.forall_mem_cons] at hneighbours
      have ih := ih hlength hneighbours.2
      rw [List.map_cons, List.map_cons, stepsAlong_cons, blend, Bracket.shares]
      simp only [Shape.offset_cons, ← Nat.add_assoc]
      by_cases hsingle : bracket.isSingle = true
      · -- No step is made, and the one node has the whole share.
        rw [if_pos hsingle, if_pos hsingle, ih]
        simp
      · have hhi := hneighbours.1 (by simpa using hsingle)
        -- The upper node is one stride further, which is the size of what lies behind this axis.
        have hupper : base + bracket.lo * Shape.cells shape + Shape.offset shape
            (brackets.map Bracket.lo) + Shape.cells shape
            = base + bracket.hi * Shape.cells shape
              + Shape.offset shape (brackets.map Bracket.lo) := by
          rw [hhi, Nat.add_one_mul]
          omega
        rw [if_neg hsingle, if_neg hsingle, stepSum, hupper, ih, ih]
        simp

/-- The weighted sum over the corners is taken step by step. -/
theorem Table.weightedSum_corners (table : Table ℚ) (steps : List (Step ℚ)) (cell : Nat) :
    table.weightedSum (corners cell steps) = stepSum steps table.value cell := by
  have hstart : ([⟨cell, 1.0⟩] : List (Corner ℚ)).map
      (fun corner => corner.weight * stepSum steps table.value corner.cell)
        = [(1.0 : ℚ) * stepSum steps table.value cell] := rfl
  show (extendCorners steps [⟨cell, 1.0⟩]).foldl
    (fun sum corner => sum + corner.weight * table.value corner.cell) (0.0 : ℚ) = _
  rw [foldl_add_eq_sum, sum_extendCorners, hstart, List.sum_singleton]
  norm_num

/-- Every share is defined in exact arithmetic. -/
theorem Bracket.not_any_isUndefined (brackets : List (Bracket ℚ)) :
    ¬ brackets.any Bracket.isUndefined = true := by
  rw [Bool.not_eq_true, List.any_eq_false]
  exact fun _ _ => Bool.false_ne_true

/-- **Exactly hit axes may be left out.**  A query weights the stored values axis by axis with
    the shares of its brackets. -/
theorem Table.interpolate_eq_blend (table : Table ℚ) {coordinate : List ℚ}
    (hlength : coordinate.length = table.dimensions) :
    table.interpolate coordinate = blend ((table.brackets coordinate).map Bracket.shares)
      fun index => table.value (Shape.offset table.shape index) := by
  have hsteps : stepSum (table.steps (table.brackets coordinate)) table.value
      (table.baseCell (table.brackets coordinate))
        = blend ((table.brackets coordinate).map Bracket.shares)
            fun index => table.value (Shape.offset table.shape index) := by
    have hsteps := stepSum_steps (table.length_brackets hlength)
      (fun _ => table.hi_of_mem_brackets) table.value 0
    simp only [Nat.zero_add] at hsteps
    exact hsteps
  rw [← hsteps]
  unfold interpolate
  dsimp only
  rw [if_neg (Bracket.not_any_isUndefined _)]
  -- Without any step the value of the one cell is taken as it is, without a weight.
  split
  · next hnone => rw [hnone, stepSum]
  · exact table.weightedSum_corners _ _

/-! ### Enclosing cells -/

namespace Axis

/-- The coordinate lies between the ends of the axis. -/
def Covers (axis : Axis ℚ) (x : ℚ) : Prop := axis.least ≤ x ∧ x ≤ axis.greatest

/-- A node and the next one enclose a coordinate.  An axis of one node leaves no choice. -/
def Encloses (axis : Axis ℚ) (x : ℚ) (i : Nat) : Prop :=
  2 ≤ axis.size → i + 1 < axis.size ∧ axis.node i ≤ x ∧ x ≤ axis.node (i + 1)

/-- The shares of a node and the next one, or of the only node. -/
def shares (axis : Axis ℚ) (x : ℚ) (i : Nat) : Shares :=
  if 2 ≤ axis.size then
    [(i, (axis.node (i + 1) - x) / (axis.node (i + 1) - axis.node i)),
     (i + 1, (x - axis.node i) / (axis.node (i + 1) - axis.node i))]
  else [(0, 1)]

variable {axis : Axis ℚ} {x : ℚ}

/-- Nodes rise with their index. -/
theorem node_lt {i j : Nat} (hij : i < j) (hj : j < axis.size) : axis.node i < axis.node j :=
  of_decide_eq_true (node_lt_node hij hj)

/-- Nodes do not fall with their index. -/
theorem node_le {i j : Nat} (hij : i ≤ j) (hj : j < axis.size) : axis.node i ≤ axis.node j :=
  of_decide_eq_true (node_le_node hij hj)

/-- Inside an axis a coordinate is on a node or between two. -/
theorem bracket_of_covers (h : axis.Covers x) :
    (∃ j < axis.size, x = axis.node j ∧ axis.bracket x = .single j) ∨
      ∃ j, j + 1 < axis.size ∧ axis.node j < x ∧ x < axis.node (j + 1) ∧ axis.bracket x
        = ⟨j, j + 1, (x - axis.node j) / (axis.node (j + 1) - axis.node j)⟩ := by
  have hlocated := axis.bracket_located (rfl : Scalar.isNaN x = false)
  generalize axis.bracket x = bracket at hlocated
  cases hlocated with
  | below hbelow => exact Or.inl ⟨0, axis.size_pos, le_antisymm (of_decide_eq_true hbelow) h.1, rfl⟩
  | above habove =>
    exact Or.inl ⟨_, axis.last_lt_size, le_antisymm h.2 (of_decide_eq_true habove), rfl⟩
  | on hsize heq => exact Or.inl ⟨_, hsize, of_decide_eq_true heq, rfl⟩
  | between hsize hlower hupper =>
    exact Or.inr ⟨_, hsize, of_decide_eq_true hlower, of_decide_eq_true hupper, rfl⟩

/-- Some pair of neighbours encloses every coordinate inside an axis. -/
theorem exists_encloses (h : axis.Covers x) : ∃ i, axis.Encloses x i := by
  rcases bracket_of_covers h with ⟨j, hj, rfl, -⟩ | ⟨j, hj, hlower, hupper, -⟩
  · -- A node is enclosed with the next one, the last with the one before.
    by_cases hnext : j + 1 < axis.size
    · exact ⟨j, fun _ => ⟨hnext, le_rfl, node_le (Nat.le_succ j) hnext⟩⟩
    · refine ⟨j - 1, fun htwo => ?_⟩
      have hprevious : j - 1 + 1 = j := by omega
      rw [hprevious]
      exact ⟨hj, node_le (Nat.sub_le j 1) hj, le_rfl⟩
  · exact ⟨j, fun _ => ⟨hj, hlower.le, hupper.le⟩⟩

/-- **Neighbouring cells agree.**  Every enclosing pair weights a function of the nodes as the
    bracket does. -/
theorem sum_shares_eq {i : Nat} (hinside : axis.Covers x) (h : axis.Encloses x i) (g : Nat → ℚ) :
    ((axis.shares x i).map fun share => share.2 * g share.1).sum
      = ((axis.bracket x).shares.map fun share => share.2 * g share.1).sum := by
  have hcases := bracket_of_covers hinside
  unfold shares
  by_cases htwo : 2 ≤ axis.size
  · obtain ⟨hi, hlower, hupper⟩ := h htwo
    have hwidth : axis.node (i + 1) - axis.node i ≠ 0 :=
      (sub_pos.mpr (node_lt (Nat.lt_succ_self i) hi)).ne'
    rw [if_pos htwo]
    rcases hcases with ⟨j, hj, rfl, hbracket⟩ | ⟨j, hj, hlower', hupper', hbracket⟩
    · -- The coordinate is one of the two nodes, which takes all.
      have hji : j = i ∨ j = i + 1 := by
        by_contra hother
        rcases Nat.lt_or_ge j i with hlt | hge
        · exact absurd hlower (not_le.mpr (node_lt hlt (by omega)))
        · exact absurd hupper (not_le.mpr (node_lt (by omega) hj))
      rw [hbracket, Bracket.shares_single]
      rcases hji with rfl | rfl
      · simp [div_self hwidth]
      · simp [div_self hwidth]
    · -- The coordinate is between the two nodes, which share it as in the bracket.
      have hji : j = i := by
        by_contra hother
        rcases Nat.lt_or_ge j i with hlt | hge
        · exact absurd hlower (not_le.mpr (hupper'.trans_le (node_le hlt (by omega))))
        · have hlt : i + 1 ≤ j := by omega
          exact absurd hupper (not_le.mpr ((node_le hlt (by omega)).trans_lt hlower'))
      subst hji
      have hshare : 1 - (x - axis.node j) / (axis.node (j + 1) - axis.node j)
          = (axis.node (j + 1) - x) / (axis.node (j + 1) - axis.node j) := by
        rw [eq_div_iff hwidth, sub_mul, div_mul_cancel₀ _ hwidth]
        ring
      rw [hbracket, Bracket.shares_pair, hshare]
  · rw [if_neg htwo]
    rcases hcases with ⟨j, hj, -, hbracket⟩ | ⟨j, hj, -⟩
    · obtain rfl : j = 0 := by omega
      rw [hbracket, Bracket.shares_single]
    · omega

end Axis

/-- A cell around a coordinate: for each axis the lower one of two nodes that enclose the
    component. -/
inductive CellAround : List (Axis ℚ) → List ℚ → List Nat → Prop where
  /-- No axis is left. -/
  | nil : CellAround [] [] []
  /-- One more axis in front. -/
  | cons {axis : Axis ℚ} {x : ℚ} {i : Nat} {axes : List (Axis ℚ)} {coordinate : List ℚ}
      {cell : List Nat} (encloses : axis.Encloses x i) (rest : CellAround axes coordinate cell) :
      CellAround (axis :: axes) (x :: coordinate) (i :: cell)

/-- A cell has shares along every axis. -/
theorem CellAround.length_shares {axes : List (Axis ℚ)} {coordinate : List ℚ} {cell : List Nat}
    (h : CellAround axes coordinate cell) :
    (List.zipWith3 Axis.shares axes coordinate cell).length = axes.length := by
  induction h with
  | nil => rfl
  | cons _ _ ih => rw [List.zipWith3, List.length_cons, List.length_cons, ih]

/-- Around every coordinate in the domain there is a cell. -/
theorem exists_cellAround {axes : List (Axis ℚ)} {coordinate : List ℚ}
    (inside : List.Forall₂ Axis.Covers axes coordinate) :
    ∃ cell, CellAround axes coordinate cell := by
  induction inside with
  | nil => exact ⟨[], .nil⟩
  | cons covers _ ih =>
    obtain ⟨i, hi⟩ := Axis.exists_encloses covers
    obtain ⟨cell, hcell⟩ := ih
    exact ⟨i :: cell, .cons hi hcell⟩

/-- All cells around a coordinate weight functions of the nodes as its brackets do. -/
theorem CellAround.shares_alike {axes : List (Axis ℚ)} {coordinate : List ℚ} {cell : List Nat}
    (h : CellAround axes coordinate cell)
    (inside : List.Forall₂ Axis.Covers axes coordinate) :
    List.Forall₂ (fun shares shares' : Shares => ∀ g : Nat → ℚ,
      (shares.map fun share => share.2 * g share.1).sum
        = (shares'.map fun share => share.2 * g share.1).sum)
      (List.zipWith3 Axis.shares axes coordinate cell)
      ((List.zipWith Axis.bracket axes coordinate).map Bracket.shares) := by
  induction h with
  | nil => exact .nil
  | cons encloses _ ih =>
    obtain ⟨covers, inside⟩ := List.forall₂_cons.mp inside
    exact .cons (Axis.sum_shares_eq covers encloses) (ih inside)

namespace Table

variable {table : Table ℚ} {coordinate : List ℚ}

/-- The sum over all choices of the lower or the upper node on each axis of a cell: the product
    of the shares times the stored value of the corner. -/
def multilinear (table : Table ℚ) (coordinate : List ℚ) (cell : List Nat) : ℚ :=
  ((List.zipWith3 Axis.shares table.axes coordinate cell).sections.map fun corner =>
    (corner.map Prod.snd).prod
      * table.value (Shape.rowMajor table.shape (corner.map Prod.fst))).sum

/-- Cell numbers may be read off as numerals or added up from strides. -/
theorem blend_rowMajor {axes : List Shares} (hlength : axes.length = table.axes.length) :
    blend axes (fun index => table.value (Shape.rowMajor table.shape index))
      = blend axes fun index => table.value (Shape.offset table.shape index) := by
  refine blend_congr_index fun index hindex => ?_
  rw [Shape.rowMajor_eq_offset (by rw [hindex, hlength, shape, List.length_map])]

/-- The textbook sum weights the stored values axis by axis, single nodes with both of their
    shares. -/
theorem sum_fullCorners (brackets : List (Bracket ℚ)) (f : List Nat → ℚ) :
    ((fullCorners brackets).map fun corner => corner.2 * f corner.1).sum
      = blend (brackets.map fun bracket =>
          [(bracket.lo, 1 - bracket.weight), (bracket.hi, bracket.weight)]) f := by
  induction brackets generalizing f with
  | nil =>
    show [(1.0 : ℚ) * f []].sum = f []
    norm_num
  | cons bracket brackets ih =>
    -- Each corner of the later axes becomes two, one at either node of this axis.
    have hcorner (corner : List Nat × ℚ) :
        [((1.0 : ℚ) - bracket.weight) * corner.2 * f (bracket.lo :: corner.1),
          bracket.weight * corner.2 * f (bracket.hi :: corner.1)].sum
          = (1 - bracket.weight) * (corner.2 * f (bracket.lo :: corner.1))
            + bracket.weight * (corner.2 * f (bracket.hi :: corner.1)) := by
      rw [List.sum_cons, List.sum_singleton]
      norm_num
      ring
    calc ((fullCorners (bracket :: brackets)).map fun corner => corner.2 * f corner.1).sum
        = ((fullCorners brackets).map fun corner =>
            [((1.0 : ℚ) - bracket.weight) * corner.2 * f (bracket.lo :: corner.1),
              bracket.weight * corner.2 * f (bracket.hi :: corner.1)].sum).sum := by
          rw [fullCorners, List.map_flatMap, List.flatMap_def, List.sum_flatten, List.map_map]
          rfl
      _ = (1 - bracket.weight)
              * ((fullCorners brackets).map fun corner => corner.2 * f (bracket.lo :: corner.1)).sum
            + bracket.weight
              * ((fullCorners brackets).map fun corner =>
                  corner.2 * f (bracket.hi :: corner.1)).sum := by
          simp only [hcorner, List.sum_map_add, List.sum_map_mul_left]
      _ = _ := by
          rw [ih fun index => f (bracket.lo :: index), ih fun index => f (bracket.hi :: index)]
          simp [blend]

/-- A single node takes all even if it takes both shares. -/
theorem sum_both_shares (bracket : Bracket ℚ) (g : Nat → ℚ) :
    (([(bracket.lo, 1 - bracket.weight), (bracket.hi, bracket.weight)] : Shares).map
        fun share => share.2 * g share.1).sum
      = (bracket.shares.map fun share => share.2 * g share.1).sum := by
  unfold Bracket.shares
  split
  · next hsingle =>
    have hsame : bracket.lo = bracket.hi := by simpa [Bracket.isSingle] using hsingle
    simp only [List.map_cons, List.map_nil, List.sum_cons, List.sum_nil, hsame]
    ring
  · rfl

/-- The sum over all corners is the blend along all axes. -/
theorem fullSum_eq_blend {brackets : List (Bracket ℚ)}
    (hlength : brackets.length = table.axes.length) :
    table.fullSum brackets = blend (brackets.map Bracket.shares)
      fun index => table.value (Shape.offset table.shape index) := by
  show (fullCorners brackets).foldl (fun sum corner =>
    sum + corner.2 * table.value (Shape.rowMajor table.shape corner.1)) (0.0 : ℚ) = _
  have hzero : (0.0 : ℚ) = 0 := by norm_num
  rw [foldl_add_eq_sum, hzero, zero_add,
    sum_fullCorners brackets fun index => table.value (Shape.rowMajor table.shape index),
    blend_rowMajor (by rw [List.length_map, hlength])]
  refine blend_congr ?_
  rw [List.forall₂_map_left_iff, List.forall₂_map_right_iff, List.forall₂_same]
  exact fun bracket _ => sum_both_shares bracket

/-- The multilinear form of a cell is the blend of the shares along its axes. -/
theorem multilinear_eq_blend {cell : List Nat} (h : CellAround table.axes coordinate cell) :
    table.multilinear coordinate cell
      = blend (List.zipWith3 Axis.shares table.axes coordinate cell)
          fun index => table.value (Shape.offset table.shape index) :=
  (sum_sections _ fun index => table.value (Shape.rowMajor table.shape index)).trans
    (blend_rowMajor h.length_shares)

/-- **The multilinear interpolant.**  Inside the domain a query is the interpolant of every cell
    around its coordinate; there is such a cell, and on a common face of two cells both give
    the same value.  It is also the sum in which every axis takes part, the exactly hit ones
    included. -/
theorem get_eq_multilinear (inside : List.Forall₂ Axis.Covers table.axes coordinate) :
    (∃ cell, CellAround table.axes coordinate cell) ∧
      (∀ cell, CellAround table.axes coordinate cell →
        table.get coordinate = .ok (table.multilinear coordinate cell)) ∧
      table.get coordinate = .ok (table.fullSum (table.brackets coordinate)) := by
  have harity : coordinate.length = table.dimensions := inside.length_eq.symm
  have hget : table.get coordinate
      = .ok (blend ((table.brackets coordinate).map Bracket.shares)
          fun index => table.value (Shape.offset table.shape index)) := by
    rw [← table.interpolate_eq_blend harity]
    unfold get requireArity
    rw [if_pos harity]
    rfl
  -- Both formulas are compared with the value as it is weighted axis by axis.
  refine ⟨exists_cellAround inside, fun cell hcell => ?_, ?_⟩
  · rw [hget, multilinear_eq_blend hcell, blend_congr (hcell.shares_alike inside)]
    rfl
  · rw [hget, fullSum_eq_blend]
    rw [brackets, List.length_zipWith, harity, dimensions, Nat.min_self]

/-- A table with axes of three, two and one nodes. -/
def threeAxes : Table ℚ where
  axes := [⟨#[0, 1, 3], by decide +kernel⟩, ⟨#[2, 4], by decide +kernel⟩, ⟨#[5], by decide +kernel⟩]
  values := #[1, 2, 4, 8, 16, 32]
  axes_ne_nil := by simp
  axes_length_le := by decide
  values_size := by decide

/-- On its middle node the first axis has two enclosing pairs. -/
theorem get_eq_multilinear_threeAxes :
    List.Forall₂ Axis.Covers threeAxes.axes [1, 3, 5] ∧
      CellAround threeAxes.axes [1, 3, 5] [0, 0, 0] ∧
      CellAround threeAxes.axes [1, 3, 5] [1, 0, 0] ∧
      threeAxes.get [1, 3, 5] = .ok (threeAxes.multilinear [1, 3, 5] [0, 0, 0]) ∧
      threeAxes.get [1, 3, 5] = .ok (threeAxes.multilinear [1, 3, 5] [1, 0, 0]) := by
  have inside : List.Forall₂ Axis.Covers threeAxes.axes [1, 3, 5] :=
    .cons ⟨by decide +kernel, by decide +kernel⟩
      (.cons ⟨by decide +kernel, by decide +kernel⟩
        (.cons ⟨by decide +kernel, by decide +kernel⟩ .nil))
  have rest : CellAround threeAxes.axes.tail [3, 5] [0, 0] :=
    .cons (fun _ => ⟨by decide, by decide +kernel, by decide +kernel⟩)
      (.cons (fun htwo => absurd htwo (by decide)) .nil)
  have lower : CellAround threeAxes.axes [1, 3, 5] [0, 0, 0] :=
    .cons (fun _ => ⟨by decide, by decide +kernel, by decide +kernel⟩) rest
  have upper : CellAround threeAxes.axes [1, 3, 5] [1, 0, 0] :=
    .cons (fun _ => ⟨by decide, by decide +kernel, by decide +kernel⟩) rest
  obtain ⟨-, hcells, -⟩ := get_eq_multilinear inside
  exact ⟨inside, lower, upper, hcells _ lower, hcells _ upper⟩

end Table

end GridLookup
