import GridLookup.Proofs.Bracket
import GridLookup.Proofs.Shape
import GridLookup.Table.Interpolation

namespace GridLookup

/-!
# Corners by multi-index

A query adds up stored values by cell number.  Here the same sum, in the same order, is taken over
multi-indices, so that it can be compared between tables of different shapes.  No law of arithmetic
is used: both sums do the same operations on the same numbers.

* `stepsAlong` — the steps of brackets on the axes of a shape.
* `spread` — the corners of a cell with their shares, in the order in which they are added up.
* `interpolant` — what a query makes of its brackets and of a value for every multi-index.
* `Table.get1_of_axis`, `Table.offset_of_axis` — tables with one axis, whose nodes are the cells.
* `Table.interpolate_eq_interpolant` — the value at a coordinate is such an interpolant.
* `interpolant_congr` — only the values at nodes of the brackets matter.
* `interpolant_eraseIdx` — a bracket of a single node is the same as a fixed entry.
-/

variable {α : Type} [Scalar α]

/-! ### Spreading over the corners -/

/-- A corner of which only the first entries have been chosen. -/
structure Partial (α : Type) where
  /-- The value for each choice of the other entries. -/
  values : List Nat → α
  /-- The product of the shares of the chosen entries. -/
  share : α

namespace Partial

/-- The next entry is chosen, without a share of its own. -/
def choose (node : Nat) (corner : Partial α) : Partial α :=
  ⟨fun index => corner.values (node :: index), corner.share⟩

/-- The next entry is chosen, with a share of its own. -/
def weigh (node : Nat) (share : α) (corner : Partial α) : Partial α :=
  ⟨fun index => corner.values (node :: index), corner.share * share⟩

/-- The value and the share when all entries are chosen. -/
def done (corner : Partial α) : α × α := (corner.values [], corner.share)

/-- An entry among those still to choose is fixed. -/
def fix (k node : Nat) (corner : Partial α) : Partial α :=
  ⟨fun index => corner.values (index.insertIdx k node), corner.share⟩

end Partial

/-- The choices that a bracket leaves: its only node, or first the lower one and then the upper one
    with their shares. -/
def Bracket.choices (bracket : Bracket α) (reached : List (Partial α)) : List (Partial α) :=
  if bracket.isSingle then reached.map (Partial.choose bracket.lo)
  else reached.map (Partial.weigh bracket.lo (1.0 - bracket.weight))
    ++ reached.map (Partial.weigh bracket.hi bracket.weight)

/-- The corners reached from the given ones by a choice for every bracket, as values with their
    shares. -/
def spread : List (Bracket α) → List (Partial α) → List (α × α)
  | [], reached => reached.map Partial.done
  | bracket :: brackets, reached => spread brackets (bracket.choices reached)

/-- What a query makes of its brackets and of a value for every multi-index. -/
def interpolant (brackets : List (Bracket α)) (values : List Nat → α) : α :=
  if brackets.any Bracket.isUndefined then Scalar.nan
  else if brackets.all Bracket.isSingle then values (brackets.map Bracket.lo)
  else (spread brackets [⟨values, 1.0⟩]).foldl (fun sum corner => sum + corner.2 * corner.1) 0.0

/-! ### Cell numbers and multi-indices -/

/-- The steps of some brackets along the strides of a shape. -/
def stepsAlong (shape : List Nat) (brackets : List (Bracket α)) : List (Step α) :=
  (brackets.zip (Shape.strides shape)).filterMap fun (bracket, stride) =>
    if bracket.isSingle then none else some ⟨stride, bracket.weight⟩

/-- The steps of a table are those along its shape. -/
theorem Table.steps_eq_stepsAlong (table : Table α) (brackets : List (Bracket α)) :
    table.steps brackets = stepsAlong table.shape brackets := rfl

omit [Scalar α] in
/-- An axis with a single node takes no step, any other takes one over all cells of the axes
    behind it. -/
theorem stepsAlong_cons (bracket : Bracket α) (brackets : List (Bracket α)) (length : Nat)
    (shape : List Nat) :
    stepsAlong (length :: shape) (bracket :: brackets)
      = if bracket.isSingle then stepsAlong shape brackets
        else ⟨Shape.cells shape, bracket.weight⟩ :: stepsAlong shape brackets := by
  unfold stepsAlong
  rw [Shape.strides, List.zip_cons_cons, List.filterMap_cons]
  by_cases hsingle : bracket.isSingle = true <;> simp [hsingle]

/-- **The two sums are one.**  The corners that are reached by steps from one cell to the next have
    the values and the shares of those that are reached by choosing nodes, in the same order. -/
theorem extendCorners_eq_spread {brackets : List (Bracket α)} {shape : List Nat}
    (hlength : brackets.length = shape.length)
    (hneighbours : ∀ bracket ∈ brackets, bracket.isSingle = false → bracket.hi = bracket.lo + 1)
    (value : Nat → α) (reached : List (Corner α)) :
    (extendCorners (stepsAlong shape brackets) (reached.map fun corner =>
        ⟨corner.cell + Shape.offset shape (brackets.map Bracket.lo), corner.weight⟩)).map
        (fun corner => (value corner.cell, corner.weight))
      = spread brackets (reached.map fun corner =>
          ⟨fun index => value (corner.cell + Shape.offset shape index), corner.weight⟩) := by
  -- The corners reached so far are arbitrary, since each axis hands on twice as many.
  induction brackets generalizing shape reached with
  | nil =>
    obtain rfl : shape = [] := List.eq_nil_of_length_eq_zero hlength.symm
    simp [stepsAlong, extendCorners, spread, Partial.done, Shape.strides]
  | cons bracket brackets ih =>
    cases shape with
    | nil => cases hlength
    | cons length shape =>
      have ih := ih (Nat.succ.inj hlength) fun other hother => hneighbours other (by simp [hother])
      rw [stepsAlong_cons, spread, Bracket.choices]
      by_cases hsingle : bracket.isSingle = true
      · -- Every corner moves to the one node there is.
        have ih := ih (reached.map fun corner =>
          ⟨corner.cell + bracket.lo * Shape.cells shape, corner.weight⟩)
        simpa [hsingle, Partial.choose, Function.comp_def, Nat.add_assoc] using ih
      · -- The corners at the lower node come first, then those one stride further.
        have hhi := hneighbours bracket (by simp) (by simpa using hsingle)
        have ih := ih ((reached.map fun corner =>
            ⟨corner.cell + bracket.lo * Shape.cells shape, corner.weight * (1.0 - bracket.weight)⟩)
          ++ reached.map fun corner =>
            ⟨corner.cell + bracket.hi * Shape.cells shape, corner.weight * bracket.weight⟩)
        have hupper (cell : Nat) : cell + (bracket.lo * Shape.cells shape
            + Shape.offset shape (brackets.map Bracket.lo)) + Shape.cells shape
              = cell + (bracket.hi * Shape.cells shape
                + Shape.offset shape (brackets.map Bracket.lo)) := by
          rw [hhi, Nat.add_one_mul]
          omega
        simpa [hsingle, extendCorners, Corner.lower, Corner.upper, Partial.weigh,
          Function.comp_def, Nat.add_assoc, hupper] using ih

omit [Scalar α] in
/-- There are no steps exactly if the coordinate is on a node along every axis. -/
theorem stepsAlong_eq_nil_iff {brackets : List (Bracket α)} {shape : List Nat}
    (hlength : brackets.length = shape.length) :
    stepsAlong shape brackets = [] ↔ brackets.all Bracket.isSingle = true := by
  induction brackets generalizing shape with
  | nil => simp [stepsAlong]
  | cons bracket brackets ih =>
    match shape, hlength with
    | length :: shape, hlength =>
      rw [stepsAlong_cons]
      by_cases hsingle : bracket.isSingle = true <;> simp [hsingle, ih (Nat.succ.inj hlength)]

namespace Table

/-! ### Tables with one axis -/

section OneAxis

variable {table : Table α} {axis : Axis α}

/-- A table of one dimension has one axis. -/
theorem exists_axis (h : table.dimensions = 1) : ∃ axis, table.axes = [axis] :=
  List.length_eq_one_iff.mp h

/-- Along one axis the offset is the index of the node. -/
theorem offset_of_axis (h : table.axes = [axis]) (node : Nat) :
    Shape.offset table.shape [node] = node := by
  simp [shape, h]

/-- Along one axis there is one pair of nodes around the coordinate. -/
theorem brackets_of_axis (h : table.axes = [axis]) (x : α) :
    table.brackets [x] = [axis.bracket x] := by
  rw [brackets, h]
  rfl

/-- The query of one coordinate interpolates along the only axis. -/
theorem get1_of_axis (h : table.axes = [axis]) (x : α) :
    table.get1 x = .ok (table.interpolate1 (axis.bracket x)) := by
  unfold get1
  rw [h]

/-- The query of one coordinate is refused by a table of any other dimension. -/
theorem get1_of_dimensions_ne (h : table.dimensions ≠ 1) (x : α) :
    table.get1 x = .error (.arityMismatch table.dimensions 1) := by
  unfold get1
  split
  · next axis haxes => exact absurd (congrArg List.length haxes) h
  · rfl

end OneAxis

/-! ### Queries by brackets -/

variable [LawfulScalar α] (table : Table α) {coordinate : List α}

omit [LawfulScalar α] in
/-- A coordinate with a component for every axis is interpolated at. -/
theorem get_of_length (hlength : coordinate.length = table.dimensions) :
    table.get coordinate = .ok (table.interpolate coordinate) := by
  unfold get requireArity
  rw [if_pos hlength]
  rfl

omit [LawfulScalar α] in
/-- A coordinate with too many or too few components is refused. -/
theorem get_of_length_ne (hlength : coordinate.length ≠ table.dimensions) :
    table.get coordinate = .error (.arityMismatch table.dimensions coordinate.length) := by
  unfold get requireArity
  rw [if_neg hlength]
  rfl

omit [LawfulScalar α] in
/-- There are nodes around the coordinate along every axis. -/
theorem length_brackets (hlength : coordinate.length = table.dimensions) :
    (table.brackets coordinate).length = table.shape.length := by
  simp [brackets, shape, hlength, dimensions]

/-- The two nodes of a bracket are neighbours, unless there is only one. -/
theorem hi_of_mem_brackets {bracket : Bracket α} (h : bracket ∈ table.brackets coordinate)
    (hpair : bracket.isSingle = false) : bracket.hi = bracket.lo + 1 := by
  unfold brackets at h
  obtain ⟨k, hk, rfl⟩ := List.mem_iff_getElem.mp h
  rw [List.getElem_zipWith] at hpair ⊢
  exact (Axis.bracket_nodes _ _).1 hpair

/-- **The value at a coordinate** depends on its brackets and on the values by multi-index; the
    strides by which the cells are found play no part. -/
theorem interpolate_eq_interpolant (hlength : coordinate.length = table.dimensions) :
    table.interpolate coordinate = interpolant (table.brackets coordinate) fun index =>
      table.value (Shape.offset table.shape index) := by
  have hbrackets := table.length_brackets hlength
  have hsteps := stepsAlong_eq_nil_iff hbrackets
  have hspread := extendCorners_eq_spread hbrackets (fun _ => table.hi_of_mem_brackets) table.value
    [⟨0, 1.0⟩]
  simp only [List.map_cons, List.map_nil, Nat.zero_add] at hspread
  unfold interpolate interpolant
  by_cases hundefined : (table.brackets coordinate).any Bracket.isUndefined = true
  · simp [hundefined]
  · simp only [hundefined, Bool.false_eq_true, if_false]
    -- Without a step there is one corner, which is not weighted.
    split
    · next hnone =>
      rw [if_pos (hsteps.mp hnone), baseCell]
    · next hsome =>
      rw [if_neg fun hall => hsome (hsteps.mpr hall), ← hspread, List.foldl_map]
      rfl

end Table

/-! ### What an interpolant depends on -/

/-- The index has a node of every bracket. -/
def Picks (brackets : List (Bracket α)) (index : List Nat) : Prop :=
  List.Forall₂ (fun bracket node => node = bracket.lo ∨ node = bracket.hi) brackets index

instance (brackets : List (Bracket α)) (index : List Nat) : Decidable (Picks brackets index) :=
  inferInstanceAs (Decidable (List.Forall₂ _ brackets index))

omit [Scalar α] in
/-- The lower nodes are nodes of the brackets. -/
theorem picks_map_lo (brackets : List (Bracket α)) : Picks brackets (brackets.map Bracket.lo) := by
  unfold Picks
  rw [List.forall₂_map_right_iff, List.forall₂_same]
  exact fun _ _ => Or.inl rfl

omit [Scalar α] in
/-- The upper nodes are, too. -/
theorem picks_map_hi (brackets : List (Bracket α)) : Picks brackets (brackets.map Bracket.hi) := by
  unfold Picks
  rw [List.forall₂_map_right_iff, List.forall₂_same]
  exact fun _ _ => Or.inr rfl

/-- The nodes of the brackets of a coordinate are cells of its axes. -/
theorem contains_of_picks [LawfulScalar α] {axes : List (Axis α)} {coordinate : List α}
    {index : List Nat} (hlength : coordinate.length = axes.length)
    (h : Picks (List.zipWith Axis.bracket axes coordinate) index) :
    Shape.Contains (axes.map Axis.size) index := by
  induction axes generalizing coordinate index with
  | nil =>
    cases h
    trivial
  | cons axis axes ih =>
    match coordinate, hlength with
    | x :: coordinate, hlength =>
      obtain ⟨-, hlo, hhi⟩ := axis.bracket_nodes x
      cases h with
      | cons hnode hrest =>
        refine ⟨?_, ih (Nat.succ.inj hlength) hrest⟩
        rcases hnode with rfl | rfl
        · exact hlo
        · exact hhi

/-- Interpolation depends on the values at the corners only. -/
theorem spread_congr {brackets : List (Bracket α)} {reached others : List (Partial α)}
    (h : List.Forall₂ (fun corner other => corner.share = other.share ∧
      ∀ index, Picks brackets index → corner.values index = other.values index) reached others) :
    spread brackets reached = spread brackets others := by
  induction brackets generalizing reached others with
  | nil =>
    show reached.map Partial.done = others.map Partial.done
    rw [← List.forall₂_eq_eq_eq, List.forall₂_map_left_iff, List.forall₂_map_right_iff]
    exact h.imp fun corner other hsame => Prod.ext (hsame.2 [] .nil) hsame.1
  | cons bracket brackets ih =>
    -- Both choices of a node keep the shares alike and the values that may still be picked.
    have hlower (index : List Nat) (hindex : Picks brackets index) :
        Picks (bracket :: brackets) (bracket.lo :: index) := .cons (Or.inl rfl) hindex
    have hupper (index : List Nat) (hindex : Picks brackets index) :
        Picks (bracket :: brackets) (bracket.hi :: index) := .cons (Or.inr rfl) hindex
    rw [spread, spread]
    refine ih ?_
    unfold Bracket.choices
    split
    · rw [List.forall₂_map_left_iff, List.forall₂_map_right_iff]
      exact h.imp fun corner other hsame =>
        ⟨hsame.1, fun index hindex => hsame.2 _ (hlower index hindex)⟩
    · refine List.rel_append ?_ ?_
      · rw [List.forall₂_map_left_iff, List.forall₂_map_right_iff]
        refine h.imp fun corner other hsame =>
          ⟨?_, fun index hindex => hsame.2 _ (hlower index hindex)⟩
        simp [Partial.weigh, hsame.1]
      · rw [List.forall₂_map_left_iff, List.forall₂_map_right_iff]
        refine h.imp fun corner other hsame =>
          ⟨?_, fun index hindex => hsame.2 _ (hupper index hindex)⟩
        simp [Partial.weigh, hsame.1]

/-- **Only the cell matters.**  An interpolant does not depend on values elsewhere than at the nodes
    of its brackets. -/
theorem interpolant_congr {brackets : List (Bracket α)} {values others : List Nat → α}
    (h : ∀ index, Picks brackets index → values index = others index) :
    interpolant brackets values = interpolant brackets others := by
  have hspread : spread brackets [⟨values, 1.0⟩] = spread brackets [⟨others, 1.0⟩] :=
    spread_congr (.cons ⟨rfl, h⟩ .nil)
  unfold interpolant
  rw [h _ (picks_map_lo brackets), hspread]

/-! ### Fixed entries -/

/-- Fixing an entry commutes with choosing the entries before it. -/
theorem choices_map_fix (bracket : Bracket α) (k node : Nat) (reached : List (Partial α)) :
    (bracket.choices reached).map (Partial.fix k node)
      = bracket.choices (reached.map (Partial.fix (k + 1) node)) := by
  unfold Bracket.choices
  split <;> simp [Partial.choose, Partial.weigh, Partial.fix, Function.comp_def]

/-- An axis on whose node the coordinate lies may be left out. -/
theorem spread_eraseIdx {brackets : List (Bracket α)} {k : Nat} (hk : k < brackets.length)
    (hsingle : brackets[k].isSingle = true) (reached : List (Partial α)) :
    spread brackets reached
      = spread (brackets.eraseIdx k) (reached.map (Partial.fix k brackets[k].lo)) := by
  -- The partial products so far are arbitrary: choosing a node and fixing a later entry commute.
  induction brackets generalizing k reached with
  | nil => simp at hk
  | cons bracket brackets ih =>
    cases k with
    | zero =>
      have hsingle : bracket.isSingle = true := hsingle
      show spread brackets (bracket.choices reached)
        = spread brackets (reached.map (Partial.fix 0 bracket.lo))
      rw [Bracket.choices, if_pos hsingle]
      rfl
    | succ k =>
      show spread brackets (bracket.choices reached)
        = spread (brackets.eraseIdx k) (bracket.choices (reached.map (Partial.fix (k + 1) _)))
      rw [ih (Nat.lt_of_succ_lt_succ hk) hsingle, choices_map_fix]
      rfl

/-- **A single node is a fixed entry.**  A bracket of a single node may be left out, if its node is
    put into the multi-indices instead. -/
theorem interpolant_eraseIdx {brackets : List (Bracket α)} {k : Nat} (hk : k < brackets.length)
    (hsingle : brackets[k].isSingle = true) (hdefined : brackets[k].isUndefined = false)
    (values : List Nat → α) :
    interpolant brackets values
      = interpolant (brackets.eraseIdx k) fun index =>
          values (index.insertIdx k brackets[k].lo) := by
  -- Whether any bracket is undefined or all are single does not depend on their order.
  have hperm := (List.getElem_cons_eraseIdx_perm hk).symm
  have hany : brackets.any Bracket.isUndefined
      = (brackets.eraseIdx k).any Bracket.isUndefined := by
    rw [hperm.any_eq, List.any_cons, hdefined, Bool.false_or]
  have hall : brackets.all Bracket.isSingle = (brackets.eraseIdx k).all Bracket.isSingle := by
    rw [hperm.all_eq, List.all_cons, hsingle, Bool.true_and]
  have hlower : brackets.map Bracket.lo
      = ((brackets.eraseIdx k).map Bracket.lo).insertIdx k brackets[k].lo := by
    rw [← List.map_insertIdx, List.insertIdx_eraseIdx_self (Nat.ne_of_lt hk),
      List.set_getElem_self]
  unfold interpolant
  rw [hany, hall, hlower, spread_eraseIdx hk hsingle]
  rfl

end GridLookup
