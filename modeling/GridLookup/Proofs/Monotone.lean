import GridLookup.Proofs.Convexity

namespace GridLookup

/-!
# Rising data

Read over exact numbers, queries rise along an axis exactly if the stored values do: in one cell,
from one cell to another and beyond the ends.

* `Axis.mean_le_mean` — the average over a bracket of values that rise along the axis.
* `blend_set_le` — the same along one of several axes.
* `Table.RisesAlong` — the stored values of a table do not fall along an axis.
* `Table.get_nodesAt` — a query at the nodes of a multi-index.
* `Table.risesAlong_iff_get_le` — such tables are those whose queries do not fall.
-/

/-! ### Along one axis -/

namespace Axis

variable {axis : Axis ℚ} {x y : ℚ} {f : Nat → ℚ} {i : Nat}

/-- The values of a function do not fall from one node of the axis to a later one. -/
def Rises (axis : Axis ℚ) (f : Nat → ℚ) : Prop := ∀ i j, i ≤ j → j < axis.size → f i ≤ f j

/-- A coordinate outside the domain is moved to its nearest end. -/
theorem clamp_eq_max_min (axis : Axis ℚ) (x : ℚ) :
    axis.clamp x = max axis.least (min x axis.greatest) := by
  have hends : axis.least ≤ axis.greatest := node_le (Nat.zero_le _) axis.last_lt_size
  unfold clamp
  split
  · next hbelow =>
    have hbelow : x < axis.least := of_decide_eq_true hbelow
    rw [min_eq_left (hbelow.le.trans hends), max_eq_left hbelow.le]
  next hbelow =>
  have hbelow : axis.least ≤ x := not_lt.mp fun hlt => hbelow (decide_eq_true hlt)
  split
  · next habove =>
    have habove : axis.greatest < x := of_decide_eq_true habove
    rw [min_eq_right habove.le, max_eq_right hends]
  · next habove =>
    have habove : x ≤ axis.greatest := not_lt.mp fun hlt => habove (decide_eq_true hlt)
    rw [min_eq_left habove, max_eq_right hbelow]

/-- Moving coordinates into the domain keeps their order. -/
theorem clamp_le_clamp (hxy : x ≤ y) : axis.clamp x ≤ axis.clamp y := by
  rw [clamp_eq_max_min, clamp_eq_max_min]
  exact max_le_max le_rfl (min_le_min hxy le_rfl)

/-- Two enclosing nodes of an axis with several share a coordinate in proportion. -/
theorem mean_shares (htwo : 2 ≤ axis.size) (x : ℚ) (i : Nat) (f : Nat → ℚ) :
    (axis.shares x i).mean f
      = ((axis.node (i + 1) - x) * f i + (x - axis.node i) * f (i + 1))
        / (axis.node (i + 1) - axis.node i) := by
  unfold shares Shares.mean
  rw [if_pos htwo]
  simp only [List.map_cons, List.map_nil, List.sum_cons, List.sum_nil]
  ring

/-- So the average is between the values at the two nodes. -/
theorem mean_shares_between (htwo : 2 ≤ axis.size) (h : axis.Encloses x i) (rises : axis.Rises f) :
    f i ≤ (axis.shares x i).mean f ∧ (axis.shares x i).mean f ≤ f (i + 1) := by
  obtain ⟨hi, hlower, hupper⟩ := h htwo
  have hwidth : 0 < axis.node (i + 1) - axis.node i := sub_pos.mpr (node_lt (Nat.lt_succ_self i) hi)
  have hstep : f i ≤ f (i + 1) := rises i (i + 1) (Nat.le_succ i) hi
  rw [mean_shares htwo, le_div_iff₀ hwidth, div_le_iff₀ hwidth]
  constructor
  · nlinarith
  · nlinarith

/-- Inside the axis averages rise, from one cell to a later one through the nodes between them. -/
theorem mean_le_mean_of_covers (hx : axis.Covers x) (hy : axis.Covers y) (hxy : x ≤ y)
    (rises : axis.Rises f) : (axis.bracket x).shares.mean f ≤ (axis.bracket y).shares.mean f := by
  obtain ⟨i, hi⟩ := exists_encloses hx
  obtain ⟨j, hj⟩ := exists_encloses hy
  have hmean : (axis.bracket x).shares.mean f = (axis.shares x i).mean f :=
    (sum_shares_eq hx hi f).symm
  have hmean' : (axis.bracket y).shares.mean f = (axis.shares y j).mean f :=
    (sum_shares_eq hy hj f).symm
  by_cases htwo : 2 ≤ axis.size
  · obtain ⟨hisize, hilower, hiupper⟩ := hi htwo
    obtain ⟨hjsize, hjlower, hjupper⟩ := hj htwo
    -- The cells of both coordinates may be chosen freely, so they are compared by their places.
    rcases lt_trichotomy i j with hlt | rfl | hgt
    · calc (axis.bracket x).shares.mean f
          = (axis.shares x i).mean f := hmean
        _ ≤ f (i + 1) := (mean_shares_between htwo hi rises).2
        _ ≤ f j := rises (i + 1) j hlt (Nat.lt_of_succ_lt hjsize)
        _ ≤ (axis.shares y j).mean f := (mean_shares_between htwo hj rises).1
        _ = (axis.bracket y).shares.mean f := hmean'.symm
    · -- In one cell the average is affine in the coordinate.
      have hwidth : 0 ≤ axis.node (i + 1) - axis.node i :=
        sub_nonneg.mpr (node_le (Nat.le_succ i) hisize)
      have hstep : f i ≤ f (i + 1) := rises i (i + 1) (Nat.le_succ i) hisize
      rw [hmean, hmean', mean_shares htwo, mean_shares htwo]
      refine div_le_div_of_nonneg_right ?_ hwidth
      nlinarith
    · -- Both coordinates are the node at which the later cell ends and the earlier one begins.
      have hnode : axis.node (j + 1) ≤ axis.node i := node_le hgt (Nat.lt_of_succ_lt hisize)
      have hsame : x = y := le_antisymm hxy (hjupper.trans (hnode.trans hilower))
      rw [hsame]
  · rw [hmean, hmean']
    unfold shares
    rw [if_neg htwo, if_neg htwo]

/-- Along an axis with rising values the mean around a coordinate does not fall. -/
theorem mean_le_mean (hxy : x ≤ y) (rises : axis.Rises f) :
    (axis.bracket x).shares.mean f ≤ (axis.bracket y).shares.mean f := by
  rw [← axis.bracket_clamp x, ← axis.bracket_clamp y]
  exact mean_le_mean_of_covers (axis.covers_clamp x) (axis.covers_clamp y) (clamp_le_clamp hxy)
    rises

end Axis

/-! ### Along one of several axes -/

/-- An average over several brackets rises with the coordinate along an axis along which the
    averaged function rises, whatever the other entries of its argument. -/
theorem blend_set_le {axes : List (Axis ℚ)} {coordinate : List ℚ} {k : Nat} {x y : ℚ}
    {f : List Nat → ℚ} (hlength : coordinate.length = axes.length) (hx : coordinate[k]? = some x)
    (hxy : x ≤ y)
    (rises : ∀ index i j, index[k]? = some i → i ≤ j → Shape.Contains (axes.map Axis.size) index →
      Shape.Contains (axes.map Axis.size) (index.set k j) → f index ≤ f (index.set k j)) :
    blend ((List.zipWith Axis.bracket axes coordinate).map Bracket.shares) f
      ≤ blend ((List.zipWith Axis.bracket axes (coordinate.set k y)).map Bracket.shares) f := by
  induction axes generalizing coordinate k f with
  | nil =>
    obtain rfl : coordinate = [] := List.eq_nil_of_length_eq_zero hlength
    exact le_rfl
  | cons axis axes ih =>
    match coordinate, hlength with
    | z :: coordinate, hlength =>
      have hlength : coordinate.length = axes.length := Nat.succ.inj hlength
      cases k with
      | zero =>
        obtain rfl : z = x := Option.some.inj hx
        rw [List.set_cons_zero, List.zipWith_cons_cons, List.zipWith_cons_cons, List.map_cons,
          List.map_cons, blend_cons, blend_cons]
        -- The other entries are averaged alike for all nodes of the first axis.
        refine Axis.mean_le_mean hxy fun i j hij hj => blend_le_of_picks fun index hindex => ?_
        have hrest := contains_of_picks hlength hindex
        exact rises (i :: index) i j rfl hij ⟨hij.trans_lt hj, hrest⟩ ⟨hj, hrest⟩
      | succ k =>
        rw [List.set_cons_succ, List.zipWith_cons_cons, List.zipWith_cons_cons, List.map_cons,
          List.map_cons, blend_cons, blend_cons]
        refine (axis.isWhole_shares z).mean_le_mean fun share hshare => ih hlength hx ?_
        intro index i j hindex hij hcontains hset
        have hnode : share.1 < axis.size := by
          obtain ⟨-, hlo, hhi⟩ := axis.bracket_nodes z
          rcases Bracket.mem_shares hshare with heq | heq
          · rwa [heq]
          · rwa [heq]
        exact rises (share.1 :: index) i j hindex hij ⟨hnode, hcontains⟩ ⟨hnode, hset⟩

/-! ### Tables -/

section Nodes

variable {α : Type} [Scalar α]

/-- The nodes at an index are on the grid there. -/
theorem onGrid_nodesAt [LawfulScalar α] {axes : List (Axis α)} {index : List Nat}
    (h : Shape.Contains (axes.map Axis.size) index) : OnGrid axes (nodesAt axes index) index := by
  induction axes generalizing index with
  | nil =>
    obtain rfl : index = [] := List.eq_nil_of_length_eq_zero h.length_eq
    exact .nil
  | cons axis axes ih =>
    match index, h with
    | i :: index, ⟨hi, h⟩ => exact .cons (Axis.hits_node hi) (ih h)

/-- Another index along an axis has another node along that axis only. -/
theorem nodesAt_set {axes : List (Axis α)} {index : List Nat} {k j : Nat} {axis : Axis α}
    (haxis : axes[k]? = some axis) :
    nodesAt axes (index.set k j) = (nodesAt axes index).set k (axis.node j) := by
  induction axes generalizing index k with
  | nil => simp at haxis
  | cons first axes ih =>
    match index, k with
    | [], _ => simp [nodesAt]
    | i :: index, 0 =>
      obtain rfl : first = axis := Option.some.inj haxis
      rfl
    | i :: index, k + 1 => exact congrArg (first.node i :: ·) (ih haxis)

end Nodes

namespace Table

/-- At the nodes of a multi-index a query gives the value that is stored there. -/
theorem get_nodesAt {α : Type} [Scalar α] [LawfulScalar α] [DefinedZero α] {table : Table α}
    {index : List Nat} (h : Shape.Contains table.shape index) :
    table.get (nodesAt table.axes index) = table.stored index := by
  have onGrid := onGrid_nodesAt h
  rw [table.get_of_length onGrid.length_eq, interpolate_of_onGrid onGrid, stored_eq_ok h]

/-- The stored values do not fall along an axis, whatever the other entries of the multi-index. -/
def RisesAlong (table : Table ℚ) (k : Nat) : Prop :=
  ∀ index i j low high, index[k]? = some i → i ≤ j →
    table.stored index = .ok low → table.stored (index.set k j) = .ok high → low ≤ high

variable {table : Table ℚ} {k : Nat}

/-- Where the values rise along an axis, interpolation does not fall along it. -/
theorem RisesAlong.interpolate_le (h : table.RisesAlong k) {coordinate : List ℚ} {x y : ℚ}
    (hlength : coordinate.length = table.dimensions) (hx : coordinate[k]? = some x) (hxy : x ≤ y) :
    table.interpolate coordinate ≤ table.interpolate (coordinate.set k y) := by
  have hset : (coordinate.set k y).length = table.dimensions := by rw [List.length_set, hlength]
  rw [table.interpolate_eq_blend hlength, table.interpolate_eq_blend hset]
  refine blend_set_le hlength hx hxy fun index i j hindex hij hcontains hcontains' => ?_
  exact h index i j _ _ hindex hij (stored_eq_ok hcontains) (stored_eq_ok hcontains')

/-- **Monotonicity.**  The stored values do not fall along an axis exactly if no query falls when
    its component on this axis grows, in the same cell or to another one, inside the domain or
    not. -/
theorem risesAlong_iff_get_le (table : Table ℚ) (k : Nat) :
    table.RisesAlong k ↔ ∀ (coordinate : List ℚ) (x y : ℚ), coordinate.length = table.dimensions →
      coordinate[k]? = some x → x ≤ y →
        ∃ low high, table.get coordinate = .ok low ∧ table.get (coordinate.set k y) = .ok high ∧
          low ≤ high := by
  constructor
  · intro h coordinate x y hlength hx hxy
    have hset : (coordinate.set k y).length = table.dimensions := by rw [List.length_set, hlength]
    exact ⟨_, _, table.get_of_length hlength, table.get_of_length hset,
      h.interpolate_le hlength hx hxy⟩
  · -- The values are those of queries at the nodes.
    intro h index i j low high hi hij hlow hhigh
    obtain ⟨hindex, -⟩ := stored_eq_ok_iff.mp hlow
    obtain ⟨hset, -⟩ := stored_eq_ok_iff.mp hhigh
    have hk : k < index.length := (List.getElem?_eq_some_iff.mp hi).1
    obtain ⟨length, hlength, hj⟩ := hset.exists_lt (List.getElem?_set_self hk)
    unfold shape at hlength
    rw [List.getElem?_map, Option.map_eq_some_iff] at hlength
    obtain ⟨axis, haxis, rfl⟩ := hlength
    have hnode : (nodesAt table.axes index)[k]? = some (axis.node i) := by
      rw [nodesAt, List.getElem?_zipWith, haxis, hi]
    obtain ⟨low', high', hlow', hhigh', hle⟩ := h (nodesAt table.axes index) (axis.node i)
      (axis.node j) (onGrid_nodesAt hindex).length_eq hnode (Axis.node_le hij hj)
    rw [get_nodesAt hindex, hlow] at hlow'
    rw [← nodesAt_set haxis, get_nodesAt hset, hhigh] at hhigh'
    rw [Except.ok.inj hlow', Except.ok.inj hhigh']
    exact hle

/-- A table that rises along the second of its axes only. -/
def risingTable : Table ℚ where
  axes := [⟨#[0, 2], by decide +kernel⟩, ⟨#[0, 1, 2], by decide +kernel⟩]
  values := #[4, 4, 9, 0, 1, 2]
  axes_ne_nil := by simp
  axes_length_le := by decide
  values_size := by decide

theorem risingTable_risesAlong : risingTable.RisesAlong 1 := by
  have hvalues : ∀ a < 2, ∀ j < 3, ∀ i ≤ j,
      risingTable.value (Shape.offset [2, 3] [a, i])
        ≤ risingTable.value (Shape.offset [2, 3] [a, j]) := by decide +kernel
  intro index i j low high hi hij hlow hhigh
  obtain ⟨hindex, rfl⟩ := stored_eq_ok_iff.mp hlow
  obtain ⟨hset, rfl⟩ := stored_eq_ok_iff.mp hhigh
  match index, hindex, hset with
  | [a, b], ⟨ha, _, _⟩, ⟨_, hj, _⟩ =>
    obtain rfl : b = i := Option.some.inj hi
    exact hvalues a ha j hj b hij

/-- From the first cell of the second axis to beyond its end, between the nodes of the first one. -/
theorem risesAlong_iff_get_le_rising :
    risingTable.RisesAlong 1 ∧ ∃ low high, risingTable.get [1 / 2, 1 / 2] = .ok low ∧
      risingTable.get [1 / 2, 7] = .ok high ∧ low ≤ high :=
  ⟨risingTable_risesAlong,
    (risesAlong_iff_get_le risingTable 1).mp risingTable_risesAlong [1 / 2, 1 / 2] (1 / 2) 7 rfl rfl
      (by norm_num)⟩

end Table

end GridLookup
