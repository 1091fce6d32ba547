import GridLookup.Proofs.Interpolation
import GridLookup.Proofs.Slice
import Mathlib.Algebra.BigOperators.Ring.Finset

namespace GridLookup

/-!
# Functions that are reproduced

A table of the values of a function that is affine in each argument gives, read over exact numbers,
the function itself back: inside the domain at the coordinate, elsewhere at the coordinate clamped
to the ends of the axes.

* `multiAffine` — such a function, given by a coefficient for every set of arguments.
* `Table.Tabulates`, `Table.tabulate` — the tables that hold a function at their nodes.
* `blend_sum`, `blend_cons_mul` — weighting is linear, and goes axis by axis through products.
* `Axis.sum_shares_node` — a coordinate is the centre of mass of the nodes of its bracket.
* `Table.get_multiAffine` — all multi-affine functions are reproduced.
-/

/-! ### Multi-affine functions -/

/-- The sum over all sets of arguments of a coefficient times the product of the arguments. -/
def multiAffine (coefficients : Finset Nat → ℚ) (point : List ℚ) : ℚ :=
  ∑ chosen ∈ (Finset.range point.length).powerset,
    coefficients chosen * ∏ k ∈ chosen, point.getD k 0

/-- The product of the chosen arguments, with a factor for every argument. -/
def chosenProduct (chosen : Nat → Bool) (point : List ℚ) : ℚ :=
  ∏ k ∈ Finset.range point.length, if chosen k then point.getD k 0 else 1

/-- The leading component is a factor if it is chosen. -/
theorem chosenProduct_cons (chosen : Nat → Bool) (x : ℚ) (point : List ℚ) :
    chosenProduct chosen (x :: point)
      = (if chosen 0 then x else 1) * chosenProduct (fun k => chosen (k + 1)) point := by
  unfold chosenProduct
  rw [List.length_cons, Finset.prod_range_succ', mul_comm]
  rfl

/-- A multi-affine function is a sum over the subsets of its variables. -/
theorem multiAffine_eq_sum (coefficients : Finset Nat → ℚ) (point : List ℚ) :
    multiAffine coefficients point = ∑ chosen ∈ (Finset.range point.length).powerset,
      coefficients chosen * chosenProduct (fun k => decide (k ∈ chosen)) point := by
  refine Finset.sum_congr rfl fun chosen hchosen => ?_
  have hsubset : Finset.range point.length ∩ chosen = chosen :=
    Finset.inter_eq_right.mpr (Finset.mem_powerset.mp hchosen)
  have hproduct := Finset.prod_ite_mem (Finset.range point.length) chosen fun k => point.getD k 0
  rw [hsubset] at hproduct
  simp only [chosenProduct, decide_eq_true_eq, hproduct]

/-! ### Weighting sums and products -/

/-- A common factor may be taken out of a blend. -/
theorem blend_mul_left (axes : List Shares) (factor : ℚ) (f : List Nat → ℚ) :
    blend axes (fun index => factor * f index) = factor * blend axes f := by
  induction axes generalizing f with
  | nil => rfl
  | cons shares rest ih =>
    rw [blend, blend, ← List.sum_map_mul_left]
    refine congrArg List.sum (List.map_congr_left fun share _ => ?_)
    rw [ih fun index => f (share.1 :: index), mul_left_comm]

/-- A sum is blended summand by summand. -/
theorem blend_add (axes : List Shares) (f g : List Nat → ℚ) :
    blend axes (fun index => f index + g index) = blend axes f + blend axes g := by
  induction axes generalizing f g with
  | nil => rfl
  | cons shares rest ih =>
    rw [blend, blend, blend, ← List.sum_map_add]
    refine congrArg List.sum (List.map_congr_left fun share _ => ?_)
    rw [ih (fun index => f (share.1 :: index)) fun index => g (share.1 :: index), mul_add]

/-- Weighting is linear. -/
theorem blend_sum {ι : Type} (axes : List Shares) (terms : Finset ι) (factor : ι → ℚ)
    (f : ι → List Nat → ℚ) :
    blend axes (fun index => ∑ term ∈ terms, factor term * f term index)
      = ∑ term ∈ terms, factor term * blend axes (f term) := by
  induction terms using Finset.cons_induction with
  | empty =>
    have hzero := blend_mul_left axes 0 fun _ => 0
    simpa using hzero
  | cons term terms hnew ih =>
    simp only [Finset.sum_cons]
    rw [blend_add, blend_mul_left, ih]

/-- A factor that depends on the first entry only is weighted on its own. -/
theorem blend_cons_mul (shares : Shares) (rest : List Shares) (first : Nat → ℚ) (f : List Nat → ℚ)
    {g : List Nat → ℚ} (hg : ∀ i index, g (i :: index) = first i * f index) :
    blend (shares :: rest) g
      = (shares.map fun share => share.2 * first share.1).sum * blend rest f := by
  rw [blend, ← List.sum_map_mul_right]
  refine congrArg List.sum (List.map_congr_left fun share _ => ?_)
  simp only [hg]
  rw [blend_mul_left, mul_assoc]

/-- Only the nodes that have a share matter. -/
theorem blend_congr_mem {axes : List Shares} {f g : List Nat → ℚ}
    (h : ∀ index, List.Forall₂ (fun shares node => ∃ share ∈ shares, share.1 = node) axes index →
      f index = g index) :
    blend axes f = blend axes g := by
  induction axes generalizing f g with
  | nil => exact h [] .nil
  | cons shares rest ih =>
    rw [blend, blend]
    refine congrArg List.sum (List.map_congr_left fun share hshare => ?_)
    rw [ih fun index hindex => h (share.1 :: index) (.cons ⟨share, hshare, rfl⟩ hindex)]

/-! ### Centres of mass -/

/-- Only nodes of a bracket have a share. -/
theorem Bracket.mem_shares {bracket : Bracket ℚ} {share : Nat × ℚ} (h : share ∈ bracket.shares) :
    share.1 = bracket.lo ∨ share.1 = bracket.hi := by
  unfold shares at h
  split at h
  · simp only [List.mem_singleton] at h
    exact Or.inl (congrArg Prod.fst h)
  · simp only [List.mem_cons, List.not_mem_nil, or_false] at h
    exact h.imp (congrArg Prod.fst) (congrArg Prod.fst)

/-- Nodes that have a share are nodes of the brackets. -/
theorem picks_of_mem_shares {brackets : List (Bracket ℚ)} {index : List Nat}
    (h : List.Forall₂ (fun shares node => ∃ share ∈ shares, share.1 = node)
      (brackets.map Bracket.shares) index) : Picks brackets index := by
  rw [List.forall₂_map_left_iff] at h
  refine h.imp fun bracket node hnode => ?_
  obtain ⟨share, hshare, rfl⟩ := hnode
  exact Bracket.mem_shares hshare

namespace Axis

variable {axis : Axis ℚ} {x : ℚ}

/-- The shares of the nodes are shares of a whole. -/
theorem sum_shares_bracket (axis : Axis ℚ) (x : ℚ) :
    ((axis.bracket x).shares.map fun share => share.2).sum = 1 := by
  unfold Bracket.shares
  split <;> simp

/-- Inside an axis, the nodes of a bracket weighted with their shares have the coordinate as their
    centre of mass. -/
theorem sum_shares_node (h : axis.Covers x) :
    ((axis.bracket x).shares.map fun share => share.2 * axis.node share.1).sum = x := by
  rcases bracket_of_covers h with ⟨j, hj, hx, hbracket⟩ | ⟨j, hj, hlower, hupper, hbracket⟩
  · rw [hbracket, Bracket.shares_single, hx]
    simp
  · have hwidth : axis.node (j + 1) - axis.node j ≠ 0 :=
      (sub_pos.mpr (node_lt (Nat.lt_succ_self j) hj)).ne'
    have hpart : (x - axis.node j) / (axis.node (j + 1) - axis.node j)
        * (axis.node (j + 1) - axis.node j) = x - axis.node j := div_mul_cancel₀ _ hwidth
    rw [hbracket, Bracket.shares_pair]
    simp only [List.map_cons, List.map_nil, List.sum_cons, List.sum_nil]
    linarith

/-- A coordinate that is clamped is within the domain. -/
theorem covers_clamp (axis : Axis ℚ) (x : ℚ) : axis.Covers (axis.clamp x) := by
  have hends : axis.least ≤ axis.greatest := node_le (Nat.zero_le _) axis.last_lt_size
  unfold clamp
  split
  · exact ⟨le_rfl, hends⟩
  split
  · exact ⟨hends, le_rfl⟩
  next hbelow habove =>
  exact ⟨not_lt.mp fun hlt => hbelow (decide_eq_true hlt),
    not_lt.mp fun hlt => habove (decide_eq_true hlt)⟩

end Axis

/-- Clamped along every axis, a coordinate is within the domain. -/
theorem covers_zipWith_clamp {axes : List (Axis ℚ)} {coordinate : List ℚ}
    (hlength : coordinate.length = axes.length) :
    List.Forall₂ Axis.Covers axes (List.zipWith Axis.clamp axes coordinate) := by
  induction axes generalizing coordinate with
  | nil => exact .nil
  | cons axis axes ih =>
    match coordinate, hlength with
    | x :: coordinate, hlength => exact .cons (axis.covers_clamp x) (ih (Nat.succ.inj hlength))

/-- The nodes at a multi-index. -/
def nodesAt {α : Type} [Scalar α] (axes : List (Axis α)) (index : List Nat) : List α :=
  List.zipWith Axis.node axes index

/-- **Products are reproduced.**  The product of the nodes on some of the axes, weighted axis by
    axis, is the product of the components. -/
theorem blend_chosenProduct {axes : List (Axis ℚ)} {coordinate : List ℚ} (chosen : Nat → Bool)
    (inside : List.Forall₂ Axis.Covers axes coordinate) :
    blend ((List.zipWith Axis.bracket axes coordinate).map Bracket.shares)
        (fun index => chosenProduct chosen (nodesAt axes index))
      = chosenProduct chosen coordinate := by
  induction inside generalizing chosen with
  | nil => rfl
  | @cons axis x axes coordinate covers _ ih =>
    -- The first axis contributes its component if it is chosen, and one if not.
    have hfirst : ((axis.bracket x).shares.map fun share =>
        share.2 * if chosen 0 then axis.node share.1 else 1).sum = if chosen 0 then x else 1 := by
      cases chosen 0 with
      | true => simpa using Axis.sum_shares_node covers
      | false => simpa using axis.sum_shares_bracket x
    rw [List.zipWith_cons_cons, List.map_cons, blend_cons_mul _ _
      (fun i => if chosen 0 then axis.node i else 1)
      (fun index => chosenProduct (fun k => chosen (k + 1)) (nodesAt axes index))
      (fun i index => chosenProduct_cons ..), hfirst, ih fun k => chosen (k + 1),
      chosenProduct_cons]

/-- Blending the values at the nodes gives that of a multi-affine function in between. -/
theorem blend_multiAffine {axes : List (Axis ℚ)} {coordinate : List ℚ}
    (coefficients : Finset Nat → ℚ) (inside : List.Forall₂ Axis.Covers axes coordinate) :
    blend ((List.zipWith Axis.bracket axes coordinate).map Bracket.shares)
        (fun index => multiAffine coefficients (nodesAt axes index))
      = multiAffine coefficients coordinate := by
  -- Both functions are sums over the same sets of arguments.
  have hnodes (index : List Nat) (hindex : index.length
      = ((List.zipWith Axis.bracket axes coordinate).map Bracket.shares).length) :
      (nodesAt axes index).length = coordinate.length := by
    have hindex : index.length = coordinate.length := by simpa [inside.length_eq] using hindex
    simp [nodesAt, inside.length_eq, hindex]
  rw [multiAffine_eq_sum, blend_congr_index fun index hindex => by
    rw [multiAffine_eq_sum, hnodes index hindex], blend_sum]
  refine Finset.sum_congr rfl fun subset _ => ?_
  rw [blend_chosenProduct _ inside]

/-! ### Tables of a function -/

namespace Table

section Tabulation

variable {α : Type} [Scalar α]

/-- The table holds a function at every node. -/
def Tabulates (table : Table α) (f : List α → α) : Prop :=
  ∀ index, Shape.Contains table.shape index →
    table.stored index = .ok (f (nodesAt table.axes index))

/-- The table of a function over some axes. -/
def tabulate (axes : List (Axis α)) (f : List α → α) (nonempty : axes ≠ [])
    (few : axes.length ≤ axisLimit) : Table α where
  axes := axes
  values := Array.ofFn fun cell : Fin (Shape.cells (axes.map Axis.size)) =>
    f (nodesAt axes (Shape.digits (axes.map Axis.size) cell))
  axes_ne_nil := nonempty
  axes_length_le := few
  values_size := Array.size_ofFn

/-- The table made from a function tabulates it. -/
theorem tabulates_tabulate (axes : List (Axis α)) (f : List α → α) (nonempty : axes ≠ [])
    (few : axes.length ≤ axisLimit) : (tabulate axes f nonempty few).Tabulates f := by
  intro index hindex
  have hcell := Shape.offset_lt_cells hindex
  rw [stored_eq_ok hindex, value]
  simp only [tabulate, shape] at hindex hcell ⊢
  rw [Array.getD_eq_getD_getElem?, Array.getElem?_eq_getElem (by simpa using hcell)]
  simp [Shape.digits_offset hindex]

/-- The value of a cell is that of the function at its nodes. -/
theorem Tabulates.value_eq {table : Table α} {f : List α → α} (h : table.Tabulates f)
    {index : List Nat} (hindex : Shape.Contains table.shape index) :
    table.value (Shape.offset table.shape index) = f (nodesAt table.axes index) := by
  have hstored := h index hindex
  rw [stored_eq_ok hindex] at hstored
  exact Except.ok.inj hstored

end Tabulation

/-- Inside the domain a multi-affine function is reproduced. -/
theorem Tabulates.get_of_covers {table : Table ℚ} {coefficients : Finset Nat → ℚ}
    (h : table.Tabulates (multiAffine coefficients)) {coordinate : List ℚ}
    (inside : List.Forall₂ Axis.Covers table.axes coordinate) :
    table.get coordinate = .ok (multiAffine coefficients coordinate) := by
  have hlength : coordinate.length = table.dimensions := inside.length_eq.symm
  rw [get_of_length table hlength, interpolate_eq_blend table hlength,
    ← blend_multiAffine coefficients inside]
  refine congrArg Except.ok (blend_congr_mem fun index hindex => h.value_eq ?_)
  exact contains_of_picks hlength (picks_of_mem_shares hindex)

/-- **Multi-affine functions are reproduced.**  Over any axes there is a table of such a function,
    and a query on it gives the function at the coordinate if this is in the domain, and otherwise
    at the coordinate clamped to the ends of the axes. -/
theorem get_multiAffine (coefficients : Finset Nat → ℚ) (axes : List (Axis ℚ))
    (nonempty : axes ≠ []) (few : axes.length ≤ axisLimit) :
    (∃ table : Table ℚ, table.axes = axes ∧ table.Tabulates (multiAffine coefficients)) ∧
      ∀ table : Table ℚ, table.axes = axes → table.Tabulates (multiAffine coefficients) →
        (∀ coordinate, List.Forall₂ Axis.Covers axes coordinate →
          table.get coordinate = .ok (multiAffine coefficients coordinate)) ∧
        ∀ coordinate : List ℚ, coordinate.length = axes.length →
          table.get coordinate
            = .ok (multiAffine coefficients (List.zipWith Axis.clamp axes coordinate)) := by
  refine ⟨⟨tabulate axes _ nonempty few, rfl, tabulates_tabulate axes _ nonempty few⟩, ?_⟩
  rintro table rfl h
  refine ⟨fun coordinate inside => h.get_of_covers inside, fun coordinate hlength => ?_⟩
  rw [← get_clamp hlength]
  exact h.get_of_covers (covers_zipWith_clamp hlength)

/-- The axes of a table of three by two nodes. -/
def unevenAxes : List (Axis ℚ) :=
  [⟨#[0, 1, 4], by decide +kernel⟩, ⟨#[2, 3], by decide +kernel⟩]

/-- The coefficients of `3 + 2 x - x y`. -/
def unevenCoefficients (chosen : Finset Nat) : ℚ :=
  if chosen = ∅ then 3 else if chosen = {0} then 2 else if chosen = {0, 1} then -1 else 0

/-- A query between the nodes, and one beyond an end of both axes. -/
theorem get_multiAffine_uneven :
    ∃ table : Table ℚ, table.axes = unevenAxes ∧ table.get [2, 5 / 2] = .ok 2 ∧
      table.get [5, -1] = .ok 3 := by
  obtain ⟨⟨table, haxes, htabulates⟩, hget⟩ :=
    get_multiAffine unevenCoefficients unevenAxes (by simp [unevenAxes]) (by decide)
  obtain ⟨hinside, hclamp⟩ := hget table haxes htabulates
  have inside : List.Forall₂ Axis.Covers unevenAxes [2, 5 / 2] :=
    .cons ⟨by decide +kernel, by decide +kernel⟩
      (.cons ⟨by decide +kernel, by decide +kernel⟩ .nil)
  have hbetween : multiAffine unevenCoefficients [2, 5 / 2] = 2 := by decide +kernel
  have hbeyond :
      multiAffine unevenCoefficients (List.zipWith Axis.clamp unevenAxes [5, -1]) = 3 := by
    decide +kernel
  refine ⟨table, haxes, ?_, ?_⟩
  · rw [hinside _ inside, hbetween]
  · rw [hclamp [5, -1] rfl, hbeyond]

end Table

end GridLookup
