import GridLookup.Proofs.Order

namespace GridLookup

/-!
# Brackets

Where a coordinate falls on an axis.

* `Axis.node_lt_node`, `Axis.node_le_node` — nodes ascend with their indices.
* `Axis.firstAbove_spec`, `Axis.firstAbove_splits` — the binary search splits the nodes at a
  coordinate.
* `Axis.Located`, `Axis.bracket_located` — the four outcomes of bracketing.
* `Axis.bracket_nodes` — the nodes of a bracket are neighbours on the axis.
-/

namespace Axis

variable {α : Type} [Scalar α] [LawfulScalar α] {axis : Axis α}

/-! ### Nodes in order -/

omit [LawfulScalar α] in
/-- The nodes up to the size are those of the array. -/
theorem node_eq {i : Nat} (h : i < axis.size) : axis.node i = axis.nodes[i] := by
  unfold node
  rw [Array.getD_eq_getD_getElem?, Array.getElem?_eq_getElem h, Option.getD_some]

/-- No node of an axis is undefined. -/
theorem isNaN_node {i : Nat} (h : i < axis.size) : Scalar.isNaN (axis.node i) = false := by
  rw [node_eq h]
  exact axis.ascending.1 _ (Array.getElem_mem_toList h)

/-- Nodes ascend strictly with their indices. -/
theorem node_lt_node {i j : Nat} (hij : i < j) (hj : j < axis.size) :
    Scalar.lt (axis.node i) (axis.node j) = true := by
  have hi : i < axis.size := by omega
  rw [node_eq hi, node_eq hj]
  exact List.pairwise_iff_getElem.mp axis.ascending.2 i j hi hj hij

/-- Nodes do not fall with their index. -/
theorem node_le_node {i j : Nat} (hij : i ≤ j) (hj : j < axis.size) :
    Scalar.le (axis.node i) (axis.node j) = true := by
  rcases Nat.eq_or_lt_of_le hij with rfl | hij
  · exact Scalar.le_refl (isNaN_node hj)
  · exact Scalar.le_of_lt (node_lt_node hij hj)

omit [LawfulScalar α] in
/-- The last node is one of the axis. -/
theorem last_lt_size (axis : Axis α) : axis.last < axis.size := by
  have := axis.size_pos
  unfold last
  omega

/-! ### Binary search -/

/-- **Binary search.**  The nodes before the result are not above the coordinate, and those from
    it on are; the search keeps this of the nodes outside its range. -/
theorem firstAbove_spec {x : α} {lo hi : Nat} (hlohi : lo ≤ hi) (hhi : hi ≤ axis.size)
    (hbelow : ∀ i < lo, Scalar.le (axis.node i) x = true)
    (habove : ∀ i, hi ≤ i → i < axis.size → Scalar.le (axis.node i) x = false) :
    axis.firstAbove x lo hi ≤ axis.size ∧
      (∀ i < axis.firstAbove x lo hi, Scalar.le (axis.node i) x = true) ∧
      ∀ i, axis.firstAbove x lo hi ≤ i → i < axis.size → Scalar.le (axis.node i) x = false := by
  induction hwidth : hi - lo using Nat.strong_induction_on generalizing lo hi with
  | _ width ih =>
    rw [firstAbove]
    split
    · next hlt =>
      dsimp only
      have hmiddle : (lo + hi) / 2 < axis.size := by omega
      split
      · next hle =>
        refine ih (hi - ((lo + hi) / 2 + 1)) (by omega) (by omega) hhi (fun i hi' => ?_) habove rfl
        exact LawfulScalar.le_trans (node_le_node (Nat.le_of_lt_succ hi') hmiddle) hle
      · next hnot =>
        refine ih ((lo + hi) / 2 - lo) (by omega) (by omega) (by omega) hbelow
          (fun i hi' hsize => ?_) rfl
        -- A node at or behind the middle is no lower than the middle one.
        by_contra hle
        rw [Bool.not_eq_false] at hle
        exact hnot (LawfulScalar.le_trans (node_le_node hi' hsize) hle)
    · next hge =>
      obtain rfl : lo = hi := by omega
      exact ⟨hhi, hbelow, habove⟩

/-- The search over all nodes. -/
theorem firstAbove_splits (axis : Axis α) (x : α) :
    axis.firstAbove x 0 axis.size ≤ axis.size ∧
      (∀ i < axis.firstAbove x 0 axis.size, Scalar.le (axis.node i) x = true) ∧
      ∀ i, axis.firstAbove x 0 axis.size ≤ i → i < axis.size →
        Scalar.le (axis.node i) x = false :=
  firstAbove_spec (Nat.zero_le _) (Nat.le_refl axis.size)
    (fun i hi => absurd hi (Nat.not_lt_zero i)) fun _ hi hi' => absurd hi' (Nat.not_lt.mpr hi)

/-- Between the first node and the last one, the search ends at neither edge of its range. -/
theorem firstAbove_inside {x : α} (hx : Scalar.isNaN x = false)
    (hbelow : Scalar.le x axis.least = false) (habove : Scalar.le axis.greatest x = false) :
    0 < axis.firstAbove x 0 axis.size ∧ axis.firstAbove x 0 axis.size < axis.size := by
  obtain ⟨-, hlower, hupper⟩ := firstAbove_splits axis x
  have hleast : Scalar.le (axis.node 0) x = true :=
    Scalar.le_of_lt (Scalar.lt_of_not_le (isNaN_node axis.size_pos) hx hbelow)
  have hlast := axis.last_lt_size
  constructor
  · by_contra hzero
    rw [hupper 0 (by omega) axis.size_pos] at hleast
    cases hleast
  · by_contra hbeyond
    have hgreatest := hlower axis.last (by omega)
    rw [show Scalar.le (axis.node axis.last) x = false from habove] at hgreatest
    cases hgreatest

/-! ### The four outcomes -/

/-- How a number is bracketed: clamped to an end, on a node, or between two of them. -/
inductive Located (axis : Axis α) (x : α) : Bracket α → Prop where
  /-- At or below the first node. -/
  | below (h : Scalar.le x axis.least = true) : Located axis x (.single 0)
  /-- At or above the last node. -/
  | above (h : Scalar.le axis.greatest x = true) : Located axis x (.single axis.last)
  /-- On a node. -/
  | on {i : Nat} (size : i < axis.size) (h : Scalar.eq x (axis.node i) = true) :
      Located axis x (.single i)
  /-- Between two nodes. -/
  | between {i : Nat} (size : i + 1 < axis.size) (lower : Scalar.lt (axis.node i) x = true)
      (upper : Scalar.lt x (axis.node (i + 1)) = true) :
      Located axis x ⟨i, i + 1, (x - axis.node i) / (axis.node (i + 1) - axis.node i)⟩

/-- **Bracketing** a number has one of the four outcomes. -/
theorem bracket_located (axis : Axis α) {x : α} (hx : Scalar.isNaN x = false) :
    axis.Located x (axis.bracket x) := by
  unfold bracket
  rw [if_neg (by rw [hx]; exact Bool.false_ne_true)]
  split
  · next hbelow => exact .below hbelow
  split
  · next habove => exact .above habove
  next hnotBelow hnotAbove =>
  rw [Bool.not_eq_true] at hnotBelow hnotAbove
  obtain ⟨-, hlower, hupper⟩ := firstAbove_splits axis x
  obtain ⟨hpositive, hinside⟩ := firstAbove_inside hx hnotBelow hnotAbove
  -- Past the first node and short of the last one, the first node above has one below it.
  obtain ⟨lo, hlo⟩ : ∃ lo, axis.firstAbove x 0 axis.size = lo + 1 :=
    ⟨_, (Nat.sub_add_cancel hpositive).symm⟩
  rw [hlo] at hlower hupper hinside ⊢
  dsimp only
  rw [Nat.add_sub_cancel]
  have hle := hlower lo (Nat.lt_succ_self lo)
  split
  · next heq => exact .on (by omega) heq
  · next hne =>
    refine .between (by omega) ?_ ?_
    · refine LawfulScalar.lt_iff.mpr ⟨hle, ?_⟩
      by_contra hge
      rw [Bool.not_eq_false] at hge
      exact hne (LawfulScalar.eq_iff.mpr ⟨hge, hle⟩)
    · have hsize : lo + 1 < axis.size := by omega
      exact Scalar.lt_of_not_le hx (isNaN_node hsize) (hupper (lo + 1) (Nat.le_refl _) hsize)

/-- The two nodes of a bracket are the same or neighbours, and both are on the axis. -/
theorem bracket_nodes (axis : Axis α) (x : α) :
    ((axis.bracket x).isSingle = false → (axis.bracket x).hi = (axis.bracket x).lo + 1) ∧
      (axis.bracket x).lo < axis.size ∧ (axis.bracket x).hi < axis.size := by
  have hsize := axis.size_pos
  have hlast := axis.last_lt_size
  by_cases hx : Scalar.isNaN x = true
  · simp [bracket, hx, Bracket.isSingle, hsize]
  · rw [Bool.not_eq_true] at hx
    have hlocated := axis.bracket_located hx
    generalize axis.bracket x = bracket at hlocated
    cases hlocated with
    | below => simp [Bracket.single, Bracket.isSingle, hsize]
    | above => simp [Bracket.single, Bracket.isSingle, hlast]
    | on size => simp [Bracket.single, Bracket.isSingle, size]
    | between size => exact ⟨fun _ => rfl, Nat.lt_of_succ_lt size, size⟩

end Axis

end GridLookup
