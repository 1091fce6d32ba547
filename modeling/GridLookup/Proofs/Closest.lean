import GridLookup.Proofs.Interpolation
import GridLookup.Proofs.Position
import Mathlib.Algebra.Order.Ring.Abs

namespace GridLookup

/-!
# Closest nodes

Read over exact numbers, the weight of one bracket tells which node of the whole axis is closest to
a coordinate, however unevenly the nodes are spaced.

* `closer_upper_iff` — which of two numbers a third one is closer to.
* `Axis.Closest` — no node is closer, and those before are farther away.
* `Axis.Closest.le_of_le`, `Axis.Closest.unique` — what follows from this alone.
* `Axis.Hits.closest`, `Axis.Between.closest` — the closest of all nodes is one of the bracket.
* `Axis.nearestNode_eq_iff` — the node that is found is the closest one.
-/

/-- A number is closer to the upper one of two exactly if it is past the middle between them. -/
theorem closer_upper_iff {x a b : ℚ} (h : a < b) : |x - b| < |x - a| ↔ a + b < 2 * x := by
  have hfactors : (x - a) ^ 2 - (x - b) ^ 2 = (b - a) * (2 * x - (a + b)) := by ring
  rw [← sq_lt_sq, ← sub_pos, hfactors, mul_pos_iff_of_pos_left (sub_pos.mpr h), sub_pos]

/-- The lower of two nodes is at least as close exactly up to the middle between them. -/
theorem closer_lower_iff {x a b : ℚ} (h : a < b) : |x - a| ≤ |x - b| ↔ 2 * x ≤ a + b := by
  rw [← not_lt, closer_upper_iff h, not_lt]

namespace Axis

variable {axis : Axis ℚ} {x y : ℚ} {i j : Nat}

/-- No node is closer to the coordinate, and those before are farther away. -/
structure Closest (axis : Axis ℚ) (x : ℚ) (i : Nat) : Prop where
  /-- The node is on the axis. -/
  lt_size : i < axis.size
  /-- No node is closer. -/
  le : ∀ j < axis.size, |x - axis.node i| ≤ |x - axis.node j|
  /-- Nodes before it are farther away. -/
  lt : ∀ j < i, |x - axis.node i| < |x - axis.node j|

/-! ### Consequences of being closest -/

/-- The closest node does not move down when the coordinate moves up: of two nodes the middle
    between them decides, and a coordinate past it stays past it. -/
theorem Closest.le_of_le (hx : axis.Closest x i) (hy : axis.Closest y j) (h : x ≤ y) : i ≤ j := by
  by_contra hlt
  rw [not_le] at hlt
  have hnodes := node_lt hlt hx.lt_size
  have habove : axis.node j + axis.node i < 2 * x := (closer_upper_iff hnodes).mp (hx.lt j hlt)
  have hbelow : 2 * y ≤ axis.node j + axis.node i :=
    (closer_lower_iff hnodes).mp (hy.le i hx.lt_size)
  linarith

/-- There is one closest node. -/
theorem Closest.unique (hi : axis.Closest x i) (hj : axis.Closest x j) : i = j :=
  Nat.le_antisymm (hi.le_of_le hj le_rfl) (hj.le_of_le hi le_rfl)

/-! ### Middles between nodes -/

/-- The middles between a node and all others tell whether it is the closest. -/
theorem closest_of_middles (hi : i < axis.size)
    (upper : ∀ j, i < j → j < axis.size → 2 * x ≤ axis.node i + axis.node j)
    (lower : ∀ j < i, axis.node j + axis.node i < 2 * x) : axis.Closest x i := by
  have hbefore : ∀ j < i, |x - axis.node i| < |x - axis.node j| := fun j hj =>
    (closer_upper_iff (node_lt hj hi)).mpr (lower j hj)
  refine ⟨hi, fun j hj => ?_, hbefore⟩
  rcases lt_trichotomy i j with hij | rfl | hji
  · exact (closer_lower_iff (node_lt hij hj)).mpr (upper j hij hj)
  · exact le_rfl
  · exact (hbefore j hji).le

/-- A node that is hit is the closest, also from beyond an end. -/
theorem Hits.closest (h : axis.Hits x i) : axis.Closest x i := by
  obtain ⟨-, hupper, hlower⟩ := h.bounds
  have hi := h.lt_size
  refine closest_of_middles hi (fun j hij hj => ?_) fun j hji => ?_
  · have hlast : i ≠ axis.last := by
      have := Nat.le_sub_one_of_lt hj
      unfold last
      omega
    have hx : x ≤ axis.node i := of_decide_eq_true (hupper.resolve_right hlast)
    have := node_lt hij hj
    linarith
  · have hfirst : i ≠ 0 := Nat.ne_zero_of_lt hji
    have hx : axis.node i ≤ x := of_decide_eq_true (hlower.resolve_right hfirst)
    have := node_lt hji hi
    linarith

/-- Between two nodes the closest is the upper one past their middle, and else the lower one. -/
theorem Between.closest (h : axis.Between x i) :
    axis.Closest x (if axis.node i + axis.node (i + 1) < 2 * x then i + 1 else i) := by
  have hsize := h.succ_lt_size
  have habove : axis.node i < x := of_decide_eq_true h.above
  have hbelow : x < axis.node (i + 1) := of_decide_eq_true h.below
  -- Nodes ascend, so the next middle decides against all nodes on its other side.
  split
  · next hpast =>
    refine closest_of_middles hsize (fun j hij hj => ?_) fun j hji => ?_
    · have := node_lt hij hj
      linarith
    · have := node_le (Nat.le_of_lt_succ hji) (Nat.lt_of_succ_lt hsize)
      linarith
  · next hnot =>
    refine closest_of_middles (Nat.lt_of_succ_lt hsize) (fun j hij hj => ?_) fun j hji => ?_
    · have := node_le (Nat.succ_le_of_lt hij) hj
      linarith
    · have := node_lt hji (Nat.lt_of_succ_lt hsize)
      linarith

/-! ### The node that is found -/

/-- A coordinate on a node is closest to that node. -/
theorem nearestNode_of_hits (h : axis.Hits x i) : axis.nearestNode x = i := by
  unfold nearestNode
  rw [bracket_of_hits h]
  exact ite_self i

/-- The weight is above one half exactly past the middle between the two nodes. -/
theorem nearestNode_of_between (h : axis.Between x i) :
    axis.nearestNode x = if axis.node i + axis.node (i + 1) < 2 * x then i + 1 else i := by
  have hwidth : 0 < axis.node (i + 1) - axis.node i :=
    sub_pos.mpr (node_lt (Nat.lt_succ_self i) h.succ_lt_size)
  have hweight : (0.5 : ℚ) < (x - axis.node i) / (axis.node (i + 1) - axis.node i)
      ↔ axis.node i + axis.node (i + 1) < 2 * x := by
    rw [lt_div_iff₀ hwidth]
    constructor
    · intro h'
      linarith
    · intro h'
      linarith
  unfold nearestNode
  rw [bracket_of_between h]
  exact if_congr (decide_eq_true_iff.trans hweight) rfl rfl

/-- The nearest node is the closest one. -/
theorem nearestNode_closest (axis : Axis ℚ) (x : ℚ) : axis.Closest x (axis.nearestNode x) := by
  rcases axis.hits_or_between (rfl : Scalar.isNaN x = false) with ⟨i, h⟩ | ⟨i, h⟩
  · rw [nearestNode_of_hits h]
    exact h.closest
  · rw [nearestNode_of_between h]
    exact h.closest

/-- **Nearest nodes.**  The node that is found for a coordinate is the one node of the axis that no
    other is closer than, the lower one when two are equally close.  It does not move down when the
    coordinate moves up. -/
theorem nearestNode_eq_iff (axis : Axis ℚ) :
    (∀ x i, axis.nearestNode x = i ↔ axis.Closest x i) ∧ Monotone axis.nearestNode := by
  refine ⟨fun x i => ⟨?_, fun h => ?_⟩, fun x y hxy => ?_⟩
  · rintro rfl
    exact axis.nearestNode_closest x
  · exact (axis.nearestNode_closest x).unique h
  · exact (axis.nearestNode_closest x).le_of_le (axis.nearestNode_closest y) hxy

/-- Halfway between its first two nodes an uneven axis gives the lower one. -/
example : (⟨#[0, 1, 10], by decide +kernel⟩ : Axis ℚ).nearestNode (1 / 2) = 0 := by
  decide +kernel

end Axis

end GridLookup
