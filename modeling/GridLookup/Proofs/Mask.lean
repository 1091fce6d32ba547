import GridLookup.Table.Interpolation
import Mathlib.Algebra.Group.Nat.Defs

namespace GridLookup

/-!
# Corners by bit mask

The corners of a cell are those of all bit masks with one bit per step, in the order of the masks:
the bit of a step says which of its two nodes the corner is at.

* `Corner.follow`, `cornerAt` — the corner that a mask leads to.
* `corners_eq_map_cornerAt` — all corners, mask by mask.
-/

variable {α : Type} [Scalar α]

/-- The corner that a mask leads to: along each step to the upper node if its bit is set, and to the
    lower node otherwise.  The first step has the lowest bit. -/
def Corner.follow : List (Step α) → Nat → Corner α → Corner α
  | [], _, corner => corner
  | step :: steps, mask, corner =>
    Corner.follow steps (mask / 2) (if mask.testBit 0 then corner.upper step else corner.lower step)

/-- The corner that a mask leads to from the cell at the lower nodes. -/
def cornerAt (base : Nat) (steps : List (Step α)) (mask : Nat) : Corner α :=
  Corner.follow steps mask ⟨base, 1.0⟩

/-- Numbers below an even bound, two at a time. -/
theorem flatMap_range_two_mul {β : Type} (f : Nat → List β) (n : Nat) :
    (List.range (2 * n)).flatMap f
      = (List.range n).flatMap fun k => f (2 * k) ++ f (2 * k + 1) := by
  induction n with
  | zero => rfl
  | succ n ih =>
    have htwo : 2 * (n + 1) = 2 * n + 1 + 1 := rfl
    rw [htwo, List.range_succ, List.range_succ, List.range_succ, List.flatMap_append,
      List.flatMap_append, ih, List.flatMap_append, List.append_assoc]
    simp

/-- The corners reached from several ones: mask by mask, and for each mask from one after the
    other. -/
theorem extendCorners_eq_flatMap_follow (steps : List (Step α)) (reached : List (Corner α)) :
    extendCorners steps reached
      = (List.range (2 ^ steps.length)).flatMap fun mask =>
          reached.map (Corner.follow steps mask) := by
  induction steps generalizing reached with
  | nil => simp [extendCorners, Corner.follow]
  | cons step steps ih =>
    -- The lowest bit is that of the first step, so neighbouring masks differ in it.
    have heven (mask : Nat) : (2 * mask).testBit 0 = false := by simp
    have hodd (mask : Nat) : (2 * mask + 1).testBit 0 = true := by simp
    have hhalf (mask : Nat) : 2 * mask / 2 = mask ∧ (2 * mask + 1) / 2 = mask := by omega
    rw [extendCorners, ih, List.length_cons, Nat.pow_succ', flatMap_range_two_mul]
    simp [Corner.follow, Function.comp_def, heven, hodd, hhalf]

/-- **All corners, mask by mask.** -/
theorem corners_eq_map_cornerAt (base : Nat) (steps : List (Step α)) :
    corners base steps = (List.range (2 ^ steps.length)).map (cornerAt base steps) := by
  rw [corners, extendCorners_eq_flatMap_follow, List.map_eq_flatMap]
  rfl

end GridLookup
