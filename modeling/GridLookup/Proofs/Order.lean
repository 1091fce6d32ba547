import GridLookup.Axis
import Mathlib.Algebra.Order.Ring.Unbundled.Rat
import Mathlib.Data.List.Forall2

namespace GridLookup

/-!
# The order of scalars

The numerical tests are those of a linear order, except that undefined numbers are unordered.

* `LawfulScalar` — what bracketing relies on; exact numbers satisfy it, and so do doubles.
* `Ascending` — strictly ascending lists of numbers.
* `axisFault?_eq_none_iff` — the lists without fault are the ascending ones.
-/

/-- A scalar whose tests order its numbers linearly; an undefined operand makes them fail. -/
class LawfulScalar (α : Type) [Scalar α] : Prop where
  /-- Only numbers are comparable. -/
  number_of_le : ∀ {x y : α}, Scalar.le x y = true → Scalar.isNaN x = false ∧ Scalar.isNaN y = false
  /-- Of two numbers one is below or equal to the other. -/
  le_total : ∀ {x y : α}, Scalar.isNaN x = false → Scalar.isNaN y = false →
    Scalar.le x y = true ∨ Scalar.le y x = true
  /-- Comparisons compose. -/
  le_trans : ∀ {x y z : α}, Scalar.le x y = true → Scalar.le y z = true → Scalar.le x z = true
  /-- Strictly below is below and not above. -/
  lt_iff : ∀ {x y : α}, Scalar.lt x y = true ↔ Scalar.le x y = true ∧ Scalar.le y x = false
  /-- Numerically equal is below and above. -/
  eq_iff : ∀ {x y : α}, Scalar.eq x y = true ↔ Scalar.le x y = true ∧ Scalar.le y x = true

section Laws

variable {α : Type} [Scalar α] [LawfulScalar α] {x y z : α}

namespace Scalar

/-- A number is at most itself. -/
theorem le_refl (h : isNaN x = false) : le x x = true := by
  rcases LawfulScalar.le_total h h with h | h <;> exact h

/-- Strictly below is below or equal. -/
theorem le_of_lt (h : lt x y = true) : le x y = true := (LawfulScalar.lt_iff.mp h).1

/-- Numbers that are not above are strictly below. -/
theorem lt_of_not_le (hx : isNaN x = false) (hy : isNaN y = false) (h : le y x = false) :
    lt x y = true := by
  rw [LawfulScalar.lt_iff]
  rcases LawfulScalar.le_total hx hy with h' | h'
  · exact ⟨h', h⟩
  · rw [h'] at h
    cases h

/-- Strictly below, and then below or equal, is strictly below. -/
theorem lt_of_lt_of_le (h : lt x y = true) (h' : le y z = true) : lt x z = true := by
  obtain ⟨hle, hnot⟩ := LawfulScalar.lt_iff.mp h
  rw [LawfulScalar.lt_iff]
  refine ⟨LawfulScalar.le_trans hle h', ?_⟩
  by_contra hge
  rw [Bool.not_eq_false] at hge
  rw [LawfulScalar.le_trans h' hge] at hnot
  cases hnot

/-- Below or equal, and then strictly below, is strictly below. -/
theorem lt_of_le_of_lt (h : le x y = true) (h' : lt y z = true) : lt x z = true := by
  obtain ⟨hle, hnot⟩ := LawfulScalar.lt_iff.mp h'
  rw [LawfulScalar.lt_iff]
  refine ⟨LawfulScalar.le_trans h hle, ?_⟩
  by_contra hge
  rw [Bool.not_eq_false] at hge
  rw [LawfulScalar.le_trans hge h] at hnot
  cases hnot

/-- Strict comparisons compose. -/
theorem lt_trans (h : lt x y = true) (h' : lt y z = true) : lt x z = true :=
  lt_of_lt_of_le h (le_of_lt h')

end Scalar

end Laws

/-! ### Ascending lists -/

section Lists

variable {α : Type} [Scalar α]

/-- Strictly ascending numbers. -/
def Ascending (nodes : List α) : Prop :=
  (∀ x ∈ nodes, Scalar.isNaN x = false) ∧ nodes.Pairwise fun x y => Scalar.lt x y = true

instance (nodes : List α) : Decidable (Ascending nodes) :=
  inferInstanceAs (Decidable (_ ∧ _))

/-- No undefined node is found exactly if there is none. -/
theorem firstUndefined?_eq_none_iff (nodes : List α) (index : Nat) :
    firstUndefined? nodes index = none ↔ ∀ x ∈ nodes, Scalar.isNaN x = false := by
  induction nodes generalizing index with
  | nil => simp [firstUndefined?]
  | cons x rest ih =>
    unfold firstUndefined?
    split
    · next h => simp [h]
    · next h => simp [h, ih]

/-- No descent is found exactly if no node is at or below its predecessor. -/
theorem firstDescent?_eq_none_iff (nodes : List α) (index : Nat) :
    firstDescent? nodes index = none ↔ nodes.IsChain fun x y => Scalar.le y x = false := by
  induction nodes generalizing index with
  | nil => simp [firstDescent?]
  | cons x rest ih =>
    cases rest with
    | nil => simp [firstDescent?]
    | cons y rest =>
      unfold firstDescent?
      rw [List.isChain_cons_cons]
      split
      · next h => simp [h]
      · next h =>
        rw [ih]
        simp [h]

variable [LawfulScalar α]

instance : Trans (fun x y : α => Scalar.lt x y = true) (fun x y => Scalar.lt x y = true)
    (fun x y => Scalar.lt x y = true) := ⟨Scalar.lt_trans⟩

/-- Neighbours in ascending order suffice. -/
theorem ascending_iff_isChain {nodes : List α} (h : ∀ x ∈ nodes, Scalar.isNaN x = false) :
    Ascending nodes ↔ nodes.IsChain fun x y => Scalar.le y x = false := by
  unfold Ascending
  rw [← List.isChain_iff_pairwise]
  constructor
  · rintro ⟨-, hchain⟩
    exact hchain.imp fun x y hlt => (LawfulScalar.lt_iff.mp hlt).2
  · intro hchain
    refine ⟨h, ?_⟩
    rw [List.isChain_iff_getElem] at hchain ⊢
    intro i hi
    exact Scalar.lt_of_not_le (h _ (List.getElem_mem _)) (h _ (List.getElem_mem _)) (hchain i hi)

/-- **Lists without fault** are those of ascending numbers, except for the empty one. -/
theorem axisFault?_eq_none_iff {nodes : List α} :
    axisFault? nodes = none ↔ nodes ≠ [] ∧ Ascending nodes := by
  unfold axisFault?
  by_cases hempty : nodes = []
  · simp [hempty]
  rw [if_neg (by simpa using hempty)]
  -- The search for a descent counts only if no node is undefined.
  by_cases hnumbers : ∀ x ∈ nodes, Scalar.isNaN x = false
  · rw [(firstUndefined?_eq_none_iff nodes 0).mpr hnumbers, ascending_iff_isChain hnumbers,
      ← firstDescent?_eq_none_iff nodes 0]
    dsimp only
    split
    · next h => simp [h]
    · next h => simp [h, hempty]
  · have hundefined : firstUndefined? nodes 0 ≠ none := by
      rwa [ne_eq, firstUndefined?_eq_none_iff]
    obtain ⟨index, hindex⟩ := Option.ne_none_iff_exists'.mp hundefined
    rw [hindex]
    constructor
    · intro h
      cases h
    · rintro ⟨-, hnodes, -⟩
      exact absurd hnodes hnumbers

omit [LawfulScalar α] in
/-- An axis is built from its nodes. -/
theorem Axis.ofArray_eq_ok_iff {nodes : Array α} {axis : Axis α} :
    Axis.ofArray nodes = .ok axis ↔ axis.nodes = nodes := by
  unfold Axis.ofArray
  split
  · next fault h =>
    constructor
    · intro hok
      cases hok
    · rintro rfl
      rw [axis.faultless] at h
      cases h
  · next h =>
    rw [Except.ok.injEq]
    refine ⟨fun heq => by rw [← heq], fun heq => ?_⟩
    cases axis
    subst heq
    rfl

/-- The nodes of an axis ascend. -/
theorem Axis.ascending (axis : Axis α) : Ascending axis.nodes.toList :=
  (axisFault?_eq_none_iff.mp axis.faultless).2

/-- Lists of numerically equal numbers ascend together. -/
theorem Ascending.congr {nodes others : List α}
    (h : List.Forall₂ (fun x y => Scalar.eq x y = true) nodes others) (hothers : Ascending others) :
    Ascending nodes := by
  obtain ⟨hlength, heq⟩ := List.forall₂_iff_get.mp h
  refine ⟨fun x hx => ?_, List.pairwise_iff_getElem.mpr fun i j hi hj hij => ?_⟩
  · obtain ⟨i, hi, rfl⟩ := List.mem_iff_getElem.mp hx
    exact (LawfulScalar.number_of_le (LawfulScalar.eq_iff.mp (heq i hi (hlength ▸ hi))).1).1
  · have hlt := List.pairwise_iff_getElem.mp hothers.2 i j (hlength ▸ hi) (hlength ▸ hj) hij
    have hfront := (LawfulScalar.eq_iff.mp (heq i hi (hlength ▸ hi))).1
    have hback := (LawfulScalar.eq_iff.mp (heq j hj (hlength ▸ hj))).2
    exact Scalar.lt_of_lt_of_le (Scalar.lt_of_le_of_lt hfront hlt) hback

end Lists

/-! ### Exact numbers -/

/-- Exact arithmetic, in which every number is defined. -/
instance : Scalar ℚ where
  lt x y := x < y
  le x y := x ≤ y
  eq x y := x = y
  nan := 0
  isNaN _ := false

instance : LawfulScalar ℚ where
  number_of_le _ := ⟨rfl, rfl⟩
  le_total {x y} _ _ := by
    show decide (x ≤ y) = true ∨ decide (y ≤ x) = true
    rw [decide_eq_true_eq, decide_eq_true_eq]
    exact le_total x y
  le_trans {x y z} h h' := decide_eq_true ((of_decide_eq_true h).trans (of_decide_eq_true h'))
  lt_iff {x y} := by
    show decide (x < y) = true ↔ decide (x ≤ y) = true ∧ decide (y ≤ x) = false
    rw [decide_eq_true_eq, decide_eq_true_eq, decide_eq_false_iff_not]
    exact lt_iff_le_not_ge
  eq_iff {x y} := by
    show decide (x = y) = true ↔ decide (x ≤ y) = true ∧ decide (y ≤ x) = true
    rw [decide_eq_true_eq, decide_eq_true_eq, decide_eq_true_eq]
    exact le_antisymm_iff

end GridLookup
