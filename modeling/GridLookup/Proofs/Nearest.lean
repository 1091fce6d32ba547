import Mathlib.Data.Int.Log
import Mathlib.Data.Rat.Floor
import Mathlib.Tactic.Linarith
import Mathlib.Tactic.Ring

namespace GridLookup

/-!
# Rounding to double precision

What a double-precision operation makes of its exact result, over exact numbers and for positive
ones.  There is no largest exponent yet.

* `nearestEven` — the nearest whole number.
* `lastPlace`, `nearestUnits`, `nearest` — the nearest number of double precision.
* `nearest_mono` — rounding is monotone, so that bounds of an exact result bound the rounded one.
* `nearest_pos`, `nearest_one` — what is not rounded to zero, and a number that is kept.
-/

/-! ### Whole numbers -/

/-- The whole number nearest to a positive one; an exact half goes to the even neighbour. -/
def nearestEven (q : ℚ) : ℕ :=
  if q < ⌊q⌋₊ + 1 / 2 then ⌊q⌋₊
  else if ⌊q⌋₊ + 1 / 2 < q then ⌊q⌋₊ + 1
  else ⌊q⌋₊ + ⌊q⌋₊ % 2

/-- The nearest whole number is not below the one cut off. -/
theorem floor_le_nearestEven (q : ℚ) : ⌊q⌋₊ ≤ nearestEven q := by
  unfold nearestEven
  split
  · exact le_rfl
  split
  · exact Nat.le_succ _
  · exact Nat.le_add_right _ _

/-- The nearest whole number is at most the one cut off and one. -/
theorem nearestEven_le_succ_floor (q : ℚ) : nearestEven q ≤ ⌊q⌋₊ + 1 := by
  unfold nearestEven
  split
  · exact Nat.le_succ _
  split
  · exact le_rfl
  · omega

/-- Rounding is monotone. -/
theorem nearestEven_mono {q r : ℚ} (h : q ≤ r) : nearestEven q ≤ nearestEven r := by
  rcases Nat.lt_or_eq_of_le (Nat.floor_mono h) with hlt | heq
  · exact (nearestEven_le_succ_floor q).trans (Nat.le_trans hlt (floor_le_nearestEven r))
  · -- Between the same two whole numbers, what is further up is rounded no further down.
    unfold nearestEven
    rw [heq]
    have hparity : ⌊r⌋₊ % 2 ≤ 1 := by omega
    split_ifs <;> first | omega | linarith

/-- Whole numbers are not rounded. -/
@[simp] theorem nearestEven_natCast (n : ℕ) : nearestEven n = n := by
  unfold nearestEven
  rw [Nat.floor_natCast, if_pos (by linarith)]

/-! ### Numbers of double precision -/

/-- The exponent of the last place of the double nearest to a positive number: fifty-two binary
    places below the leading one, and not below that of the smallest double. -/
def lastPlace (q : ℚ) : ℤ := max (Int.log 2 q - 52) (-1074)

/-- The number of units in the last place, rounded. -/
def nearestUnits (q : ℚ) : ℕ := nearestEven (q / 2 ^ lastPlace q)

/-- The number of double precision nearest to a positive one, were there no largest exponent. -/
def nearest (q : ℚ) : ℚ := nearestUnits q * 2 ^ lastPlace q

theorem two_zpow_pos (e : ℤ) : (0 : ℚ) < 2 ^ e := zpow_pos (by norm_num) e

variable {q r : ℚ}

/-- There is a least last place. -/
theorem neg_le_lastPlace (q : ℚ) : -1074 ≤ lastPlace q := le_max_right _ _

/-- Larger numbers have no smaller last place. -/
theorem lastPlace_mono (hq : 0 < q) (h : q ≤ r) : lastPlace q ≤ lastPlace r :=
  max_le_max (sub_le_sub_right (Int.log_mono_right hq h) 52) le_rfl

/-- A number is less than `2 ^ 53` units of its last place. -/
theorem div_lastPlace_lt (q : ℚ) : q / 2 ^ lastPlace q < 2 ^ 53 := by
  have hlog : q < 2 ^ (Int.log 2 q + 1) := by
    exact_mod_cast Int.lt_zpow_succ_log_self (by norm_num : 1 < 2) q
  rw [div_lt_iff₀ (two_zpow_pos _)]
  calc q < 2 ^ (Int.log 2 q + 1) := hlog
    _ ≤ 2 ^ ((53 : ℕ) + lastPlace q : ℤ) := by
      refine zpow_le_zpow_right₀ (by norm_num) ?_
      have := le_max_left (Int.log 2 q - 52) (-1074)
      unfold lastPlace
      push_cast
      omega
    _ = 2 ^ 53 * 2 ^ lastPlace q := by
      rw [zpow_add₀ (by norm_num), zpow_natCast]

/-- A number is at least `2 ^ 52` units of its last place, unless that is the least one. -/
theorem le_div_lastPlace (hq : 0 < q) (h : -1074 < lastPlace q) :
    2 ^ 52 ≤ q / 2 ^ lastPlace q := by
  have hplace : lastPlace q = Int.log 2 q - 52 := by
    unfold lastPlace at h ⊢
    omega
  rw [le_div_iff₀ (two_zpow_pos _), hplace]
  calc (2 : ℚ) ^ 52 * 2 ^ (Int.log 2 q - 52) = 2 ^ Int.log 2 q := by
        rw [← zpow_natCast, ← zpow_add₀ (by norm_num)]
        congr 1
        push_cast
        ring
    _ ≤ q := by exact_mod_cast Int.zpow_log_le_self (by norm_num : 1 < 2) hq

/-- A number is rounded to at most `2 ^ 53` units of its last place. -/
theorem nearestUnits_le (q : ℚ) : nearestUnits q ≤ 2 ^ 53 := by
  have h : q / 2 ^ lastPlace q ≤ (2 ^ 53 : ℕ) := by exact_mod_cast (div_lastPlace_lt q).le
  exact (nearestEven_mono h).trans_eq (nearestEven_natCast _)

/-- A number is rounded to at least `2 ^ 52` units of its last place, unless that is the least
    one. -/
theorem le_nearestUnits (hq : 0 < q) (h : -1074 < lastPlace q) : 2 ^ 52 ≤ nearestUnits q := by
  have h : ((2 ^ 52 : ℕ) : ℚ) ≤ q / 2 ^ lastPlace q := by exact_mod_cast le_div_lastPlace hq h
  exact (nearestEven_natCast _).symm.trans_le (nearestEven_mono h)

/-- **Rounding is monotone**, also from one binade to the next. -/
theorem nearest_mono (hq : 0 < q) (h : q ≤ r) : nearest q ≤ nearest r := by
  have hr : 0 < r := hq.trans_le h
  unfold nearest
  rcases (lastPlace_mono hq h).eq_or_lt with heq | hlt
  · have hunits : nearestUnits q ≤ nearestUnits r := by
      unfold nearestUnits
      rw [heq]
      exact nearestEven_mono (div_le_div_of_nonneg_right h (two_zpow_pos _).le)
    rw [heq]
    exact mul_le_mul_of_nonneg_right (by exact_mod_cast hunits) (two_zpow_pos _).le
  · -- The lower one is at most the least number with the last place of the upper one.
    have hunits := nearestUnits_le q
    have hunits' := le_nearestUnits hr ((neg_le_lastPlace q).trans_lt hlt)
    calc (nearestUnits q : ℚ) * 2 ^ lastPlace q
        ≤ 2 ^ 53 * 2 ^ lastPlace q :=
          mul_le_mul_of_nonneg_right (by exact_mod_cast hunits) (two_zpow_pos _).le
      _ = 2 ^ 52 * 2 ^ (lastPlace q + 1) := by
          rw [zpow_add_one₀ (by norm_num)]
          ring
      _ ≤ 2 ^ 52 * 2 ^ lastPlace r := by
          refine mul_le_mul_of_nonneg_left ?_ (by norm_num)
          exact zpow_le_zpow_right₀ (by norm_num) hlt
      _ ≤ nearestUnits r * 2 ^ lastPlace r :=
          mul_le_mul_of_nonneg_right (by exact_mod_cast hunits') (two_zpow_pos _).le

/-- What is rounded is not negative. -/
theorem nearest_nonneg (q : ℚ) : 0 ≤ nearest q :=
  mul_nonneg (Nat.cast_nonneg _) (two_zpow_pos _).le

/-- Numbers that are not below the smallest double are not rounded to zero. -/
theorem nearest_pos (h : 2 ^ (-1074 : ℤ) ≤ q) : 0 < nearest q := by
  have hq : 0 < q := (two_zpow_pos _).trans_le h
  refine mul_pos ?_ (two_zpow_pos _)
  rw [Nat.cast_pos]
  rcases (neg_le_lastPlace q).eq_or_lt with heq | hlt
  · have hunits : ((1 : ℕ) : ℚ) ≤ q / 2 ^ lastPlace q := by
      rw [← heq, le_div_iff₀ (two_zpow_pos _)]
      simpa using h
    unfold nearestUnits
    have := nearestEven_mono hunits
    rw [nearestEven_natCast] at this
    omega
  · have := le_nearestUnits hq hlt
    omega

/-- One is not rounded. -/
@[simp] theorem nearest_one : nearest 1 = 1 := by
  have hplace : lastPlace 1 = -52 := by
    unfold lastPlace
    rw [Int.log_one_right]
    rfl
  have hunits : nearestUnits 1 = 2 ^ 52 := by
    unfold nearestUnits
    rw [hplace]
    have : (1 : ℚ) / 2 ^ (-52 : ℤ) = (2 ^ 52 : ℕ) := by norm_num
    rw [this, nearestEven_natCast]
  unfold nearest
  rw [hplace, hunits]
  norm_num

end GridLookup
