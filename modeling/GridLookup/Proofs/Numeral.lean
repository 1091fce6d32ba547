import GridLookup.Decimal.Reader
import Mathlib.Algebra.Order.Ring.Nat
import Mathlib.Tactic.Ring

namespace GridLookup.Numeral

/-!
# Digits of numbers

* `isDigit_of_mem_write`, `write_eq_cons` — what the digits of a number are.
* `lt_of_write`, `le_of_write`, `length_write_le` — how many there are.
* `read?_zeros_append`, `read?_append_zeros` — zeros in front of them and behind them.
-/

/-- Numbers below ten are written as digits. -/
theorem isDigit_digitChar {d : Nat} (h : d < 10) : isDigit (digitChar d) = true := by
  revert d
  decide

/-- Every digit is written for a number below ten. -/
theorem exists_digitChar {c : Char} (h : isDigit c = true) : ∃ d < 10, c = digitChar d := by
  rw [isDigit, Bool.and_eq_true, decide_eq_true_eq, decide_eq_true_eq] at h
  have hlower : 48 ≤ c.toNat := h.1
  have hupper : c.toNat ≤ 57 := h.2
  refine ⟨c.toNat - 48, by omega, ?_⟩
  rw [digitChar, Nat.add_sub_cancel' hlower, Char.ofNat_toNat]

/-- A number is written in digits. -/
theorem isDigit_of_mem_write (n : Nat) : ∀ c ∈ write n, isDigit c = true := by
  fun_induction write n with
  | case1 n h => simpa using isDigit_digitChar h
  | case2 n h ih =>
    rw [List.forall_mem_append, List.forall_mem_singleton]
    exact ⟨ih, isDigit_digitChar (Nat.mod_lt n (by decide))⟩

/-- Only the number zero begins with a zero. -/
theorem write_eq_cons (n : Nat) :
    ∃ d rest, d < 10 ∧ write n = digitChar d :: rest ∧ (d = 0 → n = 0 ∧ rest = []) := by
  fun_induction write n with
  | case1 n h => exact ⟨n, [], h, rfl, fun hzero => ⟨hzero, rfl⟩⟩
  | case2 n h ih =>
    obtain ⟨d, rest, hd, hwrite, hzero⟩ := ih
    refine ⟨d, rest ++ [digitChar (n % 10)], hd, by rw [hwrite, List.cons_append], fun hd => ?_⟩
    have := (hzero hd).1
    omega

/-! ### Lengths -/

/-- A number with this many digits is not too large. -/
theorem lt_of_write (n : Nat) : n < 10 ^ (write n).length := by
  fun_induction write n with
  | case1 n h => simpa using h
  | case2 n h ih =>
    rw [List.length_append, List.length_singleton, pow_succ]
    omega

/-- A number with this many digits is not too small. -/
theorem le_of_write {n : Nat} (h : 0 < n) : 10 ^ (write n).length ≤ 10 * n := by
  fun_induction write n with
  | case1 n hsmall => simpa using Nat.one_le_iff_ne_zero.mpr h.ne'
  | case2 n hlarge ih =>
    have hle := ih (by omega)
    rw [List.length_append, List.length_singleton, pow_succ]
    omega

/-- A number has no more decimal than binary digits. -/
theorem length_write_le {n : Nat} (h : 0 < n) : (write n).length ≤ n.log2 + 1 := by
  have hmore := le_of_write h
  have hless := Nat.lt_log2_self (n := n)
  by_contra hlength
  have hpower : 10 * 10 ^ (n.log2 + 1) ≤ 10 ^ (write n).length := by
    rw [← pow_succ']
    exact Nat.pow_le_pow_right (by decide) (by omega)
  have hbase : 2 ^ (n.log2 + 1) ≤ 10 ^ (n.log2 + 1) := Nat.pow_le_pow_left (by decide) _
  omega

/-! ### Zeros -/

/-- A zero at the end makes a number ten times as large. -/
theorem extend_zeros (number count : Nat) :
    extend 10 number (List.replicate count '0') = some (number * 10 ^ count) := by
  induction count generalizing number with
  | zero => simp [extend]
  | succ count ih =>
    have hzero : digit? '0' = some 0 := by decide
    rw [List.replicate_succ, extend, hzero]
    simp only [Nat.zero_lt_succ, if_true, add_zero]
    rw [ih, pow_succ]
    congr 1
    ring

/-- Zeros in front of the digits of a number change nothing. -/
theorem read?_zeros_append (count n : Nat) :
    read? 10 (List.replicate count '0' ++ write n) = some n := by
  have hsome : (List.replicate count '0' ++ write n).isEmpty = false := by
    simp [write_ne_nil]
  rw [read?, hsome, if_neg Bool.false_ne_true, extend_append, extend_zeros]
  simpa using extend_write n

/-- Zeros behind the digits of a number multiply it. -/
theorem read?_append_zeros (n count : Nat) :
    read? 10 (write n ++ List.replicate count '0') = some (n * 10 ^ count) := by
  have hsome : (write n ++ List.replicate count '0').isEmpty = false := by
    simp [write_ne_nil]
  rw [read?, hsome, if_neg Bool.false_ne_true, extend_append, extend_write]
  exact extend_zeros n count

end GridLookup.Numeral
