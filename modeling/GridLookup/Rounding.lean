namespace GridLookup

/-!
# Rounding

Quotients of natural numbers rounded to the nearest whole number.

* `Tie` — where an exact half goes.
* `roundQuotient` — the rounded quotient, with its two laws.
-/

/-- Where an exact half goes. -/
inductive Tie where
  /-- To the even neighbour. -/
  | toEven
  /-- To the upper neighbour. -/
  | up
  deriving DecidableEq, Repr

/-- Whether a half above `floor` goes up. -/
def Tie.raises (tie : Tie) (floor : Nat) : Bool :=
  match tie with
  | .toEven => floor % 2 == 1
  | .up => true

/-- `num / den` to the nearest whole number. -/
def roundQuotient (tie : Tie) (num den : Nat) : Nat :=
  let floor := num / den
  let twice := 2 * (num % den)
  if twice < den then floor
  else if den < twice then floor + 1
  else if tie.raises floor then floor + 1 else floor

/-- The rounded quotient is within half a unit of the quotient. -/
theorem roundQuotient_near (tie : Tie) (num den : Nat) (h : 0 < den) :
    2 * num ≤ (2 * roundQuotient tie num den + 1) * den ∧
      2 * roundQuotient tie num den * den ≤ 2 * num + den := by
  have hdiv := Nat.div_add_mod num den
  have hmod := Nat.mod_lt num h
  have hm : 2 * num = 2 * (den * (num / den)) + 2 * (num % den) := by omega
  have hc : den * (num / den) = num / den * den := Nat.mul_comm _ _
  unfold roundQuotient
  simp only
  split
  · rw [Nat.add_mul, Nat.mul_assoc]; omega
  · split
    · rw [Nat.add_mul, Nat.mul_assoc, Nat.add_mul]; omega
    · split
      · rw [Nat.add_mul, Nat.mul_assoc, Nat.add_mul]; omega
      · rw [Nat.add_mul, Nat.mul_assoc]; omega

end GridLookup
