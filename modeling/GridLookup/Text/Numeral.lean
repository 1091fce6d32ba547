namespace GridLookup

/-!
# Numerals

Natural numbers in positional notation.

* `Numeral.write` — the decimal digits of a number, without leading zeros.
* `Numeral.read?` — the number that a run of digits of some radix denotes.
* `Numeral.read?_write` — what is written reads back.
-/

namespace Numeral

/-- The character of a decimal digit. -/
def digitChar (digit : Nat) : Char := Char.ofNat (48 + digit)

/-- The digit that a character stands for: `0` to `9`, then letters of either case. -/
def digit? (c : Char) : Option Nat :=
  if '0' ≤ c ∧ c ≤ '9' then some (c.toNat - 48)
  else if 'a' ≤ c ∧ c ≤ 'z' then some (c.toNat - 87)
  else if 'A' ≤ c ∧ c ≤ 'Z' then some (c.toNat - 55)
  else none

/-- The decimal digits of a number. -/
def write (n : Nat) : List Char :=
  if n < 10 then [digitChar n] else write (n / 10) ++ [digitChar (n % 10)]

/-- The decimal digits of a number, as a string. -/
def text (n : Nat) : String := String.ofList (write n)

/-- Continues a number by digits of the given radix; `none` at anything else. -/
def extend (radix : Nat) : Nat → List Char → Option Nat
  | number, [] => some number
  | number, c :: rest =>
    match digit? c with
    | some digit => if digit < radix then extend radix (number * radix + digit) rest else none
    | none => none

/-- The number that one or more digits of the given radix denote. -/
def read? (radix : Nat) (digits : List Char) : Option Nat :=
  if digits.isEmpty then none else extend radix 0 digits

/-- The number that decimal digits denote after an optional plus sign, if a 64-bit word holds
    it. -/
def readCount? (digits : List Char) : Option Nat :=
  let unsigned := match digits with
    | '+' :: rest => rest
    | _ => digits
  match read? 10 unsigned with
  | some number => if number < (1 <<< 64) then some number else none
  | none => none

/-! ### What is written reads back -/

/-- A digit is read back. -/
theorem digit?_digitChar {d : Nat} (h : d < 10) : digit? (digitChar d) = some d := by
  have : d = 0 ∨ d = 1 ∨ d = 2 ∨ d = 3 ∨ d = 4 ∨ d = 5 ∨ d = 6 ∨ d = 7 ∨ d = 8 ∨ d = 9 := by
    omega
  rcases this with h | h | h | h | h | h | h | h | h | h <;> subst h <;> rfl

/-- A number has at least one digit. -/
theorem write_ne_nil (n : Nat) : write n ≠ [] := by
  unfold write
  split <;> simp

/-- The digits of a number are read one after the other. -/
theorem extend_append (radix : Nat) (front back : List Char) (number : Nat) :
    extend radix number (front ++ back)
      = (extend radix number front).bind fun reached => extend radix reached back := by
  induction front generalizing number with
  | nil => rfl
  | cons c front ih =>
    simp only [List.cons_append, extend]
    split
    · split
      · exact ih _
      · rfl
    · rfl

/-- A number is read back from its digits. -/
theorem extend_write (n : Nat) : extend 10 0 (write n) = some n := by
  fun_induction write n with
  | case1 n h => simp [extend, digit?_digitChar h, h]
  | case2 n h ih =>
    have hd : n % 10 < 10 := Nat.mod_lt _ (by decide)
    have hn : n / 10 * 10 + n % 10 = n := by omega
    rw [extend_append, ih]
    simp [extend, digit?_digitChar hd, hd, hn]

/-- The digits of a number denote it. -/
theorem read?_write (n : Nat) : read? 10 (write n) = some n := by
  have h := write_ne_nil n
  simp [read?, h, extend_write]

/-- Different numbers have different digits. -/
theorem write_injective {m n : Nat} (h : write m = write n) : m = n := by
  have hm := extend_write m
  rw [h, extend_write n] at hm
  exact (Option.some.inj hm).symm

end Numeral

end GridLookup
