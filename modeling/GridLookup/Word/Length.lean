import GridLookup.Word.Bytes

namespace GridLookup

/-!
# Length words

The word in front of a stored vector that counts its values.

* `LengthWord` — how the word is read.
* `LengthWord.encode?`, `LengthWord.decode` — a count as a word and back.
-/

/-- How a length word is read. -/
inductive LengthWord where
  /-- As a signed number; negative ones are refused. -/
  | signed
  /-- As an unsigned number. -/
  | unsigned
  deriving DecidableEq, Repr

namespace LengthWord

/-- The largest count that the word holds. -/
def greatest : LengthWord → Nat
  | .signed => (1 <<< 31) - 1
  | .unsigned => (1 <<< 32) - 1

/-- The word of a count, if it is not too large. -/
def encode? (kind : LengthWord) (count : Nat) : Option Word :=
  if count ≤ kind.greatest then some (UInt32.ofNat count) else none

/-- The number that a word stands for. -/
def number (kind : LengthWord) (word : Word) : Int :=
  match kind with
  | .signed => if word.toNat < (1 <<< 31) then word.toNat else word.toNat - (1 <<< 32)
  | .unsigned => word.toNat

/-- The count of a word, or the negative number that it holds instead. -/
def decode (kind : LengthWord) (word : Word) : Except Int Nat :=
  let number := kind.number word
  if number < 0 then .error number else .ok number.toNat

end LengthWord

end GridLookup
