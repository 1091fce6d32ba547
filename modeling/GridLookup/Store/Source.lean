import GridLookup.Store.Error
import GridLookup.Word.Length

namespace GridLookup

/-!
# Sources

Where a stored table is read from: bytes that arrive in pieces, and what happens after the last
of them.

* `Source` — the pieces that are left, the end, and how many bytes have been read.
* `Reading` — an action that reads from a source.
* `readBytes`, `readLengthWord`, `readVector` — the parts of a stored table.
* `Arithmetic` — what becomes of a size that a 64-bit word does not hold.
* `skipVector` — the parts that are not kept.
-/

/-- What happens when a source has no bytes left. -/
inductive Ending where
  /-- The data are complete. -/
  | complete
  /-- Every further read fails. -/
  | fault (reason : String)
  deriving DecidableEq, Repr

/-- A source of bytes. -/
structure Source where
  /-- The bytes that are left, in the pieces they arrive in. -/
  pieces : List (List UInt8)
  /-- What comes after them. -/
  ending : Ending
  /-- How many bytes have been read. -/
  position : Nat

namespace Source

/-- A source that delivers the given bytes at once. -/
def ofBytes (bytes : List UInt8) : Source := ⟨[bytes], .complete, 0⟩

/-- A source that delivers the given bytes and fails on the next read. -/
def failingAfter (bytes : List UInt8) (reason : String) : Source := ⟨[bytes], .fault reason, 0⟩

/-- The bytes that are left. -/
def bytes (source : Source) : List UInt8 := source.pieces.flatten

/-- Takes bytes off the pieces until `count` are taken or none are left. -/
def takePieces : Nat → List (List UInt8) → List UInt8 × List (List UInt8)
  | _, [] => ([], [])
  | count, piece :: pieces =>
    let front := piece.take count
    -- A piece that is too short is used up, and the next one is asked for the rest.
    if front.length < count then
      let (more, rest) := takePieces (count - front.length) pieces
      (front ++ more, rest)
    else (front, piece.drop count :: pieces)

end Source

/-- An action that reads from a source. -/
abbrev Reading := StateT Source (Except StoreError)

/-- Reads exactly `count` bytes of the named part. -/
def readBytes (count : Nat) (part : String) : Reading (List UInt8) := fun source =>
  let (bytes, rest) := Source.takePieces count source.pieces
  if bytes.length = count then .ok (bytes, ⟨rest, source.ending, source.position + count⟩)
  else
    match source.ending with
    | .complete => .error (.truncated part)
    | .fault reason => .error (.file (.failing reason))

/-- Reads the length word of a vector. -/
def readLengthWord (kind : LengthWord) (order : ByteOrder) (vector : String) : Reading Nat := do
  let bytes ← readBytes 4 s!"length of {vector}"
  match bytes with
  | [a, b, c, d] =>
    match kind.decode (Word.ofBytes order a b c d) with
    | .ok length => pure length
    | .error number => throw (.invalidLength vector number)
  | _ => throw (.truncated s!"length of {vector}")

/-- How many words are read at a time, so that a corrupt length claims no memory. -/
def wordsAtOnce : Nat := 64 * 1024

/-- Reads `remaining` more words of a vector, chunk by chunk, after those already read. -/
def readPortions (order : ByteOrder) (vector : String) (remaining : Nat) (words : Array Word) :
    Reading (Array Word) :=
  if _more : 0 < remaining then do
    let count := min remaining wordsAtOnce
    let bytes ← readBytes (4 * count) vector
    readPortions order vector (remaining - count) (Word.appendAll order bytes words)
  else pure words
termination_by remaining
decreasing_by
  have : 0 < wordsAtOnce := by decide
  omega

/-- Reads the words of a vector of known length. -/
def readVector (order : ByteOrder) (vector : String) (length : Nat) : Reading (Array Word) :=
  readPortions order vector length #[]

/-- How the program has been built to calculate with sizes in bytes, which are 64-bit words. -/
inductive Arithmetic where
  /-- Sizes wrap: they are taken modulo `2 ^ 64`. -/
  | wrapping
  /-- Sizes are checked: one that does not fit stops the program. -/
  | checked
  deriving DecidableEq, Repr

/-- The size in bytes of a vector of `length` words. -/
def Arithmetic.size (arithmetic : Arithmetic) (length : Nat) : Except StoreError Nat :=
  let size := 4 * length
  if size < (1 <<< 64) then .ok size
  else
    match arithmetic with
    | .wrapping => .ok (size % (1 <<< 64))
    | .checked => .error .overflow

/-- Reads past a vector of known length. -/
def skipVector (arithmetic : Arithmetic) (vector : String) (length : Nat) : Reading Unit := do
  let size ← arithmetic.size length
  let _ ← readBytes size vector

end GridLookup
