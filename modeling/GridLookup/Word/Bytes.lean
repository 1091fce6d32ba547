namespace GridLookup

/-!
# Words

A stored table is a sequence of 32-bit words, all in one byte order.

* `ByteOrder` — which byte of a word comes first.
* `Word.bytes`, `Word.ofBytes` — a word as four bytes and back.
* `Word.readAll` — the words that a run of bytes holds.
* `reverseWords` — every word of a run of bytes turned around.
-/

/-- Which byte of a word comes first. -/
inductive ByteOrder where
  /-- The least significant one. -/
  | little
  /-- The most significant one. -/
  | big
  deriving DecidableEq, Repr

/-- A 32-bit word. -/
abbrev Word := UInt32

namespace Word

/-- The bytes of a word, least significant first. -/
def littleBytes (word : Word) : List UInt8 :=
  [UInt8.ofNat word.toNat, UInt8.ofNat (word.toNat >>> 8),
   UInt8.ofNat (word.toNat >>> 16), UInt8.ofNat (word.toNat >>> 24)]

/-- The word of four bytes, least significant first. -/
def ofLittle (a b c d : UInt8) : Word :=
  UInt32.ofNat (a.toNat + (b.toNat <<< 8) + (c.toNat <<< 16) + (d.toNat <<< 24))

/-- The bytes of a word. -/
def bytes (order : ByteOrder) (word : Word) : List UInt8 :=
  match order with
  | .little => littleBytes word
  | .big => (littleBytes word).reverse

/-- The word of four bytes. -/
def ofBytes (order : ByteOrder) (a b c d : UInt8) : Word :=
  match order with
  | .little => ofLittle a b c d
  | .big => ofLittle d c b a

/-- Appends the words that a run of bytes holds; up to three bytes at its end are left. -/
def appendAll (order : ByteOrder) : List UInt8 → Array Word → Array Word
  | a :: b :: c :: d :: rest, words => appendAll order rest (words.push (ofBytes order a b c d))
  | _, words => words

/-- The words that a run of bytes holds. -/
def readAll (order : ByteOrder) (bytes : List UInt8) : Array Word := appendAll order bytes #[]

end Word

/-- Every four bytes of a run in the opposite order. -/
def reverseWords : List UInt8 → List UInt8
  | a :: b :: c :: d :: rest => d :: c :: b :: a :: reverseWords rest
  | rest => rest

end GridLookup
