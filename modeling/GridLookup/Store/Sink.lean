import GridLookup.Store.Error
import GridLookup.Word.Length

namespace GridLookup

/-!
# Sinks

Where a stored table is written to, one word at a time.

* `Piece` — what is written: a word some number of times, or a length that no word holds.
* `Sink` — the bytes accepted so far, and how many more are accepted.
* `Sink.writeAll` — writes pieces in order, up to the first failure.
-/

/-- A part of what is written. -/
inductive Piece where
  /-- A word, some number of times. -/
  | run (word : Word) (copies : Nat)
  /-- The length of a vector that its length word cannot hold; writing stops there. -/
  | badLength (vector : String) (length : Nat)
  deriving DecidableEq, Repr

/-- The bytes of a piece. -/
def Piece.bytes (order : ByteOrder) : Piece → List UInt8
  | .run word copies => (List.replicate copies (word.bytes order)).flatten
  | .badLength _ _ => []

/-- How many more bytes a sink accepts, and what a write beyond them fails with. -/
structure Limit where
  /-- The number of bytes. -/
  room : Nat
  /-- The failure. -/
  reason : String
  deriving DecidableEq, Repr

/-- A sink of bytes. -/
structure Sink where
  /-- The bytes accepted so far. -/
  written : Array UInt8
  /-- What more is accepted; without a limit everything is. -/
  limit : Option Limit

namespace Sink

/-- A sink that accepts everything. -/
def unlimited : Sink := ⟨#[], none⟩

/-- A sink that accepts so many bytes and fails on the write that would pass them. -/
def failingAfter (room : Nat) (reason : String) : Sink := ⟨#[], some ⟨room, reason⟩⟩

/-- Appends a word some number of times. -/
def append (order : ByteOrder) (word : Word) : Nat → Array UInt8 → Array UInt8
  | 0, written => written
  | copies + 1, written => append order word copies (written ++ word.bytes order)

/-- Writes a word some number of times, each copy in one write of four bytes. -/
def writeRun (order : ByteOrder) (word : Word) (copies : Nat) (sink : Sink) :
    Sink × Except StoreError Unit :=
  match sink.limit with
  | none => (⟨append order word copies sink.written, none⟩, .ok ())
  | some limit =>
    let accepted := min copies (limit.room / 4)
    let sink := ⟨append order word accepted sink.written,
      some ⟨limit.room - 4 * accepted, limit.reason⟩⟩
    (sink, if accepted < copies then .error (.file (.failing limit.reason)) else .ok ())

/-- Writes a piece. -/
def write (order : ByteOrder) (piece : Piece) (sink : Sink) : Sink × Except StoreError Unit :=
  match piece with
  | .run word copies => sink.writeRun order word copies
  | .badLength vector length => (sink, .error (.invalidLength vector length))

/-- Writes pieces in order, up to the first failure. -/
def writeAll (order : ByteOrder) : List Piece → Sink → Sink × Except StoreError Unit
  | [], sink => (sink, .ok ())
  | piece :: pieces, sink =>
    match sink.write order piece with
    | (sink, .ok ()) => writeAll order pieces sink
    | (sink, .error error) => (sink, .error error)

end Sink

end GridLookup
