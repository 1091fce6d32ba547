import GridLookup.Proofs.Word
import GridLookup.Store.Source
import Mathlib.Tactic.Linarith

namespace GridLookup

/-!
# What is read from a source

Every reading action is described twice.  It is *sound*: when it succeeds, the bytes it has
passed are a written form of its result.  It is *complete*: in front of a written form it
succeeds, whatever comes after and in whatever pieces the bytes arrive.

* `Source.Passed` — the bytes between a source and what is left of it.
* `Reading.bind_eq_ok_iff` — a sequence of actions succeeds step by step.
* `Ending.shortfall`, `readBytes_of_short` — what a read beyond the last byte fails with.
* `readBytes_sound`, `readBytes_complete`, and the same for length words and vectors.
* `Arithmetic.size_eq_ok_iff`, `skipVector_sound`, `skipVector_complete` — how much is skipped.
-/

/-! ### Passing bytes -/

namespace Source

/-- `rest` is what is left of `source` when `bytes` have been read. -/
structure Passed (source : Source) (bytes : List UInt8) (rest : Source) : Prop where
  /-- The bytes stand in front of what is left. -/
  bytes_eq : source.bytes = bytes ++ rest.bytes
  /-- All of them are counted. -/
  position_eq : rest.position = source.position + bytes.length
  /-- What comes after the last byte stays the same. -/
  ending_eq : rest.ending = source.ending

/-- A source passes no bytes on its own. -/
theorem Passed.refl (source : Source) : source.Passed [] source := ⟨rfl, rfl, rfl⟩

/-- Bytes passed one after the other are passed in a row. -/
theorem Passed.trans {source middle rest : Source} {front back : List UInt8}
    (h : source.Passed front middle) (h' : middle.Passed back rest) :
    source.Passed (front ++ back) rest where
  bytes_eq := by rw [h.bytes_eq, h'.bytes_eq, List.append_assoc]
  position_eq := by rw [h'.position_eq, h.position_eq, List.length_append, Nat.add_assoc]
  ending_eq := h'.ending_eq.trans h.ending_eq

/-- What is left is what stood behind the bytes. -/
theorem Passed.rest_eq {source rest : Source} {bytes tail : List UInt8}
    (h : source.Passed bytes rest) (hbytes : source.bytes = bytes ++ tail) : rest.bytes = tail :=
  List.append_cancel_left (h.bytes_eq.symm.trans hbytes)

/-- Bytes are taken off the front, however they are cut into pieces. -/
theorem takePieces_spec (count : Nat) (pieces : List (List UInt8)) :
    (takePieces count pieces).1 = pieces.flatten.take count ∧
      (takePieces count pieces).2.flatten = pieces.flatten.drop count := by
  induction pieces generalizing count with
  | nil => simp [takePieces]
  | cons piece pieces ih =>
    obtain ⟨hfront, hrest⟩ := ih (count - piece.length)
    unfold takePieces
    dsimp only
    split
    · -- The first piece is used up, and the rest is taken from the others.
      next hshort =>
      have hlt : piece.length < count := by
        rw [List.length_take] at hshort
        omega
      have hpiece : piece.take count = piece := List.take_of_length_le (by omega)
      rw [hpiece, List.flatten_cons, List.take_append, List.drop_append, hpiece,
        List.drop_eq_nil_of_le (by omega : piece.length ≤ count)]
      exact ⟨by rw [hfront], by rw [hrest, List.nil_append]⟩
    · next hlong =>
      have hle : count ≤ piece.length := by
        rw [List.length_take] at hlong
        omega
      rw [List.flatten_cons, List.take_append_of_le_length hle, List.flatten_cons,
        List.drop_append_of_le_length hle]
      exact ⟨rfl, rfl⟩

@[simp] theorem bytes_ofBytes (bytes : List UInt8) : (ofBytes bytes).bytes = bytes := by
  show [bytes].flatten = bytes
  rw [List.flatten_singleton]

/-- What has been passed of a byte string up to its length is all of it. -/
theorem Passed.eq_of_position {bytes passed : List UInt8} {rest : Source}
    (h : (ofBytes bytes).Passed passed rest) (hposition : rest.position = bytes.length) :
    passed = bytes := by
  have hfront : passed <+: bytes :=
    ⟨rest.bytes, by rw [← h.bytes_eq, bytes_ofBytes]⟩
  refine hfront.eq_of_length ?_
  rw [← hposition, h.position_eq]
  exact (Nat.zero_add _).symm

end Source

/-! ### Sequences of actions -/

namespace Reading

variable {α β : Type} {action : Reading α} {next : α → Reading β} {source middle : Source}

/-- What was read is carried on with. -/
theorem bind_of_ok {a : α} (h : action source = .ok (a, middle)) :
    (action >>= next) source = next a middle := by
  show (action source >>= fun result => next result.1 result.2) = _
  rw [h]
  rfl

/-- A failure stops what follows. -/
theorem bind_of_error {error : StoreError} (h : action source = .error error) :
    (action >>= next) source = .error error := by
  show (action source >>= fun result => next result.1 result.2) = _
  rw [h]
  rfl

/-- A sequence succeeds exactly if its parts do, one after the other. -/
theorem bind_eq_ok_iff {b : β} {rest : Source} :
    (action >>= next) source = .ok (b, rest)
      ↔ ∃ a middle, action source = .ok (a, middle) ∧ next a middle = .ok (b, rest) := by
  constructor
  · intro h
    match haction : action source with
    | .ok (a, middle) => exact ⟨a, middle, rfl, (bind_of_ok haction).symm.trans h⟩
    | .error error =>
      rw [bind_of_error haction] at h
      cases h
  · rintro ⟨a, middle, haction, h⟩
    rw [bind_of_ok haction, h]

variable {outcome : Except StoreError α} {rest : Source}

/-- A check of something other than the source leaves the source alone. -/
theorem lift_bind_eq_ok_iff {b : β} :
    ((liftM outcome : Reading α) >>= next) source = .ok (b, rest)
      ↔ ∃ a, outcome = .ok a ∧ next a source = .ok (b, rest) := by
  constructor
  · intro h
    match outcome with
    | .ok a => exact ⟨a, rfl, h⟩
    | .error error => cases h
  · rintro ⟨a, rfl, h⟩
    exact h

/-- A result that needs no reading is carried on with. -/
theorem lift_bind_of_ok {a : α} (h : outcome = .ok a) :
    ((liftM outcome : Reading α) >>= next) source = next a source := by
  rw [h]
  rfl

/-- A failure that needs no reading stops what follows. -/
theorem lift_bind_of_error {error : StoreError} (h : outcome = .error error) :
    ((liftM outcome : Reading α) >>= next) source = .error error := by
  rw [h]
  rfl

/-- A result that needs no reading leaves the source as it is. -/
theorem lift_eq_ok_iff {a : α} :
    (liftM outcome : Reading α) source = .ok (a, rest) ↔ outcome = .ok a ∧ source = rest := by
  constructor
  · intro h
    match outcome with
    | .ok a =>
      cases h
      exact ⟨rfl, rfl⟩
    | .error error => cases h
  · rintro ⟨rfl, rfl⟩
    rfl

/-- The source itself may be looked at. -/
theorem get_bind {next : Source → Reading β} : ((get : Reading Source) >>= next) source
    = next source source := rfl

end Reading

/-! ### Bytes -/

/-- The error of a read beyond the last byte. -/
def Ending.shortfall (part : String) : Ending → StoreError
  | .complete => .truncated part
  | .fault reason => .file (.failing reason)

/-- Bytes are read if there are enough of them, whatever the pieces they come in, and the end of
    the source decides otherwise. -/
theorem readBytes_eq (count : Nat) (part : String) (source : Source) :
    readBytes count part source =
      if count ≤ source.bytes.length then
        .ok (source.bytes.take count,
          ⟨(Source.takePieces count source.pieces).2, source.ending, source.position + count⟩)
      else .error (source.ending.shortfall part) := by
  have hfront := (Source.takePieces_spec count source.pieces).1
  unfold readBytes
  dsimp only
  rw [hfront]
  show (if (source.bytes.take count).length = count then _ else _) = _
  -- The program tests what it has got, which is as long as it asked for if there was as much.
  by_cases h : count ≤ source.bytes.length
  · have hlength : (source.bytes.take count).length = count := by
      rw [List.length_take]
      omega
    rw [if_pos h, if_pos hlength]
    rfl
  · have hlength : ¬ (source.bytes.take count).length = count := by
      rw [List.length_take]
      omega
    rw [if_neg h]
    refine (if_neg hlength).trans ?_
    cases source.ending <;> rfl

/-- Where bytes are missing, the failure is that of the end of the source. -/
theorem readBytes_of_short (part : String) {count : Nat} {source : Source}
    (h : source.bytes.length < count) :
    readBytes count part source = .error (source.ending.shortfall part) := by
  rw [readBytes_eq, if_neg (by omega)]

/-- The bytes read are as many as asked for, and they are passed. -/
theorem readBytes_sound {count : Nat} {part : String} {source rest : Source} {bytes : List UInt8}
    (h : readBytes count part source = .ok (bytes, rest)) :
    bytes.length = count ∧ source.Passed bytes rest := by
  rw [readBytes_eq] at h
  split at h
  · next hle =>
    cases h
    have hlength : (source.bytes.take count).length = count := by
      rw [List.length_take]
      omega
    refine ⟨hlength, ?_, ?_, rfl⟩
    · show source.bytes = source.bytes.take count ++ (Source.takePieces _ _).2.flatten
      rw [(Source.takePieces_spec count source.pieces).2]
      exact (List.take_append_drop count source.bytes).symm
    · rw [hlength]
  · cases h

/-- Bytes that are there can be read. -/
theorem readBytes_complete (part : String) {count : Nat} {source : Source}
    {bytes tail : List UInt8} (hlength : bytes.length = count)
    (hbytes : source.bytes = bytes ++ tail) :
    ∃ rest, readBytes count part source = .ok (bytes, rest) ∧ source.Passed bytes rest := by
  have hle : count ≤ source.bytes.length := by
    rw [hbytes, List.length_append]
    omega
  have hread := readBytes_eq count part source
  rw [if_pos hle, hbytes, List.take_append_of_le_length (by omega),
    List.take_of_length_le (by omega)] at hread
  exact ⟨_, hread, (readBytes_sound hread).2⟩

/-! ### Length words -/

section Vectors

variable {kind : LengthWord} {order : ByteOrder} {vector : String} {source rest : Source}

/-- The length read is what the word passed counts. -/
theorem readLengthWord_sound {length : Nat}
    (h : readLengthWord kind order vector source = .ok (length, rest)) :
    ∃ word : Word, kind.number word = length ∧ source.Passed (word.bytes order) rest := by
  unfold readLengthWord at h
  obtain ⟨bytes, middle, hbytes, h⟩ := Reading.bind_eq_ok_iff.mp h
  obtain ⟨hlength, hpassed⟩ := readBytes_sound hbytes
  -- Four bytes have been read, so the word is there.
  match bytes, hlength with
  | [a, b, c, d], _ =>
    dsimp only at h
    match hdecode : kind.decode (Word.ofBytes order a b c d) with
    | .ok length' =>
      rw [hdecode] at h
      cases h
      refine ⟨Word.ofBytes order a b c d, (LengthWord.decode_eq_ok_iff ..).mp hdecode, ?_⟩
      rw [Word.bytes_ofBytes]
      exact hpassed
    | .error fault =>
      rw [hdecode] at h
      cases h

/-- A length word that is there can be read. -/
theorem readLengthWord_complete (vector : String) {length : Nat} {word : Word} {tail : List UInt8}
    (hword : kind.number word = length) (hbytes : source.bytes = word.bytes order ++ tail) :
    ∃ rest, readLengthWord kind order vector source = .ok (length, rest) ∧
      source.Passed (word.bytes order) rest := by
  obtain ⟨rest, hread, hpassed⟩ :=
    readBytes_complete s!"length of {vector}" (Word.length_bytes order word) hbytes
  refine ⟨rest, ?_, hpassed⟩
  unfold readLengthWord
  rw [Reading.bind_of_ok hread]
  obtain ⟨a, b, c, d, hfour, hofBytes⟩ := Word.exists_bytes order word
  rw [hfour]
  dsimp only
  rw [hofBytes, (LengthWord.decode_eq_ok_iff ..).mpr hword]
  rfl

/-! ### Vectors -/

/-- The words read are those that are passed, behind the ones read before. -/
theorem readPortions_sound {remaining : Nat} {before words : Array Word}
    (h : readPortions order vector remaining before source = .ok (words, rest)) :
    ∃ more : List Word, more.length = remaining ∧ words.toList = before.toList ++ more ∧
      source.Passed (Word.writeAll order more) rest := by
  induction remaining using Nat.strong_induction_on generalizing before source with
  | _ remaining ih =>
    -- A portion is never empty, so fewer words remain after it.
    rw [readPortions] at h
    split at h
    · next hmore =>
      obtain ⟨bytes, middle, hbytes, h⟩ := Reading.bind_eq_ok_iff.mp h
      obtain ⟨hlength, hpassed⟩ := readBytes_sound hbytes
      obtain ⟨portion, hcount, rfl⟩ := Word.exists_writeAll order hlength
      have hpositive : 0 < wordsAtOnce := by decide
      obtain ⟨more, hmoreCount, hwords, hrest⟩ := ih _ (by omega) h
      refine ⟨portion ++ more, ?_, ?_, ?_⟩
      · rw [List.length_append]
        omega
      · rw [hwords, Word.toList_appendAll_writeAll, List.append_assoc]
      · rw [Word.writeAll_append]
        exact hpassed.trans hrest
    · next hdone =>
      cases h
      refine ⟨[], ?_, ?_, Source.Passed.refl _⟩
      · rw [List.length_nil]
        omega
      · rw [List.append_nil]

/-- Words that are there can be read in portions. -/
theorem readPortions_complete (vector : String) (before : Array Word) {more : List Word}
    {tail : List UInt8}
    (hbytes : source.bytes = Word.writeAll order more ++ tail) :
    ∃ words rest, readPortions order vector more.length before source = .ok (words, rest) ∧
      words.toList = before.toList ++ more ∧ source.Passed (Word.writeAll order more) rest := by
  induction hcount : more.length using Nat.strong_induction_on
    generalizing before source more with
  | _ remaining ih =>
    subst hcount
    rw [readPortions]
    split
    · next hmore =>
      have hpositive : 0 < wordsAtOnce := by decide
      -- The next portion is split off the words that are still to come.
      obtain ⟨portion, others, hsplit, hportion⟩ : ∃ portion others : List Word,
          more = portion ++ others ∧ portion.length = min more.length wordsAtOnce :=
        ⟨more.take (min more.length wordsAtOnce), more.drop (min more.length wordsAtOnce),
          (List.take_append_drop _ _).symm, by rw [List.length_take]; omega⟩
      have hlength : (Word.writeAll order portion).length
          = 4 * min more.length wordsAtOnce := by
        rw [Word.length_writeAll, hportion]
      rw [hsplit, Word.writeAll_append, List.append_assoc] at hbytes
      obtain ⟨middle, hread, hpassed⟩ := readBytes_complete vector hlength hbytes
      have hothers : others.length = more.length - min more.length wordsAtOnce := by
        rw [hsplit, List.length_append] at hportion ⊢
        omega
      obtain ⟨words, rest, hrest, hwords, hpassed'⟩ :=
        ih others.length (by omega) (Word.appendAll order (Word.writeAll order portion) before)
          (hpassed.rest_eq hbytes) rfl
      rw [hothers] at hrest
      refine ⟨words, rest, ?_, ?_, ?_⟩
      · rw [Reading.bind_of_ok hread, hrest]
      · rw [hwords, Word.toList_appendAll_writeAll, List.append_assoc, ← hsplit]
      · rw [hsplit, Word.writeAll_append]
        exact hpassed.trans hpassed'
    · next hdone =>
      obtain rfl : more = [] := List.eq_nil_of_length_eq_zero (by omega)
      exact ⟨before, source, rfl, (List.append_nil _).symm, Source.Passed.refl _⟩

/-- **Vectors are read word by word.**  The chunks a vector is read in leave no trace. -/
theorem readVector_sound {length : Nat} {words : Array Word}
    (h : readVector order vector length source = .ok (words, rest)) :
    words.size = length ∧ source.Passed (Word.writeAll order words.toList) rest := by
  obtain ⟨more, hcount, hwords, hpassed⟩ := readPortions_sound h
  have hwords : words.toList = more := by simpa using hwords
  rw [hwords]
  exact ⟨by rw [← Array.length_toList, hwords, hcount], hpassed⟩

/-- A vector that is there can be read. -/
theorem readVector_complete (vector : String) {words : List Word} {tail : List UInt8}
    (hbytes : source.bytes = Word.writeAll order words ++ tail) :
    ∃ rest, readVector order vector words.length source = .ok (words.toArray, rest) ∧
      source.Passed (Word.writeAll order words) rest := by
  obtain ⟨read, rest, hread, hwords, hpassed⟩ := readPortions_complete vector #[] hbytes
  have hwords : read.toList = words := by simpa using hwords
  refine ⟨rest, ?_, hpassed⟩
  rw [← hwords, Array.toArray_toList, hwords]
  exact hread

/-! ### Skipped vectors -/

variable {arithmetic : Arithmetic}

/-- A vector is skipped by its size modulo `2 ^ 64`, which is its size where sizes are checked. -/
theorem Arithmetic.size_eq_ok_iff {length size : Nat} :
    arithmetic.size length = .ok size ↔
      size = 4 * length % (1 <<< 64) ∧ (arithmetic = .checked → 4 * length < 1 <<< 64) := by
  unfold Arithmetic.size
  dsimp only
  split
  · next hfits =>
    rw [Nat.mod_eq_of_lt hfits]
    exact ⟨fun h => ⟨(Except.ok.inj h).symm, fun _ => hfits⟩, fun h => congrArg Except.ok h.1.symm⟩
  · next hlarge =>
    cases arithmetic with
    | wrapping => simp [eq_comm]
    | checked => exact ⟨nofun, fun h => absurd (h.2 rfl) hlarge⟩

/-- A size that fits is calculated in either way. -/
theorem Arithmetic.size_of_lt {length : Nat} (h : 4 * length < 1 <<< 64) :
    arithmetic.size length = .ok (4 * length) :=
  size_eq_ok_iff.mpr ⟨(Nat.mod_eq_of_lt h).symm, fun _ => h⟩

/-- The bytes skipped are as many as the size that was worked out. -/
theorem skipVector_sound {length : Nat}
    (h : skipVector arithmetic vector length source = .ok ((), rest)) :
    ∃ bytes : List UInt8, arithmetic.size length = .ok bytes.length ∧
      source.Passed bytes rest := by
  unfold skipVector at h
  obtain ⟨size, hsize, h⟩ := Reading.lift_bind_eq_ok_iff.mp h
  obtain ⟨bytes, middle, hbytes, h⟩ := Reading.bind_eq_ok_iff.mp h
  cases h
  obtain ⟨rfl, hpassed⟩ := readBytes_sound hbytes
  exact ⟨bytes, hsize, hpassed⟩

/-- Bytes that are there can be skipped. -/
theorem skipVector_complete (vector : String) {length : Nat} {bytes tail : List UInt8}
    (hsize : arithmetic.size length = .ok bytes.length) (hbytes : source.bytes = bytes ++ tail) :
    ∃ rest, skipVector arithmetic vector length source = .ok ((), rest) ∧
      source.Passed bytes rest := by
  obtain ⟨rest, hread, hpassed⟩ := readBytes_complete vector rfl hbytes
  refine ⟨rest, ?_, hpassed⟩
  unfold skipVector
  rw [Reading.lift_bind_of_ok hsize, Reading.bind_of_ok hread]
  rfl

end Vectors

end GridLookup
