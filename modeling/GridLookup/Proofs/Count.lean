import GridLookup.Proofs.Limit
import GridLookup.Proofs.Restoring

namespace GridLookup

/-!
# Counts in front of vectors

The length word of a vector and the number of its values determine each other, as far as the word
reaches.  A signed word reaches half as far, and with its top bit set it counts nothing at all.

* `LengthWord.encode?_eq_some_iff` — a count has the word that stands for it, and no other.
* `LengthWord.decode_eq` — what the bits of a word mean.
* `Layout.writeLength`, `Layout.readLength` — writing a count and reading one.
* `Layout.counts_and_words` — each undoes the other.
-/

/-! ### Counts and words -/

namespace LengthWord

/-- A count has the word that stands for it, and no other. -/
theorem encode?_eq_some_iff {kind : LengthWord} {count : Nat} {word : Word} :
    kind.encode? count = some word ↔ kind.number word = count :=
  ⟨fun h => (decode_eq_ok_iff ..).mp (decode_of_encode? h), encode?_number⟩

/-- A length word counts up to the largest number of its kind. -/
theorem greatest_eq (kind : LengthWord) :
    kind.greatest = match kind with
      | .signed => 2 ^ 31 - 1
      | .unsigned => 2 ^ 32 - 1 := by
  cases kind <;> rfl

/-- Read as a signed number, a word is the one in two's complement. -/
theorem number_signed (word : Word) : signed.number word = word.toInt32.toInt := by
  show signed.number word = word.toBitVec.toInt
  have hword : word.toBitVec.toNat = word.toNat := rfl
  rw [BitVec.toInt_eq_toNat_cond, hword]
  simp only [number, Nat.shiftLeft_eq]
  split <;> split <;> omega

/-- The leading bit of a word is set from the middle of its range on. -/
theorem msb_iff (word : Word) : word.toBitVec.msb = true ↔ 2 ^ 31 ≤ word.toNat := by
  rw [BitVec.msb_eq_decide, decide_eq_true_eq]
  rfl

/-- A signed word with its leading bit set is negative. -/
theorem number_of_msb {word : Word} (h : word.toBitVec.msb = true) : word.toInt32.toInt < 0 := by
  rw [msb_iff] at h
  have hlt := word.toNat_lt
  rw [← number_signed]
  simp only [number, Nat.shiftLeft_eq]
  split <;> omega

/-- **What the bits of a word mean.**  They count in binary, except for a signed word with its top
    bit set. -/
theorem decode_eq (kind : LengthWord) (word : Word) :
    kind.decode word = if kind = .signed ∧ word.toBitVec.msb = true then .error word.toInt32.toInt
      else .ok word.toNat := by
  have hmsb := msb_iff word
  split
  · next h =>
    obtain ⟨rfl, h⟩ := h
    unfold decode
    rw [number_signed, if_pos (number_of_msb h)]
  · next h =>
    rw [decode_eq_ok_iff]
    cases kind with
    | unsigned => rfl
    | signed =>
      -- Without its top bit a signed word is below the limit.
      have hlow : word.toNat < 1 <<< 31 := by
        rw [Nat.shiftLeft_eq]
        simp only [true_and, hmsb] at h
        omega
      exact if_pos hlow

end LengthWord

/-! ### Writing and reading -/

/-- What is read of a word is what it means. -/
theorem exists_readLengthWord {order : ByteOrder} (vector : String) {word : Word} {source : Source}
    {tail : List UInt8} (h : source.bytes = word.bytes order ++ tail) :
    ∃ rest, source.Passed (word.bytes order) rest ∧
      ∀ kind : LengthWord, readLengthWord kind order vector source =
        if kind = .signed ∧ word.toBitVec.msb = true then
          .error (.invalidLength vector word.toInt32.toInt)
        else .ok (word.toNat, rest) := by
  obtain ⟨rest, hread, hpassed⟩ :=
    readBytes_complete s!"length of {vector}" (Word.length_bytes order word) h
  obtain ⟨a, b, c, d, hfour, hword⟩ := Word.exists_bytes order word
  refine ⟨rest, hpassed, fun kind => ?_⟩
  unfold readLengthWord
  rw [Reading.bind_of_ok hread, hfour]
  dsimp only
  rw [hword, LengthWord.decode_eq]
  split <;> rfl

namespace Layout

/-- Writes the length of a vector. -/
def writeLength (layout : Layout) (vector : String) (length : Nat) (sink : Sink) :
    Sink × Except StoreError Unit :=
  sink.write layout.byteOrder (layout.lengthPiece vector length)

/-- Reads the length of a vector. -/
def readLength (layout : Layout) (vector : String) : Reading Nat :=
  readLengthWord layout.lengthWord layout.byteOrder vector

variable {layout : Layout} {vector : String}

/-- A length that has a word is written as the bytes of that word. -/
theorem writeLength_of_number {word : Word} {length : Nat}
    (h : layout.lengthWord.number word = length) (before : Array UInt8) :
    layout.writeLength vector length ⟨before, none⟩
      = (⟨before ++ word.bytes layout.byteOrder, none⟩, .ok ()) := by
  have hpiece : layout.lengthPiece vector length = .run word 1 := by
    unfold lengthPiece
    rw [LengthWord.encode?_number h]
  have hbytes : (List.replicate 1 (word.bytes layout.byteOrder)).flatten
      = word.bytes layout.byteOrder := bytes_run_one layout.byteOrder word
  unfold writeLength
  rw [hpiece]
  show ((⟨Sink.append layout.byteOrder word 1 before, none⟩, _) : Sink × Except StoreError Unit) = _
  rw [Sink.append_eq, hbytes]

/-- A length is written if it has a word. -/
theorem writeLength_eq_ok_iff {length : Nat} {before : Array UInt8} :
    (layout.writeLength vector length ⟨before, none⟩).2 = .ok () ↔
      length ≤ layout.lengthWord.greatest := by
  constructor
  · intro h
    by_contra hlarge
    have hpiece : layout.lengthPiece vector length = .badLength vector length := by
      unfold lengthPiece LengthWord.encode?
      rw [if_neg hlarge]
    unfold writeLength at h
    rw [hpiece] at h
    cases h
  · intro h
    have hword : layout.lengthWord.encode? length = some (UInt32.ofNat length) := if_pos h
    rw [writeLength_of_number (LengthWord.encode?_eq_some_iff.mp hword)]

/-- **Counts and words.**  A count can be written exactly if it has a word, it takes four bytes
    then, and it is read back from them.  Any four bytes are a word, and it is read as a count,
    which is written as the same bytes, unless it is signed and has its top bit set, when it is
    refused with the negative number that it stands for.  Where the top bit is not set, signed and
    unsigned words count alike. -/
theorem counts_and_words (layout : Layout) (vector : String) (before : Array UInt8) :
    (∀ length : Nat,
      ((layout.writeLength vector length ⟨before, none⟩).2 = .ok () ↔
        length ≤ match layout.lengthWord with
          | .signed => 2 ^ 31 - 1
          | .unsigned => 2 ^ 32 - 1) ∧
      ((layout.writeLength vector length ⟨before, none⟩).2 = .ok () →
        ∃ bytes : List UInt8, bytes.length = 4 ∧
          (layout.writeLength vector length ⟨before, none⟩).1 = ⟨before ++ bytes, none⟩ ∧
          ∀ source tail, source.bytes = bytes ++ tail →
            ∃ rest, layout.readLength vector source = .ok (length, rest) ∧
              source.Passed bytes rest)) ∧
    ∀ bytes : List UInt8, bytes.length = 4 →
      ∃ word : Word, word.bytes layout.byteOrder = bytes ∧
        ∀ source tail, source.bytes = bytes ++ tail →
          (if layout.lengthWord = .signed ∧ word.toBitVec.msb = true then
            ∃ number < 0, number = word.toInt32.toInt ∧
              layout.readLength vector source = .error (.invalidLength vector number)
          else
            ∃ length rest, layout.readLength vector source = .ok (length, rest) ∧
              source.Passed bytes rest ∧
              layout.writeLength vector length ⟨before, none⟩ = (⟨before ++ bytes, none⟩, .ok ())) ∧
          (word.toBitVec.msb = false →
            readLengthWord .signed layout.byteOrder vector source
              = readLengthWord .unsigned layout.byteOrder vector source) := by
  refine ⟨fun length => ⟨?_, fun h => ?_⟩, fun bytes hlength => ?_⟩
  · rw [writeLength_eq_ok_iff, LengthWord.greatest_eq]
  · have hword : layout.lengthWord.encode? length = some (UInt32.ofNat length) :=
      if_pos (writeLength_eq_ok_iff.mp h)
    have hnumber := LengthWord.encode?_eq_some_iff.mp hword
    refine ⟨_, Word.length_bytes _ _, congrArg Prod.fst (writeLength_of_number hnumber before),
      fun source tail hbytes => readLengthWord_complete vector hnumber hbytes⟩
  · -- Four bytes are one word, and what it means decides between a count and a refusal.
    have hone : bytes.length = 4 * 1 := hlength
    obtain ⟨words, hwords, rfl⟩ := Word.exists_writeAll layout.byteOrder hone
    obtain ⟨word, rfl⟩ := List.length_eq_one_iff.mp hwords
    rw [Word.writeAll_cons, Word.writeAll_nil, List.append_nil]
    refine ⟨word, rfl, fun source tail hbytes => ⟨?_, fun hlow => ?_⟩⟩
    · obtain ⟨rest, hpassed, hread⟩ := exists_readLengthWord vector hbytes
      have hread : layout.readLength vector source = _ := hread layout.lengthWord
      split
      · next hnegative =>
        rw [if_pos hnegative] at hread
        exact ⟨_, LengthWord.number_of_msb hnegative.2, rfl, hread⟩
      · next hcounts =>
        rw [if_neg hcounts] at hread
        have hdecode := LengthWord.decode_eq layout.lengthWord word
        rw [if_neg hcounts, LengthWord.decode_eq_ok_iff] at hdecode
        exact ⟨word.toNat, rest, hread, hpassed, writeLength_of_number hdecode before⟩
    · obtain ⟨rest, -, hread⟩ := exists_readLengthWord vector hbytes
      rw [hread .signed, hread .unsigned, hlow]
      rfl

/-- Thirteen angles, and a word that is read as minus three. -/
theorem counts_and_words_turned :
    (turned.writeLength "angle" 13 ⟨#[], none⟩).2 = .ok () ∧
      (∃ bytes rest, bytes.length = 4 ∧
        turned.readLength "angle" (.ofBytes bytes) = .ok (13, rest)) ∧
      turned.readLength "angle" (.ofBytes [0xff, 0xff, 0xff, 0xfd])
        = .error (.invalidLength "angle" (-3)) := by
  obtain ⟨hcount, hword⟩ := counts_and_words turned "angle" #[]
  obtain ⟨hwritten, hread⟩ := hcount 13
  have hwritten : (turned.writeLength "angle" 13 ⟨#[], none⟩).2 = .ok () :=
    hwritten.mpr (by decide)
  refine ⟨hwritten, ?_, ?_⟩
  · obtain ⟨bytes, hlength, -, hread⟩ := hread hwritten
    obtain ⟨rest, hread, -⟩ :=
      hread (.ofBytes bytes) [] (by rw [Source.bytes_ofBytes, List.append_nil])
    exact ⟨bytes, rest, hlength, hread⟩
  · obtain ⟨word, hbytes, hread⟩ := hword [0xff, 0xff, 0xff, 0xfd] rfl
    obtain rfl : word = 0xfffffffd := by
      obtain ⟨a, b, c, d, hfour, rfl⟩ := Word.exists_bytes .big word
      cases hfour.symm.trans hbytes
      decide
    obtain ⟨hread, -⟩ := hread (.ofBytes [0xff, 0xff, 0xff, 0xfd]) []
      (by rw [Source.bytes_ofBytes, List.append_nil])
    rw [if_pos (by decide)] at hread
    obtain ⟨number, -, rfl, hread⟩ := hread
    exact hread

end Layout

end GridLookup
