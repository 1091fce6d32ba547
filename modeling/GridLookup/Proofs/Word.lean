import GridLookup.Word.Length
import GridLookup.Word.Single

namespace GridLookup

/-!
# Words and their bytes

A word and its four bytes determine each other in either byte order, and so do a run of words
and a run of four times as many bytes.

* `Word.writeAll` — the bytes of a run of words.
* `Word.toList_appendAll_writeAll`, `Word.exists_writeAll` — reading words is the inverse of it.
* `LengthWord.decode_eq_ok_iff`, `LengthWord.decode_of_encode?` — what a length word counts.
-/

namespace Word

/-! ### One word -/

/-- The first of four bytes is worth least. -/
theorem toNat_ofLittle (a b c d : UInt8) :
    (ofLittle a b c d).toNat
      = a.toNat + 256 * b.toNat + 65536 * c.toNat + 16777216 * d.toNat := by
  have ha := a.toNat_lt
  have hb := b.toNat_lt
  have hc := c.toNat_lt
  have hd := d.toNat_lt
  simp only [ofLittle, UInt32.toNat_ofNat', Nat.shiftLeft_eq]
  omega

/-- A word is made of its four bytes, the least first. -/
theorem exists_littleBytes (word : Word) :
    ∃ a b c d : UInt8, littleBytes word = [a, b, c, d] ∧ ofLittle a b c d = word := by
  refine ⟨_, _, _, _, rfl, ?_⟩
  have h := word.toNat_lt
  apply UInt32.toNat_inj.mp
  rw [toNat_ofLittle]
  simp only [UInt8.toNat_ofNat', Nat.shiftRight_eq_div_pow]
  omega

/-- Four bytes, the least first, are those of the word they make. -/
theorem littleBytes_ofLittle (a b c d : UInt8) : littleBytes (ofLittle a b c d) = [a, b, c, d] := by
  have ha := a.toNat_lt
  have hb := b.toNat_lt
  have hc := c.toNat_lt
  have hd := d.toNat_lt
  simp only [littleBytes, toNat_ofLittle, Nat.shiftRight_eq_div_pow, List.cons.injEq, and_true]
  refine ⟨?_, ?_, ?_, ?_⟩ <;> apply UInt8.toNat_inj.mp <;> rw [UInt8.toNat_ofNat'] <;> omega

/-- A word is read back from its four bytes. -/
theorem exists_bytes (order : ByteOrder) (word : Word) :
    ∃ a b c d : UInt8, bytes order word = [a, b, c, d] ∧ ofBytes order a b c d = word := by
  obtain ⟨a, b, c, d, hbytes, hword⟩ := exists_littleBytes word
  cases order with
  | little => exact ⟨a, b, c, d, hbytes, hword⟩
  | big => exact ⟨d, c, b, a, by simp [bytes, hbytes], hword⟩

/-- Four bytes are those of the word they make. -/
theorem bytes_ofBytes (order : ByteOrder) (a b c d : UInt8) :
    bytes order (ofBytes order a b c d) = [a, b, c, d] := by
  cases order with
  | little => exact littleBytes_ofLittle a b c d
  | big =>
    show (littleBytes (ofLittle d c b a)).reverse = _
    rw [littleBytes_ofLittle]
    rfl

/-- A word has four bytes. -/
@[simp] theorem length_bytes (order : ByteOrder) (word : Word) :
    (bytes order word).length = 4 := by
  cases order <;> rfl

/-! ### Runs of words -/

/-- The bytes of a run of words. -/
def writeAll (order : ByteOrder) (words : List Word) : List UInt8 := words.flatMap (bytes order)

@[simp] theorem writeAll_nil (order : ByteOrder) : writeAll order [] = [] := rfl

/-- The bytes of the first word come first. -/
@[simp] theorem writeAll_cons (order : ByteOrder) (word : Word) (words : List Word) :
    writeAll order (word :: words) = bytes order word ++ writeAll order words := rfl

/-- The bytes of two runs stand in a row. -/
theorem writeAll_append (order : ByteOrder) (words others : List Word) :
    writeAll order (words ++ others) = writeAll order words ++ writeAll order others :=
  List.flatMap_append

/-- A run has four bytes for every word. -/
@[simp] theorem length_writeAll (order : ByteOrder) (words : List Word) :
    (writeAll order words).length = 4 * words.length := by
  induction words with
  | nil => rfl
  | cons word words ih =>
    rw [writeAll_cons, List.length_append, length_bytes, ih, List.length_cons]
    omega

/-- A run of words is read back from its bytes. -/
theorem toList_appendAll_writeAll (order : ByteOrder) (words : List Word) (before : Array Word) :
    (appendAll order (writeAll order words) before).toList = before.toList ++ words := by
  induction words generalizing before with
  | nil => simp [appendAll]
  | cons word words ih =>
    obtain ⟨a, b, c, d, hbytes, hword⟩ := exists_bytes order word
    rw [writeAll_cons, hbytes]
    show (appendAll order (writeAll order words) (before.push (ofBytes order a b c d))).toList = _
    rw [ih, hword, Array.toList_push, List.append_assoc]
    rfl

/-- Every run of bytes whose length is a multiple of four holds words. -/
theorem exists_writeAll (order : ByteOrder) {count : Nat} {run : List UInt8}
    (h : run.length = 4 * count) :
    ∃ words : List Word, words.length = count ∧ writeAll order words = run := by
  induction count generalizing run with
  | zero => exact ⟨[], rfl, (List.length_eq_zero_iff.mp h).symm⟩
  | succ count ih =>
    -- Four bytes at a time. Fewer of them cannot be left.
    match run with
    | a :: b :: c :: d :: rest =>
      have hrest : rest.length = 4 * count := by
        simp only [List.length_cons] at h
        omega
      obtain ⟨words, hlength, hwords⟩ := ih hrest
      refine ⟨ofBytes order a b c d :: words, by simp [hlength], ?_⟩
      rw [writeAll_cons, bytes_ofBytes, hwords]
      rfl
    | [] | [_] | [_, _] | [_, _, _] =>
      simp only [List.length_cons, List.length_nil] at h
      omega

end Word

/-! ### Length words -/

namespace LengthWord

/-- A length word means a count exactly if it stands for that number. -/
theorem decode_eq_ok_iff (kind : LengthWord) (word : Word) (count : Nat) :
    kind.decode word = .ok count ↔ kind.number word = count := by
  unfold decode
  by_cases h : kind.number word < 0
  · rw [if_pos h]
    constructor
    · intro h'
      cases h'
    · intro h'
      omega
  · rw [if_neg h, Except.ok.injEq]
    omega

/-- A count is read back from its word. -/
theorem decode_of_encode? {kind : LengthWord} {count : Nat} {word : Word}
    (h : kind.encode? count = some word) : kind.decode word = .ok count := by
  unfold encode? at h
  split at h
  · next hle =>
    rw [Option.some.injEq] at h
    subst h
    rw [decode_eq_ok_iff]
    cases kind with
    | signed =>
      simp only [greatest, Nat.shiftLeft_eq] at hle
      simp only [number, UInt32.toNat_ofNat', Nat.shiftLeft_eq]
      split <;> omega
    | unsigned =>
      simp only [greatest, Nat.shiftLeft_eq] at hle
      simp only [number, UInt32.toNat_ofNat']
      omega
  · cases h

/-- A length word counts so few values that their size fits a 64-bit word. -/
theorem size_lt {kind : LengthWord} {word : Word} {count : Nat} (h : kind.number word = count) :
    4 * count < 1 <<< 64 := by
  have hword := word.toNat_lt
  cases kind with
  | signed =>
    simp only [number, Nat.shiftLeft_eq] at h ⊢
    split at h <;> omega
  | unsigned =>
    simp only [number, Nat.shiftLeft_eq] at h ⊢
    omega

end LengthWord

end GridLookup
