import GridLookup.Proofs.Exactness

namespace GridLookup

/-!
# Vectors in portions

A vector is read in portions of a bounded size, so that a corrupt length claims no memory.  The
portions leave no trace: the words are those of one pass over as many bytes, and if there are fewer
bytes than that, the error is that of the one read that comes too late.

* `readPortions_short` — every portion passes on the error of a read beyond the last byte.
* `Word.bytes_in_writeAll` — where the bytes of a word stand.
* `readVector_one_pass` — whole vectors.
* `not_all_short_truncated` — a source may also fail before its bytes are used up.
-/

/-! ### Too few bytes -/

/-- Whatever portions have been read, the first one that is too short ends the reading. -/
theorem readPortions_short (order : ByteOrder) (vector : String) {remaining : Nat}
    (before : Array Word) {source : Source} (h : source.bytes.length < 4 * remaining) :
    readPortions order vector remaining before source
      = .error (source.ending.shortfall vector) := by
  -- Portions are taken off until one is too short, and the words missing in all decrease.
  induction remaining using Nat.strong_induction_on generalizing before source with
  | _ remaining ih =>
    have hpositive : 0 < wordsAtOnce := by decide
    rw [readPortions, dif_pos (by omega)]
    by_cases hportion : 4 * min remaining wordsAtOnce ≤ source.bytes.length
    · -- As many bytes as words are missing are missing behind the portion.
      obtain ⟨portion, tail, hbytes, hlength⟩ : ∃ portion tail, source.bytes = portion ++ tail ∧
          portion.length = 4 * min remaining wordsAtOnce :=
        ⟨source.bytes.take _, source.bytes.drop _, (List.take_append_drop _ _).symm,
          List.length_take_of_le hportion⟩
      obtain ⟨rest, hread, hpassed⟩ := readBytes_complete vector hlength hbytes
      have hrest : rest.bytes.length < 4 * (remaining - min remaining wordsAtOnce) := by
        rw [hbytes, List.length_append, hlength] at h
        rw [hpassed.rest_eq hbytes]
        omega
      rw [Reading.bind_of_ok hread, ← hpassed.ending_eq]
      exact ih _ (by omega) _ hrest
    · exact Reading.bind_of_error (readBytes_of_short vector (by omega))

/-! ### One pass -/

namespace Word

/-- The bytes of a word stand four times as far from the front as the word does. -/
theorem bytes_in_writeAll (order : ByteOrder) {words : List Word} (tail : List UInt8) {k : Nat}
    {word : Word} (h : words[k]? = some word) :
    ((writeAll order words ++ tail).drop (4 * k)).take 4 = word.bytes order := by
  induction words generalizing k with
  | nil => simp at h
  | cons first words ih =>
    rw [writeAll_cons, List.append_assoc]
    -- The first word has the first four bytes, and the others are found behind them.
    cases k with
    | zero =>
      obtain rfl : first = word := Option.some.inj h
      exact List.take_left' (length_bytes order first)
    | succ k =>
      have hstep : 4 * (k + 1) = (bytes order first).length + 4 * k := by
        rw [length_bytes]
        omega
      rw [hstep, List.drop_append, List.drop_eq_nil_of_le (by omega), List.nil_append,
        Nat.add_sub_cancel_left]
      exact ih h

/-- One pass over the bytes of some words finds these words. -/
theorem readAll_writeAll (order : ByteOrder) (words : List Word) :
    readAll order (writeAll order words) = words.toArray := by
  apply Array.toList_inj.mp
  exact toList_appendAll_writeAll order words #[]

end Word

/-- **Portions leave no trace.**  A vector is read exactly if there are four bytes for each of its
    values.  Its words are those of one pass over these bytes, each in its place, and no more bytes
    are passed.  With fewer bytes a vector fails as one read of all its bytes does: it is truncated
    if the source is complete, and if the source has a failure, that is passed on. -/
theorem readVector_one_pass (order : ByteOrder) (vector : String) (length : Nat)
    (source : Source) :
    (4 * length ≤ source.bytes.length → ∃ words rest,
      readVector order vector length source = .ok (words, rest) ∧
      words = Word.readAll order (source.bytes.take (4 * length)) ∧
      words.size = length ∧
      (∀ k < length, ∃ word, words[k]? = some word ∧
        (source.bytes.drop (4 * k)).take 4 = word.bytes order) ∧
      rest.bytes = source.bytes.drop (4 * length) ∧
      rest.position = source.position + 4 * length ∧
      rest.ending = source.ending) ∧
    (source.bytes.length < 4 * length →
      readVector order vector length source
        = match source.ending with
          | .complete => .error (.truncated vector)
          | .fault reason => .error (.file (.failing reason))) := by
  refine ⟨fun h => ?_, fun h => ?_⟩
  · -- The bytes are those of some words, which are what the reader finds.
    obtain ⟨words, rfl, hwords⟩ := Word.exists_writeAll order (List.length_take_of_le h)
    have hbytes : source.bytes
        = Word.writeAll order words ++ source.bytes.drop (4 * words.length) := by
      rw [hwords, List.take_append_drop]
    obtain ⟨rest, hread, hpassed⟩ := readVector_complete vector hbytes
    refine ⟨words.toArray, rest, hread, ?_, List.size_toArray, fun k hk => ?_,
      hpassed.rest_eq hbytes, ?_, hpassed.ending_eq⟩
    · rw [← hwords, Word.readAll_writeAll]
    · have hword : words[k]? = some words[k] := List.getElem?_eq_getElem hk
      refine ⟨words[k], by rw [List.getElem?_toArray, hword], ?_⟩
      rw [hbytes]
      exact Word.bytes_in_writeAll order _ hword
    · rw [hpassed.position_eq, Word.length_writeAll]
  · have hshort : readVector order vector length source = _ :=
      readPortions_short order vector #[] h
    rw [hshort]
    cases source.ending <;> rfl

/-- One value more than a portion holds, and one byte less than that takes. -/
theorem readVector_one_pass_overlong :
    (∃ words rest, readVector .little "height" 65537 (.ofBytes (List.replicate 262148 0))
        = .ok (words, rest) ∧ words.size = 65537 ∧ rest.position = 262148) ∧
      readVector .little "height" 65537 (.ofBytes (List.replicate 262147 0))
        = .error (.truncated "height") := by
  constructor
  · obtain ⟨hread, -⟩ :=
      readVector_one_pass .little "height" 65537 (.ofBytes (List.replicate 262148 0))
    obtain ⟨words, rest, hread, -, hsize, -, -, hposition, -⟩ :=
      hread (by rw [Source.bytes_ofBytes, List.length_replicate])
    exact ⟨words, rest, hread, hsize, hposition⟩
  · obtain ⟨-, hshort⟩ :=
      readVector_one_pass .little "height" 65537 (.ofBytes (List.replicate 262147 0))
    exact hshort (by rw [Source.bytes_ofBytes, List.length_replicate]; decide)

/-- A source that fails within a vector does not truncate it. -/
theorem not_all_short_truncated : ¬ ∀ (order : ByteOrder) (vector : String) (length : Nat)
    (source : Source), source.bytes.length < 4 * length →
    readVector order vector length source = .error (.truncated vector) := by
  intro h
  have hshort : (Source.failingAfter [0, 0, 128, 63, 0, 0] "boom").bytes.length < 4 * 2 := by decide
  have hfails : readVector .little "height" 2 (.failingAfter [0, 0, 128, 63, 0, 0] "boom")
      = .error (.file (.failing "boom")) := readPortions_short .little "height" #[] hshort
  cases hfails.symm.trans (h _ _ _ _ hshort)

end GridLookup
