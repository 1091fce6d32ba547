import GridLookup.Proofs.Yaml.Gaps

namespace GridLookup.Yaml

/-!
# Texts without quotes

* `Words` — words with spaces between them.
* `words_of_allowsPlain` — what can stand without quotes is made of words.
* `readPlain_key`, `readPlain_words` — words are read to the end of their key or line.
-/

/-! ### Neighbours -/

section Neighbours

variable {first second : Char → Bool} {a b : Char} {front text : List Char}

/-- Neighbours stand at the front or behind the first character. -/
theorem hasNeighbours_cons_cons : hasNeighbours first second (a :: b :: text)
    = (first a && second b || hasNeighbours first second (b :: text)) := rfl

/-- A part at the end has no neighbours that the text has not. -/
theorem hasNeighbours_of_append (h : hasNeighbours first second (front ++ text) = false) :
    hasNeighbours first second text = false := by
  induction front with
  | nil => exact h
  | cons a front ih =>
    refine ih ?_
    cases hrest : front ++ text with
    | nil => rfl
    | cons b rest =>
      rw [List.cons_append, hrest, hasNeighbours_cons_cons, Bool.or_eq_false_iff] at h
      exact h.2

/-- Neighbours at a seam. -/
theorem hasNeighbours_seam (h : hasNeighbours first second (front ++ text) = false)
    (hlast : front.getLast? = some a) (ha : first a = true) :
    ∀ b ∈ text.head?, second b = false := by
  obtain ⟨before, rfl⟩ := List.getLast?_eq_some_iff.mp hlast
  rw [List.append_assoc] at h
  have hseam := hasNeighbours_of_append h
  cases text with
  | nil => nofun
  | cons b text =>
    rw [List.singleton_append, hasNeighbours_cons_cons, Bool.or_eq_false_iff, ha,
      Bool.true_and] at hseam
    rintro _ ⟨⟩
    exact hseam.1

end Neighbours

/-! ### Words -/

/-- A word, which a comment would not be taken for. -/
structure IsWord (word : List Char) : Prop where
  /-- There are characters. -/
  nonempty : word ≠ []
  /-- None of them is a gap. -/
  solid : ∀ c ∈ word, isGap c = false
  /-- They do not begin a comment. -/
  mark : word.head? ≠ some '#'

/-- Words with spaces between them. -/
inductive Words : List Char → Prop where
  /-- The last word. -/
  | last {word : List Char} (first : IsWord word) : Words word
  /-- A word, spaces, and more words. -/
  | more {word rest : List Char} {count : Nat} (first : IsWord word) (others : Words rest) :
      Words (word ++ (indentation (count + 1) ++ rest))

/-- Words begin with a character that is no gap and no mark of a comment. -/
theorem Words.head {text : List Char} (h : Words text) :
    ∃ c rest, text = c :: rest ∧ isGap c = false ∧ c ≠ '#' := by
  have hword {word : List Char} (h : IsWord word) (more : List Char) :
      ∃ c rest, word ++ more = c :: rest ∧ isGap c = false ∧ c ≠ '#' := by
    obtain ⟨c, rest, rfl⟩ := List.exists_cons_of_ne_nil h.nonempty
    refine ⟨c, rest ++ more, rfl, h.solid c List.mem_cons_self, ?_⟩
    rintro rfl
    exact h.mark rfl
  cases h with
  | last first =>
    have h := hword first []
    rwa [List.append_nil] at h
  | more first others => exact hword first _

/-- Spaces at the front of a text, and what follows them. -/
theorem exists_indentation (text : List Char) :
    ∃ count rest, text = indentation count ++ rest ∧ rest.head? ≠ some ' ' := by
  induction text with
  | nil => exact ⟨0, [], rfl, nofun⟩
  | cons c text ih =>
    by_cases hc : c = ' '
    · obtain ⟨count, rest, rfl, hrest⟩ := ih
      exact ⟨count + 1, rest, by rw [hc]; rfl, hrest⟩
    · exact ⟨0, c :: text, rfl, by simpa using hc⟩

/-- Indentation ends with a space. -/
theorem getLast?_indentation (count : Nat) : (indentation (count + 1)).getLast? = some ' ' := by
  rw [indentation, List.replicate_succ', List.getLast?_concat]

/-- A text with spaces only inside of it, and without a comment. -/
structure IsSpaced (text : List Char) : Prop where
  /-- There are characters. -/
  nonempty : text ≠ []
  /-- All gaps are spaces. -/
  spaces : ∀ c ∈ text, isGap c = true → c = ' '
  /-- There is no space in front. -/
  head : text.head? ≠ some ' '
  /-- There is none at the end. -/
  last : text.getLast? ≠ some ' '
  /-- The text does not begin a comment. -/
  mark : text.head? ≠ some '#'
  /-- There is no comment inside. -/
  marks : hasCommentMark text = false

namespace IsSpaced

variable {word others : List Char} {count : Nat}

/-- The front of such a text up to the first space is a word. -/
theorem isWord (h : IsSpaced (word ++ others)) (hword : ∀ c ∈ word, c ≠ ' ')
    (hothers : ∀ c ∈ others.head?, c = ' ') : IsWord word := by
  have hsome : word ≠ [] := by
    rintro rfl
    obtain ⟨c, others, rfl⟩ := List.exists_cons_of_ne_nil h.nonempty
    exact h.head (congrArg some (hothers c rfl))
  refine ⟨hsome, fun c hc => ?_, ?_⟩
  · by_contra hgap
    exact hword c hc (h.spaces c (List.mem_append_left _ hc) (by simpa using hgap))
  · have hmark := h.mark
    rwa [List.head?_append, List.head?_eq_some_head hsome, Option.some_or,
      ← List.head?_eq_some_head hsome] at hmark

/-- What follows spaces in such a text is such a text. -/
theorem behind (h : IsSpaced (word ++ (indentation (count + 1) ++ others)))
    (hothers : others.head? ≠ some ' ') : IsSpaced others := by
  have hlast := h.last
  have hmarks := h.marks
  rw [← List.append_assoc] at hlast hmarks
  refine ⟨?_, fun c hc => h.spaces c (by simp [hc]), hothers, fun hspace => ?_, fun hmark => ?_,
    hasNeighbours_of_append hmarks⟩
  · rintro rfl
    rw [List.append_nil, List.getLast?_append, getLast?_indentation] at hlast
    exact hlast rfl
  · rw [List.getLast?_append, hspace] at hlast
    exact hlast rfl
  · have hseam : (word ++ indentation (count + 1)).getLast? = some ' ' := by
      rw [List.getLast?_append, getLast?_indentation]
      rfl
    simpa using hasNeighbours_seam hmarks hseam rfl _ hmark

end IsSpaced

/-- Such a text is made of words. -/
theorem words_of_spaced {text : List Char} (h : IsSpaced text) : Words text := by
  -- Each step takes off a word and the whole run of spaces behind it, so by induction on the
  -- length.
  induction hlength : text.length using Nat.strong_induction_on generalizing text with
  | _ length ih =>
    obtain ⟨word, others, rfl, hword, hothers⟩ := exists_front (fun c => c != ' ') text
    have hfirst : IsWord word := h.isWord (fun c hc => by simpa using hword c hc)
      (fun c hc => by simpa using hothers c hc)
    obtain ⟨count, rest, rfl, hrest⟩ := exists_indentation others
    -- No space follows the last word, and nothing else can stop a word.
    cases count with
    | zero =>
      have hnone : rest = [] := by
        cases rest with
        | nil => rfl
        | cons c rest => exact absurd (congrArg some (by simpa using hothers c rfl)) hrest
      rw [hnone]
      exact .last (by simpa [indentation] using hfirst)
    | succ count =>
      refine .more hfirst (ih rest.length ?_ (h.behind hrest) rfl)
      rw [← hlength, List.length_append, List.length_append, length_indentation]
      omega

/-- What can stand without quotes in one line is made of words. -/
theorem words_of_allowsPlain {text : List Char} (h : allowsPlain text = true) (hsome : text ≠ []) :
    Words text ∧ hasKeyEnd text = false := by
  simp only [allowsPlain, allowsSingle, needsNoEscape, Bool.and_eq_true, Bool.not_eq_true',
    bne_iff_ne] at h
  obtain ⟨⟨⟨⟨⟨⟨⟨⟨hprintable, -⟩, -⟩, hbreaks⟩, hhead⟩, hlast⟩, hfront⟩, hkey⟩, hmarks⟩ := h
  refine ⟨words_of_spaced ⟨hsome, fun c hc hgap => ?_, hhead, hlast, ?_, hmarks⟩, hkey⟩
  · have hbreak : isBreak c = false := by
      by_contra hbreak
      have hany : text.any isBreak = true := List.any_eq_true.mpr ⟨c, hc, by simpa using hbreak⟩
      rw [hany] at hbreaks
      cases hbreaks
    rw [isGap, hbreak, Bool.or_false, isSpace, Bool.or_eq_true, beq_iff_eq, beq_iff_eq] at hgap
    rcases hgap with rfl | rfl
    · rfl
    · -- A tab needs an escape.
      have htab := List.all_eq_true.mp hprintable _ hc
      revert htab
      decide
  · intro hmark
    obtain ⟨c, rest, rfl⟩ := List.exists_cons_of_ne_nil hsome
    obtain rfl : c = '#' := Option.some.inj hmark
    have hindicator : '#' ∈ frontIndicators := by decide +kernel
    simp [beginsWithIndicator, hindicator] at hfront

/-! ### Reading words -/

section Reading

variable {front word text rest after : List Char} {column? : Option Nat} {gap : Gap}
  {indent fuel index line column : Nat}

/-- A part at the end does not end a key unless the text does. -/
theorem hasKeyEnd_of_append (h : hasKeyEnd (front ++ rest) = false) : hasKeyEnd rest = false := by
  induction front with
  | nil => exact h
  | cons c front ih =>
    rw [List.cons_append, hasKeyEnd, Bool.or_eq_false_iff] at h
    exact ih h.2

/-- Where no gap is ahead of a text, none is ahead of its front. -/
theorem gapAhead_append (h : gapAhead (front ++ rest) = false) (hrest : gapAhead rest = true) :
    gapAhead front = false := by
  cases front with
  | nil =>
    rw [List.nil_append, hrest] at h
    cases h
  | cons c front => exact h

/-- A part at the front does not end a key unless the text does. -/
theorem hasKeyEnd_front (h : hasKeyEnd (front ++ rest) = false) (hrest : gapAhead rest = true) :
    hasKeyEnd front = false := by
  induction front with
  | nil => rfl
  | cons c front ih =>
    rw [List.cons_append, hasKeyEnd, Bool.or_eq_false_iff, Bool.and_eq_false_imp] at h
    rw [hasKeyEnd, Bool.or_eq_false_iff, Bool.and_eq_false_imp]
    exact ⟨fun hc => gapAhead_append (h.1 hc) hrest, ih h.2⟩

/-- No word begins with a gap. -/
theorem plainWordLength?_gap (hrest : gapAhead rest = true) :
    plainWordLength? false rest = some 0 := by
  cases rest with
  | nil => rfl
  | cons c rest =>
    have hgap : isGap c = true := hrest
    simp [plainWordLength?, hgap]

/-- A word ends where no word begins. -/
theorem plainWordLength?_append (hword : ∀ c ∈ word, isGap c = false)
    (hkey : hasKeyEnd word = false) (hrest : plainWordLength? false rest = some 0) :
    plainWordLength? false (word ++ rest) = some word.length := by
  induction word with
  | nil => exact hrest
  | cons c word ih =>
    rw [hasKeyEnd, Bool.or_eq_false_iff, Bool.and_eq_false_imp] at hkey
    rw [List.forall_mem_cons] at hword
    -- A colon inside of the word is followed by another of its characters, hence by no gap. One at
    -- its end would be the end of a key.
    have hcolon : (c == ':' && gapAhead (word ++ rest)) = false := by
      rw [Bool.and_eq_false_imp]
      intro hc
      have hword := hkey.1 hc
      cases word with
      | nil => cases hword
      | cons b word => exact hword
    rw [List.cons_append, plainWordLength?]
    simp [hword.1, hcolon, ih hword.2 hkey.2]

/-- Reading a word, and the gap behind it up to where the next word or line begins. -/
theorem readPlain_word {next : Gap} {cursor : Cursor} (hword : IsWord word)
    (hkey : hasKeyEnd word = false) (hrest : plainWordLength? false rest = some 0)
    (hmark : Cursor.atDocumentMark ⟨word ++ rest, index, line, column⟩ = false)
    (hgap : readGap indent (word ++ rest).length .none
      ⟨rest, index + word.length, line, column + word.length⟩ = .ok (next, cursor)) :
    readPlain false indent (fuel + 1) front gap ⟨word ++ rest, index, line, column⟩
      = if cursor.column < indent then .ok ⟨front ++ gap.text ++ word, cursor, next.folded⟩
        else readPlain false indent fuel (front ++ gap.text ++ word) next cursor := by
  obtain ⟨c, more, rfl⟩ := List.exists_cons_of_ne_nil hword.nonempty
  have hcomment : Cursor.sees ⟨c :: more ++ rest, index, line, column⟩ '#' = false := by
    simpa [Cursor.sees, Cursor.peek?] using hword.mark
  have hadvance : Cursor.advance ⟨c :: more ++ rest, index, line, column⟩ (c :: more).length
      = ⟨rest, index + (c :: more).length, line, column + (c :: more).length⟩ := by
    rw [Cursor.advance, List.drop_left]
  have htake : (c :: more ++ rest).take (more.length + 1) = c :: more := List.take_left' rfl
  rw [readPlain, hmark, hcomment, plainWordLength?_append hword.solid hkey hrest]
  rw [List.length_cons] at hadvance hgap
  simp only [Bool.or_self, Bool.false_eq_true, if_false, List.length_cons, hadvance, hgap, htake,
    Bool.not_false, Bool.and_true, decide_eq_true_eq]
  rfl

/-- A text ends where no word begins. -/
theorem readPlain_stop {cursor : Cursor} (h : plainWordLength? false cursor.rest = some 0) :
    readPlain false indent fuel text gap cursor = .ok ⟨text, cursor, gap.folded⟩ := by
  cases fuel with
  | zero => rfl
  | succ fuel =>
    rw [readPlain, h]
    split
    · rfl
    · rfl

/-- A word in front of a colon. -/
theorem readPlain_key (hword : IsWord word) (hkey : hasKeyEnd word = false)
    (hrest : gapAhead rest = true)
    (hmark : Cursor.atDocumentMark ⟨word ++ ':' :: rest, index, line, column⟩ = false)
    (hcolumn : indent ≤ column + word.length) :
    readPlain false indent (fuel + 1) front gap ⟨word ++ ':' :: rest, index, line, column⟩
      = .ok ⟨front ++ gap.text ++ word,
        ⟨':' :: rest, index + word.length, line, column + word.length⟩, false⟩ := by
  have hlength : plainWordLength? false (':' :: rest) = some 0 := by
    simp [plainWordLength?, isGap, isSpace, isBreak, hrest]
  have hgap : readGap indent (word ++ ':' :: rest).length .none
      ⟨':' :: rest, index + word.length, line, column + word.length⟩ = .ok (.none, _) :=
    readGap_stop (by rintro _ ⟨⟩; rfl)
  rw [readPlain_word hword hkey hlength hmark hgap, if_neg (Nat.not_lt.mpr hcolumn),
    readPlain_stop hlength]
  rfl

/-- **Texts without quotes.**  Words are read as they are, up to where the next line begins, if this
    line does not belong to the same text. -/
theorem readPlain_words (h : Words text) (hkey : hasKeyEnd text = false)
    (hland : Lands after column? rest)
    (hmark : Cursor.atDocumentMark ⟨text ++ '\n' :: after, index, line, column⟩ = false)
    (hcolumn : indent ≤ column) (hend : column?.getD 0 < indent ∨ after = [])
    (hfuel : text.length < fuel) :
    ∃ index', readPlain false indent fuel front gap ⟨text ++ '\n' :: after, index, line, column⟩
      = .ok ⟨front ++ gap.text ++ text, ⟨rest, index', line + 1, column?.getD 0⟩, true⟩ := by
  induction h generalizing fuel front gap index column with
  | @last word first =>
    obtain ⟨fuel, rfl⟩ : ∃ less, fuel = less + 1 := ⟨fuel - 1, by omega⟩
    have hlength : after.length < (word ++ '\n' :: after).length := by
      rw [List.length_append, List.length_cons]
      omega
    obtain ⟨next, hfolded, hgap⟩ := readGap_line hland hlength
    rw [readPlain_word first hkey (plainWordLength?_gap rfl) hmark hgap]
    -- The reader stops at a line that is indented less, and at the end of the input.
    rcases hend with hless | rfl
    · rw [if_pos hless, hfolded]
      exact ⟨_, rfl⟩
    · rw [hland.eq_nil, readPlain_stop (plainWordLength?_gap rfl), ite_self, hfolded]
      exact ⟨_, rfl⟩
  | @more word others count first hothers ih =>
    obtain ⟨fuel, rfl⟩ : ∃ less, fuel = less + 1 := ⟨fuel - 1, by omega⟩
    obtain ⟨c, others, rfl, hgap, -⟩ := hothers.head
    rw [List.length_append, List.length_append, length_indentation] at hfuel
    simp only [List.append_assoc] at hmark hkey ⊢
    have hspaces : gapAhead (indentation (count + 1) ++ (c :: others)) = true := rfl
    have hnext : readGap indent
        (word ++ (indentation (count + 1) ++ (c :: others ++ '\n' :: after))).length .none
        ⟨indentation (count + 1) ++ (c :: others ++ '\n' :: after), index + word.length, line,
          column + word.length⟩ = .ok (Gap.none.widen (count + 1), _) :=
      readGap_indentation (fun b hb => by cases hb; exact hgap)
        (by simp only [List.length_append, length_indentation]; omega)
    -- A mark of a document stands in the first column, and this word does not.
    have hlater : Cursor.atDocumentMark ⟨c :: others ++ '\n' :: after,
        index + word.length + (count + 1), line, column + word.length + (count + 1)⟩ = false := by
      simp [Cursor.atDocumentMark]
    have hwiden : (Gap.none.widen (count + 1)).text = indentation (count + 1) := rfl
    have hright : ¬ column + word.length + (count + 1) < indent := by omega
    have happend : front ++ (gap.text ++ (word ++ (indentation (count + 1) ++ c :: others)))
        = front ++ gap.text ++ word ++ (Gap.none.widen (count + 1)).text ++ c :: others := by
      simp only [hwiden, List.append_assoc]
    -- The gap is kept by the reader, and written only in front of the next word.
    rw [readPlain_word first (hasKeyEnd_front hkey hspaces) (plainWordLength?_gap rfl) hmark
      hnext, if_neg hright, happend]
    exact ih (hasKeyEnd_of_append (hasKeyEnd_of_append hkey)) hlater (by omega) (by omega)

end Reading

end GridLookup.Yaml
