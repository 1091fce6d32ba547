import GridLookup.Proofs.Yaml.PlainText
import Mathlib.Tactic.Ring

namespace GridLookup.Yaml

/-!
# Texts in quotes

* `Spells` — the characters that stand for one in quotes.
* `Quoted` — what stands in quotes for a text: words with gaps between them.
* `readQuoted_of_quoted` — what stands in quotes for a text is read as this text.
* `quoted_double`, `quoted_single` — what is written stands for its text.
-/

/-! ### What stands in quotes -/

/-- Some characters that stand for one character, which is no gap. -/
structure Spells (single : Bool) (piece : List Char) (c : Char) : Prop where
  /-- They begin with no gap. -/
  visible : ∃ b rest, piece = b :: rest ∧ isGap b = false
  /-- They are read as this character. -/
  reads : ∀ fuel word rest index line column,
    readQuotedWord single (fuel + 1) word ⟨piece ++ rest, index, line, column⟩
      = readQuotedWord single fuel (c :: word)
        ⟨rest, index + piece.length, line, column + piece.length⟩

/-- The characters of a word. -/
inductive Pieces (single : Bool) : List Char → List Char → Prop where
  /-- No character. -/
  | nil : Pieces single [] []
  /-- A character and more of them. -/
  | cons {piece body word : List Char} {c : Char} (first : Spells single piece c)
      (rest : Pieces single body word) : Pieces single (piece ++ body) (c :: word)

/-- White space that is read as a text. -/
structure ReadsGap (white text : List Char) : Prop where
  /-- It is white space. -/
  gap : ∃ b rest, white = b :: rest ∧ isGap b = true
  /-- It is read up to a character that is none, and that does not begin a line. -/
  reads : ∀ fuel rest index line column, white.length ≤ fuel →
    (∀ c ∈ rest.head?, isGap c = false) → 0 < column →
      ∃ gap index' line' column', readGap 0 fuel .none ⟨white ++ rest, index, line, column⟩
        = .ok (gap, ⟨rest, index', line', column'⟩) ∧ gap.text = text ∧ line ≤ line' ∧ 0 < column'

/-- What stands in quotes for a text: words with gaps between them, and maybe at the ends. -/
inductive Quoted (single : Bool) : List Char → List Char → Prop where
  /-- The last word. -/
  | last {body word : List Char} (first : Pieces single body word) : Quoted single body word
  /-- A word, a gap, and what follows. -/
  | more {body word white spaces rest text : List Char} (first : Pieces single body word)
      (gap : ReadsGap white spaces) (visible : ∀ c ∈ rest.head?, isGap c = false)
      (others : Quoted single rest text) :
      Quoted single (body ++ (white ++ rest)) (word ++ (spaces ++ text))

/-- The quote of either kind. -/
def quote (single : Bool) : Char := if single then '\'' else '"'

variable {single : Bool} {body word text rest more : List Char} {fuel index line column : Nat}

/-- Where a word ends: at a gap or at the closing quote. -/
theorem readQuotedWord_stop {c : Char} {before : List Char}
    (hc : isGap c = true ∨ c = quote single ∧ more.head? ≠ some '\'') :
    readQuotedWord single fuel before ⟨c :: more, index, line, column⟩
      = .ok ⟨before.reverse, ⟨c :: more, index, line, column⟩, false⟩ := by
  cases fuel with
  | zero => rfl
  | succ fuel =>
    rcases hc with hc | ⟨rfl, hmore⟩
    · simp [readQuotedWord, hc]
    · cases single
      · rfl
      · have hnot : (more.head? == some '\'') = false := by simpa using hmore
        simp [readQuotedWord, quote, isGap, isSpace, isBreak, hnot]

/-- A word is read up to where it ends. -/
theorem readQuotedWord_pieces (h : Pieces single body word) {c : Char} {before : List Char}
    (hc : isGap c = true ∨ c = quote single ∧ more.head? ≠ some '\'')
    (hfuel : body.length ≤ fuel) :
    ∃ index', readQuotedWord single fuel before ⟨body ++ c :: more, index, line, column⟩
      = .ok ⟨before.reverse ++ word, ⟨c :: more, index', line, column + body.length⟩, false⟩ := by
  -- The characters read so far stand in `before`, in reverse, so the statement is about any of
  -- them.
  induction h generalizing fuel before index column with
  | nil =>
    rw [List.append_nil]
    exact ⟨index, readQuotedWord_stop hc⟩
  | @cons piece body word b first _ ih =>
    obtain ⟨front, others, hpiece, -⟩ := first.visible
    have hlength : 0 < piece.length := by simp [hpiece]
    rw [List.length_append] at hfuel
    obtain ⟨fuel, rfl⟩ : ∃ less, fuel = less + 1 := ⟨fuel - 1, by omega⟩
    obtain ⟨index', hread⟩ : ∃ index', readQuotedWord single fuel (b :: before)
        ⟨body ++ c :: more, index + piece.length, line, column + piece.length⟩
          = .ok ⟨(b :: before).reverse ++ word, ⟨c :: more, index', line, _⟩, false⟩ :=
      ih (by omega)
    refine ⟨index', ?_⟩
    rw [List.append_assoc, first.reads, hread]
    simp [Nat.add_assoc]

/-- The marks of documents stand in the first column only. -/
theorem atDocumentMark_of_pos (h : 0 < column) :
    Cursor.atDocumentMark ⟨rest, index, line, column⟩ = false := by
  have hne : (column == 0) = false := by simpa using h.ne'
  simp [Cursor.atDocumentMark, hne]

section Loop

variable {start : Nat} {front : List Char} {cursor : Cursor} {read : ReadText}

/-- The last word of a text in quotes. -/
theorem readQuoted_last (hmark : cursor.atDocumentMark = false) (hsome : cursor.rest ≠ [])
    (hread : readQuotedWord single cursor.rest.length [] cursor = .ok read)
    (hquote : read.cursor.sees (quote single) = true) :
    readQuoted single start (fuel + 1) front cursor
      = .ok ⟨front ++ read.text, read.cursor.advance 1, false⟩ := by
  have hnone : cursor.rest.isEmpty = false := by simpa using hsome
  rw [readQuoted, hmark, hnone]
  simp only [Bool.or_self, Bool.false_eq_true, if_false, hread]
  exact if_pos hquote

/-- A word of a text in quotes and the gap behind it. -/
theorem readQuoted_more {gap : Gap} {next : Cursor} (hmark : cursor.atDocumentMark = false)
    (hsome : cursor.rest ≠ [])
    (hread : readQuotedWord single cursor.rest.length [] cursor = .ok read)
    (hquote : read.cursor.sees (quote single) = false) (hfolded : read.folded = false)
    (hgap : readGap 0 read.cursor.rest.length .none read.cursor = .ok (gap, next)) :
    readQuoted single start (fuel + 1) front cursor
      = readQuoted single start fuel (front ++ read.text ++ gap.text) next := by
  have hnone : cursor.rest.isEmpty = false := by simpa using hsome
  rw [readQuoted, hmark, hnone]
  simp only [Bool.or_self, Bool.false_eq_true, if_false, hread]
  refine (if_neg (by rw [quote] at hquote; rw [hquote]; exact Bool.false_ne_true)).trans ?_
  rw [hfolded]
  simp only [Bool.false_eq_true, if_false, hgap]
  rfl

end Loop

/-- A quote is no gap. -/
theorem isGap_quote : isGap (quote single) = false := by cases single <;> rfl

/-- A word of a text in quotes and the gap behind it are read as the text that they stand for. -/
theorem readQuoted_word {white spaces front : List Char} {start : Nat}
    (first : Pieces single body word) (hgap : ReadsGap white spaces)
    (hrest : ∀ c ∈ rest.head?, isGap c = false) (hcolumn : 0 < column) :
    ∃ index' line' column', line ≤ line' ∧ 0 < column' ∧
      readQuoted single start (fuel + 1) front ⟨body ++ (white ++ rest), index, line, column⟩
        = readQuoted single start fuel (front ++ (word ++ spaces))
          ⟨rest, index', line', column'⟩ := by
  obtain ⟨b, others, rfl, hb⟩ := hgap.gap
  obtain ⟨index₁, hread⟩ : ∃ index₁, readQuotedWord single
      (body ++ b :: (others ++ rest)).length [] ⟨body ++ b :: (others ++ rest), index, line, column⟩
        = .ok ⟨[].reverse ++ word, ⟨b :: (others ++ rest), index₁, line, column + body.length⟩,
          false⟩ :=
    readQuotedWord_pieces first (Or.inl hb) (by rw [List.length_append]; omega)
  obtain ⟨gap, index₂, line₂, column₂, hwhite, htext, hline₂, hcolumn₂⟩ :=
    hgap.reads (b :: (others ++ rest)).length rest index₁ line (column + body.length)
      (by simp only [List.length_append, List.length_cons]; omega) hrest (by omega)
  -- The word ends at a gap and not at the closing quote, so the reader goes on.
  have hquote : Cursor.sees ⟨b :: (others ++ rest), index₁, line, column + body.length⟩
      (quote single) = false := by
    have hne : b ≠ quote single := by
      rintro rfl
      rw [isGap_quote] at hb
      cases hb
    simpa [Cursor.sees, Cursor.peek?] using hne
  refine ⟨index₂, line₂, column₂, hline₂, hcolumn₂, ?_⟩
  rw [List.cons_append,
    readQuoted_more (atDocumentMark_of_pos hcolumn) (by simp) hread hquote rfl hwhite, htext]
  simp

/-- **Texts in quotes.**  What stands in quotes for a text is read as this text, up to the closing
    quote. -/
theorem readQuoted_of_quoted (h : Quoted single body text) {start : Nat} {front : List Char}
    (hmore : more.head? ≠ some '\'') (hcolumn : 0 < column) (hfuel : body.length < fuel) :
    ∃ index' line' column', line ≤ line' ∧ readQuoted single start fuel front
      ⟨body ++ quote single :: more, index, line, column⟩
        = .ok ⟨front ++ text, ⟨more, index', line', column'⟩, false⟩ := by
  induction h generalizing fuel front index line column with
  | @last body word first =>
    obtain ⟨fuel, rfl⟩ : ∃ less, fuel = less + 1 := ⟨fuel - 1, by omega⟩
    have hlength : body.length ≤ (body ++ quote single :: more).length := by simp
    obtain ⟨index', hread⟩ := readQuotedWord_pieces first (Or.inr ⟨rfl, hmore⟩) hlength
    refine ⟨index' + 1, line, column + body.length + 1, le_rfl, ?_⟩
    exact readQuoted_last (atDocumentMark_of_pos hcolumn) (by simp) hread
      (by simp [Cursor.sees, Cursor.peek?])
  | @more body word white spaces rest text first hgap visible _ ih =>
    obtain ⟨fuel, rfl⟩ : ∃ less, fuel = less + 1 := ⟨fuel - 1, by omega⟩
    -- Behind the gap there is a visible character or, at the end, the closing quote.
    have hnext : ∀ c ∈ (rest ++ quote single :: more).head?, isGap c = false := by
      cases rest with
      | nil =>
        intro c hc
        cases hc
        exact isGap_quote
      | cons c rest => exact visible
    obtain ⟨b, others, hwhite, -⟩ := hgap.gap
    have hlength : 0 < white.length := by simp [hwhite]
    simp only [List.length_append] at hfuel
    obtain ⟨index₁, line₁, column₁, hline₁, hcolumn₁, hword⟩ :=
      readQuoted_word first hgap hnext hcolumn
    have hrest : rest.length < fuel := by omega
    obtain ⟨index₂, line₂, column₂, hline₂, hrest⟩ := ih hcolumn₁ hrest
    refine ⟨index₂, line₂, column₂, hline₁.trans hline₂, ?_⟩
    rw [List.append_assoc, List.append_assoc, hword, hrest]
    simp

/-! ### Making up texts in quotes -/

namespace Quoted

/-- A character in front. -/
theorem piece {piece : List Char} {c : Char} (first : Spells single piece c)
    (h : Quoted single body text) : Quoted single (piece ++ body) (c :: text) := by
  cases h with
  | last word => exact .last (.cons first word)
  | more word gap visible others =>
    have h : Quoted single _ _ := .more (.cons first word) gap visible others
    rwa [List.append_assoc] at h

/-- A gap in front. -/
theorem gap {white spaces : List Char} (first : ReadsGap white spaces)
    (visible : ∀ c ∈ body.head?, isGap c = false) (h : Quoted single body text) :
    Quoted single (white ++ body) (spaces ++ text) := .more .nil first visible h

end Quoted

/-- Spaces without a line break stay as they are. -/
theorem readsGap_spaces (count : Nat) :
    ReadsGap (indentation (count + 1)) (indentation (count + 1)) where
  gap := ⟨' ', indentation count, rfl, rfl⟩
  reads := fun fuel rest index line column hfuel hrest hcolumn => by
    rw [length_indentation] at hfuel
    exact ⟨_, _, _, _, readGap_indentation hrest hfuel, rfl, le_rfl, by omega⟩

/-- A line break that quotes hold as it is. -/
def isKept (c : Char) : Bool := c == '\u2028' || c == '\u2029'

/-- A line break that is kept opens the fold of a gap, or it is one more in it. -/
theorem readGap_break {c : Char} (hc : isKept c = true) {indent : Nat} {gap : Gap} :
    readGap indent (fuel + 1) gap ⟨c :: rest, index, line, column⟩
      = readGap indent fuel (if gap.folded then ⟨[], true, gap.first, gap.later ++ [c]⟩
          else ⟨[], true, [c], []⟩) ⟨rest, index + 1, line + 1, 0⟩ := by
  rw [isKept, Bool.or_eq_true, beq_iff_eq, beq_iff_eq] at hc
  rcases hc with rfl | rfl <;> rfl

/-- Line breaks that are kept add up in a fold. -/
theorem readGap_breaks {breaks : List Char} (hbreaks : ∀ c ∈ breaks, isKept c = true) {indent : Nat}
    {first later : List Char} :
    readGap indent (fuel + breaks.length) ⟨[], true, first, later⟩ ⟨breaks ++ rest, index, line, 0⟩
      = readGap indent fuel ⟨[], true, first, later ++ breaks⟩
        ⟨rest, index + breaks.length, line + breaks.length, 0⟩ := by
  induction breaks generalizing later index line with
  | nil => simp
  | cons c breaks ih =>
    rw [List.forall_mem_cons] at hbreaks
    rw [List.length_cons, ← Nat.add_assoc, List.cons_append, readGap_break hbreaks.1]
    simp only [if_true, ih hbreaks.2]
    simp [Nat.add_assoc, Nat.add_comm 1]

/-- Line breaks that are kept, and the indentation of the line after them. -/
theorem readsGap_breaks {c : Char} {breaks : List Char} {count : Nat}
    (hbreaks : ∀ b ∈ c :: breaks, isKept b = true) (hcount : 0 < count) :
    ReadsGap (c :: breaks ++ indentation count) (c :: breaks) := by
  rw [List.forall_mem_cons] at hbreaks
  have hc : isBreak c = true ∧ c ≠ '\n' := by
    have hkept := hbreaks.1
    rw [isKept, Bool.or_eq_true, beq_iff_eq, beq_iff_eq] at hkept
    rcases hkept with rfl | rfl <;> decide
  refine ⟨⟨c, _, rfl, by rw [isGap, hc.1, Bool.or_true]⟩,
    fun fuel rest index line column hfuel hrest _ => ?_⟩
  rw [List.length_append, List.length_cons, length_indentation] at hfuel
  obtain ⟨fuel, rfl⟩ : ∃ less, fuel = less + breaks.length + 1 :=
    ⟨fuel - breaks.length - 1, by omega⟩
  refine ⟨⟨[], true, [c], breaks⟩, index + 1 + breaks.length + count, line + 1 + breaks.length,
    0 + count, ?_, ?_, by omega, by omega⟩
  · rw [List.cons_append, List.cons_append, readGap_break hbreaks.1, List.append_assoc]
    exact (readGap_breaks hbreaks.2).trans (readGap_indentation hrest (by omega))
  · -- Only a plain line feed is folded into a space, and none of the kept breaks is one.
    have hfirst : [c] ≠ ['\n'] := by simpa using hc.2
    rw [Gap.text, if_pos rfl, if_neg hfirst]
    rfl

/-! ### Double quotes -/

/-- A hexadecimal digit is read back. -/
theorem digit?_hexDigit : ∀ digit < 16,
    Numeral.digit? (if digit < 10 then Char.ofNat (48 + digit) else Char.ofNat (55 + digit))
      = some digit := by decide

/-- The leading digit comes first. -/
theorem hexDigits_succ (count number : Nat) :
    ∃ c, Numeral.digit? c = some (number / 16 ^ count % 16) ∧
      hexDigits (count + 1) number = c :: hexDigits count number := by
  have hplace : number >>> (4 * count) = number / 16 ^ count := by
    rw [Nat.shiftRight_eq_div_pow, Nat.pow_mul]
  refine ⟨_, digit?_hexDigit (number / 16 ^ count % 16) (Nat.mod_lt _ (by decide)), ?_⟩
  rw [hexDigits, List.range_succ, List.reverse_append, List.map_append, hexDigits, ← hplace]
  rfl

/-- There are as many digits as asked for. -/
theorem length_hexDigits (count number : Nat) : (hexDigits count number).length = count := by
  simp [hexDigits]

/-- The last digits of a number denote its remainder. -/
theorem extend_hexDigits (count number before : Nat) :
    Numeral.extend 16 before (hexDigits count number)
      = some (before * 16 ^ count + number % 16 ^ count) := by
  induction count generalizing before with
  | zero => simp [hexDigits, Numeral.extend, Nat.mod_one]
  | succ count ih =>
    obtain ⟨c, hc, hdigits⟩ := hexDigits_succ count number
    rw [hdigits, Numeral.extend, hc]
    dsimp only
    rw [if_pos (Nat.mod_lt _ (by decide)), ih, Nat.mod_pow_succ]
    congr 1
    ring

/-- A number is read back from enough digits. -/
theorem read?_hexDigits {count number : Nat} (hcount : 0 < count) (h : number < 16 ^ count) :
    Numeral.read? 16 (hexDigits count number) = some number := by
  have hsome : (hexDigits count number).isEmpty = false := by
    rw [List.isEmpty_eq_false_iff, ← List.length_pos_iff, length_hexDigits]
    exact hcount
  rw [Numeral.read?, hsome, if_neg Bool.false_ne_true, extend_hexDigits, Nat.mod_eq_of_lt h]
  simp

/-- A character is known by its code. -/
theorem charOfCode?_toNat (c : Char) : charOfCode? c.toNat = some c := by
  have hvalid := c.valid
  have hcode : c.toNat < 0xd800 ∨ 0xdfff < c.toNat ∧ c.toNat < 0x110000 := hvalid
  rw [charOfCode?, if_pos (by simp; omega), Char.ofNat_toNat]

/-- An escape with digits stands for the character with that code. -/
theorem readEscape?_digits {letter : Char} {count : Nat} {c : Char} {rest : List Char}
    (hletter : escapedChar? letter = none) (hdigits : escapeDigits? letter = some count)
    (hcount : 0 < count) (h : c.toNat < 16 ^ count) :
    readEscape? (letter :: hexDigits count c.toNat ++ rest) = some (c, count + 1) := by
  have htake : (hexDigits count c.toNat ++ rest).take count = hexDigits count c.toNat :=
    List.take_left' (length_hexDigits count c.toNat)
  rw [List.cons_append, readEscape?, hletter, hdigits]
  dsimp only
  rw [htake, if_pos (length_hexDigits count c.toNat), read?_hexDigits hcount h]
  show (charOfCode? c.toNat >>= _) = _
  rw [charOfCode?_toNat]
  rfl

/-- An escape is read as its character. -/
theorem readEscape?_escapeNumber (c : Char) (rest : List Char) :
    readEscape? (escapeNumber c ++ rest) = some (c, (escapeNumber c).length) := by
  have hvalid : c.toNat < 0xd800 ∨ 0xdfff < c.toNat ∧ c.toNat < 0x110000 := c.valid
  unfold escapeNumber
  dsimp only
  split
  · rw [readEscape?_digits rfl rfl (by decide) (by omega), List.length_cons, length_hexDigits]
  split
  · rw [readEscape?_digits rfl rfl (by decide) (by omega), List.length_cons, length_hexDigits]
  · rw [readEscape?_digits rfl rfl (by decide) (by omega), List.length_cons, length_hexDigits]

/-- A backslash and what follows it are read as a character. -/
theorem spells_escape {c : Char} {escape : List Char}
    (hbreak : ∀ b ∈ escape.head?, isBreak b = false) (hsome : escape ≠ [])
    (h : ∀ rest, readEscape? (escape ++ rest) = some (c, escape.length)) :
    Spells false ('\\' :: escape) c where
  visible := ⟨'\\', escape, rfl, rfl⟩
  reads := fun fuel word rest index line column => by
    obtain ⟨b, escape, rfl⟩ := List.exists_cons_of_ne_nil hsome
    have hbreak : isBreak b = false := hbreak b rfl
    have hgap : isGap '\\' = false := rfl
    have h := h rest
    rw [List.cons_append] at h
    simp [readQuotedWord, hgap, hbreak, h, Cursor.advance]

/-- A character that needs no escape stands for itself. -/
theorem spells_self {c : Char} (hgap : isGap c = false) (hquote : c ≠ '"') (hescape : c ≠ '\\') :
    Spells false [c] c where
  visible := ⟨c, [], rfl, hgap⟩
  reads := fun fuel word rest index line column => by
    simp [readQuotedWord, hgap, hquote, hescape, Cursor.advance]

/-- A printable character is no gap unless it is a space or breaks a line. -/
theorem isGap_of_isPrintable {c : Char} (h : isPrintable c = true) (hspace : c ≠ ' ')
    (hbreak : isBreak c = false) : isGap c = false := by
  have htab : c ≠ '\t' := by
    rintro rfl
    revert h
    decide
  simp [isGap, isSpace, hbreak, hspace, htab]

/-- Every character but a space is spelled in double quotes. -/
theorem spells_spellCharacter {c : Char} (hc : c ≠ ' ') : Spells false (spellCharacter c) c := by
  unfold spellCharacter
  -- Three spellings: a letter of the table, the character itself, and its number.
  split
  next letter hletter =>
    have hentry : (c, letter) ∈ escapes := by
      obtain ⟨before, after, h, -⟩ := List.lookup_eq_some_iff.mp hletter
      simp [h]
    have hall : ∀ entry ∈ escapes, isBreak entry.2 = false ∧
        escapedChar? entry.2 = some entry.1 := by decide
    obtain ⟨hbreak, hescape⟩ := hall _ hentry
    refine spells_escape (fun b hb => by cases hb; exact hbreak) (by simp) fun rest => ?_
    simp [readEscape?, hescape]
  next hnone =>
    split
    next hprintable =>
      -- The characters that must not stand for themselves all have letters, and this one has none.
      have hother : ∀ b, (escapes.lookup b).isSome = true → c ≠ b := by
        rintro b hb rfl
        rw [hnone] at hb
        cases hb
      have hbreak : isBreak c = false := by
        by_contra hbreak
        simp only [isBreak, Bool.not_eq_false, Bool.or_eq_true, beq_iff_eq] at hbreak
        rcases hbreak with (((h | h) | h) | h) | h <;> exact hother _ (by decide) h
      exact spells_self (isGap_of_isPrintable hprintable hc hbreak) (hother _ (by decide))
        (hother _ (by decide))
    next =>
      refine spells_escape (fun b hb => ?_) ?_ (readEscape?_escapeNumber c)
      · unfold escapeNumber at hb
        dsimp only at hb
        split at hb
        · cases hb
          rfl
        split at hb
        · cases hb
          rfl
        · cases hb
          rfl
      · unfold escapeNumber
        dsimp only
        split
        · simp
        split <;> simp

/-- Spaces are spelled as they are. -/
theorem flatMap_indentation (count : Nat) :
    (indentation count).flatMap spellCharacter = indentation count := by
  induction count with
  | zero => rfl
  | succ count ih =>
    have hspaces : indentation (count + 1) = ' ' :: indentation count := rfl
    rw [hspaces, List.flatMap_cons, ih]
    rfl

/-- **Double quotes** hold every text. -/
theorem quoted_double (text : List Char) : Quoted false (text.flatMap spellCharacter) text := by
  -- Spaces are taken in runs, since a gap is read as a whole: so by induction on the length.
  induction hlength : text.length using Nat.strong_induction_on generalizing text with
  | _ length ih =>
    obtain ⟨count, rest, rfl, hrest⟩ := exists_indentation text
    rw [List.length_append, length_indentation] at hlength
    obtain ⟨hquoted, hvisible⟩ : Quoted false (rest.flatMap spellCharacter) rest ∧
        ∀ b ∈ (rest.flatMap spellCharacter).head?, isGap b = false := by
      cases rest with
      | nil => exact ⟨.last .nil, nofun⟩
      | cons c rest =>
        have hspells := spells_spellCharacter fun h => hrest (congrArg some h)
        obtain ⟨b, others, hpiece, hb⟩ := hspells.visible
        rw [List.flatMap_cons]
        refine ⟨(ih rest.length (by simp at hlength; omega) rest rfl).piece hspells, ?_⟩
        rw [hpiece]
        rintro _ ⟨⟩
        exact hb
    rw [List.flatMap_append, flatMap_indentation]
    cases count with
    | zero => exact hquoted
    | succ count => exact hquoted.gap (readsGap_spaces count) hvisible

/-! ### Lines with an indentation -/

section Lines

variable {write : Char → List Char} {fresh : Bool} {c : Char} {breaks : List Char}

/-- A line break stands for itself, and a line begins behind it. -/
theorem indentLines_of_break (hc : isBreak c = true) :
    indentLines column write fresh (c :: text) = c :: indentLines column write true text := by
  rw [indentLines, if_pos hc]

/-- Inside of a line a character is written with nothing in front. -/
theorem indentLines_of_not_break (hc : isBreak c = false) :
    indentLines column write false (c :: text)
      = write c ++ indentLines column write false text := by
  rw [indentLines, hc, if_neg Bool.false_ne_true]
  rfl

/-- The first character of a line comes after the indentation. -/
theorem indentLines_fresh (htext : text ≠ []) (hhead : ∀ c ∈ text.head?, isBreak c = false) :
    indentLines column write true text
      = indentation column ++ indentLines column write false text := by
  obtain ⟨c, text, rfl⟩ := List.exists_cons_of_ne_nil htext
  rw [indentLines, hhead c rfl, if_neg Bool.false_ne_true, indentLines_of_not_break (hhead c rfl)]
  exact List.append_assoc _ _ _

/-- Line breaks in a row stand for themselves. -/
theorem indentLines_breaks (hbreaks : ∀ c ∈ breaks, isBreak c = true) :
    indentLines column write true (breaks ++ text)
      = breaks ++ indentLines column write true text := by
  induction breaks with
  | nil => rfl
  | cons c breaks ih =>
    rw [List.forall_mem_cons] at hbreaks
    rw [List.cons_append, indentLines_of_break hbreaks.1, ih hbreaks.2, List.cons_append]

/-- How a text ends does not depend on its front. -/
theorem endsWithBreak_append (htext : text ≠ []) (front : List Char) :
    endsWithBreak (front ++ text) = endsWithBreak text := by
  rw [endsWithBreak, endsWithBreak, List.getLast?_append, List.getLast?_eq_some_getLast htext]
  rfl

/-- A character that breaks no line changes nothing about how a text ends. -/
theorem endsWithBreak_cons (hc : isBreak c = false) :
    endsWithBreak (c :: text) = endsWithBreak text := by
  cases text with
  | nil => simp [endsWithBreak, hc]
  | cons b text => exact endsWithBreak_append (List.cons_ne_nil b text) [c]

end Lines

/-! ### Single quotes -/

/-- The characters that stand for one in single quotes. -/
def spellInSingle (c : Char) : List Char := if c == '\'' then [c, c] else [c]

/-- In single quotes a quote is doubled, and any other character stands for itself. -/
theorem spells_spellInSingle {c : Char} (hgap : isGap c = false) :
    Spells true (spellInSingle c) c := by
  unfold spellInSingle
  split
  next hc =>
    obtain rfl : c = '\'' := by simpa using hc
    refine ⟨⟨'\'', ['\''], rfl, rfl⟩, fun fuel word rest index line column => ?_⟩
    simp [readQuotedWord, hgap, Cursor.advance]
  next hc =>
    refine ⟨⟨c, [], rfl, hgap⟩, fun fuel word rest index line column => ?_⟩
    simp [readQuotedWord, hgap, hc, Cursor.advance]

/-- The printable line breaks are kept, but for the line feed. -/
theorem isKept_of_isPrintable {c : Char} (hprintable : isPrintable c = true)
    (hbreak : isBreak c = true) (hline : c ≠ '\n') : isKept c = true := by
  simp only [isBreak, Bool.or_eq_true, beq_iff_eq] at hbreak
  rcases hbreak with (((rfl | rfl) | rfl) | rfl) | rfl
  · exact absurd rfl hline
  · exact absurd hprintable (by decide)
  · exact absurd hprintable (by decide)
  · rfl
  · rfl

/-- What stands in single quotes for a text. -/
def singleBody (column : Nat) (text : List Char) : List Char :=
  indentLines column spellInSingle false text
    ++ if endsWithBreak text then indentation column else []

/-- A text in single quotes stands between two of them. -/
theorem spellSingle_eq (column : Nat) (text : List Char) :
    spellSingle column text = '\'' :: (singleBody column text ++ ['\'']) := rfl

/-- A character that breaks no line is spelled with nothing in front. -/
theorem singleBody_cons {c : Char} (hc : isBreak c = false) :
    singleBody column (c :: text) = spellInSingle c ++ singleBody column text := by
  rw [singleBody, singleBody, indentLines_of_not_break hc, endsWithBreak_cons hc,
    List.append_assoc]

/-- Spaces stand for themselves. -/
theorem singleBody_spaces {count : Nat} :
    singleBody column (indentation count ++ text)
      = indentation count ++ singleBody column text := by
  induction count with
  | zero => rfl
  | succ count ih =>
    have hspaces : indentation (count + 1) = ' ' :: indentation count := rfl
    rw [hspaces, List.cons_append, singleBody_cons rfl, ih]
    rfl

/-- Line breaks in a row end with one. -/
theorem endsWithBreak_of_breaks {c : Char} {breaks : List Char}
    (hbreaks : ∀ b ∈ c :: breaks, isBreak b = true) : endsWithBreak (c :: breaks) = true := by
  rw [endsWithBreak, List.getLast?_eq_some_getLast (List.cons_ne_nil c breaks)]
  exact hbreaks _ (List.getLast_mem _)

/-- After line breaks comes the indentation of the next line or of the closing quote. -/
theorem singleBody_breaks {c : Char} {breaks : List Char}
    (hbreaks : ∀ b ∈ c :: breaks, isBreak b = true) (htext : ∀ b ∈ text.head?, isBreak b = false) :
    singleBody column (c :: breaks ++ text)
      = c :: breaks ++ indentation column ++ singleBody column text := by
  have hlines : indentLines column spellInSingle false (c :: breaks ++ text)
      = c :: breaks ++ indentLines column spellInSingle true text := by
    rw [List.forall_mem_cons] at hbreaks
    rw [List.cons_append, indentLines_of_break hbreaks.1, indentLines_breaks hbreaks.2,
      List.cons_append]
  rw [singleBody, singleBody, hlines]
  -- Behind the last line the indentation is that of the closing quote, which is written apart.
  cases text with
  | nil =>
    rw [List.append_nil, endsWithBreak_of_breaks hbreaks, if_pos rfl]
    simp [indentLines, endsWithBreak]
  | cons b text =>
    rw [indentLines_fresh (List.cons_ne_nil b text) htext,
      endsWithBreak_append (List.cons_ne_nil b text)]
    simp only [List.append_assoc]

/-- What stands in quotes begins with no gap if the text does not. -/
theorem singleBody_head (htext : ∀ b ∈ text.head?, isGap b = false) :
    ∀ b ∈ (singleBody column text).head?, isGap b = false := by
  cases text with
  | nil => nofun
  | cons c text =>
    have hc := htext c rfl
    obtain ⟨b, others, hpiece, hb⟩ := (spells_spellInSingle hc).visible
    rw [singleBody_cons (isBreak_of_isGap hc), hpiece]
    rintro _ ⟨⟩
    exact hb

/-- A character in front of a text in single quotes. -/
theorem quoted_single_character {c : Char} (hgap : isGap c = false)
    (h : Quoted true (singleBody column text) text) :
    Quoted true (singleBody column (c :: text)) (c :: text) := by
  rw [singleBody_cons (isBreak_of_isGap hgap)]
  exact h.piece (spells_spellInSingle hgap)

/-- Spaces in front of a text in single quotes, which does not begin with a line break. -/
theorem quoted_single_spaces {count : Nat}
    (hprintable : ∀ c ∈ indentation (count + 1) ++ text, isPrintable c = true)
    (hends : hasNeighbours isBareSpace isBreak (indentation (count + 1) ++ text) = false)
    (hspace : text.head? ≠ some ' ') (h : Quoted true (singleBody column text) text) :
    Quoted true (singleBody column (indentation (count + 1) ++ text))
      (indentation (count + 1) ++ text) := by
  have hbreak := hasNeighbours_seam hends (getLast?_indentation count) rfl
  have hvisible : ∀ b ∈ text.head?, isGap b = false := fun b hb => by
    refine isGap_of_isPrintable (hprintable b ?_) ?_ (hbreak b hb)
    · exact List.mem_append_right _ (List.mem_of_mem_head? hb)
    · rintro rfl
      exact hspace hb
  rw [singleBody_spaces]
  exact h.gap (readsGap_spaces count) (singleBody_head hvisible)

/-- Line breaks in front of a text in single quotes, which does not begin with a space. -/
theorem quoted_single_breaks {c : Char} {breaks : List Char}
    (hprintable : ∀ b ∈ c :: breaks ++ text, isPrintable b = true)
    (hbegins : hasNeighbours isBreak isBareSpace (c :: breaks ++ text) = false)
    (hline : '\n' ∉ c :: breaks ++ text) (hcolumn : 0 < column)
    (hbreaks : ∀ b ∈ c :: breaks, isBreak b = true) (htext : ∀ b ∈ text.head?, isBreak b = false)
    (h : Quoted true (singleBody column text) text) :
    Quoted true (singleBody column (c :: breaks ++ text)) (c :: breaks ++ text) := by
  have hkept : ∀ b ∈ c :: breaks, isKept b = true := fun b hb => by
    have hmem : b ∈ c :: breaks ++ text := List.mem_append_left _ hb
    exact isKept_of_isPrintable (hprintable b hmem) (hbreaks b hb) fun h => hline (h ▸ hmem)
  have hlast := List.getLast?_eq_some_getLast (List.cons_ne_nil c breaks)
  have hspace := hasNeighbours_seam hbegins hlast (hbreaks _ (List.getLast_mem _))
  have hvisible : ∀ b ∈ text.head?, isGap b = false := fun b hb =>
    isGap_of_isPrintable (hprintable b (List.mem_append_right _ (List.mem_of_mem_head? hb)))
      (by simpa [isBareSpace] using hspace b hb) (htext b hb)
  rw [singleBody_breaks hbreaks htext]
  exact h.gap (readsGap_breaks hkept hcolumn) (singleBody_head hvisible)

/-- **Single quotes** hold texts without escapes in which no line begins or ends with a space. -/
theorem quoted_single {text : List Char} (hprintable : ∀ c ∈ text, isPrintable c = true)
    (hends : hasNeighbours isBareSpace isBreak text = false)
    (hbegins : hasNeighbours isBreak isBareSpace text = false) (hline : '\n' ∉ text)
    (hcolumn : 0 < column) : Quoted true (singleBody column text) text := by
  -- Runs of line breaks and of spaces are taken as a whole, so by induction on the length: every
  -- suffix meets the same conditions.
  induction hlength : text.length using Nat.strong_induction_on generalizing text with
  | _ length ih =>
    have hsuffix (front others : List Char) (htext : text = front ++ others) (hfront : front ≠ []) :
        Quoted true (singleBody column others) others := by
      subst htext
      refine ih others.length ?_ (fun c hc => hprintable c (List.mem_append_right _ hc))
        (hasNeighbours_of_append hends) (hasNeighbours_of_append hbegins)
        (fun hmem => hline (List.mem_append_right _ hmem)) rfl
      rw [← hlength, List.length_append]
      have := List.length_pos_iff.mpr hfront
      omega
    rcases text with _ | ⟨c, rest⟩
    · exact .last .nil
    by_cases hc : isBreak c = true
    · obtain ⟨breaks, others, rfl, hbreaks, hothers⟩ := exists_front isBreak rest
      exact quoted_single_breaks hprintable hbegins hline hcolumn
        (List.forall_mem_cons.mpr ⟨hc, hbreaks⟩) hothers
        (hsuffix (c :: breaks) others rfl (List.cons_ne_nil c breaks))
    · rw [Bool.not_eq_true] at hc
      obtain ⟨count, others, htext, hspace⟩ := exists_indentation (c :: rest)
      cases count with
      | zero =>
        have hgap : isGap c = false := by
          refine isGap_of_isPrintable (hprintable c List.mem_cons_self) ?_ hc
          rintro rfl
          obtain rfl : ' ' :: rest = others := htext
          exact hspace rfl
        exact quoted_single_character hgap (hsuffix [c] rest rfl (List.cons_ne_nil c []))
      | succ count =>
        rw [htext] at hends hprintable ⊢
        exact quoted_single_spaces hprintable hends hspace
          (hsuffix _ others htext (List.cons_ne_nil _ _))

end GridLookup.Yaml
