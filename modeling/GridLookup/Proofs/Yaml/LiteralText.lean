import GridLookup.Proofs.Yaml.QuotedText
import GridLookup.Yaml.Token.BlockText

namespace GridLookup.Yaml

/-!
# Literal blocks

* `isHeld` — the line breaks that a literal block holds as they are.
* `LinesRead` — lines at a column are read as a text; `Trails` tells the line breaks at its end.
* `chompingOf` — the chomping that keeps all line breaks at the end of a text.
* `readBlock_literal` — what is written as a literal block is read as its text.
-/

variable {indent? : Option Nat} {indent fuel index line column deepest : Nat}
  {text rest after breaks before : List Char} {column? : Option Nat}

/-! ### Empty lines -/

/-- A line break that a literal block holds as it is. -/
def isHeld (c : Char) : Bool := c == '\n' || isKept c

/-- A literal block holds the printable line breaks as they are. -/
theorem isHeld_of_isPrintable {c : Char} (hprintable : isPrintable c = true)
    (hbreak : isBreak c = true) : isHeld c = true := by
  by_cases hline : c = '\n'
  · simp [isHeld, hline]
  · simp [isHeld, isKept_of_isPrintable hprintable hbreak hline]

/-- There are three such line breaks. -/
theorem isHeld_cases {c : Char} (h : isHeld c = true) : c = '\n' ∨ c = '\u2028' ∨ c = '\u2029' := by
  simpa [isHeld, isKept] using h

/-- They do break lines. -/
theorem isBreak_of_isHeld {c : Char} (h : isHeld c = true) : isBreak c = true := by
  rcases isHeld_cases h with rfl | rfl | rfl <;> rfl

/-- Such a line break is taken as a single character. -/
theorem takeBreak_of_isHeld {c : Char} (h : isHeld c = true) :
    Cursor.takeBreak ⟨c :: rest, index, line, column⟩ = ([c], ⟨rest, index + 1, line + 1, 0⟩) := by
  rcases isHeld_cases h with rfl | rfl | rfl <;> rfl

/-- An empty line ends with such a line break. -/
theorem readBlankLines_break {c : Char} (h : isHeld c = true) :
    readBlankLines indent? (fuel + 1) deepest before ⟨c :: rest, index, line, 0⟩
      = readBlankLines indent? fuel deepest (before ++ [c]) ⟨rest, index + 1, line + 1, 0⟩ := by
  have hspaces : (c :: rest).takeWhile (fun c => c == ' ') = [] := by
    rcases isHeld_cases h with rfl | rfl | rfl <;> rfl
  have htab : (c == '\t') = false := by rcases isHeld_cases h with rfl | rfl | rfl <;> rfl
  have hbreak := isBreak_of_isHeld h
  cases indent? <;>
    simp [readBlankLines, Cursor.takeRun, hspaces, Cursor.advance, Cursor.sees, Cursor.seesAny,
      Cursor.peek?, htab, hbreak, takeBreak_of_isHeld h]

/-- Several such line breaks are as many empty lines. -/
theorem readBlankLines_breaks (h : ∀ c ∈ breaks, isHeld c = true) :
    readBlankLines indent? (fuel + breaks.length) deepest before ⟨breaks ++ rest, index, line, 0⟩
      = readBlankLines indent? fuel deepest (before ++ breaks)
        ⟨rest, index + breaks.length, line + breaks.length, 0⟩ := by
  induction breaks generalizing before index line with
  | nil => simp
  | cons c breaks ih =>
    rw [List.forall_mem_cons] at h
    rw [List.length_cons, ← Nat.add_assoc, List.cons_append, readBlankLines_break h.1, ih h.2]
    simp [Nat.add_assoc, Nat.add_comm 1]

/-- The spaces of a line begin with its indentation. -/
theorem takeWhile_indentation (count : Nat) :
    (indentation count ++ rest).takeWhile (fun c => c == ' ')
      = indentation count ++ rest.takeWhile fun c => c == ' ' :=
  List.takeWhile_append_of_pos fun c hc => by
    rw [List.eq_of_mem_replicate hc]
    rfl

/-- Without its columns of indentation a line is what follows them. -/
theorem drop_indentation (count : Nat) : (indentation count ++ rest).drop count = rest :=
  List.drop_left' (length_indentation count)

/-- Empty lines end before a line with characters.  Its indentation is skipped as far as it
    counts. -/
theorem readBlankLines_line {count : Nat} (hbreak : ∀ c ∈ rest.head?, isBreak c = false)
    (hcount : count = indent ∨ count < indent ∧ rest.head? ≠ some ' ' ∧ rest.head? ≠ some '\t') :
    readBlankLines (some indent) (fuel + 1) deepest before
      ⟨indentation count ++ rest, index, line, 0⟩
        = .ok (before, max deepest count, ⟨rest, index + count, line, count⟩) := by
  -- Spaces are skipped up to the indentation of the block, so all of the `count` are, and no
  -- further one: either the indentation is reached or no space follows.
  have hskip :
      min (indentation count ++ rest.takeWhile fun c => c == ' ').length indent = count := by
    rw [List.length_append, length_indentation]
    rcases hcount with rfl | ⟨hless, hspace, -⟩
    · omega
    · have hnone : (rest.takeWhile fun c => c == ' ') = [] := by
        cases rest with
        | nil => rfl
        | cons c rest => exact List.takeWhile_cons_of_neg (by simpa using hspace)
      rw [hnone, List.length_nil]
      omega
  have hseen : rest.head?.any isBreak = false := by
    cases rest with
    | nil => rfl
    | cons c rest => exact hbreak c rfl
  -- A tab is a fault only where the line is not indented enough.
  have htab : (decide (count < indent) && rest.head? == some '\t') = false := by
    rcases hcount with rfl | ⟨-, -, htab⟩
    · simp
    · simp [htab]
  simp only [readBlankLines, Cursor.takeRun, takeWhile_indentation, Nat.sub_zero, hskip,
    Cursor.advance, drop_indentation, Nat.zero_add, Cursor.sees, Cursor.peek?, htab,
    Cursor.seesAny, hseen, Bool.false_eq_true, if_false]

/-- The first line with characters shows the indentation. -/
theorem readBlankLines_shown {count : Nat} {c : Char} (hbreak : isBreak c = false)
    (hspace : isSpace c = false) :
    readBlankLines none (fuel + 1) deepest before
      ⟨indentation count ++ c :: rest, index, line, 0⟩
        = .ok (before, max deepest count, ⟨c :: rest, index + count, line, count⟩) := by
  rw [isSpace, Bool.or_eq_false_iff] at hspace
  have hnone : ((c :: rest).takeWhile fun c => c == ' ') = [] :=
    List.takeWhile_cons_of_neg (by simp [hspace.1])
  simp only [readBlankLines, Cursor.takeRun, takeWhile_indentation, hnone, List.append_nil,
    length_indentation, Cursor.advance, drop_indentation, Nat.zero_add, Cursor.sees, Cursor.peek?,
    Cursor.seesAny, List.head?_cons, Option.any_some, hbreak]
  simp [hspace.2]

/-! ### Lines -/

/-- A text, and its parts: all but the line breaks at its end, the first of these, and the others.
    At the end of a text without a line break one is added. -/
inductive Trails : List Char → List Char → List Char → List Char → Prop where
  /-- There is no line break at the end. -/
  | none {text : List Char} (h : endsWithBreak text = false) : Trails text text ['\n'] []
  /-- There are line breaks. -/
  | some {text : List Char} {first : Char} {later : List Char} (h : endsWithBreak text = false)
      (hsome : text ≠ []) (breaks : ∀ c ∈ first :: later, isBreak c = true) :
      Trails (text ++ first :: later) text [first] later

/-- Characters in front of a text change nothing about its end. -/
theorem Trails.append {parts first later : List Char} (h : Trails text parts first later)
    (hsome : text ≠ []) (front : List Char) :
    Trails (front ++ text) (front ++ parts) first later := by
  cases h with
  | none h => exact .none (by rwa [endsWithBreak_append hsome])
  | some h hparts breaks =>
    rw [← List.append_assoc]
    refine .some ?_ (List.append_ne_nil_of_right_ne_nil _ hparts) breaks
    rwa [endsWithBreak_append hparts]

/-- What stands in a literal block for a text, behind the indentation of its first line. -/
def heldBody (column : Nat) (text : List Char) : List Char :=
  indentLines column (fun c => [c]) false text ++ if endsWithBreak text then [] else ['\n']

section HeldBody

variable {word : List Char} {c : Char}

/-- What has no line break is not indented anew. -/
theorem indentLines_word (hword : ∀ c ∈ word, isBreak c = false) :
    indentLines column (fun c => [c]) false (word ++ text)
      = word ++ indentLines column (fun c => [c]) false text := by
  induction word with
  | nil => rfl
  | cons c word ih =>
    rw [List.forall_mem_cons] at hword
    rw [List.cons_append, indentLines_of_not_break hword.1, ih hword.2]
    rfl

/-- What has no line break does not end with one. -/
theorem endsWithBreak_of_not_break (hword : ∀ c ∈ word, isBreak c = false) :
    endsWithBreak word = false := by
  rw [endsWithBreak]
  cases hlast : word.getLast? with
  | none => rfl
  | some c => exact hword c (List.mem_of_getLast? hlast)

/-- A character that breaks no line stands for itself. -/
theorem heldBody_cons (hc : isBreak c = false) :
    heldBody column (c :: text) = c :: heldBody column text := by
  rw [heldBody, heldBody, indentLines_of_not_break hc, endsWithBreak_cons hc]
  rfl

/-- Indentation makes a text no shorter. -/
theorem length_le_indentLines (fresh : Bool) (text : List Char) :
    text.length ≤ (indentLines column (fun c => [c]) fresh text).length := by
  induction text generalizing fresh with
  | nil => exact le_rfl
  | cons c text ih =>
    rw [indentLines]
    split
    · exact Nat.succ_le_succ (ih true)
    · have hmore := ih false
      simp only [List.length_append, List.length_cons, List.length_nil]
      omega

/-- A single line. -/
theorem heldBody_line (hword : ∀ c ∈ word, isBreak c = false) :
    heldBody column word = word ++ ['\n'] := by
  have hlines : indentLines column (fun c => [c]) false (word ++ []) = word ++ [] :=
    indentLines_word hword
  rw [List.append_nil] at hlines
  rw [heldBody, hlines, endsWithBreak_of_not_break hword]
  rfl

/-- A line, line breaks, and other lines if there are any. -/
theorem heldBody_lines (hword : ∀ c ∈ word, isBreak c = false)
    (hbreaks : ∀ b ∈ c :: breaks, isBreak b = true) (htext : ∀ b ∈ text.head?, isBreak b = false) :
    heldBody column (word ++ c :: (breaks ++ text)) = word ++ c :: (breaks ++
      if text.isEmpty then [] else indentation column ++ heldBody column text) := by
  have hall := hbreaks
  rw [List.forall_mem_cons] at hbreaks
  rw [heldBody, indentLines_word hword, indentLines_of_break hbreaks.1,
    indentLines_breaks hbreaks.2]
  -- Whether a line break is added depends on the end of the text, which is the end of the breaks if
  -- no line follows them and of the later lines otherwise.
  cases text with
  | nil =>
    rw [List.append_nil, endsWithBreak_append (List.cons_ne_nil c breaks),
      endsWithBreak_of_breaks hall]
    simp [indentLines]
  | cons b text =>
    have hends :
        endsWithBreak (word ++ c :: (breaks ++ b :: text)) = endsWithBreak (b :: text) := by
      have happend : word ++ c :: (breaks ++ b :: text) = (word ++ c :: breaks) ++ b :: text := by
        simp
      rw [happend, endsWithBreak_append (List.cons_ne_nil b text)]
    rw [hends, indentLines_fresh (List.cons_ne_nil b text) htext, heldBody]
    simp

end HeldBody

section Loop

variable {acc first later word others : List Char} {c : Char} {indented : Bool}

/-- A line in another column ends the block, and so does the end of the text. -/
theorem readBlockLines_stop {cursor : Cursor} (h : cursor.column ≠ indent ∨ cursor.rest = []) :
    readBlockLines false indent fuel indented ⟨acc, first, later, cursor⟩
      = .ok ⟨acc, first, later, cursor⟩ := by
  cases fuel with
  | zero => rfl
  | succ fuel =>
    have hcond : (cursor.column == indent && !cursor.rest.isEmpty) = false := by
      rcases h with h | h <;> simp [h]
    rw [readBlockLines]
    simp [hcond]

/-- A line, its line break, and the empty lines after it. -/
theorem readBlockLines_line {blank : List Char} {cursor : Cursor}
    (hword : ∀ c ∈ word, isBreak c = false) (hc : isHeld c = true)
    (hblank : readBlankLines (some indent) others.length 0 []
      ⟨others, index + word.length + 1, line + 1, 0⟩ = .ok (blank, deepest, cursor)) :
    readBlockLines false indent (fuel + 1) indented
      ⟨acc, first, later, ⟨word ++ c :: others, index, line, indent⟩⟩
        = readBlockLines false indent fuel
          (Cursor.seesAny ⟨word ++ c :: others, index, line, indent⟩ isSpace)
          ⟨acc ++ first ++ later ++ word, [c], blank, cursor⟩ := by
  have hbreak := isBreak_of_isHeld hc
  have htake : (word ++ c :: others).takeWhile (fun c => !isBreak c) = word :=
    takeWhile_front (by simpa using hword) (by rintro _ ⟨⟩; simp [hbreak])
  have hcond : ((indent == indent) && !(word ++ c :: others).isEmpty) = true := by simp
  rw [readBlockLines]
  simp only [hcond, if_true, Cursor.takeLine, Cursor.takeRun, htake, Cursor.advance, List.drop_left,
    takeBreak_of_isHeld hc, hblank]
  rfl

/-- Empty lines up to where the next line begins. -/
theorem readBlankLines_land (h : Lands after column? rest) (hless : column?.getD 0 < indent)
    (hbreaks : ∀ c ∈ breaks, isHeld c = true) (hfuel : (breaks ++ after).length ≤ fuel) :
    ∃ deepest' index', readBlankLines (some indent) fuel deepest []
      ⟨breaks ++ after, index, line, 0⟩
        = .ok (breaks, deepest', ⟨rest, index', line + breaks.length, column?.getD 0⟩) := by
  rw [List.length_append] at hfuel
  obtain ⟨fuel, rfl⟩ : ∃ less, fuel = less + breaks.length := ⟨fuel - breaks.length, by omega⟩
  rw [readBlankLines_breaks hbreaks, List.nil_append]
  -- The line after the block is indented less than the block, so its spaces are all skipped here
  -- and its first character stops the search.
  cases h with
  | ended =>
    cases fuel with
    | zero => exact ⟨_, _, rfl⟩
    | succ fuel => exact ⟨_, _, readBlankLines_line (by simp) (Or.inr ⟨hless, by simp, by simp⟩)⟩
  | @line column c rest visible =>
    have hgap := isGap_of_isVisible visible
    have hspace := isSpace_of_isGap hgap
    rw [isSpace, Bool.or_eq_false_iff] at hspace
    rw [List.length_append, List.length_cons] at hfuel
    obtain ⟨fuel, rfl⟩ : ∃ less, fuel = less + 1 := ⟨fuel - 1, by omega⟩
    refine ⟨_, _, readBlankLines_line (fun b hb => by cases hb; exact isBreak_of_isGap hgap)
      (Or.inr ⟨hless, ?_, ?_⟩)⟩
    · simpa using hspace.1
    · simpa using hspace.2

/-- Empty lines between two lines of a block. -/
theorem readBlankLines_within (hbreaks : ∀ c ∈ breaks, isHeld c = true)
    (hrest : ∀ c ∈ rest.head?, isBreak c = false) (hsome : rest ≠ [])
    (hfuel : (breaks ++ (indentation indent ++ rest)).length ≤ fuel) :
    ∃ deepest' index', readBlankLines (some indent) fuel deepest []
      ⟨breaks ++ (indentation indent ++ rest), index, line, 0⟩
        = .ok (breaks, deepest', ⟨rest, index', line + breaks.length, indent⟩) := by
  have hlength := List.length_pos_iff.mpr hsome
  simp only [List.length_append] at hfuel
  obtain ⟨fuel, rfl⟩ : ∃ less, fuel = less + 1 + breaks.length :=
    ⟨fuel - 1 - breaks.length, by omega⟩
  rw [readBlankLines_breaks hbreaks, List.nil_append]
  exact ⟨_, _, readBlankLines_line hrest (Or.inl rfl)⟩

/-- Lines that stand at a column are read as a text, up to a place in another column. -/
def LinesRead (indent : Nat) (text lines rest : List Char) (column : Nat) : Prop :=
  ∀ fuel indented acc first later index line, text.length ≤ fuel →
    ∃ parts first' later' index' line', Trails text parts first' later' ∧ line < line' ∧
      readBlockLines false indent fuel indented ⟨acc, first, later, ⟨lines, index, line, indent⟩⟩
        = .ok ⟨acc ++ first ++ later ++ parts, first', later', ⟨rest, index', line', column⟩⟩

section LinesRead

variable (hword : ∀ c ∈ word, isBreak c = false)

include hword

/-- A single line, at whose end a line break is added. -/
theorem linesRead_line (hsome : word ≠ []) (hland : Lands after column? rest)
    (hless : column?.getD 0 < indent) :
    LinesRead indent word (word ++ '\n' :: after) rest (column?.getD 0) := by
  intro fuel indented acc first later index line hfuel
  have hlength := List.length_pos_iff.mpr hsome
  obtain ⟨fuel, rfl⟩ : ∃ less, fuel = less + 1 := ⟨fuel - 1, by omega⟩
  obtain ⟨deepest, index', hblank⟩ : ∃ deepest index', readBlankLines (some indent)
      ([] ++ after).length 0 [] ⟨[] ++ after, index + word.length + 1, line + 1, 0⟩
        = .ok ([], deepest, ⟨rest, index', line + 1, column?.getD 0⟩) :=
    readBlankLines_land hland hless (List.forall_mem_nil _) le_rfl
  rw [List.nil_append] at hblank
  refine ⟨word, ['\n'], [], index', line + 1, .none (endsWithBreak_of_not_break hword),
    Nat.lt_succ_self line, ?_⟩
  rw [readBlockLines_line hword rfl hblank, readBlockLines_stop (Or.inl hless.ne)]

/-- A single line and its line breaks. -/
theorem linesRead_breaks (hsome : word ≠ []) (hheld : ∀ b ∈ c :: breaks, isHeld b = true)
    (hland : Lands after column? rest) (hless : column?.getD 0 < indent) :
    LinesRead indent (word ++ c :: breaks) (word ++ c :: (breaks ++ after)) rest
      (column?.getD 0) := by
  intro fuel indented acc first later index line hfuel
  rw [List.length_append, List.length_cons] at hfuel
  obtain ⟨fuel, rfl⟩ : ∃ less, fuel = less + 1 := ⟨fuel - 1, by omega⟩
  have hall : ∀ b ∈ c :: breaks, isBreak b = true := fun b hb => isBreak_of_isHeld (hheld b hb)
  rw [List.forall_mem_cons] at hheld
  obtain ⟨deepest, index', hblank⟩ : ∃ deepest index', readBlankLines (some indent)
      (breaks ++ after).length 0 [] ⟨breaks ++ after, index + word.length + 1, line + 1, 0⟩
        = .ok (breaks, deepest, ⟨rest, index', line + 1 + breaks.length, column?.getD 0⟩) :=
    readBlankLines_land hland hless hheld.2 le_rfl
  refine ⟨word, [c], breaks, index', line + 1 + breaks.length,
    .some (endsWithBreak_of_not_break hword) hsome hall, by omega, ?_⟩
  rw [readBlockLines_line hword hheld.1 hblank, readBlockLines_stop (Or.inl hless.ne)]

/-- A line, its line breaks, and more lines. -/
theorem linesRead_more {lines : List Char} (h : LinesRead indent text lines rest column)
    (hheld : ∀ b ∈ c :: breaks, isHeld b = true) (htext : text ≠ []) (hlines : lines ≠ [])
    (hhead : ∀ b ∈ lines.head?, isBreak b = false) :
    LinesRead indent (word ++ c :: (breaks ++ text))
      (word ++ c :: (breaks ++ (indentation indent ++ lines))) rest column := by
  intro fuel indented acc first later index line hfuel
  rw [List.length_append, List.length_cons, List.length_append] at hfuel
  obtain ⟨fuel, rfl⟩ : ∃ less, fuel = less + 1 := ⟨fuel - 1, by omega⟩
  rw [List.forall_mem_cons] at hheld
  obtain ⟨deepest, index₁, hblank⟩ : ∃ deepest index₁, readBlankLines (some indent)
      (breaks ++ (indentation indent ++ lines)).length 0 []
      ⟨breaks ++ (indentation indent ++ lines), index + word.length + 1, line + 1, 0⟩
        = .ok (breaks, deepest, ⟨lines, index₁, line + 1 + breaks.length, indent⟩) :=
    readBlankLines_within hheld.2 hhead hlines le_rfl
  -- The rest is read with this line already collected and the first of its breaks held back, since
  -- only the next line decides whether it is folded.
  obtain ⟨parts, first', later', index', line', htrails, hline, hread⟩ :=
    h fuel (Cursor.seesAny ⟨word ++ c :: (breaks ++ (indentation indent ++ lines)), index, line,
      indent⟩ isSpace) (acc ++ first ++ later ++ word) [c] breaks index₁
      (line + 1 + breaks.length) (by omega)
  refine ⟨word ++ c :: breaks ++ parts, first', later', index', line', ?_, by omega, ?_⟩
  · have happend := htrails.append htext (word ++ c :: breaks)
    simpa using happend
  · rw [readBlockLines_line hword hheld.1 hblank, hread]
    simp

end LinesRead

/-- **Literal lines** are read as the text they were written for. -/
theorem linesRead_heldBody (htext : text ≠ []) (hhead : ∀ c ∈ text.head?, isBreak c = false)
    (hheld : ∀ c ∈ text, isBreak c = true → isHeld c = true) (hland : Lands after column? rest)
    (hless : column?.getD 0 < indent) :
    LinesRead indent text (heldBody indent text ++ after) rest (column?.getD 0) := by
  -- By induction on the length, since each step takes off a line with all the line breaks behind
  -- it. What remains begins with a line again, so the hypothesis on the first character is kept.
  induction hlength : text.length using Nat.strong_induction_on generalizing text with
  | _ length ih =>
    obtain ⟨word, others, rfl, hword, hothers⟩ := exists_front (fun c => !isBreak c) text
    have hword : ∀ c ∈ word, isBreak c = false := fun c hc => by simpa using hword c hc
    have hsome : word ≠ [] := by
      rintro rfl
      obtain ⟨c, others, rfl⟩ := List.exists_cons_of_ne_nil htext
      have hc := hothers c rfl
      rw [hhead c rfl] at hc
      cases hc
    rcases others with _ | ⟨c, others⟩
    · rw [List.append_nil, heldBody_line hword, List.append_assoc]
      exact linesRead_line hword hsome hland hless
    obtain ⟨breaks, text, rfl, hbreaks, htextHead⟩ := exists_front isBreak others
    have hall : ∀ b ∈ c :: breaks, isBreak b = true :=
      List.forall_mem_cons.mpr ⟨by simpa using hothers c rfl, hbreaks⟩
    have hkept : ∀ b ∈ c :: breaks, isHeld b = true := fun b hb => by
      refine hheld b ?_ (hall b hb)
      rw [← List.cons_append]
      exact List.mem_append_right _ (List.mem_append_left _ hb)
    rw [heldBody_lines hword hall htextHead]
    rcases text with _ | ⟨b, text⟩
    · simp only [List.isEmpty_nil, if_true, List.append_nil]
      rw [List.append_assoc, List.cons_append]
      exact linesRead_breaks hword hsome hkept hland hless
    · have hb := htextHead b rfl
      have hshorter : (b :: text).length < length := by
        rw [← hlength]
        simp only [List.length_append, List.length_cons]
        omega
      have hmore := ih (b :: text).length hshorter (List.cons_ne_nil b text) htextHead
        (fun b hb => hheld b (by simp_all)) rfl
      have hbody := linesRead_more hword hmore hkept (List.cons_ne_nil b text)
        (by rw [heldBody_cons hb]; exact List.cons_ne_nil _ _)
        (by rw [heldBody_cons hb]; rintro _ ⟨⟩; exact hb)
      simpa using hbody

end Loop

/-! ### Headers -/

/-- What stands in a header for a chomping. -/
def Chomping.indicator : Chomping → List Char
  | .strip => ['-']
  | .clip => []
  | .keep => ['+']

/-- Whether the front of a text does not show the indentation of its lines. -/
def hidesIndentation (text : List Char) : Bool :=
  text.head?.any fun c => c == ' ' || isBreak c

/-- What stands in a header for the indentation of the lines of a text. -/
def declaration (text : List Char) : List Char := if hidesIndentation text then ['2'] else []

section Header

variable {c : Char} {parts first later : List Char}

/-- What becomes of the line breaks at the end of a text so that all of them are kept. -/
def chompingOf (text : List Char) : Chomping :=
  if endsWithBreak text then if text.dropLast.getLast?.all isBreak then .keep else .clip
  else .strip

/-- A header is a bar with the indentation and the chomping behind it. -/
theorem literalHeader_eq (text : List Char) :
    literalHeader text = '|' :: declaration text ++ (chompingOf text).indicator := by
  rcases List.eq_nil_or_concat text with rfl | ⟨front, last, rfl⟩
  · rfl
  · rw [literalHeader, chompingOf, endsWithBreak, List.concat_eq_append, List.reverse_append,
      List.dropLast_concat, List.getLast?_concat]
    cases hlast : isBreak last with
    | false => simp [declaration, hidesIndentation, Chomping.indicator, hlast]
    | true =>
      cases hfront : front.getLast?.all isBreak <;>
        simp [declaration, hidesIndentation, Chomping.indicator, hlast, hfront]

/-- Of line breaks alone all are kept. -/
theorem chompingOf_breaks (hbreaks : ∀ b ∈ c :: breaks, isBreak b = true) :
    chompingOf (c :: breaks) = .keep := by
  have hall : (c :: breaks).dropLast.getLast?.all isBreak = true := by
    cases hlast : (c :: breaks).dropLast.getLast? with
    | none => rfl
    | some b => exact hbreaks b ((List.dropLast_sublist _).mem (List.mem_of_getLast? hlast))
  rw [chompingOf, endsWithBreak_of_breaks hbreaks, if_pos rfl, if_pos hall]

/-- The line breaks at the end of a text are kept. -/
theorem chomp_of_trails (h : Trails text parts first later) (cursor : Cursor) :
    BlockLines.chomp ⟨parts, first, later, cursor⟩ (chompingOf text) = text := by
  cases h with
  | none h => simp [chompingOf, h, BlockLines.chomp]
  | @some parts first later h hsome hbreaks =>
    have hends : endsWithBreak (parts ++ first :: later) = true := by
      rw [endsWithBreak_append (List.cons_ne_nil first later), endsWithBreak_of_breaks hbreaks]
    have hdrop : (parts ++ first :: later).dropLast = parts ++ (first :: later).dropLast :=
      List.dropLast_append_of_ne_nil (List.cons_ne_nil first later)
    rw [chompingOf, if_pos hends, hdrop]
    cases later with
    | nil =>
      -- Before the only line break stands the last character.
      have hlast : isBreak (parts.getLast hsome) = false := by
        simpa [endsWithBreak, List.getLast?_eq_some_getLast hsome] using h
      simp [List.getLast?_eq_some_getLast hsome, hlast, BlockLines.chomp]
    | cons b later =>
      have hlast : isBreak ((first :: b :: later).dropLast.getLast (by simp)) = true :=
        hbreaks _ ((List.dropLast_sublist _).mem (List.getLast_mem _))
      rw [List.getLast?_append, List.getLast?_eq_some_getLast (by simp), Option.some_or,
        Option.all_some, hlast, if_pos rfl, BlockLines.chomp, List.append_assoc,
        List.singleton_append]

/-- A header ends at its line break. -/
theorem readHeader_literal (text rest : List Char) (index line column : Nat) (chomping : Chomping) :
    ∃ index', readHeader
      ⟨declaration text ++ (chomping.indicator ++ '\n' :: rest), index, line, column⟩
        = .ok (⟨chomping, if hidesIndentation text then some 2 else none⟩,
          ⟨rest, index', line + 1, 0⟩) := by
  unfold declaration
  cases hidesIndentation text <;> cases chomping <;> exact ⟨_, rfl⟩

end Header

/-! ### Literal blocks -/

section Block

variable {parent? : Option Nat} {body : List Char} {c : Char}

/-- What is written behind the header of a literal block. -/
theorem literal_lines (hbreaks : ∀ b ∈ breaks, isBreak b = true)
    (hhead : ∀ b ∈ text.head?, isBreak b = false) (htext : text ≠ []) :
    indentLines column (fun c => [c]) true (breaks ++ text)
        ++ (if endsWithBreak (breaks ++ text) then [] else ['\n'])
      = breaks ++ (indentation column ++ heldBody column text) := by
  rw [indentLines_breaks hbreaks, indentLines_fresh htext hhead, endsWithBreak_append htext,
    heldBody]
  simp only [List.append_assoc]

/-- The empty lines at the front of a literal block, and its indentation. -/
theorem readBlankLines_front (text lines : List Char) (index line : Nat) {least : Nat}
    (hbreaks : ∀ b ∈ breaks, isHeld b = true)
    (hc : isBreak c = false) (htab : c ≠ '\t') (hleast : least ≤ column) :
    ∃ deepest index', readBlankLines
      (if hidesIndentation (breaks ++ c :: text) then some column else none)
      ((breaks ++ (indentation column ++ c :: lines)).length + 1) 0 []
      ⟨breaks ++ (indentation column ++ c :: lines), index, line, 0⟩
        = .ok (breaks, deepest, ⟨c :: lines, index', line + breaks.length, column⟩) ∧
      (if hidesIndentation (breaks ++ c :: text) then some column else none).getD
        (max deepest least) = column := by
  -- If the front hides the indentation, it is declared in the header and known from the start.
  -- Otherwise the text begins with its first line, which shows it.
  cases hhides : hidesIndentation (breaks ++ c :: text) with
  | true =>
    obtain ⟨deepest, index', hread⟩ : ∃ deepest index', readBlankLines (some column)
        ((breaks ++ (indentation column ++ c :: lines)).length + 1) 0 []
        ⟨breaks ++ (indentation column ++ c :: lines), index, line, 0⟩
          = .ok (breaks, deepest, ⟨c :: lines, index', line + breaks.length, column⟩) :=
      readBlankLines_within hbreaks (by rintro _ ⟨⟩; exact hc) (List.cons_ne_nil c lines)
        (Nat.le_succ _)
    exact ⟨deepest, index', hread, rfl⟩
  | false =>
    have hnone : breaks = [] := by
      cases breaks with
      | nil => rfl
      | cons b breaks =>
        simp [hidesIndentation, isBreak_of_isHeld (hbreaks b List.mem_cons_self)] at hhides
    subst hnone
    have hspace : isSpace c = false := by
      have hbare : c ≠ ' ' := by
        rintro rfl
        simp [hidesIndentation] at hhides
      simp [isSpace, hbare, htab]
    refine ⟨_, _, readBlankLines_shown hc hspace, ?_⟩
    simp [hleast]

/-- A block text is its header, the empty lines at its front, and its lines. -/
theorem readBlock_eq {declared : Option Nat} {header : BlockHeader} {cursor start content : Cursor}
    {lines : BlockLines} {indent : Nat}
    (hdeclared : header.indentation.map (fun depth => parent?.getD 0 + depth) = declared)
    (hheader : readHeader cursor = .ok (header, start))
    (hblank : readBlankLines declared (start.rest.length + 1) 0 [] start
      = .ok (breaks, deepest, content))
    (hindent : declared.getD (max deepest (parent?.elim 1 (· + 1))) = indent)
    (hlines : readBlockLines false indent content.rest.length false ⟨[], [], breaks, content⟩
      = .ok lines) :
    readBlock false parent? cursor = .ok (lines.chomp header.chomping, lines.cursor) := by
  subst hdeclared hindent
  unfold readBlock
  rw [hheader]
  simp only [bind, Except.bind, hblank]
  cases parent? with
  | none =>
    simp only [Option.elim] at hlines
    rw [hlines]
  | some parent =>
    simp only [Option.elim] at hlines
    rw [hlines]

section

variable (hindent : parent?.getD 0 + 2 = indent) (hland : Lands after column? rest)
  (hless : column?.getD 0 < indent)

include hindent hland hless

/-- A literal block of empty lines. -/
theorem readBlock_breaks (index line column : Nat) (hbreaks : ∀ b ∈ c :: breaks, isHeld b = true) :
    ∃ index' line', line < line' ∧ readBlock false parent?
      ⟨declaration (c :: breaks) ++ ((chompingOf (c :: breaks)).indicator
        ++ '\n' :: (c :: breaks ++ after)), index, line, column⟩
          = .ok (c :: breaks, ⟨rest, index', line', column?.getD 0⟩) := by
  -- No line shows the indentation, so it is always declared.
  have hhides : hidesIndentation (c :: breaks) = true := by
    simp [hidesIndentation, isBreak_of_isHeld (hbreaks c List.mem_cons_self)]
  obtain ⟨start, hheader⟩ := readHeader_literal (c :: breaks) (c :: breaks ++ after) index line
    column (chompingOf (c :: breaks))
  obtain ⟨deepest, index', hblank⟩ : ∃ deepest index', readBlankLines (some indent)
      ((c :: breaks ++ after).length + 1) 0 [] ⟨c :: breaks ++ after, start, line + 1, 0⟩
        = .ok (c :: breaks, deepest, ⟨rest, index', line + 1 + (c :: breaks).length,
          column?.getD 0⟩) := readBlankLines_land hland hless hbreaks (Nat.le_succ _)
  refine ⟨index', line + 1 + (c :: breaks).length, by omega, ?_⟩
  rw [hhides] at hheader
  have hdeclared : (some 2).map (fun depth => parent?.getD 0 + depth) = some indent :=
    congrArg some hindent
  refine (readBlock_eq hdeclared hheader hblank rfl
    (readBlockLines_stop (Or.inl hless.ne))).trans ?_
  rw [chompingOf_breaks fun b hb => isBreak_of_isHeld (hbreaks b hb)]
  rfl

/-- A literal block with other lines. -/
theorem readBlock_lines (index line column : Nat) (hbreaks : ∀ b ∈ breaks, isHeld b = true)
    (hc : isBreak c = false) (htab : c ≠ '\t')
    (hheld : ∀ b ∈ c :: text, isBreak b = true → isHeld b = true) :
    ∃ index' line', line < line' ∧ readBlock false parent?
      ⟨declaration (breaks ++ c :: text) ++ ((chompingOf (breaks ++ c :: text)).indicator
        ++ '\n' :: (breaks ++ (indentation indent ++ (heldBody indent (c :: text) ++ after)))),
        index, line, column⟩
          = .ok (breaks ++ c :: text, ⟨rest, index', line', column?.getD 0⟩) := by
  have hlines := linesRead_heldBody (List.cons_ne_nil c text) (by rintro _ ⟨⟩; exact hc) hheld
    hland hless
  have hleast : parent?.elim 1 (· + 1) ≤ indent := by
    rw [← hindent]
    cases parent? <;> simp
  have hdeclared : (if hidesIndentation (breaks ++ c :: text) then some 2 else none).map
      (fun depth => parent?.getD 0 + depth)
        = if hidesIndentation (breaks ++ c :: text) then some indent else none := by
    rw [← hindent]
    split <;> rfl
  -- The fuel for the lines is the number of characters ahead, at least that of the text.
  have hlength : (c :: text).length ≤ (c :: (heldBody indent text ++ after)).length := by
    have hmore : text.length ≤ (indentLines indent (fun c => [c]) false text).length :=
      length_le_indentLines false text
    simp only [heldBody, List.length_cons, List.length_append]
    omega
  rw [heldBody_cons hc] at hlines ⊢
  -- The three stages of a block: its header, the empty lines at its front, its lines.
  obtain ⟨start, hheader⟩ := readHeader_literal (breaks ++ c :: text)
    (breaks ++ (indentation indent ++ (c :: heldBody indent text ++ after))) index line column
    (chompingOf (breaks ++ c :: text))
  obtain ⟨deepest, index₁, hblank, hfound⟩ := readBlankLines_front text
    (heldBody indent text ++ after) start (line + 1) hbreaks hc htab hleast
  obtain ⟨parts, first', later', index', line', htrails, hline, hread⟩ :=
    hlines _ false [] [] breaks index₁ (line + 1 + breaks.length) hlength
  have hchomp := chomp_of_trails (htrails.append (List.cons_ne_nil c text) breaks)
    ⟨rest, index', line', column?.getD 0⟩
  exact ⟨index', line', by omega, (readBlock_eq hdeclared hheader hblank hfound hread).trans
    (congrArg (fun text => Except.ok (text, _)) hchomp)⟩

end

/-- **Literal blocks.**  What is written for a text is read as this text, up to where the next line
    begins. -/
theorem readBlock_literal (hsome : text ≠ []) (hprintable : ∀ c ∈ text, isPrintable c = true)
    (hindent : parent?.getD 0 + 2 = indent) (hland : Lands after column? rest)
    (hless : column?.getD 0 < indent)
    (hbody : spellLiteral indent text ++ (if endsWithBreak text then [] else ['\n'])
      = '|' :: body) :
    ∃ index' line', line < line' ∧ readBlock false parent? ⟨body ++ after, index, line, column⟩
      = .ok (text, ⟨rest, index', line', column?.getD 0⟩) := by
  have hheld : ∀ c ∈ text, isBreak c = true → isHeld c = true := fun c hc =>
    isHeld_of_isPrintable (hprintable c hc)
  obtain rfl : body = declaration text ++ ((chompingOf text).indicator ++ '\n' ::
      (indentLines indent (fun c => [c]) true text
        ++ if endsWithBreak text then [] else ['\n'])) := by
    rw [spellLiteral, literalHeader_eq] at hbody
    simpa using hbody.symm
  obtain ⟨breaks, others, rfl, hbreaks, hothers⟩ := exists_front isBreak text
  have hkept : ∀ b ∈ breaks, isHeld b = true := fun b hb =>
    hheld b (List.mem_append_left _ hb) (hbreaks b hb)
  -- A block of empty lines only has no line that could show the indentation.
  rcases others with _ | ⟨c, others⟩
  · rw [indentLines_breaks hbreaks]
    rw [List.append_nil] at hsome ⊢
    obtain ⟨b, breaks, rfl⟩ := List.exists_cons_of_ne_nil hsome
    rw [endsWithBreak_of_breaks hbreaks]
    have hread := readBlock_breaks hindent hland hless index line column hkept
    simpa [indentLines] using hread
  · have hc := hothers c rfl
    have htab : c ≠ '\t' := by
      rintro rfl
      have htab := hprintable '\t' (by simp)
      revert htab
      decide
    rw [literal_lines hbreaks (by rintro _ ⟨⟩; exact hc) (List.cons_ne_nil c others)]
    have hread := readBlock_lines hindent hland hless index line column hkept hc htab
      fun b hb => hheld b (List.mem_append_right _ hb)
    simpa using hread

end Block

end GridLookup.Yaml
