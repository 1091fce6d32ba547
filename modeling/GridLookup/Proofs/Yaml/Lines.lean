import GridLookup.Proofs.Yaml.LiteralText
import GridLookup.Yaml.Token.Scan

namespace GridLookup.Yaml

/-!
# Scanning lines

How a scan comes from one token to the next.

* `Scan.arrive`, `Scan.run_token`, `Scan.run_end` — a run as a chain of single tokens.
* `Scan.Reaches` — some tokens lead from one scan to another.
* `Scan.Before` — a scan that comes to a line, whatever block collections end there.
* `Scan.before_of_line`, `Scan.before_of_lands`, `Scan.arrive_indentation` — what is between tokens.
-/

/-- A line has a column unless the text ends. -/
theorem Lands.column?_eq {after rest : List Char} {column? : Option Nat}
    (h : Lands after column? rest) :
    column? = if rest.isEmpty then none else some (column?.getD 0) := by
  cases h <;> rfl

namespace Scan

variable {scan arrived next : Scan} {cursor : Cursor} {tokens : List Token} {indents : List Nat}
  {allowed : Bool} {column? : Option Nat} {rest after : List Char} {candidate : KeyCandidate}
  {index line column indent fuel count : Nat}

/-! ### Runs -/

/-- A scan outside of flow collections in which no token may become a key. -/
def block (cursor : Cursor) (tokens : List Token) (indents : List Nat) (allowed : Bool) : Scan :=
  ⟨cursor, tokens.toArray, indents, allowed, .none, []⟩

/-- The scan before its next token: past gaps and comments, and with the block collections closed
    that end there. -/
def arrive (scan : Scan) : Except Fault Scan := do
  let scan ← (scan.skipGaps (scan.cursor.rest.length + 1)).expireAll
  .ok (scan.closeTo (if scan.cursor.rest.isEmpty then none else some scan.cursor.column))

/-- Closing block collections takes no character. -/
theorem cursor_closeBlocks : (scan.closeBlocks column? indents).cursor = scan.cursor := by
  induction indents generalizing scan with
  | nil => rfl
  | cons indent indents ih =>
    rw [closeBlocks]
    split
    · exact ih
    · rfl

/-- Closing block collections up to a column takes no character. -/
theorem cursor_closeTo : (scan.closeTo column?).cursor = scan.cursor := by
  rw [closeTo]
  split
  · rfl
  · exact cursor_closeBlocks

/-- A token is found. -/
theorem run_token {c : Char} (h : scan.arrive = .ok arrived)
    (hrest : arrived.cursor.rest = c :: rest) (hnext : arrived.scanToken c rest = .ok next) :
    scan.run (fuel + 1) = next.run fuel := by
  rw [arrive] at h
  rw [run]
  cases hskip : (scan.skipGaps (scan.cursor.rest.length + 1)).expireAll with
  | error fault =>
    rw [hskip] at h
    cases h
  | ok settled =>
    rw [hskip] at h
    obtain rfl := Except.ok.inj h
    rw [cursor_closeTo] at hrest
    simp only [bind, Except.bind, hrest]
    simp only [hrest, List.isEmpty_cons, Bool.false_eq_true, if_false] at hnext
    rw [hnext]

/-- The text ends. -/
theorem run_end (h : scan.arrive = .ok arrived) (hrest : arrived.cursor.rest = [])
    (hcandidate : arrived.candidate.possible = false) :
    scan.run (fuel + 1) = .ok arrived.tokens := by
  rw [arrive] at h
  rw [run]
  cases hskip : (scan.skipGaps (scan.cursor.rest.length + 1)).expireAll with
  | error fault =>
    rw [hskip] at h
    cases h
  | ok settled =>
    rw [hskip] at h
    obtain rfl := Except.ok.inj h
    rw [cursor_closeTo] at hrest
    -- At the end the scanner finishes instead of looking at a character.
    simp only [bind, Except.bind, hrest]
    simp only [hrest, List.isEmpty_nil, if_true] at hcandidate ⊢
    rw [finish, dropCandidate, hcandidate]
    rfl

/-- Some tokens lead from a scan to another, each with a character of its own. -/
def Reaches (scan next : Scan) : Prop :=
  ∃ count, count + next.cursor.rest.length ≤ scan.cursor.rest.length ∧
    ∀ fuel, scan.run (fuel + count) = next.run fuel

/-- Tokens that lead on from where others have led are reached from the start. -/
theorem Reaches.trans {last : Scan} (h : scan.Reaches next) (hnext : next.Reaches last) :
    scan.Reaches last := by
  obtain ⟨count, hless, hrun⟩ := h
  obtain ⟨more, hmore, hlast⟩ := hnext
  exact ⟨more + count, by omega, fun fuel => by rw [← Nat.add_assoc, hrun, hlast]⟩

/-- A token with a character of its own leads to the scan behind it. -/
theorem reaches_token {c : Char} (h : scan.arrive = .ok arrived)
    (hrest : arrived.cursor.rest = c :: rest) (hnext : arrived.scanToken c rest = .ok next)
    (hless : next.cursor.rest.length < scan.cursor.rest.length) : scan.Reaches next :=
  ⟨1, by omega, fun _ => run_token h hrest hnext⟩

/-! ### Closing block collections -/

/-- The block collections closed are those given, whatever is open in the scan. -/
theorem closeBlocks_setIndents {others : List Nat} :
    (scan.setIndents others).closeBlocks column? indents = scan.closeBlocks column? indents := by
  induction indents generalizing scan with
  | nil => rfl
  | cons indent indents ih =>
    have hemit : ((scan.emit .blockEnd).setIndents others).closeBlocks column? indents
        = (scan.emit .blockEnd).closeBlocks column? indents := ih
    rw [closeBlocks, closeBlocks]
    split
    · exact hemit
    · rfl

/-- A block collection right of the column is closed. -/
theorem closeTo_deeper (h : column?.all (· < indent) = true) :
    (block cursor tokens (indent :: indents) allowed).closeTo column?
      = (block cursor (tokens ++ [.blockEnd]) indents allowed).closeTo column? := by
  have hclose : (block cursor tokens (indent :: indents) allowed).closeTo column?
      = ((block cursor tokens (indent :: indents) allowed).emit .blockEnd).closeBlocks column?
        indents := if_pos h
  have hemit : (block cursor (tokens ++ [.blockEnd]) indents allowed)
      = ((block cursor tokens (indent :: indents) allowed).emit .blockEnd).setIndents indents := by
    simp [block, emit, setIndents]
  rw [hclose, hemit]
  exact closeBlocks_setIndents.symm

/-- Other block collections stay open. -/
theorem closeTo_self (scan : Scan) (houter : scan.outer = [])
    (h : ∀ indent ∈ scan.indents.head?, indent ≤ column) :
    scan.closeTo (some column) = scan := by
  obtain ⟨cursor, tokens, indents, allowed, candidate, outer⟩ := scan
  obtain rfl : outer = [] := houter
  show closeBlocks _ (some column) indents = _
  cases indents with
  | nil => rfl
  | cons indent indents =>
    have hnot : ¬ column < indent := Nat.not_lt.mpr (h indent rfl)
    rw [closeBlocks, if_neg (by simpa using hnot)]
    rfl

/-! ### Gaps -/

/-- A character is visible if it is no gap, begins no comment and marks no byte order. -/
theorem isVisible_iff {c : Char} :
    isVisible c = true ↔ isGap c = false ∧ c ≠ '#' ∧ c ≠ '\ufeff' := by
  simp [isVisible, and_assoc]

/-- No character of a kind is seen if the next one is of another. -/
theorem seesAny_eq_false {p : Char → Bool} (hrest : ∀ c ∈ rest.head?, p c = false) :
    Cursor.seesAny ⟨rest, index, line, column⟩ p = false := by
  cases rest with
  | nil => rfl
  | cons c rest => exact hrest c rfl

/-- A character is not seen if the next one is another. -/
theorem sees_eq_false {b : Char} (hrest : ∀ c ∈ rest.head?, c ≠ b) :
    Cursor.sees ⟨rest, index, line, column⟩ b = false := by
  cases rest with
  | nil => rfl
  | cons c rest => simpa [Cursor.sees, Cursor.peek?] using hrest c rfl

/-- Spaces before a token are skipped. -/
theorem skipGaps_indentation (count : Nat) (hrest : ∀ c ∈ rest.head?, isVisible c = true) :
    (Scan.mk ⟨indentation count ++ rest, index, line, column⟩ tokens.toArray indents allowed
      candidate []).skipGaps (fuel + 1)
        = Scan.mk ⟨rest, index + count, line, column + count⟩ tokens.toArray indents allowed
          candidate [] := by
  have hvisible : ∀ c ∈ rest.head?, isGap c = false ∧ c ≠ '#' ∧ c ≠ '\ufeff' := fun c hc =>
    isVisible_iff.mp (hrest c hc)
  have hmark : Cursor.sees ⟨indentation count ++ rest, index, line, column⟩ '\ufeff' = false := by
    refine sees_eq_false fun c hc => ?_
    cases count with
    | zero => exact (hvisible c hc).2.2
    | succ count =>
      cases hc
      decide
  -- Outside of brackets tabs are skipped only where no key may begin; here none follows at all.
  have hgap : ∀ c ∈ rest.head?, (c == ' ' || (!allowed && c == '\t')) = false := fun c hc => by
    have hspace := isSpace_of_isGap (hvisible c hc).1
    rw [isSpace, Bool.or_eq_false_iff] at hspace
    rw [hspace.1, hspace.2, Bool.and_false, Bool.or_false]
  have htake : (indentation count ++ rest).takeWhile (fun c => c == ' ' || (!allowed && c == '\t'))
      = indentation count :=
    takeWhile_front (fun c hc => by rw [List.eq_of_mem_replicate hc]; rfl) hgap
  have hcomment : Cursor.sees ⟨rest, index + count, line, column + count⟩ '#' = false :=
    sees_eq_false fun c hc => (hvisible c hc).2.1
  have hbreak : Cursor.seesAny ⟨rest, index + count, line, column + count⟩ isBreak = false :=
    seesAny_eq_false fun c hc => isBreak_of_isGap (hvisible c hc).1
  rw [skipGaps]
  simp only [inFlow, List.isEmpty_nil, Bool.not_true, Bool.false_or, hmark, Bool.and_false,
    Bool.false_eq_true, if_false, Cursor.skipRun, Cursor.takeRun, htake, length_indentation,
    Cursor.advance, List.drop_left' (length_indentation count), Cursor.skipComment, hcomment,
    hbreak]
  rfl

/-- A line break is skipped.  A key may begin in the next line. -/
theorem skipGaps_line :
    (Scan.mk ⟨'\n' :: rest, index, line, column⟩ tokens.toArray indents allowed candidate
      []).skipGaps (fuel + 1)
        = (Scan.mk ⟨rest, index + 1, line + 1, 0⟩ tokens.toArray indents true candidate
          []).skipGaps fuel := by
  simp [skipGaps, inFlow, Cursor.sees, Cursor.peek?, Cursor.skipRun, Cursor.takeRun,
    Cursor.skipComment, Cursor.seesAny, Cursor.advance, Cursor.takeBreak, moveTo, allowKey, isBreak]

/-! ### Arriving -/

/-- No candidate, or one that is given up at a line. -/
def Stale (candidate : KeyCandidate) (line : Nat) : Prop :=
  candidate = .none ∨
    candidate.possible = true ∧ candidate.required = false ∧ candidate.line < line

/-- A candidate from an earlier line is given up. -/
theorem expireAll_of_stale (h : Stale candidate line) :
    (Scan.mk ⟨rest, index, line, column⟩ tokens.toArray indents allowed candidate []).expireAll
      = .ok (block ⟨rest, index, line, column⟩ tokens indents allowed) := by
  have hexpire : expire ⟨rest, index, line, column⟩ candidate = .ok .none := by
    rcases h with rfl | ⟨hpossible, hrequired, hline⟩
    · rfl
    · simp [expire, hpossible, hrequired, hline]
  rw [expireAll]
  simp only [bind, Except.bind, hexpire]
  rfl

/-- Behind the gaps a scan arrives with those block collections closed that end there. -/
theorem arrive_of_skipGaps (hstale : Stale candidate line)
    (hskip : scan.skipGaps (scan.cursor.rest.length + 1)
      = ⟨⟨rest, index, line, column⟩, tokens.toArray, indents, allowed, candidate, []⟩) :
    scan.arrive = .ok ((block ⟨rest, index, line, column⟩ tokens indents allowed).closeTo
      (if rest.isEmpty then none else some column)) := by
  rw [arrive, hskip, expireAll_of_stale hstale]
  rfl

/-- A scan comes to a line: behind gaps, and with block collections closed, only these tokens have
    been found and these block collections are open. -/
def Before (scan : Scan) (rest : List Char) (column? : Option Nat) (tokens : List Token)
    (indents : List Nat) : Prop :=
  rest.length ≤ scan.cursor.rest.length ∧ ∃ index line, scan.arrive
    = .ok ((block ⟨rest, index, line, column?.getD 0⟩ tokens indents true).closeTo column?)

/-- A block collection ends before a line in an outer column. -/
theorem Before.close (h : scan.Before rest column? tokens (indent :: indents))
    (hcolumn : column?.all (· < indent) = true) :
    scan.Before rest column? (tokens ++ [.blockEnd]) indents := by
  obtain ⟨hless, index, line, harrive⟩ := h
  rw [closeTo_deeper hcolumn] at harrive
  exact ⟨hless, index, line, harrive⟩

/-- Behind the gaps a line begins. -/
theorem before_of_skipGaps (hstale : Stale candidate line)
    (hcolumn : column? = if rest.isEmpty then none else some (column?.getD 0))
    (hless : rest.length ≤ scan.cursor.rest.length)
    (hskip : scan.skipGaps (scan.cursor.rest.length + 1)
      = ⟨⟨rest, index, line, column?.getD 0⟩, tokens.toArray, indents, true, candidate, []⟩) :
    scan.Before rest column? tokens indents := by
  have harrive := arrive_of_skipGaps hstale hskip
  rw [← hcolumn] at harrive
  exact ⟨hless, index, line, harrive⟩

/-- At the end of a line. -/
theorem before_of_line (h : Lands after column? rest) (hstale : Stale candidate (line + 1)) :
    (Scan.mk ⟨'\n' :: after, index, line, column⟩ tokens.toArray indents allowed candidate
      []).Before rest column? tokens indents := by
  obtain ⟨rfl, hrest⟩ := h.eq_append
  have hless : rest.length ≤ ('\n' :: (indentation (column?.getD 0) ++ rest)).length := by
    rw [List.length_cons, List.length_append]
    omega
  have hskip : (Scan.mk ⟨'\n' :: (indentation (column?.getD 0) ++ rest), index, line, column⟩
      tokens.toArray indents allowed candidate []).skipGaps
        (('\n' :: (indentation (column?.getD 0) ++ rest)).length + 1)
      = Scan.mk ⟨rest, index + 1 + column?.getD 0, line + 1, 0 + column?.getD 0⟩ tokens.toArray
        indents true candidate [] := by
    rw [skipGaps_line, List.length_cons, skipGaps_indentation _ hrest]
  rw [Nat.zero_add] at hskip
  exact before_of_skipGaps hstale h.column?_eq hless hskip

/-- At the front of a line. -/
theorem before_of_lands (h : Lands after column? rest) (hstale : Stale candidate line) :
    (Scan.mk ⟨rest, index, line, column?.getD 0⟩ tokens.toArray indents true candidate
      []).Before rest column? tokens indents := by
  have hskip : (Scan.mk ⟨rest, index, line, column?.getD 0⟩ tokens.toArray indents true candidate
      []).skipGaps (rest.length + 1) = Scan.mk ⟨rest, index + 0, line, column?.getD 0 + 0⟩
        tokens.toArray indents true candidate [] := skipGaps_indentation 0 h.eq_append.2
  exact before_of_skipGaps hstale h.column?_eq le_rfl hskip

/-- Spaces before a token. -/
theorem arrive_indentation {c : Char} (count : Nat) (hc : isVisible c = true)
    (hindents : ∀ indent ∈ indents.head?, indent ≤ column + count) :
    (block ⟨indentation count ++ c :: rest, index, line, column⟩ tokens indents allowed).arrive
      = .ok (block ⟨c :: rest, index + count, line, column + count⟩ tokens indents allowed) := by
  have hskip : (block ⟨indentation count ++ c :: rest, index, line, column⟩ tokens indents
      allowed).skipGaps ((indentation count ++ c :: rest).length + 1)
        = block ⟨c :: rest, index + count, line, column + count⟩ tokens indents allowed :=
    skipGaps_indentation count (by rintro _ ⟨⟩; exact hc)
  have harrive : (block ⟨indentation count ++ c :: rest, index, line, column⟩ tokens indents
      allowed).arrive = .ok _ := arrive_of_skipGaps (Or.inl rfl) hskip
  rw [harrive]
  exact congrArg Except.ok (closeTo_self _ rfl hindents)

/-- A token that begins at once. -/
theorem arrive_token {c : Char} (hc : isVisible c = true)
    (hindents : ∀ indent ∈ indents.head?, indent ≤ column) :
    (block ⟨c :: rest, index, line, column⟩ tokens indents allowed).arrive
      = .ok (block ⟨c :: rest, index, line, column⟩ tokens indents allowed) :=
  arrive_indentation 0 hc hindents

/-- A space between two tokens. -/
theorem arrive_space {c : Char} (hc : isVisible c = true)
    (hindents : ∀ indent ∈ indents.head?, indent ≤ column + 1) :
    (block ⟨' ' :: c :: rest, index, line, column⟩ tokens indents allowed).arrive
      = .ok (block ⟨c :: rest, index + 1, line, column + 1⟩ tokens indents allowed) :=
  arrive_indentation 1 hc hindents

end Scan

end GridLookup.Yaml
