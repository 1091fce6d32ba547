import GridLookup.Proofs.Yaml.Lines

namespace GridLookup.Yaml

/-!
# Scanning values and keys

What a scan finds where a key, a dash or a value begins.

* `Scan.Before.dash`, `Scan.Before.field` — a dash or a name with its colon, and the block
  collection that it opens.
* `Scan.finds_plain`, `Scan.finds_quoted`, `Scan.finds_literal` — a text in each style.
* `Scan.leads_brackets` — an empty collection.
-/

namespace Scan

variable {scan arrived next : Scan} {cursor : Cursor} {tokens : List Token} {indents : List Nat}
  {allowed : Bool} {column? : Option Nat} {rest after : List Char} {candidate : KeyCandidate}
  {index line column indent fuel count : Nat}

/-! ### Block collections -/

/-- A block collection begins at a column: it is open already, or it is opened by a token and is
    deeper than what is open. -/
inductive Opens (token : Token) (column : Nat) : List Nat → List Nat → List Token → Prop where
  /-- It is open. -/
  | again {outer : List Nat} : Opens token column (column :: outer) outer []
  /-- It is opened. -/
  | first {outer : List Nat} (h : ∀ indent ∈ outer.head?, indent < column) :
      Opens token column outer outer [token]

/-- A block collection is opened with its token, unless it is open already. -/
theorem openBlock_of_opens {token : Token} {outer : List Nat} {opening before more : List Token}
    (h : Opens token column indents outer opening) :
    (Scan.mk cursor (before ++ more).toArray indents allowed candidate []).openBlock column
        before.length token
      = Scan.mk cursor (before ++ (opening ++ more)).toArray (column :: outer) allowed candidate
          [] := by
  cases h with
  | again => 
    have hnot : ¬ ((column :: outer).head?.all (· < column)) = true := by simp
    exact if_neg hnot
  | first h =>
    have hdeeper : indents.head?.all (· < column) = true := by
      cases indents with
      | nil => rfl
      | cons indent indents => simpa using h indent rfl
    refine (if_pos hdeeper).trans ?_
    simp [emitAt, setIndents]

/-- Nothing deeper than a block collection is open where it begins. -/
theorem Opens.le {token : Token} {outer : List Nat} {opening : List Token}
    (h : Opens token column indents outer opening) : ∀ indent ∈ indents.head?, indent ≤ column := by
  cases h with
  | again =>
    rintro _ ⟨⟩
    exact le_rfl
  | first h => exact fun indent hindent => (h indent hindent).le

/-- A token that was found is put behind the others. -/
theorem emit_toArray {token : Token} {outer : List KeyCandidate} :
    (Scan.mk cursor tokens.toArray indents allowed candidate outer).emit token
      = Scan.mk cursor (tokens ++ [token]).toArray indents allowed candidate outer := by
  simp [emit]

/-- A dash begins an entry. -/
theorem scanDash_block {outer : List Nat} {opening : List Token} {c : Char}
    (h : Opens .blockSequence column indents outer opening) :
    (block ⟨c :: rest, index, line, column⟩ tokens indents true).scanDash
      = .ok (block ⟨rest, index + 1, line, column + 1⟩ (tokens ++ opening ++ [.blockEntry])
          (column :: outer) true) := by
  have hopen : (block ⟨c :: rest, index, line, column⟩ (tokens ++ []) indents true).openBlock column
      tokens.length .blockSequence
        = block ⟨c :: rest, index, line, column⟩ (tokens ++ (opening ++ [])) (column :: outer)
            true := openBlock_of_opens h
  rw [List.append_nil, List.append_nil] at hopen
  have hfront : (block ⟨c :: rest, index, line, column⟩ tokens indents true).scanDash
      = ((block ⟨c :: rest, index, line, column⟩ tokens indents true).openBlock column tokens.length
          .blockSequence).dropCandidate >>= fun scan =>
        .ok (((scan.allowKey true).moveTo (scan.cursor.advance 1)).emit .blockEntry) := rfl
  rw [hfront, hopen]
  exact congrArg Except.ok emit_toArray

/-- A colon makes the token before it a key. -/
theorem scanColon_key {outer : List Nat} {opening more : List Token} {c : Char}
    {required : Bool} {keyIndex keyLine keyColumn : Nat}
    (h : Opens .blockMapping keyColumn indents outer opening) :
    (Scan.mk ⟨c :: rest, index, line, column⟩ (tokens ++ more).toArray indents allowed
      ⟨true, required, tokens.length, keyIndex, keyLine, keyColumn⟩ []).scanColon
        = .ok (block ⟨rest, index + 1, line, column + 1⟩
          (tokens ++ (opening ++ .key :: more) ++ [.value]) (keyColumn :: outer) false) := by
  have hkey : (Scan.mk ⟨c :: rest, index, line, column⟩ (tokens ++ more).toArray indents allowed
      ⟨true, required, tokens.length, keyIndex, keyLine, keyColumn⟩ []).emitAt tokens.length .key
        = Scan.mk ⟨c :: rest, index, line, column⟩ (tokens ++ .key :: more).toArray indents allowed
          ⟨true, required, tokens.length, keyIndex, keyLine, keyColumn⟩ [] := by
    simp [emitAt]
  rw [scanColon]
  simp only [if_true, hkey, openBlock_of_opens h]
  exact congrArg Except.ok emit_toArray

/-- The dash in front of an entry, and the block collection that it opens. -/
theorem Before.dash {outer : List Nat} {opening : List Token}
    (h : scan.Before ('-' :: rest) (some column) tokens indents)
    (hopens : Opens .blockSequence column indents outer opening) (hrest : gapAhead rest = true) :
    ∃ index line, scan.Reaches (block ⟨rest, index, line, column + 1⟩
      (tokens ++ opening ++ [.blockEntry]) (column :: outer) true) := by
  obtain ⟨hless, index, line, harrive⟩ := h
  rw [closeTo_self _ rfl hopens.le] at harrive
  -- A dash before a gap is no mark of a document, which has three dashes in a row.
  have hmark : Cursor.atDocumentMark ⟨'-' :: rest, index, line, column⟩ = false := by
    cases rest with
    | nil => simp [Cursor.atDocumentMark]
    | cons c rest =>
      have hc : c ≠ '-' := by
        rintro rfl
        cases hrest
      simp [Cursor.atDocumentMark, hc]
  have htoken : (block ⟨'-' :: rest, index, line, column⟩ tokens indents true).scanToken '-' rest
      = (block ⟨'-' :: rest, index, line, column⟩ tokens indents true).scanDash := by
    simp [scanToken, block, hmark, hrest]
  exact ⟨index + 1, line, reaches_token harrive rfl (htoken.trans (scanDash_block hopens))
    (Nat.lt_of_succ_le hless)⟩

/-! ### Texts without quotes -/

/-- The characters that no text without quotes begins with. -/
theorem frontIndicators_eq : frontIndicators = ['#', ',', '[', ']', '\x7b', '\x7d', '&', '*', '!',
    '|', '>', '\x27', '\x22', '%', '@', '\x60'] := by decide +kernel

/-- The indicators are these characters and the three that may begin a word. -/
theorem isIndicator_eq (c : Char) :
    isIndicator c = (['-', '?', ':'].contains c || frontIndicators.contains c) := by
  have hindicators : "-?:,[]\x7b\x7d#&*!|>\x27\x22%@\x60".toList = ['-', '?', ':', ',', '[', ']',
      '\x7b', '\x7d', '#', '&', '*', '!', '|', '>', '\x27', '\x22', '%', '@', '\x60'] := by
    decide +kernel
  rw [isIndicator, hindicators, frontIndicators_eq, Bool.eq_iff_iff]
  simp only [List.contains_cons, List.contains_nil, Bool.or_false, Bool.or_eq_true, beq_iff_eq]
  tauto

/-- A text without quotes begins where no other token does. -/
theorem scanToken_plain {c : Char} (hmark : scan.cursor.atDocumentMark = false)
    (houter : scan.outer = []) (hgap : isGap c = false) (hfront : c ∉ frontIndicators)
    (hapart : c = '-' ∨ c = '?' ∨ c = ':' → gapAhead rest = false) :
    scan.scanToken c rest = scan.scanPlain := by
  have hflow : scan.inFlow = false := by rw [inFlow, houter]; rfl
  -- Three indicators may begin a text all the same, if no gap follows.
  have hstarts : startsPlain false c rest = true := by
    by_cases hc : c ∈ ['-', '?', ':']
    · have hrest := hapart (by simpa using hc)
      have hspace : rest.head?.any isSpace = false := by
        cases rest with
        | nil => rfl
        | cons b rest => exact isSpace_of_isGap hrest
      simp only [List.mem_cons, List.not_mem_nil, or_false] at hc
      rcases hc with rfl | rfl | rfl <;> simp [startsPlain, hrest, hspace]
    · have hindicator : isIndicator c = false := by
        rw [isIndicator_eq, Bool.or_eq_false_iff]
        exact ⟨by simpa using hc, by simpa using hfront⟩
      simp [startsPlain, hindicator, hgap]
  -- The tests in front of the last one, for entries and keys, all ask for a gap behind.
  have hno : ∀ b, b = '-' ∨ b = '?' ∨ b = ':' → (c == b && gapAhead rest) = false := fun b hb => by
    rw [Bool.and_eq_false_imp]
    intro hc
    obtain rfl : c = b := by simpa using hc
    exact hapart hb
  rw [frontIndicators_eq] at hfront
  simp only [List.mem_cons, not_or, List.not_mem_nil, not_false_eq_true, and_true] at hfront
  simp [scanToken, hmark, hflow, hstarts, hno, hfront]

/-- A mark of a document begins with a dash or a dot. -/
theorem atDocumentMark_cons {c : Char} (hdash : c ≠ '-') (hdot : c ≠ '.') :
    Cursor.atDocumentMark ⟨c :: rest, index, line, column⟩ = false := by
  simp [Cursor.atDocumentMark, hdash, hdot]

/-- A text without quotes is no mark of a document. -/
theorem atDocumentMark_of_plain {text : List Char} {b : Char} (h : beginsWithIndicator text = false)
    (hdash : b ≠ '-') (hdot : b ≠ '.') :
    Cursor.atDocumentMark ⟨text ++ b :: after, index, line, column⟩ = false := by
  rcases text with _ | ⟨x, _ | ⟨y, _ | ⟨z, text⟩⟩⟩
  · simp [Cursor.atDocumentMark, hdash, hdot]
  · simp [Cursor.atDocumentMark, hdash, hdot]
  · simp [Cursor.atDocumentMark, hdash, hdot]
  · have hfront : ["---".toList, "...".toList].contains ((x :: y :: z :: text).take 3) = false :=
      (Bool.or_eq_false_iff.mp h).1
    have htake : ((x :: y :: z :: text ++ b :: after).take 3 == ['-', '-', '-']
        || (x :: y :: z :: text ++ b :: after).take 3 == ['.', '.', '.']) = false := by
      simpa using hfront
    simp only [Cursor.atDocumentMark, htake, Bool.and_false, Bool.false_and]

/-- What may stand without quotes begins with no indicator. -/
theorem beginsWithIndicator_of_allowsPlain {text : List Char} (h : allowsPlain text = true) :
    beginsWithIndicator text = false := by
  simp only [allowsPlain, Bool.and_eq_true, Bool.not_eq_true'] at h
  exact h.1.1.2

/-- What may stand without quotes begins with a visible character. -/
theorem isVisible_of_allowsPlain {c : Char} {more : List Char}
    (h : allowsPlain (c :: more) = true) : isVisible c = true := by
  obtain ⟨_, _, hhead, hgap, hmark⟩ :=
    (words_of_allowsPlain h (List.cons_ne_nil c more)).1.head
  obtain ⟨rfl, rfl⟩ := List.cons.inj hhead
  refine isVisible_iff.mpr ⟨hgap, hmark, ?_⟩
  rintro rfl
  -- A mark of the byte order needs an escape.
  simp only [allowsPlain, allowsSingle, needsNoEscape, Bool.and_eq_true] at h
  have hprintable := List.all_eq_true.mp h.1.1.1.1.1.1.1.1 '\ufeff' List.mem_cons_self
  revert hprintable
  decide

/-- A text with no gap ahead has none with more behind it. -/
theorem gapAhead_append_of_gapAhead {more : List Char} (h : gapAhead more = false) :
    gapAhead (more ++ rest) = false := by
  cases more with
  | nil => cases h
  | cons c more => exact h

/-- The front of a text without quotes. -/
theorem scanToken_of_allowsPlain {c b : Char} {more : List Char}
    (h : allowsPlain (c :: more) = true) (hdash : b ≠ '-') (hdot : b ≠ '.') :
    (block ⟨c :: more ++ b :: after, index, line, column⟩ tokens indents allowed).scanToken c
        (more ++ b :: after)
      = (block ⟨c :: more ++ b :: after, index, line, column⟩ tokens indents
          allowed).scanPlain := by
  obtain ⟨hwords, hkey⟩ := words_of_allowsPlain h (List.cons_ne_nil c more)
  have hfront := beginsWithIndicator_of_allowsPlain h
  obtain ⟨_, _, hhead, hgap, -⟩ := hwords.head
  obtain ⟨rfl, rfl⟩ := List.cons.inj hhead
  refine scanToken_plain (atDocumentMark_of_plain hfront hdash hdot) rfl hgap ?_ fun hc => ?_
  · intro hmem
    simp [beginsWithIndicator, hmem] at hfront
  · -- For a dash and a question mark this is said by the test of the first character, for a colon
    -- by the test for ends of keys.
    refine gapAhead_append_of_gapAhead ?_
    rcases hc with rfl | rfl | rfl
    · simpa using (Bool.or_eq_false_iff.mp (Bool.or_eq_false_iff.mp hfront).2).2
    · simpa using (Bool.or_eq_false_iff.mp (Bool.or_eq_false_iff.mp hfront).2).2
    · simpa using (Bool.or_eq_false_iff.mp hkey).1

/-- The candidate that a token is. -/
def candidateAt (cursor : Cursor) (tokens : List Token) (indents : List Nat) (allowed : Bool) :
    KeyCandidate :=
  if allowed then
    ⟨true, indents.head? == some cursor.column, tokens.length, cursor.index, cursor.line,
      cursor.column⟩
  else .none

/-- The next token becomes the candidate for a key. -/
theorem markCandidate_block : (block cursor tokens indents allowed).markCandidate
    = .ok ⟨cursor, tokens.toArray, indents, allowed, candidateAt cursor tokens indents allowed,
      []⟩ := by
  cases allowed <;> rfl

/-- A text without quotes becomes a token. -/
theorem scanPlain_block {read : ReadText}
    (h : readPlain false (indents.head?.elim 0 (· + 1)) (cursor.rest.length + 1) [] .none cursor
      = .ok read) :
    (block cursor tokens indents allowed).scanPlain
      = .ok ⟨read.cursor, (tokens ++ [Token.text .plain (String.ofList read.text)]).toArray,
        indents, read.folded, candidateAt cursor tokens indents allowed, []⟩ := by
  unfold scanPlain
  rw [markCandidate_block]
  cases indents with
  | nil =>
    simp only [List.head?_nil, Option.elim] at h
    simp only [bind, Except.bind, List.head?_nil, inFlow, List.isEmpty_nil, Bool.not_true, h]
    exact congrArg Except.ok emit_toArray
  | cons indent indents =>
    simp only [List.head?_cons, Option.elim] at h
    simp only [bind, Except.bind, List.head?_cons, inFlow, List.isEmpty_nil, Bool.not_true, h]
    exact congrArg Except.ok emit_toArray

/-! ### Keys -/

/-- The name of a field: a single word, not too long, that can stand without quotes. -/
structure IsFieldName (name : List Char) : Prop where
  /-- It is a word. -/
  word : IsWord name
  /-- It needs no quotes. -/
  plain : allowsPlain name = true
  /-- It is not too long for a key. -/
  short : name.length ≤ 1024

section Field

variable {name : List Char} {outer : List Nat} {opening : List Token}

/-- A scan behind a name, with the name as key candidate. -/
def named (name rest : List Char) (index line column : Nat) (tokens : List Token)
    (indents : List Nat) : Scan :=
  ⟨⟨':' :: rest, index + name.length, line, column + name.length⟩,
    (tokens ++ [Token.text .plain (String.ofList name)]).toArray, indents, false,
    ⟨true, indents.head? == some column, tokens.length, index, line, column⟩, []⟩

/-- A name in front of a colon is found. -/
theorem scanToken_name {c : Char} {more : List Char} (hname : IsFieldName (c :: more))
    (hindents : ∀ indent ∈ indents.head?, indent ≤ column) (hrest : gapAhead rest = true) :
    (block ⟨c :: more ++ ':' :: rest, index, line, column⟩ tokens indents true).scanToken c
        (more ++ ':' :: rest)
      = .ok (named (c :: more) rest index line column tokens indents) := by
  have hkey := (words_of_allowsPlain hname.plain hname.word.nonempty).2
  have hmark : Cursor.atDocumentMark ⟨c :: more ++ ':' :: rest, index, line, column⟩ = false :=
    atDocumentMark_of_plain (beginsWithIndicator_of_allowsPlain hname.plain) (by decide) (by decide)
  have hright : indents.head?.elim 0 (· + 1) ≤ column + (c :: more).length := by
    rw [List.length_cons]
    cases indents with
    | nil => exact Nat.zero_le _
    | cons indent indents =>
      have hle := hindents indent rfl
      show indent + 1 ≤ _
      omega
  -- The reader stops at the colon of the key, so the name stays a candidate for it.
  have hread : readPlain false (indents.head?.elim 0 (· + 1))
      ((c :: more ++ ':' :: rest).length + 1) [] .none
      ⟨c :: more ++ ':' :: rest, index, line, column⟩
        = .ok ⟨c :: more, ⟨':' :: rest, index + (c :: more).length, line,
          column + (c :: more).length⟩, false⟩ :=
    readPlain_key hname.word hkey hrest hmark hright
  exact (scanToken_of_allowsPlain hname.plain (by decide) (by decide)).trans (scanPlain_block hread)

/-- Behind a name there is nothing to skip. -/
theorem arrive_named (hindents : ∀ indent ∈ indents.head?, indent ≤ column)
    (hname : name.length ≤ 1024) :
    (named name rest index line column tokens indents).arrive
      = .ok (named name rest index line column tokens indents) := by
  have hskip : (named name rest index line column tokens indents).skipGaps
      ((':' :: rest).length + 1) = named name rest index line column tokens indents :=
    skipGaps_indentation 0 (by rintro _ ⟨⟩; rfl)
  -- The candidate is on this line and not too far back, so it does not expire.
  have hexpire : expire ⟨':' :: rest, index + name.length, line, column + name.length⟩
      ⟨true, indents.head? == some column, tokens.length, index, line, column⟩
        = .ok ⟨true, indents.head? == some column, tokens.length, index, line, column⟩ := by
    simp [expire, hname]
  have hright : ∀ indent ∈ indents.head?, indent ≤ column + name.length := fun indent hindent =>
    (hindents indent hindent).trans (Nat.le_add_right _ _)
  have hexpireAll : (named name rest index line column tokens indents).expireAll
      = .ok (named name rest index line column tokens indents) := by
    rw [named, expireAll]
    simp only [bind, Except.bind, hexpire]
    rfl
  have hlength : (named name rest index line column tokens indents).cursor.rest.length
      = (':' :: rest).length := rfl
  rw [arrive, hlength, hskip, hexpireAll]
  exact congrArg Except.ok (closeTo_self _ rfl hright)

/-- The colon makes the name before it a key. -/
theorem scanToken_named (hname : 0 < name.length)
    (hopens : Opens .blockMapping column indents outer opening) (hrest : gapAhead rest = true) :
    (named name rest index line column tokens indents).scanToken ':' rest
      = .ok (block ⟨rest, index + name.length + 1, line, column + name.length + 1⟩
        (tokens ++ (opening ++ [.key, .text .plain (String.ofList name)]) ++ [.value])
        (column :: outer) false) := by
  have hmark : Cursor.atDocumentMark
      ⟨':' :: rest, index + name.length, line, column + name.length⟩ = false :=
    atDocumentMark_of_pos (Nat.add_pos_right column hname)
  have hcolon : (named name rest index line column tokens indents).scanToken ':' rest
      = (named name rest index line column tokens indents).scanColon := by
    simp [scanToken, named, hmark, hrest, inFlow]
  rw [hcolon, named]
  exact scanColon_key hopens

/-- The name in front of a field, and the block collection that it opens. -/
theorem Before.field (h : scan.Before (name ++ ':' :: rest) (some column) tokens indents)
    (hname : IsFieldName name) (hopens : Opens .blockMapping column indents outer opening)
    (hrest : gapAhead rest = true) :
    ∃ index line, scan.Reaches (block ⟨rest, index, line, column + name.length + 1⟩
      (tokens ++ (opening ++ [.key, .text .plain (String.ofList name)]) ++ [.value])
      (column :: outer) false) := by
  obtain ⟨hless, index, line, harrive⟩ := h
  rw [closeTo_self _ rfl hopens.le, Option.getD_some] at harrive
  obtain ⟨c, more, rfl⟩ := List.exists_cons_of_ne_nil hname.word.nonempty
  have hfirst : scan.Reaches (named (c :: more) rest index line column tokens indents) := by
    refine reaches_token harrive rfl (scanToken_name hname hopens.le hrest) ?_
    rw [List.length_append, List.length_cons] at hless
    show (':' :: rest).length < _
    omega
  exact ⟨index + (c :: more).length + 1, line, hfirst.trans
    (reaches_token (arrive_named hopens.le hname.short) rfl
      (scanToken_named (Nat.succ_pos _) hopens hrest) (Nat.lt_succ_self _))⟩

end Field

/-! ### Values -/

/-- The next token is found, and behind it a line begins. -/
def Finds (scan : Scan) (rest : List Char) (column? : Option Nat) (tokens : List Token)
    (indents : List Nat) : Prop :=
  ∃ c more next, scan.cursor.rest = c :: more ∧ isVisible c = true ∧
    scan.scanToken c more = .ok next ∧ next.cursor.rest.length ≤ more.length ∧
    next.Before rest column? tokens indents

/-- Some tokens are found, and behind them a line begins. -/
def Leads (scan : Scan) (rest : List Char) (column? : Option Nat) (tokens : List Token)
    (indents : List Nat) : Prop :=
  ∃ next, scan.Reaches next ∧ next.Before rest column? tokens indents

/-- A line begins that does not belong to the last value: it begins no deeper than the block
    collection that the value stands in, or the text ends. -/
structure Follows (indents : List Nat) (after : List Char) (column? : Option Nat)
    (rest : List Char) : Prop where
  /-- A line begins. -/
  lands : Lands after column? rest
  /-- A value outside of all collections is the last one. -/
  top : indents = [] → after = []
  /-- The line is not part of the value. -/
  le : ∀ indent ∈ indents.head?, column?.getD 0 ≤ indent

/-- A line that does not belong to a value is less than two columns deeper than what the value
    stands in. -/
theorem Follows.less (h : Follows indents after column? rest) :
    column?.getD 0 < indents.head?.getD 0 + 2 := by
  cases indents with
  | nil =>
    have hlands := h.lands
    rw [h.top rfl] at hlands
    rw [hlands.column?_eq, hlands.eq_nil]
    exact Nat.succ_pos 1
  | cons indent indents =>
    have hle := h.le indent rfl
    show _ < indent + 2
    omega

/-- Every text is made of its characters. -/
theorem exists_ofList (content : String) : ∃ text, content = String.ofList text :=
  ⟨content.toList, String.ofList_toList.symm⟩

section Values

variable {content : String}

/-- Behind the end of its line a token is no candidate any more. -/
theorem stale_candidateAt (hindents : ∀ indent ∈ indents.head?, indent < cursor.column)
    (hline : cursor.line < line) : Stale (candidateAt cursor tokens indents allowed) line := by
  cases allowed with
  | false => exact Or.inl rfl
  | true =>
    refine Or.inr ⟨rfl, ?_, hline⟩
    cases indents with
    | nil => rfl
    | cons indent indents =>
      have hne := (hindents indent rfl).ne
      simpa [candidateAt] using hne

/-- On its own line a candidate is kept. -/
theorem expire_candidateAt {width : Nat} :
    expire ⟨after, index + 1, line, width⟩
        (candidateAt ⟨rest, index, line, column⟩ tokens indents allowed)
      = .ok (candidateAt ⟨rest, index, line, column⟩ tokens indents allowed) := by
  cases allowed
  · rfl
  · simp [expire, candidateAt]

/-- A token that is found where a scan arrives leads on from the scan. -/
theorem Finds.leads (harrive : scan.arrive = .ok arrived)
    (hless : arrived.cursor.rest.length ≤ scan.cursor.rest.length)
    (h : arrived.Finds rest column? tokens indents) : scan.Leads rest column? tokens indents := by
  obtain ⟨c, more, next, hrest, -, htoken, hlength, hbefore⟩ := h
  rw [hrest, List.length_cons] at hless
  exact ⟨next, reaches_token harrive hrest htoken (by omega), hbefore⟩

/-- A token that begins at once. -/
theorem Finds.leads_token {text : List Char} {found : List Token} {outer : List Nat}
    (h : (block ⟨text, index, line, column⟩ tokens indents allowed).Finds rest column? found outer)
    (hindents : ∀ indent ∈ indents.head?, indent ≤ column) :
    (block ⟨text, index, line, column⟩ tokens indents allowed).Leads rest column? found outer := by
  obtain ⟨c, more, next, hrest, hvisible, hfound⟩ := h
  obtain rfl : text = c :: more := hrest
  exact Finds.leads (arrive_token hvisible hindents) le_rfl ⟨c, more, next, rfl, hvisible, hfound⟩

/-- A token behind a space. -/
theorem Finds.leads_space {text : List Char} {found : List Token} {outer : List Nat}
    (h : (block ⟨text, index + 1, line, column + 1⟩ tokens indents allowed).Finds rest column? found
      outer) (hindents : ∀ indent ∈ indents.head?, indent ≤ column + 1) :
    (block ⟨' ' :: text, index, line, column⟩ tokens indents allowed).Leads rest column? found
      outer := by
  obtain ⟨c, more, next, hrest, hvisible, hfound⟩ := h
  obtain rfl : text = c :: more := hrest
  exact Finds.leads (arrive_space hvisible hindents) (Nat.le_succ _)
    ⟨c, more, next, rfl, hvisible, hfound⟩

/-- A text without quotes. -/
theorem finds_plain (hplain : allowsPlain content.toList = true) (hsome : content.toList ≠ [])
    (hindents : ∀ indent ∈ indents.head?, indent < column)
    (hfollows : Follows indents after column? rest) :
    (block ⟨content.toList ++ '\n' :: after, index, line, column⟩ tokens indents allowed).Finds rest
      column? (tokens ++ [.text .plain content]) indents := by
  obtain ⟨text, rfl⟩ := exists_ofList content
  rw [String.toList_ofList] at hplain hsome ⊢
  obtain ⟨hwords, hkey⟩ := words_of_allowsPlain hplain hsome
  have hmark : Cursor.atDocumentMark ⟨text ++ '\n' :: after, index, line, column⟩ = false :=
    atDocumentMark_of_plain (beginsWithIndicator_of_allowsPlain hplain) (by decide) (by decide)
  have hright : indents.head?.elim 0 (· + 1) ≤ column := by
    cases indents with
    | nil => exact Nat.zero_le _
    | cons indent indents => exact hindents indent rfl
  -- Plain text may run over several lines. It ends with this one since what follows is indented
  -- less or is the end.
  have hends : column?.getD 0 < indents.head?.elim 0 (· + 1) ∨ after = [] := by
    cases indents with
    | nil => exact Or.inr (hfollows.top rfl)
    | cons indent indents => exact Or.inl (Nat.lt_succ_of_le (hfollows.le indent rfl))
  have hfuel : text.length < (text ++ '\n' :: after).length + 1 := by
    rw [List.length_append]
    omega
  obtain ⟨index', hread⟩ : ∃ index', readPlain false (indents.head?.elim 0 (· + 1))
      ((text ++ '\n' :: after).length + 1) [] .none ⟨text ++ '\n' :: after, index, line, column⟩
        = .ok ⟨text, ⟨rest, index', line + 1, column?.getD 0⟩, true⟩ :=
    readPlain_words hwords hkey hfollows.lands hmark hright hends hfuel
  obtain ⟨c, more, rfl⟩ := List.exists_cons_of_ne_nil hsome
  refine ⟨c, more ++ '\n' :: after, _, rfl, isVisible_of_allowsPlain hplain,
    (scanToken_of_allowsPlain hplain (by decide) (by decide)).trans (scanPlain_block hread), ?_,
    before_of_lands hfollows.lands (stale_candidateAt hindents (Nat.lt_succ_self line))⟩
  rw [hfollows.lands.eq_append.1]
  show rest.length ≤ _
  simp only [List.length_append, List.length_cons]
  omega

/-- A quote begins a text of its style. -/
theorem scanToken_quote {single : Bool} :
    (block ⟨quote single :: rest, index, line, column⟩ tokens indents allowed).scanToken
        (quote single) rest
      = (block ⟨quote single :: rest, index, line, column⟩ tokens indents allowed).scanQuoted
          (if single then .single else .double) := by
  cases single <;> simp [scanToken, block, quote, inFlow, atDocumentMark_cons]

/-- A text in quotes. -/
theorem finds_quoted {single : Bool} {body : List Char} (hbody : Quoted single body content.toList)
    (hindents : ∀ indent ∈ indents.head?, indent < column) (hland : Lands after column? rest) :
    (block ⟨quote single :: (body ++ quote single :: '\n' :: after), index, line, column⟩ tokens
      indents allowed).Finds rest column?
        (tokens ++ [.text (if single then .single else .double) content]) indents := by
  obtain ⟨text, rfl⟩ := exists_ofList content
  rw [String.toList_ofList] at hbody
  have hquote : ('\n' :: after).head? ≠ some '\'' := by simp
  obtain ⟨index', line', column', hline, hread⟩ : ∃ index' line' column', line ≤ line' ∧
      readQuoted single line ((body ++ quote single :: '\n' :: after).length + 1) []
        ⟨body ++ quote single :: '\n' :: after, index + 1, line, column + 1⟩
          = .ok ⟨text, ⟨'\n' :: after, index', line', column'⟩, false⟩ :=
    readQuoted_of_quoted hbody hquote (Nat.succ_pos column) (by rw [List.length_append]; omega)
  -- Behind the closing quote the text is still a candidate for a key, until the line ends.
  have hscan : (block ⟨quote single :: (body ++ quote single :: '\n' :: after), index, line,
      column⟩ tokens indents allowed).scanQuoted (if single then .single else .double)
        = .ok ⟨⟨'\n' :: after, index', line', column'⟩,
          (tokens ++ [Token.text (if single then .single else .double)
            (String.ofList text)]).toArray, indents, false, candidateAt
              ⟨quote single :: (body ++ quote single :: '\n' :: after), index, line, column⟩ tokens
              indents allowed, []⟩ := by
    have hstyle : ((if single then TextStyle.single else .double) == .single) = single := by
      cases single <;> rfl
    rw [scanQuoted, markCandidate_block]
    simp only [bind, Except.bind, hstyle, Cursor.advance, List.drop_succ_cons, List.drop_zero,
      hread]
    exact congrArg Except.ok emit_toArray
  have hvisible : isVisible (quote single) = true := by cases single <;> rfl
  refine ⟨_, _, _, rfl, hvisible, scanToken_quote.trans hscan, ?_, before_of_line hland
    (stale_candidateAt hindents (Nat.lt_succ_of_le hline))⟩
  show ('\n' :: after).length ≤ _
  simp only [List.length_append, List.length_cons]
  omega

/-- A literal block. -/
theorem finds_literal {body : List Char} (hsome : content.toList ≠ [])
    (hprintable : ∀ c ∈ content.toList, isPrintable c = true)
    (hfollows : Follows indents after column? rest)
    (hbody : spellLiteral (indents.head?.getD 0 + 2) content.toList
      ++ (if endsWithBreak content.toList then [] else ['\n']) = '|' :: body) :
    (block ⟨'|' :: (body ++ after), index, line, column⟩ tokens indents allowed).Finds rest column?
      (tokens ++ [.text .literal content]) indents := by
  obtain ⟨text, rfl⟩ := exists_ofList content
  rw [String.toList_ofList] at hsome hprintable hbody
  obtain ⟨index', line', hline, hread⟩ : ∃ index' line', line < line' ∧
      readBlock false indents.head? ⟨body ++ after, index + 1, line, column + 1⟩
        = .ok (text, ⟨rest, index', line', column?.getD 0⟩) :=
    readBlock_literal hsome hprintable rfl hfollows.lands hfollows.less hbody
  -- Outside of brackets a bar can only begin a literal block.
  have htoken : (block ⟨'|' :: (body ++ after), index, line, column⟩ tokens indents
      allowed).scanToken '|' (body ++ after)
        = (block ⟨'|' :: (body ++ after), index, line, column⟩ tokens indents allowed).scanBlock
          .literal := by
    simp [scanToken, block, inFlow, atDocumentMark_cons]
  have hscan : (block ⟨'|' :: (body ++ after), index, line, column⟩ tokens indents
      allowed).scanBlock .literal
        = .ok (block ⟨rest, index', line', column?.getD 0⟩
          (tokens ++ [Token.text .literal (String.ofList text)]) indents true) := by
    have hdrop : (block ⟨'|' :: (body ++ after), index, line, column⟩ tokens indents
        allowed).dropCandidate
          = .ok (block ⟨'|' :: (body ++ after), index, line, column⟩ tokens indents allowed) := rfl
    rw [scanBlock, hdrop]
    show readBlock false indents.head? ⟨body ++ after, index + 1, line, column + 1⟩ >>= _ = _
    rw [hread]
    exact congrArg Except.ok emit_toArray
  refine ⟨_, _, _, rfl, rfl, htoken.trans hscan, ?_, before_of_lands hfollows.lands (Or.inl rfl)⟩
  rw [hfollows.lands.eq_append.1]
  show rest.length ≤ _
  simp only [List.length_append]
  omega

/-- The brackets of an empty collection. -/
inductive Brackets : Char → Char → Token → Token → Prop where
  /-- Of a list. -/
  | list : Brackets '[' ']' .openSequence .closeSequence
  /-- Of a record. -/
  | record : Brackets '\x7b' '\x7d' .openMapping .closeMapping

/-- A scan between the brackets of an empty collection. -/
def between (rest : List Char) (index line column : Nat) (tokens : List Token) (indents : List Nat)
    (candidate : KeyCandidate) : Scan :=
  ⟨⟨rest, index, line, column⟩, tokens.toArray, indents, true, .none, [candidate]⟩

section Brackets

variable {first last : Char} {opening closing : Token} (h : Brackets first last opening closing)

include h

/-- An opening bracket becomes a token. -/
theorem scanToken_opening :
    (block ⟨first :: rest, index, line, column⟩ tokens indents allowed).scanToken first rest
      = .ok (between rest (index + 1) line (column + 1) (tokens ++ [opening]) indents
        (candidateAt ⟨first :: rest, index, line, column⟩ tokens indents allowed)) := by
  have htoken : (block ⟨first :: rest, index, line, column⟩ tokens indents allowed).scanToken first
      rest = (block ⟨first :: rest, index, line, column⟩ tokens indents allowed).scanOpening
        opening := by
    cases h <;> simp [scanToken, block, atDocumentMark_cons]
  rw [htoken, scanOpening, markCandidate_block, between, ← List.push_toArray]
  rfl

/-- Between the brackets there is nothing to skip. -/
theorem arrive_between
    (hexpire : expire ⟨last :: rest, index, line, column⟩ candidate = .ok candidate) :
    (between (last :: rest) index line column tokens indents candidate).arrive
      = .ok (between (last :: rest) index line column tokens indents candidate) := by
  have hskip : (between (last :: rest) index line column tokens indents candidate).skipGaps
      ((last :: rest).length + 1)
        = between (last :: rest) index line column tokens indents candidate := by
    cases h <;> simp [skipGaps, between, inFlow, Cursor.sees, Cursor.peek?, Cursor.skipRun,
      Cursor.takeRun, Cursor.advance, Cursor.skipComment, Cursor.seesAny, isBreak, moveTo]
  have hlength :
      (between (last :: rest) index line column tokens indents candidate).cursor.rest.length
        = (last :: rest).length := rfl
  rw [arrive, hlength, hskip, expireAll]
  simp only [between, List.mapM_cons, List.mapM_nil, bind, Except.bind, hexpire]
  rfl

/-- A closing bracket becomes a token. -/
theorem scanToken_closing :
    (between (last :: rest) index line column tokens indents candidate).scanToken last rest
      = .ok ⟨⟨rest, index + 1, line, column + 1⟩, (tokens ++ [closing]).toArray, indents, false,
        candidate, []⟩ := by
  have htoken : (between (last :: rest) index line column tokens indents candidate).scanToken last
      rest = (between (last :: rest) index line column tokens indents candidate).scanClosing
        closing := by
    cases h <;> simp [scanToken, between, atDocumentMark_cons]
  rw [htoken, scanClosing, ← List.push_toArray]
  rfl

/-- An empty collection. -/
theorem leads_brackets (hland : Lands after column? rest)
    (hindents : ∀ indent ∈ indents.head?, indent < column)
    (harrive : scan.arrive = .ok (block ⟨first :: last :: '\n' :: after, index, line, column⟩ tokens
      indents allowed))
    (hless : (first :: last :: '\n' :: after).length ≤ scan.cursor.rest.length) :
    scan.Leads rest column? (tokens ++ [opening] ++ [closing]) indents := by
  have hstale : Stale (candidateAt ⟨first :: last :: '\n' :: after, index, line, column⟩ tokens
      indents allowed) (line + 1) := stale_candidateAt hindents (Nat.lt_succ_self line)
  have hopening := reaches_token harrive rfl (scanToken_opening h) (Nat.lt_of_succ_le hless)
  exact ⟨_, hopening.trans (reaches_token (arrive_between h expire_candidateAt) rfl
    (scanToken_closing h) (Nat.lt_succ_self _)), before_of_line hland hstale⟩

end Brackets

end Values

end Scan

end GridLookup.Yaml
