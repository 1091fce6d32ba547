import GridLookup.Proofs.Decimal.Characters
import GridLookup.Proofs.Decimal.NumberText
import GridLookup.Proofs.Yaml.Leaves
import GridLookup.Proofs.Yaml.TreeText

namespace GridLookup.Yaml

/-!
# Numbers in documents

Numbers are written without quotes, and denote themselves.

* `allowsPlain_of_ordinary` — texts whose characters mean nothing by themselves.
* `number?_write` — **every double survives its text**, the infinite and undefined ones included.
* `Leaf.writable`, `Leaf.denoted` — documents can hold every value without parts.
-/

/-! ### Characters of numbers -/

/-- A character that means nothing by itself, wherever it stands. -/
def isOrdinary (c : Char) : Bool := isPrintable c && !isGap c && c != ':' && c != '#'

/-- The characters of numbers mean nothing by themselves. -/
theorem isOrdinary_of_isNumberCharacter {c : Char} (h : isNumberCharacter c = true) :
    isOrdinary c = true := by
  have hcode := toNat_of_isNumberCharacter h
  have hprintable : isPrintable c = true := by
    simp only [isPrintable, printableRanges, List.any_cons, List.any_nil, Bool.or_false,
      Bool.or_eq_true, Bool.and_eq_true, decide_eq_true_eq]
    omega
  -- A character whose code is outside the ranges of number characters is another one.
  have hapart {d : Char} (hd : ¬ (d.toNat = 43 ∨ d.toNat = 45 ∨ d.toNat = 46 ∨
      48 ≤ d.toNat ∧ d.toNat ≤ 57 ∨ 65 ≤ d.toNat ∧ d.toNat ≤ 122)) : (c == d) = false := by
    rw [beq_eq_false_iff_ne]
    rintro rfl
    exact hd hcode
  have hgap : isGap c = false := by
    simp only [isGap, isSpace, isBreak, Bool.or_eq_false_iff]
    exact ⟨⟨hapart (by decide), hapart (by decide)⟩, ⟨⟨⟨hapart (by decide), hapart (by decide)⟩,
      hapart (by decide)⟩, hapart (by decide)⟩, hapart (by decide)⟩
  have hcolon : (c == ':') = false := hapart (by decide)
  have hmark : (c == '#') = false := hapart (by decide)
  simp [isOrdinary, hprintable, hgap, bne, hcolon, hmark]

/-- There are no such neighbours where the first of them does not occur. -/
theorem hasNeighbours_eq_false {first second : Char → Bool} {text : List Char}
    (h : ∀ c ∈ text, first c = false) : hasNeighbours first second text = false := by
  rw [hasNeighbours, List.any_eq_false]
  rintro ⟨a, b⟩ hmem
  simp [h a (List.of_mem_zip hmem).1]

/-- Ordinary characters can stand without quotes, if the front of the text has no meaning. -/
theorem allowsPlain_of_ordinary {text : List Char} (h : ∀ c ∈ text, isOrdinary c = true)
    (hfront : beginsWithIndicator text = false) : allowsPlain text = true := by
  simp only [isOrdinary, Bool.and_eq_true, Bool.not_eq_true', bne_iff_ne] at h
  have hgap : ∀ c ∈ text, isGap c = false := fun c hc => (h c hc).1.1.2
  have hspace : ∀ c ∈ text, c ≠ ' ' := by
    rintro _ hc rfl
    exact absurd (hgap _ hc) (by decide)
  have hbreak : ∀ c ∈ text, isBreak c = false := fun c hc => isBreak_of_isGap (hgap c hc)
  have hkey : hasKeyEnd text = false := by
    -- Only `h` is about the tail as well, so the other facts must not enter the induction.
    clear hfront hgap hspace hbreak
    induction text with
    | nil => rfl
    | cons c text ih =>
      rw [List.forall_mem_cons] at h
      rw [hasKeyEnd, ih h.2, Bool.or_false]
      simp [h.1.1.2]
  have hbare : hasNeighbours isBareSpace isBreak text = false :=
    hasNeighbours_eq_false fun c hc => by simpa [isBareSpace] using hspace c hc
  have hlines : hasNeighbours isBreak isBareSpace text = false := hasNeighbours_eq_false hbreak
  have hmarks : hasNeighbours isGap (fun c => c == '#') text = false := hasNeighbours_eq_false hgap
  have hhead : text.head? ≠ some ' ' := fun hc => hspace ' ' (List.mem_of_mem_head? hc) rfl
  have hlast : text.getLast? ≠ some ' ' := fun hc => hspace ' ' (List.mem_of_getLast? hc) rfl
  simp only [allowsPlain, allowsSingle, needsNoEscape, hasCommentMark, Bool.and_eq_true,
    Bool.not_eq_true', bne_iff_ne, List.all_eq_true]
  have hone : text.any isBreak = false :=
    List.any_eq_false.mpr fun c hc => by simp [hbreak c hc]
  exact ⟨⟨⟨⟨⟨⟨⟨⟨fun c hc => (h c hc).1.1.1, hbare⟩, hlines⟩, hone⟩, hhead⟩, hlast⟩, hfront⟩, hkey⟩,
    hmarks⟩

/-! ### Numbers -/

variable {body : List Char} {negative : Bool}

/-- A digit has no meaning at the front of a node. -/
theorem beginsWithIndicator_minus (h : BeginsWithDigit body) (negative : Bool) :
    beginsWithIndicator (minus negative ++ body) = false := by
  have hdigit : ∀ d < 10, Numeral.digitChar d ≠ '-' ∧ Numeral.digitChar d ≠ '.' ∧
      Numeral.digitChar d ∉ frontIndicators ∧ Numeral.digitChar d ≠ '?' ∧
      isGap (Numeral.digitChar d) = false := by decide +kernel
  have hdash : '-' ∉ frontIndicators := by decide +kernel
  have hmark : "---".toList = ['-', '-', '-'] := rfl
  have hend : "...".toList = ['.', '.', '.'] := rfl
  obtain ⟨c, rest, rfl, hc⟩ := h
  obtain ⟨d, hd, rfl⟩ := Numeral.exists_digitChar hc
  obtain ⟨hminus, hpoint, hindicator, hquestion, hgap⟩ := hdigit d hd
  cases negative with
  | false => simp [minus, beginsWithIndicator, hmark, hend, hminus, hpoint, hquestion, hindicator]
  | true => simp [minus, beginsWithIndicator, hmark, hend, hminus, hdash, gapAhead, hgap]

/-- A number stands without quotes. -/
theorem allowsPlain_minus (h : BeginsWithDigit body)
    (hcharacters : NumberCharacters (minus negative ++ body)) :
    allowsPlain (minus negative ++ body) = true :=
  allowsPlain_of_ordinary (fun c hc => isOrdinary_of_isNumberCharacter (hcharacters c hc))
    (beginsWithIndicator_minus h negative)

/-- The names of doubles that are no numbers. -/
def numberNames : List String :=
  [".inf", ".Inf", ".INF", "-.inf", "-.Inf", "-.INF", ".nan", ".NaN", ".NAN"]

/-- A text with a digit in front, or behind a sign, is not such a name. -/
theorem ne_name {name : String} (h : BeginsWithDigit body) (hname : name ∈ numberNames) :
    String.ofList (minus negative ++ body) ≠ name := by
  have hnames : ∀ name ∈ numberNames, name.toList.head? = some '.' ∨
      name.toList.head? = some '-' ∧ (name.toList.drop 1).head? = some '.' := by decide +kernel
  obtain ⟨c, rest, rfl, hc⟩ := h
  rintro rfl
  have hfront := hnames _ hname
  rw [String.toList_ofList] at hfront
  -- The names have a point where a number has its first digit: in front, or behind the sign.
  cases negative with
  | false =>
    rcases hfront with hpoint | ⟨hminus, -⟩
    · cases hpoint
      exact absurd hc (by decide)
    · cases hminus
      exact absurd hc (by decide)
  | true =>
    rcases hfront with hpoint | ⟨-, hpoint⟩
    · cases hpoint
    · cases hpoint
      exact absurd hc (by decide)

/-- A number that is neither infinite nor undefined is read as a number. -/
theorem number?_minus {x : Float} (h : BeginsWithDigit body) (hx : x.isFinite = true)
    (hread : readNumber (minus negative ++ body) = .ok x) :
    number? (String.ofList (minus negative ++ body)) = some x := by
  have hcontains {names : List String} (hnames : names ⊆ numberNames) :
      ¬ names.contains (String.ofList (minus negative ++ body)) = true :=
    fun hmem => ne_name h (hnames (List.contains_iff_mem.mp hmem)) rfl
  have hplus : (minus negative ++ body).head? ≠ some '+' := by
    obtain ⟨c, rest, rfl, hc⟩ := h
    intro hplus
    cases negative with
    | false =>
      cases hplus
      exact absurd hc (by decide)
    | true => cases hplus
  -- From here on only these facts about the text are used.
  generalize minus negative ++ body = text at hread hcontains hplus
  have hdrop : dropPlus text = text := by
    unfold dropPlus
    split
    next rest => exact absurd rfl hplus
    next => rfl
  unfold number?
  dsimp only
  rw [String.toList_ofList, hdrop, hread, if_neg (by simp [hplus]),
    if_neg (hcontains (by simp [numberNames])), if_neg (hcontains (by simp [numberNames])),
    if_neg (hcontains (by simp [numberNames]))]
  dsimp only
  rw [if_pos hx]

/-- **Numbers survive their texts** in documents, the infinite and undefined ones included. -/
theorem number?_write (x : Float) : number? (NumberFormat.yaml.write x) = some x := by
  cases hx : x.isFinite with
  | true =>
    obtain ⟨negative, body, htext, hbody, -⟩ := NumberFormat.yaml.exists_write hx
    have hread := NumberFormat.yaml.readNumber_write hx
    have htext' : NumberFormat.yaml.write x = String.ofList (minus negative ++ body) := by
      rw [← htext, String.ofList_toList]
    rw [htext] at hread
    rw [htext']
    exact number?_minus hbody hx hread
  | false =>
    -- The names of the infinite and undefined numbers are three fixed texts.
    rcases NumberFormat.yaml.write_cases hx with ⟨hwrite, rfl⟩ | ⟨hwrite, rfl⟩ | ⟨hwrite, rfl⟩
    · rw [hwrite]
      decide +kernel
    · rw [hwrite]
      decide +kernel
    · rw [hwrite]
      decide +kernel

/-- Numbers may stand without quotes. -/
theorem allowsPlain_write (x : Float) : allowsPlain (NumberFormat.yaml.write x).toList = true := by
  cases hx : x.isFinite with
  | true =>
    obtain ⟨negative, body, htext, hbody, -⟩ := NumberFormat.yaml.exists_write hx
    have hcharacters := (numberCharacters_of_readNumber (NumberFormat.yaml.readNumber_write hx)).2
    rw [htext] at hcharacters ⊢
    exact allowsPlain_minus hbody hcharacters
  | false =>
    rcases NumberFormat.yaml.write_cases hx with ⟨hwrite, -⟩ | ⟨hwrite, -⟩ | ⟨hwrite, -⟩
    · rw [hwrite]
      decide +kernel
    · rw [hwrite]
      decide +kernel
    · rw [hwrite]
      decide +kernel

/-! ### Values without parts -/

/-- Nothing is not written without quotes. -/
theorem ne_nil_of_styleOf_plain {content : String} (h : styleOf content = .plain) :
    content.toList ≠ [] := by
  intro hnone
  obtain rfl : content = "" := String.toList_eq_nil_iff.mp hnone
  have hambiguous := (of_styleOf_plain h).2.1
  revert hambiguous
  decide +kernel

/-- A document can hold every value without parts. -/
theorem Leaf.writable (value : Leaf) : value.Writable := by
  intro hplain
  cases value with
  | text content => exact ⟨(of_styleOf_plain hplain).2.2, ne_nil_of_styleOf_plain hplain⟩
  | flag value => cases value <;> exact ⟨by decide +kernel, by decide +kernel⟩
  | number x =>
    refine ⟨allowsPlain_write x, fun hnone => ?_⟩
    have hread := number?_write x
    have hempty : NumberFormat.yaml.write x = "" := String.toList_eq_nil_iff.mp hnone
    have hnothing : number? "" = none := by decide +kernel
    rw [hempty, hnothing] at hread
    cases hread
  | count n =>
    have htext : (Numeral.text n).toList = Numeral.write n := String.toList_ofList
    show allowsPlain (Numeral.text n).toList = true ∧ (Numeral.text n).toList ≠ []
    rw [htext]
    refine ⟨?_, Numeral.write_ne_nil n⟩
    have hcharacters : NumberCharacters (minus false ++ Numeral.write n) :=
      .of_digits (Numeral.isDigit_of_mem_write n)
    exact allowsPlain_minus (beginsWithDigit_write n) hcharacters

/-- A value without parts that is read as it is written: a count that a word holds, or anything
    else. -/
def Leaf.Bounded : Leaf → Prop
  | .count n => n < 2 ^ 64
  | _ => True

/-- What is written for a value denotes it. -/
theorem Leaf.denoted {value : Leaf} (h : value.Bounded) :
    value.Denoted value.style value.content := by
  cases value with
  | text content => exact text_denoted content
  | flag value => exact .flag (flag?_content value)
  | number x => exact .number (number?_write x)
  | count n => exact .count (count?_text h)

end GridLookup.Yaml
