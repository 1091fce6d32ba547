import GridLookup.Decimal.Reader
import GridLookup.Text.Blank
import Mathlib.Data.List.TakeWhile
import Mathlib.Order.Basic

namespace GridLookup

/-!
# Characters of numbers

* `isNumberCharacter` — signs, points, digits and letters; no blank, comma or equals sign is among
  them.
* `numberCharacters_of_readNumber` — what is read as a number is made of them.
-/

/-- The digits stand next to each other among the characters. -/
theorem isDigit_iff {c : Char} : isDigit c = true ↔ 48 ≤ c.toNat ∧ c.toNat ≤ 57 := by
  unfold isDigit
  rw [Bool.and_eq_true, decide_eq_true_eq, decide_eq_true_eq]
  exact Iff.rfl

/-- Each case of the letters stands next to each other among the characters. -/
theorem isAlpha_iff {c : Char} :
    c.isAlpha = true ↔ 65 ≤ c.toNat ∧ c.toNat ≤ 90 ∨ 97 ≤ c.toNat ∧ c.toNat ≤ 122 := by
  unfold Char.isAlpha Char.isUpper Char.isLower
  rw [Bool.or_eq_true, Bool.and_eq_true, decide_eq_true_eq, decide_eq_true_eq, decide_eq_true_eq]
  exact Iff.rfl

/-- A sign, a point, a digit or a letter. -/
def isNumberCharacter (c : Char) : Bool :=
  ['+', '-', '.'].contains c || isDigit c || c.isAlpha

/-- The codes of these characters. -/
theorem toNat_of_isNumberCharacter {c : Char} (h : isNumberCharacter c = true) :
    c.toNat = 43 ∨ c.toNat = 45 ∨ c.toNat = 46 ∨ 48 ≤ c.toNat ∧ c.toNat ≤ 57 ∨
      65 ≤ c.toNat ∧ c.toNat ≤ 122 := by
  unfold isNumberCharacter at h
  rw [Bool.or_eq_true, Bool.or_eq_true, isDigit_iff, isAlpha_iff] at h
  rcases h with (h | h) | h
  · simp only [List.contains_cons, List.contains_nil, Bool.or_false, Bool.or_eq_true,
      beq_iff_eq] at h
    rcases h with rfl | rfl | rfl <;> decide
  · omega
  · omega

/-- Such a character is no blank, and neither a comma nor an equals sign. -/
theorem isNumberCharacter_apart {c : Char} (h : isNumberCharacter c = true) :
    isBlank c = false ∧ c ≠ ',' ∧ c ≠ '=' := by
  have hcode := toNat_of_isNumberCharacter h
  refine ⟨?_, ?_, ?_⟩
  · by_contra hblank
    simp only [isBlank, blankRanges, List.any_cons, List.any_nil, Bool.or_false, Bool.or_eq_true,
      Bool.and_eq_true, decide_eq_true_eq, Bool.not_eq_false] at hblank
    omega
  · rintro rfl
    revert hcode
    decide
  · rintro rfl
    revert hcode
    decide

/-- All characters may stand in a number. -/
def NumberCharacters (text : List Char) : Prop := ∀ c ∈ text, isNumberCharacter c = true

namespace NumberCharacters

/-- Digits are characters of numbers. -/
theorem of_digits {digits : List Char} (h : ∀ c ∈ digits, isDigit c = true) :
    NumberCharacters digits := fun c hc => by simp [isNumberCharacter, h c hc]

/-- Two texts of such characters make one in a row. -/
theorem append {front back : List Char} (hfront : NumberCharacters front)
    (hback : NumberCharacters back) : NumberCharacters (front ++ back) :=
  List.forall_mem_append.mpr ⟨hfront, hback⟩

/-- One more such character may stand in front. -/
theorem cons {c : Char} {rest : List Char} (hc : isNumberCharacter c = true)
    (h : NumberCharacters rest) : NumberCharacters (c :: rest) :=
  List.forall_mem_cons.mpr ⟨hc, h⟩

end NumberCharacters

/-! ### What is read as a number -/

/-- What continues a number consists of digits. -/
theorem isDigit_of_extend {digits : List Char} {number n : Nat}
    (h : Numeral.extend 10 number digits = some n) : ∀ c ∈ digits, isDigit c = true := by
  induction digits generalizing number with
  | nil => simp
  | cons c digits ih =>
    unfold Numeral.extend at h
    split at h
    next digit hdigit =>
      split at h
      next hsmall =>
        refine List.forall_mem_cons.mpr ⟨?_, ih h⟩
        -- Letters stand for ten and more.
        unfold Numeral.digit? at hdigit
        split at hdigit
        · next hbetween => simpa [isDigit] using hbetween
        split at hdigit
        · next hlower =>
          have hcode : 97 ≤ c.toNat := hlower.1
          have := Option.some.inj hdigit
          omega
        split at hdigit
        · next hupper =>
          have hcode : 65 ≤ c.toNat := hupper.1
          have := Option.some.inj hdigit
          omega
        · cases hdigit
      next => cases h
    next => cases h

/-- Numbers without a sign are made of such characters. -/
theorem numberCharacters_of_read? {digits : List Char} {n : Nat}
    (h : Numeral.read? 10 digits = some n) : NumberCharacters digits := by
  unfold Numeral.read? at h
  split at h
  · cases h
  · exact .of_digits (isDigit_of_extend h)

/-- The sign in front is one of them. -/
theorem numberCharacters_of_splitSign {text : List Char}
    (h : NumberCharacters (splitSign text).2) : NumberCharacters text := by
  unfold splitSign at h
  split at h
  · exact .cons (by decide) h
  · exact .cons (by decide) h
  · exact h

/-- Exponents are made of such characters. -/
theorem numberCharacters_of_readExponent? {text : List Char} {exponent : Int}
    (h : readExponent? text = some exponent) : NumberCharacters text := by
  unfold readExponent? at h
  cases hdigits : Numeral.read? 10 (splitSign text).2 with
  | none => simp [hdigits] at h
  | some n => exact numberCharacters_of_splitSign (numberCharacters_of_read? hdigits)

/-- So is what follows the digits. -/
theorem numberCharacters_of_readTail? {text : List Char} {exponent : Int}
    (h : readTail? text = some exponent) : NumberCharacters text := by
  unfold readTail? at h
  split at h
  · exact List.forall_mem_nil _
  · exact .cons (by decide) (numberCharacters_of_readExponent? h)
  · exact .cons (by decide) (numberCharacters_of_readExponent? h)
  · cases h

/-- So are all numbers written in digits. -/
theorem numberCharacters_of_readDigits? {text : List Char} {x : Float}
    (h : readDigits? text = some x) : NumberCharacters text := by
  have hwhole : NumberCharacters (text.takeWhile isDigit) :=
    .of_digits fun c hc => List.mem_takeWhile_imp hc
  -- The text is cut as the reader cuts it: whole digits, maybe a point and a fraction, an exponent.
  rw [← List.takeWhile_append_dropWhile (p := isDigit) (l := text)]
  refine hwhole.append ?_
  unfold readDigits? at h
  dsimp only at h
  split at h
  next hdigits hexponent =>
    split at hexponent
    next rest hrest =>
      have hfraction : NumberCharacters (rest.takeWhile isDigit) :=
        .of_digits fun c hc => List.mem_takeWhile_imp hc
      rw [hrest, ← List.takeWhile_append_dropWhile (p := isDigit) (l := rest)]
      exact .cons (by decide) (hfraction.append (numberCharacters_of_readTail? hexponent))
    next => exact numberCharacters_of_readTail? hexponent
  next => cases h

/-- What has a letter for its small form is a letter. -/
theorem isAlpha_of_toLower {c : Char} (h : c.toLower.isAlpha = true) : c.isAlpha = true := by
  unfold Char.toLower at h
  split at h
  · next hupper => exact isAlpha_iff.mpr (Or.inl hupper)
  · exact h

/-- The names of the infinities and of the undefined number are made of such characters. -/
theorem numberCharacters_of_readName? {text : List Char} {x : Float}
    (h : readName? text = some x) : NumberCharacters text := by
  -- The names are made of letters.
  have hletters : ∀ name : List Char, text.map Char.toLower = name →
      name.all Char.isAlpha = true → NumberCharacters text := by
    rintro _ rfl hall c hc
    rw [List.all_map, List.all_eq_true] at hall
    simp [isNumberCharacter, isAlpha_of_toLower (hall c hc)]
  unfold readName? at h
  dsimp only at h
  split at h
  next hinfinity =>
    rw [Bool.or_eq_true, decide_eq_true_eq, decide_eq_true_eq] at hinfinity
    rcases hinfinity with hname | hname
    · exact hletters _ hname (by decide)
    · exact hletters _ hname (by decide)
  next =>
    split at h
    next hname => exact hletters _ hname (by decide)
    next => cases h

/-- Numbers have characters, and these are all of the kind that may stand in numbers. -/
theorem numberCharacters_of_readNumber {text : List Char} {x : Float}
    (h : readNumber text = .ok x) : text ≠ [] ∧ NumberCharacters text := by
  unfold readNumber at h
  split at h
  · cases h
  next hsome =>
  refine ⟨by simpa using hsome, numberCharacters_of_splitSign ?_⟩
  dsimp only at h
  split at h
  next hread =>
    rcases Option.or_eq_some_iff.mp hread with hdigits | ⟨-, hname⟩
    · exact numberCharacters_of_readDigits? hdigits
    · exact numberCharacters_of_readName? hname
  next => cases h

end GridLookup
