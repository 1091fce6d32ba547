import GridLookup.Decimal.Format
import GridLookup.Decimal.Reader
import GridLookup.Proofs.Fields
import GridLookup.Proofs.Numeral
import Mathlib.Tactic.FieldSimp

namespace GridLookup

/-!
# Decimals as texts

Every text that a decimal is written as denotes this decimal.

* `ReadsAs` — the digits and the exponent that are read from a text denote a number.
* `NumberFormat.readsAs_placePoint`, `NumberFormat.readsAs_writeExponent` — the two notations.
* `NumberFormat.readsAs_writeDecimal` — **decimals survive their texts**.
* `NumberFormat.beginsWithDigit_writeDecimal` — there is a digit in front.
-/

/-! ### Digits in front -/

/-- The first character of a text is a digit. -/
def BeginsWithDigit (text : List Char) : Prop :=
  ∃ c rest, text = c :: rest ∧ isDigit c = true

/-- What a text begins with does not depend on what follows it. -/
theorem BeginsWithDigit.append {text : List Char} (h : BeginsWithDigit text) (more : List Char) :
    BeginsWithDigit (text ++ more) := by
  obtain ⟨c, rest, rfl, hc⟩ := h
  exact ⟨c, rest ++ more, rfl, hc⟩

/-- A whole number begins with a digit. -/
theorem beginsWithDigit_write (n : ℕ) : BeginsWithDigit (Numeral.write n) := by
  obtain ⟨d, rest, hd, hwrite, -⟩ := Numeral.write_eq_cons n
  exact ⟨_, rest, hwrite, Numeral.isDigit_digitChar hd⟩

/-- Such a text has no sign. -/
theorem BeginsWithDigit.splitSign_eq {text : List Char} (h : BeginsWithDigit text) :
    splitSign text = (false, text) := by
  obtain ⟨c, rest, rfl, hc⟩ := h
  unfold splitSign
  split
  next rest' heq =>
    cases heq
    exact absurd hc (by decide)
  next rest' heq =>
    cases heq
    exact absurd hc (by decide)
  next => rfl

/-! ### What is read -/

/-- A text is read as the double next to a number. -/
def ReadsAs (text : List Char) (q : ℚ) : Prop :=
  ∃ (digits : ℕ) (exponent : ℤ), readDigits? text = some (nearestDouble digits exponent) ∧
    digits * 10 ^ exponent = q

variable {whole fraction tail : List Char} {digits : ℕ} {exponent : ℤ}

/-- What follows the digits of a number: nothing, or something else than a digit or a point. -/
def EndsDigits (tail : List Char) : Prop := ∀ c ∈ tail.head?, isDigit c = false ∧ c ≠ '.'

/-- A number without a point. -/
theorem readDigits?_whole (hwhole : ∀ c ∈ whole, isDigit c = true) (htail : EndsDigits tail)
    (hdigits : Numeral.read? 10 whole = some digits) (hexponent : readTail? tail = some exponent) :
    readDigits? (whole ++ tail) = some (nearestDouble digits exponent) := by
  have hfront : (whole ++ tail).takeWhile isDigit = whole :=
    takeWhile_front hwhole fun c hc => (htail c hc).1
  have hrest : (whole ++ tail).dropWhile isDigit = tail :=
    dropWhile_front hwhole fun c hc => (htail c hc).1
  unfold readDigits?
  dsimp only
  rw [hfront, hrest]
  cases tail with
  | nil => simp [hdigits, hexponent]
  | cons c tail =>
    have hpoint : c ≠ '.' := (htail c rfl).2
    simp [hdigits, hexponent, hpoint]

/-- A number with a point. -/
theorem readDigits?_fraction (hwhole : ∀ c ∈ whole, isDigit c = true)
    (hfraction : ∀ c ∈ fraction, isDigit c = true) (htail : EndsDigits tail)
    (hdigits : Numeral.read? 10 (whole ++ fraction) = some digits)
    (hexponent : readTail? tail = some exponent) :
    readDigits? (whole ++ '.' :: (fraction ++ tail))
      = some (nearestDouble digits (exponent - fraction.length)) := by
  -- The point ends the whole digits, and the front of the tail ends those of the fraction.
  have hfront : (whole ++ '.' :: (fraction ++ tail)).takeWhile isDigit = whole :=
    takeWhile_front hwhole (by rintro _ ⟨⟩; decide)
  have hrest : (whole ++ '.' :: (fraction ++ tail)).dropWhile isDigit
      = '.' :: (fraction ++ tail) := dropWhile_front hwhole (by rintro _ ⟨⟩; decide)
  have hfront' : (fraction ++ tail).takeWhile isDigit = fraction :=
    takeWhile_front hfraction fun c hc => (htail c hc).1
  have hrest' : (fraction ++ tail).dropWhile isDigit = tail :=
    dropWhile_front hfraction fun c hc => (htail c hc).1
  unfold readDigits?
  dsimp only
  rw [hfront, hrest]
  simp only [hfront', hrest', hdigits, hexponent]

/-- Without an exponent. -/
theorem endsDigits_nil : EndsDigits [] := nofun

/-- An exponent with its sign is read. -/
theorem readTail?_writeInt (n : ℤ) : readTail? ('e' :: NumberFormat.writeInt n) = some n := by
  show readExponent? (NumberFormat.writeInt n) = some n
  unfold NumberFormat.writeInt
  split
  next hnegative =>
    have hsign : splitSign ('-' :: Numeral.write n.natAbs) = (true, Numeral.write n.natAbs) := rfl
    have hvalue : -(n.natAbs : ℤ) = n := by omega
    rw [readExponent?, hsign]
    dsimp only
    rw [Numeral.read?_write]
    exact congrArg some hvalue
  next hnegative =>
    have hvalue : (n.natAbs : ℤ) = n := by omega
    rw [readExponent?, (beginsWithDigit_write _).splitSign_eq]
    dsimp only
    rw [Numeral.read?_write]
    exact congrArg some hvalue

/-! ### Two notations -/

namespace NumberFormat

/-- A zero is a digit. -/
theorem isDigit_of_mem_zeros {c : Char} {count : ℕ} (h : c ∈ List.replicate count '0') :
    isDigit c = true := by
  rw [List.eq_of_mem_replicate h]
  decide

/-- A point in front of the digits, with zeros between them. -/
theorem readsAs_pointInFront {n count : ℕ}
    (hplace : exponent = -((count : ℤ) + (Numeral.write n).length)) :
    ReadsAs (['0', '.'] ++ List.replicate count '0' ++ Numeral.write n) (n * 10 ^ exponent) := by
  refine ⟨n, exponent, ?_, rfl⟩
  have hfraction : ∀ c ∈ List.replicate count '0' ++ Numeral.write n, isDigit c = true :=
    List.forall_mem_append.mpr
      ⟨fun c hc => isDigit_of_mem_zeros hc, Numeral.isDigit_of_mem_write n⟩
  have hread : Numeral.read? 10 (['0'] ++ (List.replicate count '0' ++ Numeral.write n))
      = some n := Numeral.read?_zeros_append (count + 1) n
  have hresult := readDigits?_fraction (List.all_eq_true.mp rfl) hfraction endsDigits_nil hread rfl
  have hexponent : 0 - ((List.replicate count '0' ++ Numeral.write n).length : ℤ) = exponent := by
    rw [List.length_append, List.length_replicate]
    omega
  rw [hexponent] at hresult
  simpa using hresult

/-- A point among the digits. -/
theorem readsAs_pointInside {n count : ℕ}
    (hplace : exponent = -(((Numeral.write n).drop count).length : ℤ)) :
    ReadsAs ((Numeral.write n).take count ++ ['.'] ++ (Numeral.write n).drop count)
      (n * 10 ^ exponent) := by
  have hdigits := Numeral.isDigit_of_mem_write n
  refine ⟨n, exponent, ?_, rfl⟩
  have hread : Numeral.read? 10 ((Numeral.write n).take count ++ (Numeral.write n).drop count)
      = some n := by
    rw [List.take_append_drop, Numeral.read?_write]
  have hresult := readDigits?_fraction (fun c hc => hdigits c (List.mem_of_mem_take hc))
    (fun c hc => hdigits c (List.mem_of_mem_drop hc)) endsDigits_nil hread rfl
  rw [zero_sub, ← hplace] at hresult
  simpa using hresult

/-- Zeros behind the digits, and maybe a point and one more zero. -/
theorem readsAs_zerosBehind (n count : ℕ) (pointZero : Bool) :
    ReadsAs (Numeral.write n ++ List.replicate count '0' ++ if pointZero then ['.', '0'] else [])
      (n * 10 ^ count) := by
  have hwhole : ∀ c ∈ Numeral.write n ++ List.replicate count '0', isDigit c = true :=
    List.forall_mem_append.mpr
      ⟨Numeral.isDigit_of_mem_write n, fun c hc => isDigit_of_mem_zeros hc⟩
  cases pointZero with
  | false =>
    refine ⟨n * 10 ^ count, 0, ?_, by push_cast; ring⟩
    exact readDigits?_whole hwhole endsDigits_nil (Numeral.read?_append_zeros n count) rfl
  | true =>
    refine ⟨n * 10 ^ (count + 1), 0 - 1, ?_, ?_⟩
    · have hread : Numeral.read? 10 (Numeral.write n ++ List.replicate count '0' ++ ['0'])
          = some (n * 10 ^ (count + 1)) := by
        rw [List.append_assoc, ← List.replicate_succ', Numeral.read?_append_zeros]
      exact readDigits?_fraction hwhole (List.all_eq_true.mp rfl) endsDigits_nil hread rfl
    · rw [zero_sub, pow_succ]
      push_cast
      field_simp

/-- A point among digits, or zeros up to it. -/
theorem readsAs_placePoint (n : ℕ) (exponent : ℤ) (pointZero : Bool) :
    ReadsAs (placePoint (Numeral.write n) ((Numeral.write n).length + exponent)
      (if pointZero then ['.', '0'] else [])) (n * 10 ^ exponent) := by
  unfold placePoint
  split
  next hpoint => exact readsAs_pointInFront (by omega)
  next hpoint =>
    split
    next hinside => exact readsAs_pointInside (by rw [List.length_drop]; omega)
    next hinside =>
      obtain ⟨count, rfl⟩ : ∃ count : ℕ, exponent = count := ⟨exponent.toNat, by omega⟩
      have hcount : (((Numeral.write n).length : ℤ) + count).toNat - (Numeral.write n).length
          = count := by omega
      rw [hcount, zpow_natCast]
      exact readsAs_zerosBehind n count pointZero

/-- A point behind the first digit, and an exponent. -/
theorem readsAs_writeExponent (n : ℕ) (exponent : ℤ) :
    ReadsAs (writeExponent (Numeral.write n) ((Numeral.write n).length + exponent))
      (n * 10 ^ exponent) := by
  have hdigits := Numeral.isDigit_of_mem_write n
  have hread := Numeral.read?_write n
  have htail : ∀ point : ℤ, EndsDigits ('e' :: writeInt point) := by
    rintro point _ ⟨⟩
    decide
  refine ⟨n, exponent, ?_, rfl⟩
  generalize Numeral.write n = digits at hdigits hread
  unfold writeExponent
  dsimp only
  -- A single digit has no point behind it.
  split
  next first second rest =>
    have hparts := List.forall_mem_cons.mp hdigits
    have hread : Numeral.read? 10 ([first] ++ (second :: rest)) = some n := hread
    have hresult := readDigits?_fraction (by simpa using hparts.1) hparts.2
      (htail _) hread (readTail?_writeInt (((first :: second :: rest).length : ℤ) + exponent - 1))
    have hexponent : ((first :: second :: rest).length : ℤ) + exponent - 1
        - ((second :: rest).length : ℤ) = exponent := by
      simp only [List.length_cons]
      push_cast
      ring
    rw [hexponent] at hresult
    simpa using hresult
  next hshort =>
    have hlength : digits.length = 1 := by
      rcases digits with _ | ⟨first, _ | ⟨second, rest⟩⟩
      · cases hread
      · rfl
      · exact absurd rfl (hshort first second rest)
    have hresult := readDigits?_whole hdigits (htail _) hread
      (readTail?_writeInt ((digits.length : ℤ) + exponent - 1))
    have hexponent : (digits.length : ℤ) + exponent - 1 = exponent := by
      rw [hlength]
      push_cast
      ring
    rw [hexponent] at hresult ⊢
    simpa using hresult

/-- **Decimals survive their texts**, whatever the format. -/
theorem readsAs_writeDecimal (format : NumberFormat) (decimal : Decimal) :
    ReadsAs (format.writeDecimal decimal) (decimal.digits * 10 ^ decimal.exponent) := by
  unfold writeDecimal
  dsimp only
  have hplace := readsAs_placePoint decimal.digits decimal.exponent format.pointZero
  split
  · exact hplace
  · split
    · exact hplace
    · exact readsAs_writeExponent decimal.digits decimal.exponent

end NumberFormat

/-! ### What is written -/

namespace NumberFormat

/-- A number with a point begins with a digit. -/
theorem beginsWithDigit_placePoint (n : ℕ) (point : ℤ) (whole : List Char) :
    BeginsWithDigit (placePoint (Numeral.write n) point whole) := by
  have hwrite := beginsWithDigit_write n
  unfold placePoint
  split
  · have hzero : BeginsWithDigit ['0', '.'] := ⟨'0', ['.'], rfl, rfl⟩
    exact (hzero.append _).append _
  next hpoint =>
    split
    · have hfront : BeginsWithDigit ((Numeral.write n).take point.toNat) := by
        obtain ⟨count, hcount⟩ : ∃ count, point.toNat = count + 1 := ⟨point.toNat - 1, by omega⟩
        obtain ⟨c, rest, hcons, hc⟩ := hwrite
        rw [hcons, hcount, List.take_succ_cons]
        exact ⟨c, _, rfl, hc⟩
      exact (hfront.append _).append _
    · exact (hwrite.append _).append _

/-- A number with an exponent begins with a digit. -/
theorem beginsWithDigit_writeExponent (n : ℕ) (point : ℤ) :
    BeginsWithDigit (writeExponent (Numeral.write n) point) := by
  have hwrite := beginsWithDigit_write n
  generalize Numeral.write n = digits at hwrite
  unfold writeExponent
  dsimp only
  refine BeginsWithDigit.append (BeginsWithDigit.append ?_ _) _
  split
  next first second rest =>
    obtain ⟨c, more, hcons, hc⟩ := hwrite
    cases hcons
    exact ⟨first, _, rfl, hc⟩
  next => exact hwrite

/-- Every format begins a number with a digit. -/
theorem beginsWithDigit_writeDecimal (format : NumberFormat) (decimal : Decimal) :
    BeginsWithDigit (format.writeDecimal decimal) := by
  unfold writeDecimal
  dsimp only
  split
  · exact beginsWithDigit_placePoint _ _ _
  · split
    · exact beginsWithDigit_placePoint _ _ _
    · exact beginsWithDigit_writeExponent _ _

end NumberFormat

end GridLookup
