import GridLookup.Proofs.Unpacked

namespace GridLookup

/-!
# Numbers that round to a double

The numbers that round to a double make up an interval around it.  It reaches half the way to the
next doubles on both sides, and has its ends if the mantissa is even.

* `ReadsBack` — the interval; `ReadsBack.nearest_eq` says that its numbers round to the double.
* `nearest_of_room` — what a mantissa and an exponent can hold is kept.
-/

/-! ### Whole numbers -/

/-- A number is rounded to a whole number that is less than a half away from it, and to an even one
    also from exactly a half. -/
theorem nearestEven_eq_of_near {t : ℚ} {n : ℕ} (hlower : n - 1 / 2 ≤ t) (hupper : t ≤ n + 1 / 2)
    (hodd : n % 2 = 1 → n - 1 / 2 < t ∧ t < n + 1 / 2) : nearestEven t = n := by
  unfold nearestEven
  -- Below the whole number its predecessor is the whole part, which makes this one the upper
  -- neighbour. From it on it is the whole part itself.
  rcases lt_or_ge t n with hlt | hle
  · rcases Nat.eq_zero_or_pos n with rfl | hpos
    · have hfloor : ⌊t⌋₊ = 0 := Nat.floor_of_nonpos (by simpa using hlt.le)
      rw [hfloor, if_pos (by push_cast at hlt ⊢; linarith)]
    · -- The whole part is the number below.
      obtain ⟨k, rfl⟩ : ∃ k, n = k + 1 := ⟨n - 1, by omega⟩
      push_cast at hlower hlt hodd
      have hfloor : ⌊t⌋₊ = k := (Nat.floor_eq_iff (by linarith)).mpr ⟨by linarith, hlt⟩
      rw [hfloor, if_neg (by linarith)]
      split
      · rfl
      next heven =>
        have hk : k % 2 = 1 := by
          by_contra hk
          have hstrict := (hodd (by omega)).1
          linarith
        omega
  · have hfloor : ⌊t⌋₊ = n := (Nat.floor_eq_iff (by linarith)).mpr ⟨hle, by linarith⟩
    rw [hfloor]
    split
    · rfl
    next hhalf =>
      have heven : n % 2 = 0 := by
        by_contra heven
        exact hhalf (hodd (by omega)).2
      rw [if_neg (by linarith), heven, add_zero]

/-! ### The interval of a double -/

/-- The distance of the lower end from a mantissa.  It is half as long for a mantissa that is the
    `lowest` of its exponent, as the next double below is half as far away. -/
def reach (lowest : Bool) : ℚ := if lowest then 1 / 4 else 1 / 2

/-- A number, in units of the last place, reads back to a mantissa. -/
structure ReadsBack (mantissa : ℕ) (lowest : Bool) (t : ℚ) : Prop where
  /-- It is not below the interval. -/
  lower : mantissa - reach lowest ≤ t
  /-- It is not above it. -/
  upper : t ≤ mantissa + 1 / 2
  /-- It is not at one of the ends of an open interval. -/
  inside : mantissa % 2 = 1 → mantissa - reach lowest < t ∧ t < mantissa + 1 / 2

/-- The mantissa is marked if it is the least one with its exponent, and there are smaller ones. -/
structure Marked (mantissa : ℕ) (exponent : ℤ) (lowest : Bool) : Prop extends
    Canonical mantissa exponent where
  /-- The mark says that the next double below has a smaller exponent. -/
  lowest_iff : lowest = true ↔ mantissa = 2 ^ 52 ∧ -1074 < exponent

variable {mantissa : ℕ} {exponent : ℤ} {lowest : Bool} {q t : ℚ}

/-- Numbers within reach are at most half a unit away. -/
theorem reach_le (lowest : Bool) : reach lowest ≤ 1 / 2 := by
  cases lowest <;> norm_num [reach]

/-- The last place is the exponent of a mantissa of full length, or else the least one. -/
theorem lastPlace_eq (hq : 0 < q) (hupper : q < 2 ^ 53 * 2 ^ exponent)
    (hlower : exponent = -1074 ∨ -1074 ≤ exponent ∧ 2 ^ 52 * 2 ^ exponent ≤ q) :
    lastPlace q = exponent := by
  have hlog : Int.log 2 q < exponent + 53 := by
    refine (Int.lt_zpow_iff_log_lt (by norm_num) hq).mp ?_
    rw [add_comm, Nat.cast_two, zpow_add₀ (by norm_num)]
    exact_mod_cast hupper
  unfold lastPlace
  rcases hlower with rfl | ⟨hleast, hlower⟩
  · omega
  · have hlog' : exponent + 52 ≤ Int.log 2 q := by
      refine (Int.zpow_le_iff_le_log (by norm_num) hq).mp ?_
      rw [add_comm, Nat.cast_two, zpow_add₀ (by norm_num)]
      exact_mod_cast hlower
    omega

/-- What a mantissa and an exponent can hold is kept. -/
theorem nearest_of_room (hpositive : 0 < mantissa) (hroom : mantissa < 2 ^ 53)
    (hleast : -1074 ≤ exponent) : nearest (mantissa * 2 ^ exponent) = mantissa * 2 ^ exponent := by
  have hlog : mantissa.log2 < 53 := (Nat.log2_lt hpositive.ne').mpr hroom
  obtain ⟨amount, hamount⟩ :
      ∃ amount : ℕ, lastPlace (mantissa * 2 ^ exponent) = exponent - amount := by
    refine ⟨(exponent - lastPlace (mantissa * 2 ^ exponent)).toNat, ?_⟩
    have hle : lastPlace (mantissa * 2 ^ exponent) ≤ exponent := by
      rw [lastPlace, log_mul_zpow hpositive]
      omega
    omega
  have hvalue := shiftLeft_mul_zpow mantissa amount exponent
  rw [nearest, nearestUnits, hamount, ← hvalue, mul_div_cancel_right₀ _ (two_zpow_pos _).ne',
    nearestEven_natCast]

/-- A number of the interval is positive, and below the numbers with the next exponent. -/
theorem ReadsBack.bounds (h : ReadsBack mantissa lowest (q / 2 ^ exponent))
    (hpositive : 0 < mantissa) (hroom : mantissa < 2 ^ 53) :
    0 < q ∧ q < 2 ^ 53 * 2 ^ exponent := by
  have hscale := two_zpow_pos exponent
  have hone : (1 : ℚ) ≤ mantissa := by exact_mod_cast hpositive
  have hroom : (mantissa : ℚ) + 1 ≤ 2 ^ 53 := by exact_mod_cast Nat.succ_le_of_lt hroom
  have hreach := reach_le lowest
  have hlower := h.lower
  have hupper := h.upper
  rw [← div_lt_iff₀ hscale]
  exact ⟨(div_pos_iff_of_pos_right hscale).mp (by linarith), by linarith⟩

/-- Below the least mantissa of an exponent the next double is half of a place away.  What is closer
    to the mantissa is rounded up to it. -/
theorem nearest_below_lowest (hlast : -1074 < exponent)
    (hlower : (2 : ℚ) ^ 52 - 1 / 4 ≤ q / 2 ^ exponent) (hupper : q / 2 ^ exponent < 2 ^ 52) :
    nearest q = 2 ^ 52 * 2 ^ exponent := by
  -- Places are half as far apart here, so the number has twice as many units.
  have hhalf : q / 2 ^ (exponent - 1) = 2 * (q / 2 ^ exponent) := by
    rw [zpow_sub_one₀ (by norm_num)]
    field_simp
  have hq : 0 < q := (div_pos_iff_of_pos_right (two_zpow_pos exponent)).mp (by linarith)
  have hplace : lastPlace q = exponent - 1 := by
    refine lastPlace_eq hq ?_ (Or.inr ⟨by omega, ?_⟩)
    · rw [← div_lt_iff₀ (two_zpow_pos _), hhalf]
      linarith
    · rw [← le_div_iff₀ (two_zpow_pos _), hhalf]
      linarith
  have hunits : nearestUnits q = 2 ^ 53 := by
    rw [nearestUnits, hplace, hhalf]
    refine nearestEven_eq_of_near ?_ ?_ fun hodd => absurd hodd (by decide)
    · push_cast
      linarith
    · push_cast
      linarith
  rw [nearest, hunits, hplace, zpow_sub_one₀ (by norm_num)]
  push_cast
  ring

/-- **Reading back.**  The numbers of the interval round to the double. -/
theorem ReadsBack.nearest_eq (h : ReadsBack mantissa lowest (q / 2 ^ exponent))
    (hpositive : 0 < mantissa) (hmarked : Marked mantissa exponent lowest) :
    nearest q = mantissa * 2 ^ exponent := by
  obtain ⟨hq, hbelow⟩ := h.bounds hpositive hmarked.room
  obtain ⟨hlower, hupper, hinside⟩ := h
  have hreach := reach_le lowest
  by_cases hlow : 2 ^ 52 * 2 ^ exponent ≤ q ∨ exponent = -1074
  · -- The last place of the number is that of the double.
    have hplace : lastPlace q = exponent :=
      lastPlace_eq hq hbelow (hlow.symm.imp_right fun hlow => ⟨hmarked.least, hlow⟩)
    rw [nearest, nearestUnits, hplace, nearestEven_eq_of_near (by linarith) hupper]
    intro hodd
    obtain ⟨hlower, hupper⟩ := hinside hodd
    exact ⟨by linarith, hupper⟩
  · -- The number is below the least one with the exponent, so the double is that one.
    obtain ⟨hlow, hleast⟩ := not_or.mp hlow
    have hexponent : -1074 < exponent := lt_of_le_of_ne hmarked.least (Ne.symm hleast)
    have hlow : q / 2 ^ exponent < 2 ^ 52 := by
      rw [div_lt_iff₀ (two_zpow_pos exponent)]
      exact not_le.mp hlow
    have hmantissa : mantissa = 2 ^ 52 := by
      by_contra hne
      have hmore : (2 ^ 52 : ℚ) + 1 ≤ mantissa := by
        exact_mod_cast lt_of_le_of_ne (hmarked.full hexponent) (Ne.symm hne)
      linarith
    have hlowest : lowest = true := hmarked.lowest_iff.mpr ⟨hmantissa, hexponent⟩
    rw [hlowest, hmantissa, reach, if_pos rfl] at hlower
    rw [hmantissa]
    exact_mod_cast nearest_below_lowest hexponent (by exact_mod_cast hlower) hlow

end GridLookup
