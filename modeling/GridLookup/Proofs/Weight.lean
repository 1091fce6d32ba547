import GridLookup.Proofs.Double
import GridLookup.Proofs.Position

namespace GridLookup

/-!
# Weights in double precision

The weight of a bracket is a quotient of two rounded distances.  It is at least 0 and at most 1
unless the distance from the lower node is infinite in double precision: then so is that between the
nodes, and the quotient is undefined.

* `isTop_sub_of_le` — what is further apart is no less far apart after rounding.
* `share_proper`, `share_undefined` — the quotient for a coordinate between two nodes.
* `Bracket.IsProper` — a weight from 0 to 1.
* `Axis.Measures` — coordinates whose distance from the node below is finite.
* `weights_proper_iff_measured` — these have proper weights, and the others undefined ones.
-/

open Float.Model UnpackedFloat

variable {x y x' y' x₀ x₁ : Float} {q r : ℚ}

/-! ### Distances -/

/-- Doubles are whole multiples of the smallest one. -/
theorem Denotes.exists_multiple {u : UnpackedFloat} (h : Denotes u q) :
    ∃ k : ℤ, q = k * 2 ^ (-1074 : ℤ) := by
  cases h with
  | zero => exact ⟨0, by simp⟩
  | @finite sign mantissa exponent positive canonical =>
    obtain ⟨n, hn⟩ := Int.eq_ofNat_of_zero_le (Int.add_nonneg_iff_neg_le.mpr canonical.least)
    obtain rfl : exponent = n + -1074 := by omega
    refine ⟨sign.apply mantissa * 2 ^ n, ?_⟩
    rw [zpow_add₀ (by norm_num), zpow_natCast, Int.cast_mul, Int.cast_pow, Int.cast_ofNat,
      mul_assoc]

/-- So two of them are apart by at least the smallest one, and not by zero after rounding. -/
theorem IsNumber.nearest_sub_pos (hx : IsNumber x q) (hy : IsNumber y r) (h : r < q) :
    0 < nearest (q - r) := by
  obtain ⟨k, rfl⟩ := hx.exists_multiple
  obtain ⟨l, rfl⟩ := hy.exists_multiple
  have hscale := two_zpow_pos (-1074)
  have hlt : l < k := by exact_mod_cast lt_of_mul_lt_mul_right h hscale.le
  have hone : (1 : ℚ) ≤ k - l := by exact_mod_cast Int.sub_pos_of_lt hlt
  refine nearest_pos ?_
  calc (2 : ℚ) ^ (-1074 : ℤ) = 1 * 2 ^ (-1074 : ℤ) := (one_mul _).symm
    _ ≤ (k - l) * 2 ^ (-1074 : ℤ) := mul_le_mul_of_nonneg_right hone hscale.le
    _ = k * 2 ^ (-1074 : ℤ) - l * 2 ^ (-1074 : ℤ) := sub_mul _ _ _

/-- The distance from a number up to another double is infinite, or a number itself. -/
theorem IsNumber.sub_kinds (hy : IsNumber y r) (h : Scalar.lt y x = true) :
    IsTop (x - y) ∨ ∃ q, IsNumber x q ∧ r < q ∧ IsNumber (x - y) (nearest (q - r)) := by
  rcases upper_kinds h with htop | ⟨q, hx⟩
  · exact Or.inl (htop.sub_number hy)
  · have hlt : r < q := (hy.lt_iff hx).mp h
    obtain ⟨hsmall, hlarge⟩ := hx.sub hy hlt
    rcases lt_or_ge (nearest (q - r)) overflow with hroom | hover
    · exact Or.inr ⟨q, hx, hlt, hsmall hroom⟩
    · exact Or.inl (hlarge hover)

/-- What is above the negative infinity is infinitely far from it. -/
theorem IsBottom.isTop_sub (hy : IsBottom y) (h : Scalar.lt y x = true) : IsTop (x - y) := by
  rcases upper_kinds h with htop | ⟨q, hx⟩
  · exact htop.sub_bottom hy
  · exact hx.sub_bottom hy

/-- An infinite distance is the positive infinity. -/
theorem isTop_sub_of_isInf (h : Scalar.lt y x = true) (hinf : (x - y).isInf = true) :
    IsTop (x - y) := by
  rcases lower_kinds h with hbottom | ⟨r, hy⟩
  · exact hbottom.isTop_sub h
  · refine (hy.sub_kinds h).resolve_right ?_
    rintro ⟨q, -, -, hnumber⟩
    rw [hnumber.isInf] at hinf
    cases hinf

/-- **Distances are monotone**: what is further apart is infinitely far apart if the rest is. -/
theorem isTop_sub_of_le (h : Scalar.lt y x = true) (hx : Scalar.le x x' = true)
    (hy : Scalar.le y' y = true) (hinf : IsTop (x - y)) : IsTop (x' - y') := by
  have h' : Scalar.lt y' x' = true := Scalar.lt_of_le_of_lt hy (Scalar.lt_of_lt_of_le h hx)
  rcases lower_kinds h' with hbottom | ⟨r', hy'⟩
  · exact hbottom.isTop_sub h'
  rcases upper_kinds h' with htop | ⟨q', hx'⟩
  · exact htop.sub_number hy'
  -- The outer doubles are numbers, and so are those between them.
  obtain ⟨r, hnumber⟩ := (lower_kinds h).resolve_left fun hbottom =>
    hy'.not_isBottom (hbottom.of_le hy)
  obtain ⟨q, hnumber'⟩ := (upper_kinds h).resolve_left fun htop => hx'.not_isTop (htop.of_le hx)
  have hlt : r < q := (hnumber.lt_iff hnumber').mp h
  have hr : r' ≤ r := (hy'.le_iff hnumber).mp hy
  have hq : q ≤ q' := (hnumber'.le_iff hx').mp hx
  have hover : overflow ≤ nearest (q - r) := not_lt.mp fun hroom =>
    ((hnumber'.sub hnumber hlt).1 hroom).not_isTop hinf
  have hmono : nearest (q - r) ≤ nearest (q' - r') :=
    nearest_mono (sub_pos.mpr hlt) (sub_le_sub hq hr)
  exact (hx'.sub hy' (by linarith)).2 (hover.trans hmono)

/-! ### Shares -/

/-- Zero is a number. -/
theorem isNumber_zero : IsNumber 0.0 0 := .zero .positive

/-- One is a number. -/
theorem isNumber_one : IsNumber 1.0 1 := by
  have hcanonical : Canonical (2 ^ 52) (-52) := ⟨by norm_num, by norm_num, by norm_num⟩
  have hdenotes := Denotes.finite .positive (by norm_num) hcanonical
  have hone : (Sign.positive.apply (2 ^ 52 : ℕ) : ℚ) * 2 ^ (-52 : ℤ) = 1 := by
    simp [Sign.apply]
    norm_num
  rw [hone] at hdenotes
  exact hdenotes

/-- Infinitely far from the lower node, the share is undefined: the whole is no shorter than the
    part. -/
theorem share_undefined (hlower : Scalar.lt x₀ x = true) (hupper : Scalar.lt x x₁ = true)
    (hinf : (x - x₀).isInf = true) : ((x - x₀) / (x₁ - x₀)).isNaN = true := by
  have hnumber : Scalar.le x₀ x₀ = true :=
    Scalar.le_refl (LawfulScalar.number_of_le (Scalar.le_of_lt hlower)).1
  have hpart := isTop_sub_of_isInf hlower hinf
  have hwhole := isTop_sub_of_le hlower (Scalar.le_of_lt hupper) hnumber hpart
  exact hpart.div_top hwhole

/-- Otherwise it is a number from 0 to 1: the part is no longer than the whole, before and after
    rounding. -/
theorem share_proper (hlower : Scalar.lt x₀ x = true) (hupper : Scalar.lt x x₁ = true)
    (hinf : (x - x₀).isInf = false) :
    Scalar.le 0.0 ((x - x₀) / (x₁ - x₀)) = true ∧ Scalar.le ((x - x₀) / (x₁ - x₀)) 1.0 = true := by
  -- An infinite distance to the node below, which is what `hinf` excludes, would be the only way
  -- for the operands not to be finite.
  have hpart : ¬ IsTop (x - x₀) := fun htop => by
    rw [htop.isInf] at hinf
    cases hinf
  obtain ⟨r, hx₀⟩ := (lower_kinds hlower).resolve_left fun hbottom =>
    hpart (hbottom.isTop_sub hlower)
  obtain ⟨q, hx, hrq, hdistance⟩ := (hx₀.sub_kinds hlower).resolve_left hpart
  have ha : 0 < nearest (q - r) := hx.nearest_sub_pos hx₀ hrq
  rcases hx₀.sub_kinds (Scalar.lt_trans hlower hupper) with htop | ⟨q₁, hx₁, -, hdistance₁⟩
  · -- A finite part of an infinite whole.
    have hzero := hdistance.div_top htop
    exact ⟨(isNumber_zero.le_iff hzero).mpr le_rfl, (hzero.le_iff isNumber_one).mpr zero_le_one⟩
  · -- A finite part of a finite whole: rounding is monotone, so the part stays no longer.
    have hq : q < q₁ := (hx.lt_iff hx₁).mp hupper
    have hab : nearest (q - r) ≤ nearest (q₁ - r) :=
      nearest_mono (sub_pos.mpr hrq) (by linarith)
    have hb := ha.trans_le hab
    have hle : nearest (nearest (q - r) / nearest (q₁ - r)) ≤ 1 :=
      (nearest_mono (div_pos ha hb) ((div_le_one hb).mpr hab)).trans_eq nearest_one
    have hshare := hdistance.div hdistance₁ ha hb
      (hle.trans_lt (one_lt_zpow₀ (by norm_num) (by norm_num)))
    exact ⟨(isNumber_zero.le_iff hshare).mpr (nearest_nonneg _),
      (hshare.le_iff isNumber_one).mpr hle⟩

/-! ### Brackets -/

/-- The weight is a number from 0 to 1. -/
def Bracket.IsProper (bracket : Bracket Float) : Prop :=
  Scalar.le 0.0 bracket.weight = true ∧ Scalar.le bracket.weight 1.0 = true

/-- A node that is hit has a proper weight. -/
theorem Bracket.isProper_single (i : Nat) : (Bracket.single i : Bracket Float).IsProper :=
  ⟨(isNumber_zero.le_iff isNumber_zero).mpr le_rfl,
    (isNumber_zero.le_iff isNumber_one).mpr zero_le_one⟩

/-- A proper weight is not undefined. -/
theorem Bracket.IsProper.isUndefined {bracket : Bracket Float} (h : bracket.IsProper) :
    bracket.isUndefined = false := (LawfulScalar.number_of_le h.1).2

namespace Axis

/-- The distance to a coordinate from the node below it is finite, if it is between two nodes. -/
def Measures (axis : Axis Float) (x : Float) : Prop :=
  ∀ i < axis.last, Scalar.lt (axis.node i) x = true → Scalar.lt x (axis.node (i + 1)) = true →
    (x - axis.node i).isInf = false

instance (axis : Axis Float) (x : Float) : Decidable (axis.Measures x) :=
  inferInstanceAs (Decidable (∀ i < axis.last, _))

variable {axis : Axis Float}

/-- There is no distance to measure on a node or beyond an end. -/
theorem measures_of_hits {i : Nat} (h : axis.Hits x i) : axis.Measures x := by
  intro j hj hlower hupper
  exact absurd h (Between.not_hits ⟨hj, hlower, hupper⟩)

/-- Between two nodes there is one. -/
theorem measures_iff_of_between {i : Nat} (h : axis.Between x i) :
    axis.Measures x ↔ (x - axis.node i).isInf = false := by
  constructor
  · intro hmeasures
    exact hmeasures i h.lt_last h.above h.below
  · intro hfinite j hj hlower hupper
    obtain rfl : i = j := h.unique ⟨hj, hlower, hupper⟩
    exact hfinite

/-- **The weight of a number** is proper if the axis measures it, and undefined otherwise. -/
theorem bracket_weight (axis : Axis Float) (hx : x.isNaN = false) :
    axis.Measures x ∧ (axis.bracket x).IsProper ∨
      ¬ axis.Measures x ∧ (axis.bracket x).isUndefined = true := by
  rcases axis.hits_or_between hx with ⟨i, hhits⟩ | ⟨i, hbetween⟩
  · rw [bracket_of_hits hhits]
    exact Or.inl ⟨measures_of_hits hhits, Bracket.isProper_single i⟩
  · rw [measures_iff_of_between hbetween, bracket_of_between hbetween]
    cases hinf : (x - axis.node i).isInf with
    | false => exact Or.inl ⟨rfl, share_proper hbetween.above hbetween.below hinf⟩
    | true =>
      exact Or.inr ⟨Bool.true_eq_false.mp, share_undefined hbetween.above hbetween.below hinf⟩

/-- An axis whose ends are not infinitely far apart measures every coordinate. -/
theorem measures_of_span (axis : Axis Float) (h : (axis.greatest - axis.least).isInf = false)
    (x : Float) : axis.Measures x := by
  intro i hi hlower hupper
  by_contra hinf
  rw [Bool.not_eq_false] at hinf
  have hgreatest : Scalar.le x axis.greatest = true :=
    LawfulScalar.le_trans (Scalar.le_of_lt hupper) (node_le_node hi axis.last_lt_size)
  have hleast : Scalar.le axis.least (axis.node i) = true :=
    node_le_node (Nat.zero_le i) (Nat.lt_of_succ_lt (succ_lt_size hi))
  have htop := isTop_sub_of_le hlower hgreatest hleast (isTop_sub_of_isInf hlower hinf)
  rw [htop.isInf] at h
  cases h

/-- A weight is proper exactly if the axis can be measured there. -/
theorem bracket_isProper_iff (axis : Axis Float) (hx : x.isNaN = false) :
    (axis.bracket x).IsProper ↔ axis.Measures x := by
  rcases axis.bracket_weight hx with ⟨hmeasures, hproper⟩ | ⟨hmeasures, hundefined⟩
  · exact iff_of_true hproper hmeasures
  · refine iff_of_false (fun hproper => ?_) hmeasures
    rw [hproper.isUndefined] at hundefined
    cases hundefined

/-- A weight is undefined exactly if the coordinate is or if the axis cannot be measured there. -/
theorem bracket_isUndefined_iff (axis : Axis Float) (x : Float) :
    (axis.bracket x).isUndefined = true ↔ x.isNaN = true ∨ ¬ axis.Measures x := by
  cases hx : x.isNaN with
  | true =>
    have hbracket : axis.bracket x = ⟨0, 0, Scalar.nan⟩ := if_pos hx
    rw [hbracket]
    exact ⟨fun _ => Or.inl rfl, fun _ => by decide⟩
  | false =>
    rcases axis.bracket_weight hx with ⟨hmeasures, hproper⟩ | ⟨hmeasures, hundefined⟩
    · rw [hproper.isUndefined]
      simp [hmeasures]
    · rw [hundefined]
      simp [hmeasures]

end Axis

/-- A query ends early if a component is undefined or its axis does not measure it. -/
theorem Table.any_isUndefined_iff (table : Table Float) (coordinate : List Float) :
    (table.brackets coordinate).any Bracket.isUndefined = true ↔
      ∃ p ∈ table.axes.zip coordinate, p.2.isNaN = true ∨ ¬ p.1.Measures p.2 := by
  unfold Table.brackets
  rw [← List.map_uncurry_zip_eq_zipWith, List.any_map, List.any_eq_true]
  exact exists_congr fun p => and_congr_right fun _ => p.1.bracket_isUndefined_iff p.2

/-- **Weights.**  The weight of a number is a number from 0 to 1 exactly if its distance from the
    node below is finite, which it always is if that between the ends of the axis is, and undefined
    otherwise.  So a query ends early, with an undefined result, exactly if a component is undefined
    or such a distance is infinite. -/
theorem weights_proper_iff_measured (axis : Axis Float) (x : Float) (table : Table Float)
    (coordinate : List Float) :
    (x.isNaN = false →
      ((axis.bracket x).IsProper ↔ axis.Measures x) ∧
      ((axis.bracket x).isUndefined = true ↔ ¬ axis.Measures x) ∧
      ((axis.greatest - axis.least).isInf = false → axis.Measures x)) ∧
    ((table.brackets coordinate).any Bracket.isUndefined = true ↔
      ∃ p ∈ table.axes.zip coordinate, p.2.isNaN = true ∨ ¬ p.1.Measures p.2) := by
  refine ⟨fun hx => ⟨axis.bracket_isProper_iff hx, ?_, fun h => axis.measures_of_span h x⟩,
    table.any_isUndefined_iff coordinate⟩
  rw [axis.bracket_isUndefined_iff, hx]
  simp

/-- An axis whose ends are too far apart for their distance to be a double. -/
def wideAxis : Axis Float := ⟨#[-1.7e308, 1.7e308], by decide +kernel⟩

/-- An axis with nearer ends. -/
def halfAxis : Axis Float := ⟨#[0.0, 1.7e308], by decide +kernel⟩

/-- The table over the axis whose ends are too far apart. -/
def wideTable : Table Float where
  axes := [wideAxis]
  values := #[10.0, 20.0]
  axes_ne_nil := List.cons_ne_nil _ _
  axes_length_le := by decide
  values_size := rfl

theorem weights_proper_iff_measured_wide :
    (wideAxis.bracket 1e308).isUndefined = true ∧ (wideAxis.bracket (-1e308)).IsProper ∧
      (halfAxis.bracket 1e308).IsProper ∧
      (wideTable.brackets [1e308]).any Bracket.isUndefined = true := by
  obtain ⟨hwide, hearly⟩ := weights_proper_iff_measured wideAxis 1e308 wideTable [1e308]
  obtain ⟨-, hundefined, -⟩ := hwide (by decide +kernel)
  obtain ⟨hlow, -⟩ := weights_proper_iff_measured wideAxis (-1e308) wideTable []
  obtain ⟨hproper, -, -⟩ := hlow (by decide +kernel)
  obtain ⟨hhalf, -⟩ := weights_proper_iff_measured halfAxis 1e308 wideTable []
  obtain ⟨hproper', -, hspan⟩ := hhalf (by decide +kernel)
  have hunmeasured : ¬ wideAxis.Measures 1e308 := by decide +kernel
  exact ⟨hundefined.mpr hunmeasured, hproper.mpr (by decide +kernel),
    hproper'.mpr (hspan (by decide +kernel)),
    hearly.mpr ⟨(wideAxis, 1e308), List.mem_singleton_self _, Or.inr hunmeasured⟩⟩

/-- A number between the nodes of an axis can have an undefined weight. -/
theorem not_all_weights_proper : ¬ ∀ (axis : Axis Float) (x : Float), x.isNaN = false →
    (axis.bracket x).IsProper := by
  intro h
  have hproper := h wideAxis 1e308 (by decide +kernel)
  have hundefined : (wideAxis.bracket 1e308).isUndefined = true := by decide +kernel
  rw [hproper.isUndefined] at hundefined
  cases hundefined

end GridLookup
