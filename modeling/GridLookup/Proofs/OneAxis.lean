import GridLookup.Curve.Basic
import GridLookup.Proofs.GridPoint
import GridLookup.Proofs.Neutral

namespace GridLookup

/-!
# Tables with one axis

On a single axis the general query begins its sum with zero and its shares with one, while the query
for such tables leaves both out.

* `interpolant_of_one` — the general sum over a single bracket.
* `Table.interpolate1_agrees` — the two sums agree up to the sign of a zero.
* `Curve.Built` — curves of tables and of files, with or without a lower bound.
* `Table.get1_agrees_get` — queries with one component, and the values of curves.
-/

variable {α : Type} [Scalar α]

/-! ### One bracket -/

/-- The sum over a single bracket, as it is added up. -/
theorem interpolant_of_one (bracket : Bracket α) (values : List Nat → α) :
    interpolant [bracket] values
      = if bracket.isUndefined then Scalar.nan
        else if bracket.isSingle then values [bracket.lo]
        else 0.0 + 1.0 * (1.0 - bracket.weight) * values [bracket.lo]
          + 1.0 * bracket.weight * values [bracket.hi] := by
  unfold interpolant
  simp only [List.any_cons, List.any_nil, Bool.or_false, List.all_cons, List.all_nil,
    Bool.and_true]
  split
  · rfl
  split
  · rfl
  next hpair =>
  rw [spread, Bracket.choices, if_neg hpair]
  rfl

namespace Table

/-- **One axis.**  The two queries agree: both are undefined, or they are numerically equal. -/
theorem interpolate1_agrees {table : Table Float} {axis : Axis Float} (h : table.axes = [axis])
    (x : Float) : Agree (table.interpolate1 (axis.bracket x)) (table.interpolate [x]) := by
  have hlength : [x].length = table.dimensions := (congrArg List.length h).symm
  rw [table.interpolate_eq_interpolant hlength, brackets_of_axis h, interpolant_of_one,
    interpolate1, offset_of_axis h, offset_of_axis h, one_mul_double, one_mul_double]
  split
  · exact .refl _
  split
  · exact .refl _
  · -- Once the factors of one are gone, the general sum differs by its first summand, zero.
    exact agree_zero_add _ _

end Table

/-! ### Curves -/

namespace Curve

/-- The curves that are made of tables and of files, and those that are made of them with a lower
    bound. -/
inductive Built : Curve Float → Prop where
  /-- The curve of a table. -/
  | table {table : Table Float} {curve : Curve Float} (h : ofTable table = .ok curve) : Built curve
  /-- The curve of a file. -/
  | file {bytes : List UInt8} {curve : Curve Float} (h : ofBytes bytes = .ok curve) : Built curve
  /-- A curve with a lower bound. -/
  | bounded {curve : Curve Float} (h : Built curve) (least : Float) : Built (curve.withLeast least)

/-- A curve is made of a table of one dimension. -/
theorem ofTable_eq_ok_iff {table : Table α} {curve : Curve α} :
    ofTable table = .ok curve ↔ table.dimensions = 1 ∧ curve = ⟨table, none⟩ := by
  unfold ofTable
  by_cases h : table.dimensions = 1 <;> simp [h, eq_comm]

/-- A curve that was read has one dimension. -/
theorem dimensions_of_ofBytes {bytes : List UInt8} {curve : Curve Float}
    (h : ofBytes bytes = .ok curve) : curve.table.dimensions = 1 := by
  unfold ofBytes at h
  cases htable : tableOfBytes bytes with
  | error error =>
    rw [htable] at h
    cases h
  | ok table =>
    rw [htable] at h
    change (ofTable table).mapError StoreError.table = .ok curve at h
    cases hcurve : ofTable table with
    | error error =>
      rw [hcurve] at h
      cases h
    | ok made =>
      rw [hcurve] at h
      cases h
      obtain ⟨hone, rfl⟩ := ofTable_eq_ok_iff.mp hcurve
      exact hone

/-- Whatever way a curve is made, its table has one axis. -/
theorem Built.dimensions {curve : Curve Float} (h : Built curve) : curve.table.dimensions = 1 := by
  induction h with
  | table h =>
    obtain ⟨hone, rfl⟩ := ofTable_eq_ok_iff.mp h
    exact hone
  | file h => exact dimensions_of_ofBytes h
  | bounded _ _ ih => exact ih

/-- Below its bound a curve has no value. -/
theorem value_of_lt {curve : Curve α} {least x : α} (hleast : curve.least = some least)
    (h : Scalar.lt x least = true) : curve.value x = Scalar.nan := by
  unfold value
  rw [hleast, Option.any_some, if_pos h]

/-- Elsewhere it has that of its table, which has one. -/
theorem get1_eq_value {curve : Curve α} {x : α} (hone : curve.table.dimensions = 1)
    (h : ∀ least, curve.least = some least → Scalar.lt x least = false) :
    curve.table.get1 x = .ok (curve.value x) := by
  have hbound : (curve.least.any fun least => Scalar.lt x least) = false := by
    cases hleast : curve.least with
    | none => rfl
    | some least => exact h least hleast
  obtain ⟨axis, haxis⟩ := Table.exists_axis hone
  unfold value
  rw [hbound, Table.get1_of_axis haxis]
  rfl

end Curve

namespace Table

/-- **One component.**  The query for tables with one axis and the general query refuse the same
    tables, in the same words.  Elsewhere both results are undefined or numerically equal, and if
    they are not the same double both are zeros.  A curve has no value below its bound, if there is
    one, and the value of its table elsewhere; the table never refuses. -/
theorem get1_agrees_get (table : Table Float) (x : Float) :
    (table.dimensions ≠ 1 →
      table.get1 x = .error (.arityMismatch table.dimensions 1) ∧
        table.get [x] = .error (.arityMismatch table.dimensions 1)) ∧
    (table.dimensions = 1 → ∃ y z, table.get1 x = .ok y ∧ table.get [x] = .ok z ∧
      (y.isNaN = true ∧ z.isNaN = true ∨ Scalar.eq y z = true) ∧
      (y = z ∨ Scalar.eq y 0.0 = true ∧ Scalar.eq z 0.0 = true)) ∧
    ∀ curve, Curve.Built curve →
      (∀ least, curve.least = some least → Scalar.lt x least = true →
        (curve.value x).isNaN = true) ∧
      ((∀ least, curve.least = some least → Scalar.lt x least = false) →
        curve.table.get1 x = .ok (curve.value x)) := by
  refine ⟨fun h => ⟨get1_of_dimensions_ne h x, table.get_of_length_ne (Ne.symm h)⟩, fun h => ?_,
    fun curve hbuilt => ⟨fun least hleast hlt => ?_, Curve.get1_eq_value hbuilt.dimensions⟩⟩
  · obtain ⟨axis, haxis⟩ := exists_axis h
    have hagree := interpolate1_agrees haxis x
    exact ⟨_, _, get1_of_axis haxis x, table.get_of_length h.symm, hagree, hagree.eq_or_zero⟩
  · rw [Curve.value_of_lt hleast hlt]
    rfl

/-- A table with one axis that stores the negative zero everywhere. -/
def negativeZeros : Table Float where
  axes := [⟨#[-1.0, 1.0], by decide +kernel⟩]
  values := #[Float.ofBits 0x8000000000000000, Float.ofBits 0x8000000000000000]
  axes_ne_nil := List.cons_ne_nil _ _
  axes_length_le := by decide
  values_size := rfl

/-- Between its nodes only the general query makes a positive zero of it. -/
theorem get1_agrees_get_negativeZeros :
    let curve : Curve Float := ⟨negativeZeros, some 0.25⟩
    negativeZeros.dimensions = 1 ∧ speckled.dimensions ≠ 1 ∧
      speckled.get1 0.5 = speckled.get [0.5] ∧
      (∃ y z, negativeZeros.get1 0.5 = .ok y ∧ negativeZeros.get [0.5] = .ok z ∧
        Scalar.eq y z = true ∧ y.toBits = 0x8000000000000000 ∧ z.toBits = 0) ∧
      curve.Built ∧ (curve.value 0.0).isNaN = true ∧
      negativeZeros.get1 0.5 = .ok (curve.value 0.5) := by
  intro curve
  obtain ⟨hrefused, -, -⟩ := get1_agrees_get speckled 0.5
  obtain ⟨-, hanswered, hcurves⟩ := get1_agrees_get negativeZeros 0.5
  obtain ⟨-, -, hbelow⟩ := get1_agrees_get negativeZeros 0.0
  have hmany : speckled.dimensions ≠ 1 := by decide
  obtain ⟨hspecial, hgeneral⟩ := hrefused hmany
  obtain ⟨y, z, hy, hz, hagree, -⟩ := hanswered rfl
  have hbuilt : curve.Built := .bounded (.table (Curve.ofTable_eq_ok_iff.mpr ⟨rfl, rfl⟩)) 0.25
  -- The bits are compared, since as numbers both zeros are equal.
  have hnegative : (negativeZeros.get1 0.5).toOption.map Float.toBits
      = some 0x8000000000000000 := by decide +kernel
  have hpositive : (negativeZeros.get [0.5]).toOption.map Float.toBits = some 0 := by
    decide +kernel
  rw [hy] at hnegative
  rw [hz] at hpositive
  have hybits : y.toBits = 0x8000000000000000 := Option.some.inj hnegative
  have hzbits : z.toBits = 0 := Option.some.inj hpositive
  refine ⟨rfl, hmany, hspecial.trans hgeneral.symm, ⟨y, z, hy, hz, ?_, hybits, hzbits⟩, hbuilt,
    ?_, ?_⟩
  · refine hagree.resolve_left fun hundefined => ?_
    have hy : y = Float.ofBits 0x8000000000000000 := by
      rw [← hybits, Float.ofBits_toBits]
    rw [hy] at hundefined
    exact absurd hundefined.1 (by decide)
  · exact (hbelow curve hbuilt).1 0.25 rfl (by decide +kernel)
  · refine (hcurves curve hbuilt).2 fun least hleast => ?_
    obtain rfl := Option.some.inj hleast
    decide +kernel

end Table

end GridLookup
