import GridLookup.Proofs.Mask
import GridLookup.Proofs.MultiAffine
import Mathlib.Algebra.Order.BigOperators.Group.List
import Mathlib.Algebra.Order.Field.Basic
import Mathlib.Data.Set.Finite.Lemmas

namespace GridLookup

/-!
# No overshoot

Read over exact numbers, a query is an average of the values stored at the corners of the enclosing
cell, so it is neither below the least of them nor above the greatest.

* `Shares.mean`, `Shares.IsWhole` — averages, with shares that are parts of one whole.
* `Axis.isWhole_shares` — the shares of a bracket are.
* `blend_le_blend`, `blend_const` — averaging keeps inequalities and constants.
* `sum_weight_corners`, `weight_corner_nonneg` — the weights of the masks are shares of a whole too.
* `Table.get_between_corners` — the value at a coordinate is between those of the corners.
-/

/-! ### Averages -/

namespace Shares

/-- The values of a function of the nodes, averaged with their shares. -/
def mean (shares : Shares) (f : Nat → ℚ) : ℚ := (shares.map fun share => share.2 * f share.1).sum

/-- The shares are parts of one whole. -/
structure IsWhole (shares : Shares) : Prop where
  /-- No part is negative. -/
  nonneg : ∀ share ∈ shares, 0 ≤ share.2
  /-- The parts make the whole. -/
  sum_eq_one : (shares.map fun share => share.2).sum = 1

variable {shares : Shares}

/-- A mean grows with the values it is taken of. -/
theorem IsWhole.mean_le_mean (h : shares.IsWhole) {f g : Nat → ℚ}
    (hle : ∀ share ∈ shares, f share.1 ≤ g share.1) : shares.mean f ≤ shares.mean g :=
  List.sum_le_sum fun share hshare =>
    mul_le_mul_of_nonneg_left (hle share hshare) (h.nonneg share hshare)

/-- The mean of a constant is that constant. -/
theorem IsWhole.mean_const (h : shares.IsWhole) (value : ℚ) :
    shares.mean (fun _ => value) = value := by
  unfold mean
  rw [List.sum_map_mul_right, h.sum_eq_one, one_mul]

end Shares

/-- Values are blended along the first axis last. -/
theorem blend_cons (shares : Shares) (rest : List Shares) (f : List Nat → ℚ) :
    blend (shares :: rest) f
      = shares.mean fun node => blend rest fun index => f (node :: index) := rfl

section Blend

variable {axes : List Shares}

/-- Averaging keeps inequalities; only the nodes that have a share matter. -/
theorem blend_le_blend (whole : ∀ shares ∈ axes, shares.IsWhole) {f g : List Nat → ℚ}
    (h : ∀ index, List.Forall₂ (fun shares node => ∃ share ∈ shares, share.1 = node) axes index →
      f index ≤ g index) :
    blend axes f ≤ blend axes g := by
  induction axes generalizing f g with
  | nil => exact h [] .nil
  | cons shares rest ih =>
    rw [List.forall_mem_cons] at whole
    rw [blend_cons, blend_cons]
    refine whole.1.mean_le_mean fun share hshare => ?_
    exact ih whole.2 fun index hindex => h (share.1 :: index) (.cons ⟨share, hshare, rfl⟩ hindex)

/-- Averaging keeps constants. -/
theorem blend_const (whole : ∀ shares ∈ axes, shares.IsWhole) (value : ℚ) :
    blend axes (fun _ => value) = value := by
  induction axes with
  | nil => rfl
  | cons shares rest ih =>
    rw [List.forall_mem_cons] at whole
    rw [blend_cons, ih whole.2, whole.1.mean_const]

end Blend

/-! ### The shares of a bracket -/

namespace Axis

/-- Between two nodes both have a share. -/
theorem weight_between {axis : Axis ℚ} {x : ℚ} (h : (axis.bracket x).isSingle = false) :
    0 < (axis.bracket x).weight ∧ (axis.bracket x).weight < 1 := by
  have hlocated := axis.bracket_located (rfl : Scalar.isNaN x = false)
  generalize axis.bracket x = bracket at hlocated h
  cases hlocated with
  | below => rw [Bracket.isSingle_single] at h; cases h
  | above => rw [Bracket.isSingle_single] at h; cases h
  | on => rw [Bracket.isSingle_single] at h; cases h
  | @between i size lower upper =>
    have hlower : axis.node i < x := of_decide_eq_true lower
    have hupper : x < axis.node (i + 1) := of_decide_eq_true upper
    have hwidth : 0 < axis.node (i + 1) - axis.node i := sub_pos.mpr (hlower.trans hupper)
    exact ⟨div_pos (sub_pos.mpr hlower) hwidth,
      (div_lt_one hwidth).mpr (sub_lt_sub_right hupper _)⟩

/-- The two nodes around a coordinate share a whole between them. -/
theorem isWhole_shares (axis : Axis ℚ) (x : ℚ) : (axis.bracket x).shares.IsWhole := by
  refine ⟨fun share hshare => ?_, axis.sum_shares_bracket x⟩
  unfold Bracket.shares at hshare
  split at hshare
  · rw [List.mem_singleton] at hshare
    rw [hshare]
    exact zero_le_one
  · next hpair =>
    rw [Bool.not_eq_true] at hpair
    obtain ⟨hpositive, hless⟩ := weight_between hpair
    rw [List.mem_cons, List.mem_singleton] at hshare
    rcases hshare with rfl | rfl
    · exact sub_nonneg.mpr hless.le
    · exact hpositive.le

end Axis

/-- Along every axis the shares are those of a whole. -/
theorem isWhole_of_mem_shares {axes : List (Axis ℚ)} {coordinate : List ℚ} {shares : Shares}
    (h : shares ∈ (List.zipWith Axis.bracket axes coordinate).map Bracket.shares) :
    shares.IsWhole := by
  obtain ⟨bracket, hbracket, rfl⟩ := List.mem_map.mp h
  obtain ⟨k, hk, rfl⟩ := List.mem_iff_getElem.mp hbracket
  rw [List.getElem_zipWith]
  exact Axis.isWhole_shares _ _

/-- Averaging over the brackets of a coordinate keeps inequalities; only the corners matter. -/
theorem blend_le_of_picks {axes : List (Axis ℚ)} {coordinate : List ℚ} {f g : List Nat → ℚ}
    (h : ∀ index, Picks (List.zipWith Axis.bracket axes coordinate) index → f index ≤ g index) :
    blend ((List.zipWith Axis.bracket axes coordinate).map Bracket.shares) f
      ≤ blend ((List.zipWith Axis.bracket axes coordinate).map Bracket.shares) g :=
  blend_le_blend (fun _ => isWhole_of_mem_shares) fun index hindex =>
    h index (picks_of_mem_shares hindex)

namespace Table

variable (table : Table ℚ) {coordinate : List ℚ}

/-- A query is between bounds that hold of all corners. -/
theorem interpolate_between (hlength : coordinate.length = table.dimensions) {low high : ℚ}
    (h : ∀ index, Picks (table.brackets coordinate) index →
      low ≤ table.value (Shape.offset table.shape index) ∧
        table.value (Shape.offset table.shape index) ≤ high) :
    low ≤ table.interpolate coordinate ∧ table.interpolate coordinate ≤ high := by
  have hconst := blend_const (@isWhole_of_mem_shares table.axes coordinate)
  rw [table.interpolate_eq_blend hlength]
  constructor
  · rw [← hconst low]
    exact blend_le_of_picks fun index hindex => (h index hindex).1
  · rw [← hconst high]
    exact blend_le_of_picks fun index hindex => (h index hindex).2

end Table

/-! ### The weights of the masks -/

/-- Whatever the steps are, a constant is interpolated to itself. -/
theorem stepSum_const (steps : List (Step ℚ)) (value : ℚ) (cell : Nat) :
    stepSum steps (fun _ => value) cell = value := by
  induction steps generalizing cell with
  | nil => rfl
  | cons step steps ih =>
    rw [stepSum, ih, ih]
    ring

/-- The weights of all masks add up to one, however many steps there are. -/
theorem sum_weight_corners (base : Nat) (steps : List (Step ℚ)) :
    ((corners base steps).map Corner.weight).sum = 1 := by
  have hsum := sum_extendCorners steps [⟨base, 1.0⟩] fun _ => 1
  simp only [stepSum_const, mul_one, List.map_cons, List.map_nil, List.sum_singleton] at hsum
  rw [corners, show Corner.weight = fun corner : Corner ℚ => corner.weight from rfl, hsum]
  norm_num

/-- Steps between two nodes keep weights from becoming negative. -/
theorem weight_follow_nonneg {steps : List (Step ℚ)}
    (proper : ∀ step ∈ steps, 0 ≤ step.weight ∧ step.weight ≤ 1) (mask : Nat) {corner : Corner ℚ}
    (h : 0 ≤ corner.weight) : 0 ≤ (corner.follow steps mask).weight := by
  induction steps generalizing mask corner with
  | nil => exact h
  | cons step steps ih =>
    rw [List.forall_mem_cons] at proper
    obtain ⟨⟨hnonneg, hle⟩, proper⟩ := proper
    refine ih proper (mask / 2) ?_
    split
    · exact mul_nonneg h hnonneg
    · rw [weight_lower]
      exact mul_nonneg h (sub_nonneg.mpr hle)

namespace Table

variable (table : Table ℚ) {coordinate : List ℚ}

/-- The steps taken have weights strictly between zero and one. -/
theorem weight_of_mem_steps {step : Step ℚ}
    (h : step ∈ table.steps (table.brackets coordinate)) : 0 < step.weight ∧ step.weight < 1 := by
  unfold steps at h
  obtain ⟨⟨bracket, stride⟩, hmem, hstep⟩ := List.mem_filterMap.mp h
  have hbracket : bracket ∈ table.brackets coordinate := (List.of_mem_zip hmem).1
  unfold brackets at hbracket
  obtain ⟨k, hk, rfl⟩ := List.mem_iff_getElem.mp hbracket
  rw [List.getElem_zipWith] at hstep
  dsimp only at hstep
  split at hstep
  · cases hstep
  · next hpair =>
    obtain rfl := Option.some.inj hstep
    exact Axis.weight_between (Bool.not_eq_true _ ▸ hpair)

/-- A query adds up the values of the corners with the weights of their masks. -/
theorem interpolate_eq_sum :
    table.interpolate coordinate
      = ((corners (table.baseCell (table.brackets coordinate))
          (table.steps (table.brackets coordinate))).map fun corner =>
            corner.weight * table.value corner.cell).sum := by
  have hzero : (0.0 : ℚ) = 0 := by norm_num
  unfold interpolate
  dsimp only
  rw [if_neg (Bracket.not_any_isUndefined _)]
  split
  · next hnone =>
    rw [hnone]
    show _ = ([(1.0 : ℚ) * table.value _]).sum
    norm_num
  · unfold weightedSum
    rw [foldl_add_eq_sum, hzero, zero_add]

/-- Among the corners there is one with the least value, and one with the greatest. -/
theorem exists_extreme_corners (brackets : List (Bracket ℚ)) (f : List Nat → ℚ) :
    ∃ lowest highest, Picks brackets lowest ∧ Picks brackets highest ∧
      ∀ index, Picks brackets index → f lowest ≤ f index ∧ f index ≤ f highest := by
  have hfinite : {index | Picks brackets index}.Finite := by
    let nodes := brackets.map fun bracket => [bracket.lo, bracket.hi]
    refine (List.finite_toSet nodes.sections).subset fun index hindex => List.mem_sections.mpr ?_
    rw [List.forall₂_map_right_iff]
    have hindex : Picks brackets index := hindex
    exact hindex.flip.imp fun node bracket hnode => by simpa using hnode
  have hnonempty : {index | Picks brackets index}.Nonempty := ⟨_, picks_map_lo brackets⟩
  obtain ⟨lowest, hlowest, hleast⟩ := Set.exists_min_image _ f hfinite hnonempty
  obtain ⟨highest, hhighest, hgreatest⟩ := Set.exists_max_image _ f hfinite hnonempty
  exact ⟨lowest, highest, hlowest, hhighest, fun index hindex =>
    ⟨hleast index hindex, hgreatest index hindex⟩⟩

/-- **No overshoot.**  The value at a coordinate is between the least and the greatest of the values
    stored at the corners of the enclosing cell.  It is their sum with the weights of the masks, and
    for any number of steps with proper weights these are not negative and add up to one. -/
theorem get_between_corners (hlength : coordinate.length = table.dimensions) :
    (∃ lowest highest low high value,
      Picks (table.brackets coordinate) lowest ∧ Picks (table.brackets coordinate) highest ∧
      table.stored lowest = .ok low ∧ table.stored highest = .ok high ∧
      (∀ index, Picks (table.brackets coordinate) index →
        ∃ corner, table.stored index = .ok corner ∧ low ≤ corner ∧ corner ≤ high) ∧
      table.get coordinate = .ok value ∧ low ≤ value ∧ value ≤ high) ∧
    (let base := table.baseCell (table.brackets coordinate)
     let steps := table.steps (table.brackets coordinate)
     (∀ step ∈ steps, 0 < step.weight ∧ step.weight < 1) ∧
      table.get coordinate = .ok ((List.range (2 ^ steps.length)).map fun mask =>
        (cornerAt base steps mask).weight * table.value (cornerAt base steps mask).cell).sum) ∧
    ∀ base (steps : List (Step ℚ)), (∀ step ∈ steps, 0 ≤ step.weight ∧ step.weight ≤ 1) →
      (∀ mask, 0 ≤ (cornerAt base steps mask).weight) ∧
        ((List.range (2 ^ steps.length)).map fun mask => (cornerAt base steps mask).weight).sum
          = 1 := by
  have hget := table.get_of_length hlength
  refine ⟨?_, ⟨fun step => table.weight_of_mem_steps, ?_⟩, fun base steps proper => ⟨?_, ?_⟩⟩
  · have hstored (index : List Nat) (h : Picks (table.brackets coordinate) index) :
        table.stored index = .ok (table.value (Shape.offset table.shape index)) :=
      stored_eq_ok (contains_of_picks hlength h)
    -- Of the finitely many corners two are extreme, and an average lies between them.
    obtain ⟨lowest, highest, hlowest, hhighest, hbounds⟩ := exists_extreme_corners
      (table.brackets coordinate) fun index => table.value (Shape.offset table.shape index)
    obtain ⟨hlow, hhigh⟩ := table.interpolate_between hlength hbounds
    exact ⟨lowest, highest, _, _, _, hlowest, hhighest, hstored _ hlowest, hstored _ hhighest,
      fun index hindex => ⟨_, hstored index hindex, hbounds index hindex⟩, hget, hlow, hhigh⟩
  · rw [hget, table.interpolate_eq_sum, corners_eq_map_cornerAt, List.map_map]
    rfl
  · have hone : (0 : ℚ) ≤ 1.0 := by norm_num
    exact fun mask => weight_follow_nonneg proper mask hone
  · rw [← sum_weight_corners base steps, corners_eq_map_cornerAt, List.map_map]
    rfl

/-- Two of the three axes have a step here, so there are four masks. -/
theorem get_between_corners_threeAxes :
    ∃ low high value, threeAxes.get [2, 3, 5] = .ok value ∧ low ≤ value ∧ value ≤ high ∧
      (∃ corner, threeAxes.stored [1, 0, 0] = .ok corner ∧ low ≤ corner ∧ corner ≤ high) ∧
      ((List.range 4).map fun mask =>
        (cornerAt 2 [⟨2, 1 / 2⟩, ⟨1, 1 / 2⟩] mask).weight).sum = (1 : ℚ) := by
  obtain ⟨⟨_, _, low, high, value, -, -, -, -, hcorners, hget, hlow, hhigh⟩, -, hmasks⟩ :=
    @get_between_corners threeAxes [2, 3, 5] rfl
  have hpicks : Picks (threeAxes.brackets [2, 3, 5]) [1, 0, 0] := by decide +kernel
  have hproper : ∀ step ∈ ([⟨2, 1 / 2⟩, ⟨1, 1 / 2⟩] : List (Step ℚ)),
      0 ≤ step.weight ∧ step.weight ≤ 1 := by
    intro step hstep
    rw [List.mem_cons, List.mem_singleton] at hstep
    rcases hstep with rfl | rfl <;> norm_num
  exact ⟨low, high, value, hget, hlow, hhigh, hcorners _ hpicks, (hmasks 2 _ hproper).2⟩

end Table

end GridLookup
