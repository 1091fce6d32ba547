import GridLookup.Proofs.GridPoint

namespace GridLookup

/-!
# Positions on an axis

Where a number is among the nodes of an axis: on one of them, beyond an end, or between two
neighbours.  The bracket of the number tells which, and does not move down when the number moves up.

* `Axis.exists_ofArray_iff` — the coordinates that are the nodes of an axis.
* `Axis.Between`, `Axis.Between.unique` — the neighbours around a number.
* `Axis.hits_or_between` — a number hits a node or is between two; `Axis.bracket_of_between`
  brackets it in the second case.
* `Axis.lo_le_lo`, `Axis.hi_le_hi` — brackets and the order of numbers.
* `Axis.bracket_position` — all of this together.
-/

variable {α : Type} [Scalar α] [LawfulScalar α]

namespace Axis

/-! ### Nodes -/

/-- Neighbours are compared, and yet all nodes ascend. -/
theorem exists_ofArray_iff {nodes : Array α} :
    (∃ axis, ofArray nodes = .ok axis) ↔
      0 < nodes.size ∧ (∀ i (h : i < nodes.size), Scalar.isNaN nodes[i] = false) ∧
        ∀ i j (hij : i < j) (hj : j < nodes.size), Scalar.lt nodes[i] nodes[j] = true := by
  -- The same ascent, said of places in the list and of places in the array.
  have hascending : Ascending nodes.toList ↔
      (∀ i (h : i < nodes.size), Scalar.isNaN nodes[i] = false) ∧
        ∀ i j (hij : i < j) (hj : j < nodes.size), Scalar.lt nodes[i] nodes[j] = true := by
    refine and_congr List.forall_mem_iff_getElem (List.pairwise_iff_getElem.trans ?_)
    exact ⟨fun h i j hij hj => h i j _ hj hij, fun h i j _ hj hij => h i j hij hj⟩
  rw [← hascending]
  constructor
  · rintro ⟨axis, haxis⟩
    obtain rfl := ofArray_eq_ok_iff.mp haxis
    exact ⟨axis.size_pos, axis.ascending⟩
  · rintro ⟨hsize, h⟩
    have hne : nodes.toList ≠ [] := List.length_pos_iff.mp hsize
    exact ⟨⟨nodes, axisFault?_eq_none_iff.mpr ⟨hne, h⟩⟩, ofArray_eq_ok_iff.mpr rfl⟩

variable {axis : Axis α} {x y : α} {i j : Nat}

/-- A node and the next one are around a number. -/
structure Between (axis : Axis α) (x : α) (i : Nat) : Prop where
  /-- There is a next node. -/
  lt_last : i < axis.last
  /-- The number is above the node. -/
  above : Scalar.lt (axis.node i) x = true
  /-- It is below the next one. -/
  below : Scalar.lt x (axis.node (i + 1)) = true

omit [LawfulScalar α] in
/-- A node before the last one has a next one. -/
theorem succ_lt_size (h : i < axis.last) : i + 1 < axis.size := by
  unfold last at h
  omega

omit [LawfulScalar α] in
/-- A coordinate between two nodes has both of them. -/
theorem Between.succ_lt_size (h : axis.Between x i) : i + 1 < axis.size :=
  Axis.succ_lt_size h.lt_last

/-- Numbers between two nodes are ordered as the nodes are. -/
theorem Between.le_of_le (hx : axis.Between x i) (hy : axis.Between y j)
    (h : Scalar.le x y = true) : i ≤ j := by
  have hlt := lt_of_node_lt_node (Nat.lt_of_succ_lt hx.succ_lt_size)
    (Scalar.lt_trans (Scalar.lt_of_lt_of_le hx.above h) hy.below)
  omega

/-- A coordinate is between two neighbours at most once. -/
theorem Between.unique (h : axis.Between x i) (h' : axis.Between x j) : i = j := by
  have hrefl := Scalar.le_refl (LawfulScalar.number_of_le (Scalar.le_of_lt h.above)).2
  exact Nat.le_antisymm (h.le_of_le h' hrefl) (h'.le_of_le h hrefl)

/-! ### Hit nodes and gaps -/

/-- At the lower end and below it the first node is hit. -/
theorem hits_first (h : Scalar.le x axis.least = true) : axis.Hits x 0 := by
  cases hge : Scalar.le axis.least x with
  | true => exact .on axis.size_pos (LawfulScalar.eq_iff.mpr ⟨h, hge⟩)
  | false => exact .below rfl (LawfulScalar.lt_iff.mpr ⟨h, hge⟩)

/-- At the upper end and above it the last node is hit. -/
theorem hits_last (h : Scalar.le axis.greatest x = true) : axis.Hits x axis.last := by
  cases hge : Scalar.le x axis.greatest with
  | true => exact .on axis.last_lt_size (LawfulScalar.eq_iff.mpr ⟨hge, h⟩)
  | false => exact .above rfl (LawfulScalar.lt_iff.mpr ⟨h, hge⟩)

/-- A number hits a node, or there are neighbours around it. -/
theorem hits_or_between (axis : Axis α) (hx : Scalar.isNaN x = false) :
    (∃ i, axis.Hits x i) ∨ ∃ i, axis.Between x i := by
  have hlocated := axis.bracket_located hx
  generalize axis.bracket x = bracket at hlocated
  cases hlocated with
  | below h => exact Or.inl ⟨0, hits_first h⟩
  | above h => exact Or.inl ⟨axis.last, hits_last h⟩
  | on size h => exact Or.inl ⟨_, .on size h⟩
  | between size lower upper =>
    exact Or.inr ⟨_, Nat.lt_sub_of_add_lt size, lower, upper⟩

/-- The node that a number hits is not between its neighbours. -/
theorem Between.not_hits (h : axis.Between x i) : ¬ axis.Hits x j := by
  intro hhits
  -- A number beyond an end is past that node, as one on a node is; both push `j` out of the gap.
  have hi := h.succ_lt_size
  obtain ⟨-, hupper, hlower⟩ := hhits.bounds
  have hij : i < j := by
    rcases hupper with hle | hlast
    · exact lt_of_node_lt_node (Nat.lt_of_succ_lt hi) (Scalar.lt_of_lt_of_le h.above hle)
    · exact hlast ▸ h.lt_last
  have hji : j < i + 1 := by
    rcases hlower with hle | hzero
    · exact lt_of_node_lt_node hhits.lt_size (Scalar.lt_of_le_of_lt hle h.below)
    · exact hzero ▸ Nat.succ_pos i
  omega

/-- Between two nodes the weight is the distance to the lower one over that of both. -/
theorem bracket_of_between (h : axis.Between x i) :
    axis.bracket x
      = ⟨i, i + 1, (x - axis.node i) / (axis.node (i + 1) - axis.node i)⟩ := by
  have hx := (LawfulScalar.number_of_le (Scalar.le_of_lt h.above)).2
  have hlocated := axis.bracket_located hx
  generalize axis.bracket x = bracket at hlocated
  cases hlocated with
  | below hle => exact absurd (hits_first hle) h.not_hits
  | above hle => exact absurd (hits_last hle) h.not_hits
  | on size heq => exact absurd (.on size heq) h.not_hits
  | @between j size lower upper =>
    obtain rfl : i = j := h.unique ⟨Nat.lt_sub_of_add_lt size, lower, upper⟩
    rfl

/-- The bracket is of a single node exactly if the number hits one. -/
theorem isSingle_iff (axis : Axis α) (hx : Scalar.isNaN x = false) :
    (axis.bracket x).isSingle = true ↔ ∃ i, axis.Hits x i := by
  rcases axis.hits_or_between hx with ⟨i, hhits⟩ | ⟨i, hbetween⟩
  · rw [bracket_of_hits hhits]
    exact iff_of_true (Bracket.isSingle_single i) ⟨i, hhits⟩
  · rw [bracket_of_between hbetween]
    refine iff_of_false (by simp [Bracket.isSingle]) ?_
    rintro ⟨j, hhits⟩
    exact hbetween.not_hits hhits

/-- A node is hit on it and outside the domain. -/
theorem exists_hits_iff :
    (∃ i, axis.Hits x i) ↔ Scalar.le x axis.least = true ∨ Scalar.le axis.greatest x = true ∨
      ∃ i < axis.size, Scalar.eq x (axis.node i) = true := by
  constructor
  · rintro ⟨i, (⟨size, heq⟩ | ⟨-, hlt⟩ | ⟨-, hlt⟩)⟩
    · exact Or.inr (Or.inr ⟨i, size, heq⟩)
    · exact Or.inl (Scalar.le_of_lt hlt)
    · exact Or.inr (Or.inl (Scalar.le_of_lt hlt))
  · rintro (hle | hle | ⟨i, size, heq⟩)
    · exact ⟨0, hits_first hle⟩
    · exact ⟨axis.last, hits_last hle⟩
    · exact ⟨i, .on size heq⟩

/-! ### Brackets and order -/

/-- The lower node of a bracket is the last one that is not above the number, or the first of all;
    the upper node is the first one that is not below it, or the last of all. -/
theorem bracket_bounds (axis : Axis α) (hx : Scalar.isNaN x = false) :
    ((∀ i < axis.size, Scalar.le (axis.node i) x = true → i ≤ (axis.bracket x).lo) ∧
        (Scalar.le (axis.node (axis.bracket x).lo) x = true ∨ (axis.bracket x).lo = 0)) ∧
      (∀ i < axis.size, Scalar.le x (axis.node i) = true → (axis.bracket x).hi ≤ i) ∧
        (Scalar.le x (axis.node (axis.bracket x).hi) = true ∨
          (axis.bracket x).hi = axis.last) := by
  rcases axis.hits_or_between hx with ⟨k, hhits⟩ | ⟨k, hbetween⟩
  · -- Past an end the node is not on the side of the number that it should be, but there is no
    -- node behind it either.
    rw [bracket_of_hits hhits]
    obtain ⟨-, hupper, hlower⟩ := hhits.bounds
    refine ⟨⟨fun i hi hle => ?_, hlower⟩, fun i hi hle => ?_, hupper⟩
    · show i ≤ k
      rcases hupper with hupper | hlast
      · exact le_of_node_le_node hi (LawfulScalar.le_trans hle hupper)
      · exact hlast ▸ Nat.le_sub_one_of_lt hi
    · show k ≤ i
      rcases hlower with hlower | hzero
      · exact le_of_node_le_node hhits.lt_size (LawfulScalar.le_trans hlower hle)
      · exact hzero ▸ Nat.zero_le i
  · rw [bracket_of_between hbetween]
    refine ⟨⟨fun i hi hle => ?_, Or.inl (Scalar.le_of_lt hbetween.above)⟩, fun i hi hle => ?_,
      Or.inl (Scalar.le_of_lt hbetween.below)⟩
    · show i ≤ k
      exact Nat.le_of_lt_succ (lt_of_node_lt_node hi (Scalar.lt_of_le_of_lt hle hbetween.below))
    · show k + 1 ≤ i
      exact lt_of_node_lt_node (Nat.lt_of_succ_lt hbetween.succ_lt_size)
        (Scalar.lt_of_lt_of_le hbetween.above hle)

/-- The lower node does not fall as the coordinate rises. -/
theorem lo_le_lo (axis : Axis α) (h : Scalar.le x y = true) :
    (axis.bracket x).lo ≤ (axis.bracket y).lo := by
  obtain ⟨hx, hy⟩ := LawfulScalar.number_of_le h
  obtain ⟨⟨-, hlower⟩, -⟩ := axis.bracket_bounds hx
  obtain ⟨⟨hlast, -⟩, -⟩ := axis.bracket_bounds hy
  rcases hlower with hlower | hzero
  · exact hlast _ (axis.bracket_nodes x).2.1 (LawfulScalar.le_trans hlower h)
  · omega

/-- The upper node does not fall as the coordinate rises. -/
theorem hi_le_hi (axis : Axis α) (h : Scalar.le x y = true) :
    (axis.bracket x).hi ≤ (axis.bracket y).hi := by
  obtain ⟨hx, hy⟩ := LawfulScalar.number_of_le h
  obtain ⟨-, hfirst, -⟩ := axis.bracket_bounds hx
  obtain ⟨-, -, hupper⟩ := axis.bracket_bounds hy
  rcases hupper with hupper | hlast
  · exact hfirst _ (axis.bracket_nodes y).2.2 (LawfulScalar.le_trans h hupper)
  · rw [hlast]
    exact Nat.le_sub_one_of_lt (axis.bracket_nodes x).2.2

/-- **Positions.**  Coordinates are an axis exactly if there are some, all of them are numbers and
    each is below all that follow.  A number at or beyond an end, or on a node, has the bracket of
    this node alone; every other number has that of its neighbours, of which there are no others.
    Neither node of the bracket moves down when the number moves up. -/
theorem bracket_position (nodes : Array α) :
    ((∃ axis, ofArray nodes = .ok axis) ↔
      0 < nodes.size ∧ (∀ i (h : i < nodes.size), Scalar.isNaN nodes[i] = false) ∧
        ∀ i j (hij : i < j) (hj : j < nodes.size), Scalar.lt nodes[i] nodes[j] = true) ∧
    ∀ axis, ofArray nodes = .ok axis → axis.nodes = nodes ∧
      (∀ x, Scalar.isNaN x = false →
        (Scalar.le x axis.least = true → axis.bracket x = .single 0) ∧
        (Scalar.le axis.greatest x = true → axis.bracket x = .single axis.last) ∧
        (∀ i < axis.size, Scalar.eq x (axis.node i) = true → axis.bracket x = .single i) ∧
        ((axis.bracket x).isSingle = true ↔
          Scalar.le x axis.least = true ∨ Scalar.le axis.greatest x = true ∨
            ∃ i < axis.size, Scalar.eq x (axis.node i) = true) ∧
        ((axis.bracket x).isSingle = false →
          (axis.bracket x).hi = (axis.bracket x).lo + 1 ∧
          axis.Between x (axis.bracket x).lo ∧
          ∀ i, axis.Between x i → i = (axis.bracket x).lo)) ∧
      ∀ x y, Scalar.le x y = true →
        (axis.bracket x).lo ≤ (axis.bracket y).lo ∧
          (axis.bracket x).hi ≤ (axis.bracket y).hi := by
  refine ⟨exists_ofArray_iff, fun axis haxis => ⟨ofArray_eq_ok_iff.mp haxis, fun x hx => ?_,
    fun x y h => ⟨axis.lo_le_lo h, axis.hi_le_hi h⟩⟩⟩
  refine ⟨fun h => bracket_of_hits (hits_first h), fun h => bracket_of_hits (hits_last h),
    fun i size h => bracket_of_hits (.on size h), ?_, fun hsingle => ?_⟩
  · rw [axis.isSingle_iff hx, exists_hits_iff]
  · -- A bracket of two nodes hits none, so the number is between neighbours.
    have hnone : ¬ ∃ i, axis.Hits x i := by
      rw [← axis.isSingle_iff hx, hsingle]
      exact Bool.false_ne_true
    obtain ⟨i, hbetween⟩ := (axis.hits_or_between hx).resolve_left hnone
    rw [bracket_of_between hbetween]
    exact ⟨rfl, hbetween, fun j hj => hj.unique hbetween⟩

/-- An axis that ends at both infinities and has the negative zero as a node. -/
def endless : Axis Float :=
  ⟨#[Float.ofBits 0xfff0000000000000, Float.ofBits 0x8000000000000000, 1.0,
    Float.ofBits 0x7ff0000000000000], by decide +kernel⟩

/-- The positive zero is on the node that is the negative one, an infinite number is on an end, and
    0.5 is between two nodes. -/
theorem bracket_position_endless :
    ofArray endless.nodes = .ok endless ∧
      endless.bracket 0.0 = .single 1 ∧
      endless.bracket (Float.ofBits 0x7ff0000000000000) = .single 3 ∧
      (endless.bracket 0.5).isSingle = false ∧
      endless.Between 0.5 (endless.bracket 0.5).lo ∧
      (endless.bracket 0.0).lo ≤ (endless.bracket 0.5).lo := by
  have built : ofArray endless.nodes = .ok endless := ofArray_eq_ok_iff.mpr rfl
  obtain ⟨-, haxis⟩ := bracket_position endless.nodes
  obtain ⟨-, hnumbers, hordered⟩ := haxis endless built
  obtain ⟨-, -, hnode, -, -⟩ := hnumbers 0.0 (by decide +kernel)
  obtain ⟨-, habove, -, -, -⟩ :=
    hnumbers (Float.ofBits 0x7ff0000000000000) (by decide +kernel)
  obtain ⟨-, -, -, -, hbetween⟩ := hnumbers 0.5 (by decide +kernel)
  have hgap : (endless.bracket 0.5).isSingle = false := by decide +kernel
  exact ⟨built, hnode 1 (by decide) (by decide +kernel), habove (by decide +kernel), hgap,
    (hbetween hgap).2.1, (hordered 0.0 0.5 (by decide +kernel)).1⟩

end Axis

end GridLookup
