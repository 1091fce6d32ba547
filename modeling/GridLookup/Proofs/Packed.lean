import GridLookup.Proofs.GridPoint
import GridLookup.Table.Points

namespace GridLookup

/-!
# Packed points

All ways of asking for many points at once are the query at each point.

* `cut_eq_map`, `flatten_cut`, `cut_flatten` — the pieces of a list, with nothing lost between
  them.
* `Table.point` — one of the packed points.
* `Table.getAll_eq`, `Table.interpolateParallel_eq` — the points one after the other, and in groups
  on worker threads.
* `Table.fillInTurn` — the places of a buffer written one by one; `Table.fillInTurn_eq` allows any
  order.
* `Table.getAll_pointwise` — all of this together.
-/

/-! ### Pieces of a list -/

section Pieces

variable {β : Type} {size : Nat}

theorem cut_nil (size : Nat) : cut size ([] : List β) = [] := by
  rw [cut, if_neg fun h => h.2 rfl]

/-- The first group is cut off and then the others. -/
theorem cut_of_ne_nil (positive : 0 < size) {items : List β} (h : items ≠ []) :
    cut size items = items.take size :: cut size (items.drop size) := by
  rw [cut, if_pos ⟨positive, h⟩]

/-- The pieces make up the list, also if the last one is shorter. -/
theorem flatten_cut (positive : 0 < size) (items : List β) : (cut size items).flatten = items := by
  fun_induction cut size items with
  | case1 items h ih => rw [List.flatten_cons, ih, List.take_append_drop]
  | case2 items h =>
    have hempty : items = [] := by
      by_contra hne
      exact h ⟨positive, hne⟩
    rw [hempty, List.flatten_nil]

/-- A list that comes out even has its pieces at the multiples of their size. -/
theorem cut_eq_map (positive : 0 < size) {count : Nat} {items : List β}
    (h : items.length = count * size) :
    cut size items = (List.range count).map fun i => (items.drop (i * size)).take size := by
  induction count generalizing items with
  | zero =>
    obtain rfl : items = [] := List.eq_nil_of_length_eq_zero (by rw [h, Nat.zero_mul])
    exact cut_nil size
  | succ count ih =>
    rw [Nat.succ_mul] at h
    have hne : items ≠ [] := List.length_pos_iff.mp (by omega)
    have hrest : (items.drop size).length = count * size := by
      rw [List.length_drop, h, Nat.add_sub_cancel]
    rw [cut_of_ne_nil positive hne, ih hrest, List.range_succ_eq_map, List.map_cons, List.map_map,
      Nat.zero_mul, List.drop_zero]
    refine congrArg _ (List.map_congr_left fun i _ => ?_)
    rw [List.drop_drop, Function.comp_apply, Nat.succ_mul, Nat.add_comm]

/-- Pieces of the same size are cut apart where they were put together. -/
theorem cut_flatten (positive : 0 < size) {pieces : List (List β)}
    (h : ∀ piece ∈ pieces, piece.length = size) : cut size pieces.flatten = pieces := by
  induction pieces with
  | nil => exact cut_nil size
  | cons piece pieces ih =>
    obtain ⟨rfl, hpieces⟩ := List.forall_mem_cons.mp h
    have hsome : (piece :: pieces).flatten ≠ [] := by
      rw [List.flatten_cons, ← List.length_pos_iff, List.length_append]
      exact Nat.lt_add_right _ positive
    rw [cut_of_ne_nil positive hsome, List.flatten_cons, List.take_left, List.drop_left,
      ih hpieces]

end Pieces

namespace Table

variable {α : Type} [Scalar α] (table : Table α) {packed more : List α}

/-! ### One point after the other -/

/-- One of the packed points: its components, counted from the first point. -/
def point (packed : List α) (i : Nat) : List α :=
  (packed.drop (i * table.dimensions)).take table.dimensions

/-- A point within the packed components has one for every axis. -/
theorem length_point {i : Nat} (h : (i + 1) * table.dimensions ≤ packed.length) :
    (table.point packed i).length = table.dimensions := by
  rw [Nat.succ_mul] at h
  rw [point, List.length_take, List.length_drop]
  omega

/-- More points behind them change no point. -/
theorem point_append_left {i : Nat} (h : (i + 1) * table.dimensions ≤ packed.length) :
    table.point (packed ++ more) i = table.point packed i := by
  rw [Nat.succ_mul] at h
  rw [point, List.drop_append_of_le_length (by omega), List.take_append_of_le_length]
  · rfl
  · rw [List.length_drop]
    omega

/-- Points before them shift the points. -/
theorem point_append_right {count : Nat} (h : packed.length = count * table.dimensions) (i : Nat) :
    table.point (packed ++ more) (count + i) = table.point more i := by
  rw [point, Nat.add_mul, ← h, ← List.drop_drop, List.drop_left]
  rfl

/-- Components that come out even are cut into as many points. -/
theorem points_eq {count : Nat} (h : packed.length = count * table.dimensions) :
    table.points packed = .ok ((List.range count).map (table.point packed)) := by
  have heven : packed.length % table.dimensions = 0 := by rw [h, Nat.mul_mod_left]
  unfold points
  rw [if_pos heven, cut_eq_map table.dimensions_pos h]
  rfl

/-- Components that do not come out even are refused with the number left over. -/
theorem points_of_ragged (h : ¬ table.dimensions ∣ packed.length) :
    table.points packed
      = .error (.arityMismatch table.dimensions (packed.length % table.dimensions)) := by
  unfold points
  rw [if_neg fun heven => h (Nat.dvd_of_mod_eq_zero heven)]

/-- Groups of points on worker threads give what the points give one after the other. -/
theorem interpolateParallel_eq (points : List (List α)) :
    table.interpolateParallel points = points.map table.interpolate := by
  -- Each group gives its own results; nothing is lost when the groups are put together again.
  have hgroups : table.interpolateParallel points
      = (cut pointsPerTask points).flatMap (List.map table.interpolate) := List.flatMap_map ..
  rw [hgroups, List.flatMap_def, ← List.map_flatten, flatten_cut (by decide)]

/-- The results of packed points. -/
def results (packed : List α) (count : Nat) : List α :=
  (List.range count).map fun i => table.interpolate (table.point packed i)

/-- There is a result for every point. -/
theorem length_results (packed : List α) (count : Nat) :
    (table.results packed count).length = count := by
  rw [results, List.length_map, List.length_range]

/-- Each result is the answer at its point. -/
theorem get_point {count i : Nat} (h : packed.length = count * table.dimensions)
    (hi : i < (table.results packed count).length) :
    table.get (table.point packed i) = .ok (table.results packed count)[i] := by
  rw [length_results] at hi
  have hlast : (i + 1) * table.dimensions ≤ packed.length := h ▸ Nat.mul_le_mul_right _ hi
  rw [table.get_of_length (table.length_point hlast)]
  simp [results]

/-- Queries of many points give the results in their order. -/
theorem getAll_eq {count : Nat} (h : packed.length = count * table.dimensions) :
    table.getAll packed = .ok (table.results packed count) := by
  rw [getAll, table.points_eq h]
  exact congrArg Except.ok List.map_map

/-- Lists that do not come out even have no results. -/
theorem getAll_eq_ok_iff {results : List α} :
    table.getAll packed = .ok results ↔
      ∃ count, packed.length = count * table.dimensions ∧
        results = table.results packed count := by
  constructor
  · intro h
    by_cases heven : table.dimensions ∣ packed.length
    · obtain ⟨count, heven⟩ := heven
      have hcount : packed.length = count * table.dimensions := heven.trans (Nat.mul_comm _ _)
      rw [table.getAll_eq hcount] at h
      exact ⟨count, hcount, (Except.ok.inj h).symm⟩
    · rw [getAll, table.points_of_ragged heven] at h
      cases h
  · rintro ⟨count, hcount, rfl⟩
    exact table.getAll_eq hcount

/-- Queries in parallel give what those in turn do. -/
theorem getAllParallel_eq_getAll (packed : List α) :
    table.getAllParallel packed = table.getAll packed := by
  unfold getAllParallel getAll
  simp only [table.interpolateParallel_eq, ite_self]

/-- The results of two runs of points stand in a row. -/
theorem results_append {count others : Nat} (h : packed.length = count * table.dimensions) :
    table.results (packed ++ more) (count + others)
      = table.results packed count ++ table.results more others := by
  unfold results
  rw [List.range_add, List.map_append, List.map_map]
  refine congrArg₂ _ (List.map_congr_left fun i hi => ?_) (List.map_congr_left fun i _ => ?_)
  · have hlast : (i + 1) * table.dimensions ≤ packed.length :=
      h ▸ Nat.mul_le_mul_right _ (List.mem_range.mp hi)
    rw [table.point_append_left hlast]
  · rw [Function.comp_apply, table.point_append_right h]

/-! ### Places of a buffer -/

/-- Writes the results of packed points into their places, one by one in the order in which they
    become known. -/
def fillInTurn (packed : List α) (order : List Nat) (buffer : Array α) : Array α :=
  order.foldl (fun buffer i => buffer.setIfInBounds i (table.interpolate (table.point packed i)))
    buffer

/-- The points in the order given have their results in the buffer, and nothing else is
    changed. -/
theorem getElem?_fillInTurn (packed : List α) (order : List Nat) (buffer : Array α) (i : Nat) :
    (table.fillInTurn packed order buffer)[i]?
      = if i ∈ order ∧ i < buffer.size then some (table.interpolate (table.point packed i))
        else buffer[i]? := by
  unfold fillInTurn
  induction order generalizing buffer with
  | nil => simp
  | cons first order ih =>
    rw [List.foldl_cons, ih, Array.size_setIfInBounds, Array.getElem?_setIfInBounds]
    by_cases hfirst : first = i
    · -- Whether the place is written again later or not, it gets the same result.
      subst hfirst
      by_cases hplace : first < buffer.size <;> simp [hplace]
    · simp [hfirst, Ne.symm hfirst]

/-- The order does not matter, as long as no place is forgotten. -/
theorem fillInTurn_eq {count : Nat} {order : List Nat} {buffer : Array α}
    (horder : order.Perm (List.range count)) (hsize : buffer.size = count) :
    table.fillInTurn packed order buffer = (table.results packed count).toArray := by
  refine Array.ext_getElem? fun i => ?_
  have hmem : i ∈ order ↔ i < count := horder.mem_iff.trans List.mem_range
  have hresult : (table.results packed count).toArray[i]?
      = (List.range count)[i]?.map fun i => table.interpolate (table.point packed i) := by
    rw [List.getElem?_toArray, results, List.getElem?_map]
  rw [getElem?_fillInTurn, hresult]
  by_cases hi : i < count
  · rw [if_pos ⟨hmem.mpr hi, hsize ▸ hi⟩, List.getElem?_range hi, Option.map_some]
  · have hrange : (List.range count)[i]? = none := by simpa using hi
    rw [if_neg fun h => hi (hmem.mp h.1), hrange, Option.map_none,
      Array.getElem?_eq_none (by omega)]

/-- A buffer is filled if it has room for exactly the results, and it is untouched otherwise. -/
theorem fill_eq {count : Nat} (h : packed.length = count * table.dimensions) (buffer : Array α) :
    table.fill packed buffer
      = if buffer.size = count then ((table.results packed count).toArray, .ok ())
        else (buffer, .error (.sizeMismatch count buffer.size)) := by
  unfold fill
  rw [table.points_eq h]
  dsimp only
  rw [List.length_map, List.length_range, interpolateParallel_eq, List.map_map]
  rfl

/-! ### All ways at once -/

/-- Packed points with a rest are refused in the same words by all queries for them. -/
theorem refused_of_ragged (h : ¬ table.dimensions ∣ packed.length) (buffer : Array α) :
    let ragged : TableError α :=
      .arityMismatch table.dimensions (packed.length % table.dimensions)
    table.getAll packed = .error ragged ∧ table.getAllParallel packed = .error ragged ∧
      table.fill packed buffer = (buffer, .error ragged) := by
  have hpoints := table.points_of_ragged h
  refine ⟨?_, ?_, ?_⟩
  · rw [getAll, hpoints]
    rfl
  · rw [getAllParallel, hpoints]
    rfl
  · rw [fill, hpoints]

/-- **Packed points.**  A list that leaves an incomplete point over is refused by all queries for
    packed points alike, and a buffer stays as it is.  Every other list has one result per point,
    the one that the query at this point gives, whether the points are taken one after the other or
    spread over worker threads; more points behind them are answered behind them.  A buffer of
    another size stays as it is, and one of this size holds the results in the end, also if its
    places are written in any other order. -/
theorem getAll_pointwise (packed : List α) (buffer : Array α) :
    (¬ table.dimensions ∣ packed.length →
      let ragged : TableError α :=
        .arityMismatch table.dimensions (packed.length % table.dimensions)
      table.getAll packed = .error ragged ∧ table.getAllParallel packed = .error ragged ∧
        table.fill packed buffer = (buffer, .error ragged)) ∧
    (table.dimensions ∣ packed.length → ∃ results : List α,
      table.getAll packed = .ok results ∧ table.getAllParallel packed = .ok results ∧
      results.length = packed.length / table.dimensions ∧
      (∀ i (h : i < results.length), table.get (table.point packed i) = .ok results[i]) ∧
      (∀ more others, table.getAll more = .ok others →
        table.getAll (packed ++ more) = .ok (results ++ others) ∧
          table.getAllParallel (packed ++ more) = .ok (results ++ others)) ∧
      (buffer.size ≠ results.length →
        table.fill packed buffer
          = (buffer, .error (.sizeMismatch results.length buffer.size))) ∧
      (buffer.size = results.length →
        table.fill packed buffer = (results.toArray, .ok ()) ∧
          ∀ order : List Nat, order.Perm (List.range results.length) →
            table.fillInTurn packed order buffer = results.toArray)) := by
  refine ⟨fun hragged => table.refused_of_ragged hragged buffer, ?_⟩
  rintro ⟨count, heven⟩
  have hcount : packed.length = count * table.dimensions := heven.trans (Nat.mul_comm _ _)
  refine ⟨table.results packed count, table.getAll_eq hcount, ?_, ?_,
    fun i hi => table.get_point hcount hi, ?_, ?_, ?_⟩
  · rw [getAllParallel_eq_getAll, table.getAll_eq hcount]
  · rw [length_results, hcount, Nat.mul_div_cancel _ table.dimensions_pos]
  · intro more others hmore
    obtain ⟨rest, hrest, rfl⟩ := table.getAll_eq_ok_iff.mp hmore
    -- Packed points may be appended because each list leaves no incomplete point over.
    have hall : (packed ++ more).length = (count + rest) * table.dimensions := by
      rw [List.length_append, hcount, hrest, Nat.add_mul]
    rw [getAllParallel_eq_getAll, table.getAll_eq hall, table.results_append hcount]
    exact ⟨rfl, rfl⟩
  · intro hsize
    rw [length_results] at hsize ⊢
    rw [table.fill_eq hcount, if_neg hsize]
  · intro hsize
    rw [length_results] at hsize ⊢
    rw [table.fill_eq hcount, if_pos hsize]
    exact ⟨rfl, fun order horder => table.fillInTurn_eq horder hsize⟩

/-- More points than are needed for worker threads, and one and a half points.  The results of the
    former are written from the last place to the first. -/
theorem getAll_pointwise_speckled :
    speckled.dimensions ∣ (List.replicate 8200 (0.5 : Float)).length ∧
      ¬ speckled.dimensions ∣ [(0.5 : Float), 4.0, 0.5].length ∧
      speckled.fill [0.5, 4.0, 0.5] #[7.0] = (#[7.0], .error (.arityMismatch 2 1)) ∧
      ∃ results : List Float, results.length = 4100 ∧
        speckled.getAllParallel (List.replicate 8200 0.5) = .ok results ∧
        speckled.getAll (List.replicate 8200 0.5 ++ List.replicate 8200 0.5)
          = .ok (results ++ results) ∧
        speckled.fill (List.replicate 8200 0.5) #[7.0]
          = (#[7.0], .error (.sizeMismatch 4100 1)) ∧
        speckled.fillInTurn (List.replicate 8200 0.5) (List.range 4100).reverse
          (Array.replicate 4100 7.0) = results.toArray := by
  have heven : speckled.dimensions ∣ (List.replicate 8200 (0.5 : Float)).length := by
    rw [List.length_replicate]
    exact ⟨4100, rfl⟩
  have hragged : ¬ speckled.dimensions ∣ [(0.5 : Float), 4.0, 0.5].length := by decide
  obtain ⟨hrefused, -⟩ := getAll_pointwise speckled [0.5, 4.0, 0.5] #[7.0]
  obtain ⟨-, -, hunchanged⟩ := hrefused hragged
  obtain ⟨-, hanswered⟩ := getAll_pointwise speckled (List.replicate 8200 0.5) #[7.0]
  obtain ⟨results, hall, hparallel, hlength, -, happend, hother, -⟩ := hanswered heven
  obtain ⟨-, hanswered'⟩ := getAll_pointwise speckled (List.replicate 8200 0.5)
    (Array.replicate 4100 7.0)
  obtain ⟨results', hall', -, hlength', -, -, -, hfilled⟩ := hanswered' heven
  obtain rfl : results = results' := Except.ok.inj (hall.symm.trans hall')
  have hcount : results.length = 4100 := by
    rw [hlength, List.length_replicate]
    rfl
  rw [hcount] at hother hfilled
  refine ⟨heven, hragged, hunchanged, results, hcount, hparallel, (happend _ _ hall).1,
    hother (by decide), (hfilled (by simp)).2 _ (List.reverse_perm _)⟩

end Table

end GridLookup
