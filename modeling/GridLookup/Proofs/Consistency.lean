import GridLookup.Proofs.Arrangement
import Mathlib.Data.List.Perm.Basic
import Mathlib.Data.List.Sort
import Mathlib.Tactic.Tauto

namespace GridLookup

/-!
# Consistent layouts

A layout is accepted exactly if it is consistent, and then its arrangement is what it declares.

* `Layout.InOrder` — axis indices in the order of some names, or in axis order.
* `Layout.exists_inOrder_iff` — which lists of names some indices are in the order of.
* `Layout.streamIndices_eq_ok_iff`, `Layout.storageIndices_eq_ok_iff` — how an order is resolved.
* `Layout.Arranges` — the arrangement that a layout declares.
* `Layout.accepts_iff_consistent` — the accepted layouts, and what they are accepted with.
-/

namespace Layout

variable {layout : Layout}

/-! ### Indices in the order of names -/

/-- The indices are those of the named axes, one by one; without names they are in axis order. -/
def InOrder (layout : Layout) (names : List String) (order : List Nat) : Prop :=
  if names = [] then order.Pairwise (· < ·)
  else order.map (fun index => layout.axisNames[index]?) = names.map some

/-- Where names are distinct, a name is resolved to the axis that has it. -/
theorem indexOf_eq_ok_iff (hdistinct : layout.axisNames.Nodup) {name : String} {index : Nat} :
    layout.indexOf name = .ok index ↔ layout.axisNames[index]? = some name := by
  refine ⟨fun h => (indexOf_sound h).2, fun h => ?_⟩
  obtain ⟨hlt, hname⟩ := List.getElem?_eq_some_iff.mp h
  have hlt' : index < layout.axes.length := by simpa [axisNames] using hlt
  have hfound : layout.axes.findIdx? (fun entry => entry.name == name) = some index := by
    refine List.findIdx?_eq_some_iff_getElem.mpr ⟨hlt', by simpa [axisNames] using hname, ?_⟩
    -- An earlier axis of that name would be the same axis.
    intro other hother hsame
    have hsame : layout.axisNames[other]? = layout.axisNames[index]? := by
      rw [h, axisNames, List.getElem?_map, List.getElem?_eq_getElem (hother.trans hlt')]
      simpa using hsame
    have := (List.getElem?_inj (hother.trans hlt) hdistinct).mp hsame
    omega
  unfold indexOf
  rw [hfound]

/-- An order of axes spells out names exactly if each index is that of its name. -/
theorem map_eq_iff_forall₂ {names : List String} {order : List Nat} :
    order.map (fun index => layout.axisNames[index]?) = names.map some ↔
      List.Forall₂ (fun name index => layout.axisNames[index]? = some name) names order := by
  rw [← List.forall₂_eq_eq_eq, List.forall₂_map_left_iff, List.forall₂_map_right_iff]
  exact ⟨List.Forall₂.flip, List.Forall₂.flip⟩

/-- The stored axes have the names that the layout gives them. -/
theorem names_storedIndices :
    layout.storedIndices.map (fun index => layout.axisNames[index]?)
      = ((layout.axes.filter AxisEntry.isStored).map AxisEntry.name).map some := by
  unfold storedIndices isStoredAt axisNames
  induction layout.axes with
  | nil => rfl
  | cons entry rest ih =>
    rw [List.length_cons, List.range_succ_eq_map, List.filter_cons, List.filter_cons,
      List.filter_map]
    cases hstored : entry.isStored <;> simpa [hstored, Function.comp_def] using ih

/-- All axes in their order have the names of the layout in their order. -/
theorem names_range :
    (List.range layout.axes.length).map (fun index => layout.axisNames[index]?)
      = layout.axisNames.map some := by
  refine List.ext_getElem (by simp [axisNames]) fun index hindex _ => ?_
  have hlt : index < layout.axisNames.length := by simpa [axisNames] using hindex
  simp [List.getElem?_eq_getElem hlt]

/-- **Which names can be followed.**  Some rearrangement of the given axes is in the order of the
    names exactly if the names rearrange those of the axes, or there are none. -/
theorem exists_inOrder_iff {names axisNames : List String} {all : List Nat}
    (hnames : all.map (fun index => layout.axisNames[index]?) = axisNames.map some)
    (hsorted : all.Pairwise (· < ·)) :
    (∃ order, order.Perm all ∧ layout.InOrder names order) ↔
      names = [] ∨ names.Perm axisNames := by
  unfold InOrder
  by_cases hnone : names = []
  · simp only [hnone, if_true, true_or, iff_true]
    exact ⟨all, List.Perm.refl _, hsorted⟩
  · simp only [hnone, if_false, false_or]
    rw [← List.map_perm_map_iff (Option.some_injective String), ← hnames]
    constructor
    · rintro ⟨order, hperm, horder⟩
      rw [← horder]
      exact hperm.map _
    · intro hperm
      -- The axes are rearranged along with their names.
      have hall : List.Forall₂ (fun name index => name = layout.axisNames[index]?)
          (all.map fun index => layout.axisNames[index]?) all := by
        rw [List.forall₂_map_left_iff, List.forall₂_same]
        exact fun _ _ => rfl
      obtain ⟨order, horder, hperm⟩ := List.perm_comp_forall₂ hperm hall
      refine ⟨order, hperm, ?_⟩
      rw [← List.forall₂_eq_eq_eq, List.forall₂_map_left_iff]
      exact horder.flip.imp fun _ _ h => h.symm

/-! ### Resolving an order -/

/-- Where names are distinct, an order that names as many axes as are allowed is resolved exactly
    to a rearrangement of these in the order of the names. -/
theorem resolveOrder_iff_perm {allow : Nat → String → Except LayoutFault Unit}
    (repeated : String → LayoutFault) {names : List String} {order all : List Nat}
    (hdistinct : layout.axisNames.Nodup) (hnodup : all.Nodup)
    (hallow : ∀ index name, index < layout.axes.length →
      (allow index name = .ok () ↔ index ∈ all)) :
    (layout.resolveOrder allow repeated names [] = .ok order ∧ order.length = all.length) ↔
      order.Perm all ∧
        order.map (fun index => layout.axisNames[index]?) = names.map some := by
  rw [map_eq_iff_forall₂]
  -- Names are compared with indices, which is faithful since the names of axes are distinct.
  constructor
  · rintro ⟨h, hlength⟩
    refine ⟨perm_of_resolveOrder h (fun index name hlt => (hallow index name hlt).mp) hlength, ?_⟩
    obtain ⟨more, rfl, -, hmore⟩ := resolveOrder_eq_ok_iff.mp h
    exact hmore.imp fun _ _ hname => (indexOf_sound hname.1).2
  · rintro ⟨hperm, horder⟩
    refine ⟨resolveOrder_eq_ok_iff.mpr ⟨order, rfl, ⟨hperm.nodup_iff.mpr hnodup, by simp⟩, ?_⟩,
      hperm.length_eq⟩
    rw [List.forall₂_iff_get] at horder ⊢
    refine ⟨horder.1, fun i hname hindex => ?_⟩
    have hfound := (indexOf_eq_ok_iff hdistinct).mpr (horder.2 i hname hindex)
    exact ⟨hfound, (hallow _ _ (indexOf_sound hfound).1).mpr
      (hperm.mem_iff.mp (List.get_mem order ⟨i, hindex⟩))⟩

/-- The axes in the stream are listed from the first to the last. -/
theorem pairwise_storedIndices : layout.storedIndices.Pairwise (· < ·) :=
  List.pairwise_lt_range.filter _

/-- Axis indices in ascending order are told by their number of each. -/
theorem eq_iff_perm_of_pairwise {order all : List Nat} (hsorted : all.Pairwise (· < ·)) :
    order = all ↔ order.Perm all ∧ order.Pairwise (· < ·) := by
  constructor
  · rintro rfl
    exact ⟨List.Perm.refl _, hsorted⟩
  · rintro ⟨hperm, horder⟩
    exact hperm.eq_of_pairwise (fun a b _ _ h h' => absurd (h.trans h') (Nat.lt_irrefl a))
      horder hsorted

/-- The stream order stands for the axes in the stream, each once and in the order of the
    names. -/
theorem streamIndices_eq_ok_iff (hdistinct : layout.axisNames.Nodup) {stream : List Nat} :
    layout.streamIndices = .ok stream ↔
      stream.Perm layout.storedIndices ∧ layout.InOrder layout.streamOrder stream := by
  unfold streamIndices InOrder
  -- Without an order of its own the stream has that of the layout, the only one that ascends.
  by_cases hnone : layout.streamOrder = []
  · simp only [hnone, List.isEmpty_nil, if_true, Except.ok.injEq]
    rw [eq_comm, eq_iff_perm_of_pairwise pairwise_storedIndices]
  · have hallow : ∀ (index : Nat) (name : String), index < layout.axes.length →
        ((if layout.isStoredAt index then .ok ()
            else .error (.suppliedInStreamOrder layout.name name) : Except LayoutFault Unit)
          = .ok () ↔ index ∈ layout.storedIndices) := by
      intro index name hlt
      rw [mem_storedIndices]
      split <;> simp_all
    rw [if_neg (by simpa using hnone), if_neg hnone, bind_eq_ok_iff,
      ← resolveOrder_iff_perm (.repeatedInStreamOrder layout.name) hdistinct
        (pairwise_storedIndices.imp Nat.ne_of_lt) hallow]
    constructor
    · rintro ⟨order, horder, h⟩
      split at h <;> cases h
      next hlength => exact ⟨horder, hlength⟩
    · rintro ⟨horder, hlength⟩
      exact ⟨stream, horder, if_pos hlength⟩

/-- The storage order stands for all axes, each once and in the order of the names. -/
theorem storageIndices_eq_ok_iff (hdistinct : layout.axisNames.Nodup) {storage : List Nat} :
    layout.storageIndices = .ok storage ↔
      storage.Perm (List.range layout.axes.length) ∧
        layout.InOrder layout.storageOrder storage := by
  unfold storageIndices InOrder
  -- As for the stream, over all axes.
  by_cases hnone : layout.storageOrder = []
  · simp only [hnone, List.isEmpty_nil, if_true, Except.ok.injEq]
    rw [eq_comm, eq_iff_perm_of_pairwise List.pairwise_lt_range]
  · have hallow : ∀ (index : Nat) (_ : String), index < layout.axes.length →
        ((.ok () : Except LayoutFault Unit) = .ok () ↔ index ∈ List.range layout.axes.length) :=
      fun index _ hlt => by simp [hlt]
    rw [if_neg (by simpa using hnone), if_neg hnone, bind_eq_ok_iff,
      ← resolveOrder_iff_perm (.repeatedInStorageOrder layout.name) hdistinct List.nodup_range
        hallow, List.length_range]
    constructor
    · rintro ⟨order, horder, h⟩
      split at h <;> cases h
      next hlength => exact ⟨horder, hlength⟩
    · rintro ⟨horder, hlength⟩
      exact ⟨storage, horder, if_pos hlength⟩

/-! ### Accepted layouts -/

/-- The arrangement that a layout declares. -/
structure Arranges (layout : Layout) (arrangement : Arrangement) : Prop where
  /-- No vector is stored twice. -/
  stream_nodup : arrangement.stream.Nodup
  /-- The stored vectors are those of the axes without nodes. -/
  mem_stream : ∀ index, index ∈ arrangement.stream ↔
    ∃ entry, layout.axes[index]? = some entry ∧ entry.values = none
  /-- They are stored in the order of their names. -/
  stream_order : layout.InOrder layout.streamOrder arrangement.stream
  /-- The values are nested along every axis, each once. -/
  storage_perm : arrangement.storage.Perm (List.range layout.axes.length)
  /-- They are nested in the order of the names. -/
  storage_order : layout.InOrder layout.storageOrder arrangement.storage

/-- Trailing vectors are accepted if they have either a length word or a count. -/
theorem checkTrailers_eq_ok_iff : layout.checkTrailers = .ok () ↔
    ∀ vector ∈ layout.trailers, vector.prefixed = vector.count.isNone := by
  have hvector (vector : Trailer) : ¬ (vector.prefixed == vector.count.isSome) = true ↔
      vector.prefixed = vector.count.isNone := by
    cases vector.count <;> cases vector.prefixed <;> simp
  unfold checkTrailers
  rw [← forall₂_congr fun vector _ => hvector vector, ← List.any_eq_false]
  split
  · next hany => simp [hany]
  · next hnone => simpa only [true_iff, Bool.not_eq_true] using hnone

/-- The stored axes, each once, told without their positions. -/
theorem perm_storedIndices_iff {stream : List Nat} :
    stream.Perm layout.storedIndices ↔ stream.Nodup ∧ ∀ index, index ∈ stream ↔
      ∃ entry, layout.axes[index]? = some entry ∧ entry.values = none := by
  have hmem (index : Nat) : index ∈ layout.storedIndices ↔
      ∃ entry, layout.axes[index]? = some entry ∧ entry.values = none := by
    rw [mem_storedIndices, isStoredAt]
    by_cases hlt : index < layout.axes.length
    · simp [hlt, AxisEntry.isStored]
    · simp [hlt]
  have hnodup : layout.storedIndices.Nodup := pairwise_storedIndices.imp Nat.ne_of_lt
  simp only [← hmem]
  constructor
  · intro hperm
    exact ⟨hperm.nodup_iff.mpr hnodup, fun _ => hperm.mem_iff⟩
  · rintro ⟨hstream, hsame⟩
    exact (List.perm_ext_iff_of_nodup hstream hnodup).mpr hsame

/-- A layout has an arrangement exactly if it is consistent and the arrangement is the one that it
    declares. -/
theorem arrangement_eq_ok_iff_arranges {arrangement : Arrangement} :
    layout.arrangement = .ok arrangement ↔ layout.Consistent ∧ layout.Arranges arrangement := by
  rw [arrangement_eq_ok_iff, checkAxes_eq_ok_iff, checkTrailers_eq_ok_iff]
  -- The checks of the program are taken apart and put together again under the names of the domain.
  constructor
  · rintro ⟨hsome, ⟨⟨hdistinct, -⟩, hsupplied⟩, htrailers, hstream, hstorage⟩
    obtain ⟨hstream, hstreamOrder⟩ := (streamIndices_eq_ok_iff hdistinct).mp hstream
    obtain ⟨hstorage, hstorageOrder⟩ := (storageIndices_eq_ok_iff hdistinct).mp hstorage
    obtain ⟨hnodup, hmem⟩ := perm_storedIndices_iff.mp hstream
    refine ⟨⟨hsome, hdistinct, hsupplied, htrailers, ?_, ?_⟩,
      ⟨hnodup, hmem, hstreamOrder, hstorage, hstorageOrder⟩⟩
    · exact (exists_inOrder_iff names_storedIndices pairwise_storedIndices).mp
        ⟨_, hstream, hstreamOrder⟩
    · exact (exists_inOrder_iff names_range List.pairwise_lt_range).mp
        ⟨_, hstorage, hstorageOrder⟩
  · rintro ⟨consistent, arranges⟩
    have hstream := perm_storedIndices_iff.mpr ⟨arranges.stream_nodup, arranges.mem_stream⟩
    exact ⟨consistent.some_axes, ⟨⟨consistent.distinct, by simp⟩, consistent.supplied⟩,
      consistent.trailers,
      (streamIndices_eq_ok_iff consistent.distinct).mpr ⟨hstream, arranges.stream_order⟩,
      (storageIndices_eq_ok_iff consistent.distinct).mpr
        ⟨arranges.storage_perm, arranges.storage_order⟩⟩

/-- A consistent layout declares an arrangement. -/
theorem Consistent.exists_arranges (consistent : layout.Consistent) :
    ∃ arrangement, layout.Arranges arrangement := by
  obtain ⟨stream, hstream, hstreamOrder⟩ :=
    (exists_inOrder_iff names_storedIndices pairwise_storedIndices).mpr consistent.stream
  obtain ⟨storage, hstorage, hstorageOrder⟩ :=
    (exists_inOrder_iff names_range List.pairwise_lt_range).mpr consistent.storage
  obtain ⟨hnodup, hmem⟩ := perm_storedIndices_iff.mp hstream
  exact ⟨⟨stream, storage⟩, hnodup, hmem, hstreamOrder, hstorage, hstorageOrder⟩

/-- A layout is valid exactly if it can be arranged. -/
theorem check_eq_ok_iff :
    layout.check = .ok () ↔ ∃ arrangement, layout.arrangement = .ok arrangement := by
  unfold check
  cases layout.arrangement <;> simp [Except.map]

/-- **Accepted layouts.**  A layout is accepted exactly if it is consistent.  It has an arrangement
    then, and this is the one that it declares. -/
theorem accepts_iff_consistent (layout : Layout) :
    (layout.check = .ok () ↔ layout.Consistent) ∧
      ((∃ arrangement, layout.arrangement = .ok arrangement) ↔ layout.Consistent) ∧
      ∀ arrangement, layout.arrangement = .ok arrangement ↔
        layout.Consistent ∧ layout.Arranges arrangement := by
  have hexists : (∃ arrangement, layout.arrangement = .ok arrangement) ↔ layout.Consistent := by
    constructor
    · rintro ⟨arrangement, h⟩
      exact (arrangement_eq_ok_iff_arranges.mp h).1
    · intro consistent
      obtain ⟨arrangement, arranges⟩ := consistent.exists_arranges
      exact ⟨arrangement, arrangement_eq_ok_iff_arranges.mpr ⟨consistent, arranges⟩⟩
  exact ⟨check_eq_ok_iff.trans hexists, hexists, fun _ => arrangement_eq_ok_iff_arranges⟩

end Layout

end GridLookup
