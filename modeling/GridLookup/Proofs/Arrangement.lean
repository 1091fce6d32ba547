import GridLookup.Layout.Arrangement
import Mathlib.Data.List.Perm.Subperm
import Mathlib.Data.List.Nodup
import Mathlib.Data.List.Forall2

namespace GridLookup

/-!
# Accepted layouts

What a layout with an arrangement guarantees.

* `bind_eq_ok_iff` — a chain of checks passes step by step.
* `Layout.checkAxes_eq_ok_iff`, `Layout.resolveOrder_eq_ok_iff` — when axes and orders pass.
* `Layout.stream_perm`, `Layout.storage_perm` — the two orders only rearrange axis indices.
* `Layout.axisNames_nodup` — the axis names are distinct.
-/

theorem bind_eq_ok_iff {ε α β : Type} {outcome : Except ε α} {next : α → Except ε β} {b : β} :
    (outcome >>= next) = .ok b ↔ ∃ a, outcome = .ok a ∧ next a = .ok b := by
  constructor
  · intro h
    match outcome with
    | .ok a => exact ⟨a, rfl, h⟩
    | .error error => cases h
  · rintro ⟨a, rfl, h⟩
    exact h

namespace Layout

variable {layout : Layout}

/-! ### The axes -/

/-- What is asked of one axis: supplied nodes are there and are not converted. -/
theorem supplied_iff {entry : AxisEntry} :
    (entry.values.any List.isEmpty = false ∧
        (entry.values.isSome && entry.conversion.isSome) = false) ↔
      ∀ values, entry.values = some values → values ≠ [] ∧ entry.conversion = none := by
  cases entry.values <;> simp

/-- Axes pass the checks exactly if their names are distinct and new and each of them passes. -/
theorem checkAxes_eq_ok_iff {axes : List AxisEntry} {before : List String} :
    layout.checkAxes before axes = .ok () ↔
      ((axes.map AxisEntry.name).Nodup ∧ ∀ entry ∈ axes, entry.name ∉ before) ∧
        ∀ entry ∈ axes, ∀ values, entry.values = some values →
          values ≠ [] ∧ entry.conversion = none := by
  induction axes generalizing before with
  | nil => simp [checkAxes]
  | cons entry rest ih =>
    rw [List.map_cons, List.nodup_cons, List.forall_mem_cons, List.forall_mem_cons,
      ← @supplied_iff entry]
    unfold checkAxes
    split
    · next hold => simp_all
    next hnew =>
    split
    · next hempty => simp [hempty]
    next hnonempty =>
    split
    · next hconverted => simp [hconverted]
    next hplain =>
    -- The names before the rest are those before the axis, and its own.
    have hbefore : (∀ other ∈ rest, other.name ∉ before ++ [entry.name]) ↔
        (∀ other ∈ rest, other.name ∉ before) ∧ entry.name ∉ rest.map AxisEntry.name := by
      simp only [List.mem_append, List.mem_singleton, List.mem_map, not_or, not_exists, not_and]
      exact forall₂_and
    rw [ih, hbefore]
    simp only [List.contains_eq_mem, decide_eq_true_eq] at hnew
    simp only [Bool.not_eq_true] at hnonempty hplain
    tauto

/-! ### The orders -/

theorem indexOf_sound {name : String} {index : Nat} (h : layout.indexOf name = .ok index) :
    index < layout.axes.length ∧ layout.axisNames[index]? = some name := by
  unfold indexOf at h
  split at h
  · next found hfound =>
    cases h
    obtain ⟨hlt, hname, -⟩ := List.findIdx?_eq_some_iff_getElem.mp hfound
    refine ⟨hlt, ?_⟩
    unfold axisNames
    rw [List.getElem?_map, List.getElem?_eq_getElem hlt]
    simpa using hname
  · cases h

/-- **Resolved orders.**  An order is resolved exactly if every name is that of an axis, the axis
    is allowed, and no axis comes twice; the indices are those of the names. -/
theorem resolveOrder_eq_ok_iff {allow : Nat → String → Except LayoutFault Unit}
    {repeated : String → LayoutFault} {names : List String} {before order : List Nat} :
    layout.resolveOrder allow repeated names before = .ok order ↔
      ∃ more, order = before ++ more ∧ (more.Nodup ∧ ∀ index ∈ more, index ∉ before) ∧
        List.Forall₂ (fun name index => layout.indexOf name = .ok index ∧
          allow index name = .ok ()) names more := by
  -- The indices resolved before are arbitrary; none of them comes again.
  induction names generalizing before with
  | nil =>
    constructor
    · intro h
      cases h
      exact ⟨[], (List.append_nil _).symm, ⟨List.nodup_nil, by simp⟩, .nil⟩
    · rintro ⟨more, rfl, -, hmore⟩
      cases hmore
      rw [List.append_nil]
      rfl
  | cons name names ih =>
    unfold resolveOrder
    constructor
    · intro h
      obtain ⟨index, hindex, h⟩ := bind_eq_ok_iff.mp h
      obtain ⟨⟨⟩, hallow, h⟩ := bind_eq_ok_iff.mp h
      split at h
      · cases h
      · next hnew =>
        obtain ⟨more, rfl, ⟨hnodup, hnew'⟩, hmore⟩ := ih.mp h
        refine ⟨index :: more, by simp, ⟨?_, ?_⟩, .cons ⟨hindex, hallow⟩ hmore⟩
        · exact List.nodup_cons.mpr ⟨fun hmem => by simpa using hnew' index hmem, hnodup⟩
        · simp_all
    · rintro ⟨_, rfl, ⟨hnodup, hnew⟩, hmore⟩
      obtain _ | ⟨⟨hindex, hallow⟩, hmore⟩ := hmore
      next index more =>
      refine bind_eq_ok_iff.mpr ⟨index, hindex, bind_eq_ok_iff.mpr ⟨(), hallow, ?_⟩⟩
      obtain ⟨hfirst, hnodup⟩ := List.nodup_cons.mp hnodup
      rw [List.forall_mem_cons] at hnew
      rw [if_neg (by simpa using hnew.1)]
      refine ih.mpr ⟨more, by simp, ⟨hnodup, fun other hother => ?_⟩, hmore⟩
      rw [List.mem_append, List.mem_singleton, not_or]
      exact ⟨hnew.2 other hother, fun hsame => hfirst (hsame ▸ hother)⟩

/-- A resolved order of full length rearranges the allowed indices. -/
theorem perm_of_resolveOrder {allow : Nat → String → Except LayoutFault Unit}
    {repeated : String → LayoutFault} {names : List String} {order all : List Nat}
    (h : layout.resolveOrder allow repeated names [] = .ok order)
    (hallowed : ∀ index name, index < layout.axes.length → allow index name = .ok () →
      index ∈ all)
    (hlength : order.length = all.length) : order.Perm all := by
  obtain ⟨more, horder, ⟨hnodup, -⟩, hmore⟩ := resolveOrder_eq_ok_iff.mp h
  rw [List.nil_append] at horder
  subst horder
  -- Distinct indices that are all allowed, and as many as are allowed, are all of these.
  have hsubset : order ⊆ all := by
    intro index hindex
    obtain ⟨position, hposition, rfl⟩ := List.mem_iff_getElem.mp hindex
    have hnames : position < names.length := by rwa [hmore.length_eq]
    obtain ⟨hname, hallow⟩ := hmore.get hnames hposition
    exact hallowed _ _ (indexOf_sound hname).1 hallow
  exact (hnodup.subperm hsubset).perm_of_length_le (Nat.le_of_eq hlength.symm)

/-- The stored axes are those whose nodes the layout does not supply. -/
theorem mem_storedIndices {index : Nat} :
    index ∈ layout.storedIndices ↔ index < layout.axes.length ∧ layout.isStoredAt index = true := by
  rw [storedIndices, List.mem_filter, List.mem_range]

theorem streamIndices_perm {stream : List Nat} (h : layout.streamIndices = .ok stream) :
    stream.Perm layout.storedIndices := by
  unfold streamIndices at h
  split at h
  · cases h
    exact List.Perm.refl _
  · obtain ⟨order, horder, h⟩ := bind_eq_ok_iff.mp h
    split at h
    · next hlength =>
      cases h
      -- Only stored axes are allowed, as many of them as there are.
      refine perm_of_resolveOrder horder (fun index name hindex hallow => ?_) hlength
      rw [mem_storedIndices]
      refine ⟨hindex, ?_⟩
      by_contra hstored
      rw [if_neg hstored] at hallow
      cases hallow
    · cases h

theorem storageIndices_perm {storage : List Nat} (h : layout.storageIndices = .ok storage) :
    storage.Perm (List.range layout.axes.length) := by
  unfold storageIndices at h
  split at h
  · cases h
    exact List.Perm.refl _
  · obtain ⟨order, horder, h⟩ := bind_eq_ok_iff.mp h
    split at h
    · next hlength =>
      cases h
      exact perm_of_resolveOrder horder (fun index name hindex _ => List.mem_range.mpr hindex)
        (by rw [hlength, List.length_range])
    · cases h

/-! ### The arrangement -/

/-- A layout has an arrangement exactly if all of its parts pass. -/
theorem arrangement_eq_ok_iff {arrangement : Arrangement} :
    layout.arrangement = .ok arrangement ↔
      layout.axes ≠ [] ∧ layout.checkAxes [] layout.axes = .ok () ∧ layout.checkTrailers = .ok ()
        ∧ layout.streamIndices = .ok arrangement.stream
        ∧ layout.storageIndices = .ok arrangement.storage := by
  unfold Layout.arrangement
  constructor
  · intro h
    split at h
    · cases h
    next hnonempty =>
    obtain ⟨⟨⟩, haxes, h⟩ := bind_eq_ok_iff.mp h
    obtain ⟨⟨⟩, htrailers, h⟩ := bind_eq_ok_iff.mp h
    obtain ⟨stream, hstream, h⟩ := bind_eq_ok_iff.mp h
    obtain ⟨storage, hstorage, h⟩ := bind_eq_ok_iff.mp h
    cases h
    exact ⟨by simpa using hnonempty, haxes, htrailers, hstream, hstorage⟩
  · rintro ⟨hnonempty, haxes, htrailers, hstream, hstorage⟩
    rw [if_neg (by simpa using hnonempty), haxes, htrailers, hstream, hstorage]
    rfl

variable {arrangement : Arrangement}

/-- The vectors in front of the values are those of the stored axes, each once. -/
theorem stream_perm (h : layout.arrangement = .ok arrangement) :
    arrangement.stream.Perm layout.storedIndices :=
  streamIndices_perm (arrangement_eq_ok_iff.mp h).2.2.2.1

/-- The values are nested along every axis, each once. -/
theorem storage_perm (h : layout.arrangement = .ok arrangement) :
    arrangement.storage.Perm (List.range layout.axes.length) :=
  storageIndices_perm (arrangement_eq_ok_iff.mp h).2.2.2.2

theorem axisNames_nodup (h : layout.arrangement = .ok arrangement) : layout.axisNames.Nodup :=
  (checkAxes_eq_ok_iff.mp (arrangement_eq_ok_iff.mp h).2.1).1.1

theorem mem_stream_iff (h : layout.arrangement = .ok arrangement) {index : Nat} :
    index ∈ arrangement.stream
      ↔ index < layout.axes.length ∧ layout.isStoredAt index = true := by
  rw [(stream_perm h).mem_iff, mem_storedIndices]

end Layout

end GridLookup
