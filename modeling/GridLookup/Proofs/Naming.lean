import GridLookup.Proofs.GridPoint
import Mathlib.Data.List.Induction

namespace GridLookup

/-!
# Queries by name

A query by name has an answer exactly if its names are those of the axes, in any order, and what is
wrong with any other query depends on the first component that cannot be placed.

* `NamedTable.Placeable`, `NamedTable.placeable_or_blocked` — components of different axes, and the
  first component that is in the way.
* `NamedTable.place_of_blocked`, `NamedTable.assign_of_not_perm` — refused components: one is in the
  way, or an axis is left out.
* `NamedTable.exists_answer`, `NamedTable.firstUnknown_or_count` — answers and refusals.
* `NamedTable.getNamedFrom` — the same query with a scratch coordinate that is filled with something
  at first; `NamedTable.getNamedFrom_eq` finds nothing of it in the answer.
* `NamedTable.getNamed_iff_perm` — all of this together.
-/

namespace NamedTable

variable {α : Type} [Scalar α] {named : NamedTable α}

/-- Places are a coordinate as soon as none is vacant. -/
theorem mapM_id_eq_some_iff {β : Type} {places : List (Option β)} {items : List β} :
    places.mapM id = some items ↔ places = items.map some := by
  constructor
  · intro h
    induction places generalizing items with
    | nil =>
      obtain rfl : [] = items := Option.some.inj h
      rfl
    | cons place places ih =>
      cases place with
      | none => simp at h
      | some first =>
        cases hrest : places.mapM id with
        | none => simp [hrest] at h
        | some rest =>
          obtain rfl : first :: rest = items := by simpa [hrest] using h
          rw [ih hrest, List.map_cons]
  · rintro rfl
    exact mapM_some items

/-- Not all places are taken exactly if one of them is empty. -/
theorem mapM_id_eq_none_iff {β : Type} {places : List (Option β)} :
    places.mapM id = none ↔ none ∈ places := by
  induction places with
  | nil => simp
  | cons place places ih =>
    cases place with
    | none => simp
    | some first => cases hrest : places.mapM id <;> simp_all

/-! ### Components that can be placed -/

/-- The components are of different axes. -/
structure Placeable (named : NamedTable α) (components : List (String × α)) : Prop where
  /-- No name repeats. -/
  distinct : (components.map Prod.fst).Nodup
  /-- Every name is that of an axis. -/
  known : ∀ component ∈ components, component.1 ∈ named.names

/-- The name of a component is that of no axis, and the components before it are of different
    axes. -/
def FirstUnknown (named : NamedTable α) (components : List (String × α)) (name : String) : Prop :=
  name ∉ named.names ∧ ∃ before x after, components = before ++ (name, x) :: after ∧
    named.Placeable before

/-- An empty list of components can be placed. -/
theorem placeable_nil : named.Placeable [] := ⟨List.nodup_nil, by simp⟩

/-- A component whose axis is known and still free can be placed behind the others. -/
theorem Placeable.concat {components : List (String × α)} {name : String} {x : α}
    (h : named.Placeable components) (hknown : name ∈ named.names)
    (hnew : name ∉ components.map Prod.fst) : named.Placeable (components ++ [(name, x)]) := by
  refine ⟨?_, fun component hcomponent => ?_⟩
  · rw [List.map_append, List.nodup_append_comm]
    exact List.nodup_cons.mpr ⟨hnew, h.distinct⟩
  · rcases List.mem_append.mp hcomponent with hbefore | hlast
    · exact h.known component hbefore
    · rw [List.mem_singleton.mp hlast]
      exact hknown

/-- Either all components can be placed, or there is a first one that cannot: its name is that of no
    axis, or it stands before. -/
theorem placeable_or_blocked (named : NamedTable α) (components : List (String × α)) :
    named.Placeable components ∨
      ∃ before name x after, components = before ++ (name, x) :: after ∧
        named.Placeable before ∧ (name ∉ named.names ∨ name ∈ before.map Prod.fst) := by
  induction components using List.reverseRecOn with
  | nil => exact Or.inl placeable_nil
  | append_singleton components component ih =>
    obtain ⟨name, x⟩ := component
    rcases ih with hplaceable | ⟨before, first, y, after, rfl, hbefore, hblocked⟩
    · by_cases hknown : name ∈ named.names
      · by_cases hnew : name ∈ components.map Prod.fst
        · exact Or.inr ⟨components, name, x, [], rfl, hplaceable, Or.inr hnew⟩
        · exact Or.inl (hplaceable.concat hknown hnew)
      · exact Or.inr ⟨components, name, x, [], rfl, hplaceable, Or.inl hknown⟩
    · exact Or.inr ⟨before, first, y, after ++ [(name, x)], by simp, hbefore, hblocked⟩

/-- Placeable components with a name for every axis are a coordinate in another order. -/
theorem Placeable.perm_iff {components : List (String × α)} (h : named.Placeable components) :
    (components.map Prod.fst).Perm named.names ↔
      ∀ name ∈ named.names, name ∈ components.map Prod.fst := by
  rw [List.perm_ext_iff_of_nodup h.distinct named.names_nodup]
  refine ⟨fun hmem name => (hmem name).mpr, fun hall name => ⟨fun hname => ?_, hall name⟩⟩
  obtain ⟨component, hcomponent, rfl⟩ := List.mem_map.mp hname
  exact h.known component hcomponent

/-! ### Placing components -/

/-- Components are placed one after the other. -/
theorem place_append (named : NamedTable α) (count : Nat) (before after : List (String × α))
    (places : List (Option α)) :
    named.place count (before ++ after) places
      = (named.place count before places).bind (named.place count after) := by
  induction before generalizing places with
  | nil => rfl
  | cons component before ih =>
    obtain ⟨name, x⟩ := component
    rw [List.cons_append, place, place]
    split
    · rfl
    · split
      · exact ih _
      · rfl

/-- Components that can be placed are at the places of their axes. -/
theorem Placeable.place_eq {components : List (String × α)} (h : named.Placeable components)
    (count : Nat) :
    named.place count components (List.replicate named.dimensions none)
      = .ok (named.given components) := by
  rw [← named.given_nil, place_given count h.distinct h.known, List.nil_append]

/-- A component that is in the way ends the query: an unknown name is reported as such, and a
    repeated one by the number of components. -/
theorem place_of_blocked {before after : List (String × α)} {name : String} {x : α} (count : Nat)
    (h : named.Placeable before) (hblocked : name ∉ named.names ∨ name ∈ before.map Prod.fst) :
    named.place count (before ++ (name, x) :: after) (List.replicate named.dimensions none)
      = .error (if name ∈ named.names then .arityMismatch named.dimensions count
          else .unknownAxis name) := by
  rw [place_append, h.place_eq, Except.bind, place, indexOf?]
  by_cases hknown : name ∈ named.names
  · obtain ⟨index, hfound⟩ := Option.isSome_iff_exists.mp (List.isSome_idxOf?.mpr hknown)
    obtain ⟨hindex, hat, -⟩ := List.idxOf?_eq_some_iff.mp hfound
    obtain ⟨component, hcomponent, hname⟩ := List.mem_map.mp (hblocked.resolve_left (· hknown))
    -- The place is taken by the component of this name that stands before.
    have htaken : (named.given before)[index]? = some (some component.2) := by
      have hlookup : before.lookup name = some component.2 :=
        lookup_of_mem h.distinct (hname ▸ hcomponent)
      simp [given, List.getElem?_eq_getElem hindex, hat, hlookup]
    rw [hfound, if_pos hknown]
    dsimp only
    rw [htaken]
  · rw [List.idxOf?_eq_none_iff.mpr hknown, if_neg hknown]

/-- Components with the names of the axes give a coordinate. -/
theorem exists_coordinate {components : List (String × α)}
    (h : (components.map Prod.fst).Perm named.names) :
    ∃ coordinate : List α, coordinate.length = named.dimensions ∧
      components.Perm (named.names.zip coordinate) := by
  have hsame : List.Forall₂ (fun (component : String × α) name => component.1 = name)
      components (components.map Prod.fst) := by
    rw [List.forall₂_map_right_iff, List.forall₂_same]
    exact fun _ _ => rfl
  -- The components are rearranged as their names are.
  have hswap := congrFun₂ (List.forall₂_comp_perm_eq_perm_comp_forall₂
    (r := fun (component : String × α) name => component.1 = name)) components named.names
  obtain ⟨sorted, hperm, hnames⟩ := hswap.mp ⟨_, hsame, h⟩
  have hnames : sorted.map Prod.fst = named.names := by
    rw [← List.forall₂_eq_eq_eq, List.forall₂_map_left_iff]
    exact hnames
  refine ⟨sorted.map Prod.snd, ?_, ?_⟩
  · rw [← named.names_length, ← hnames, List.length_map, List.length_map]
  · rw [← hnames, List.zip_map', List.map_id']
    exact hperm

/-- Placeable components that leave an axis out give none. -/
theorem assign_of_not_perm {components : List (String × α)}
    (hplaceable : named.Placeable components) (h : ¬ (components.map Prod.fst).Perm named.names) :
    named.assign components = .error (.arityMismatch named.dimensions components.length) := by
  rw [hplaceable.perm_iff] at h
  push Not at h
  obtain ⟨name, hname, hmissing⟩ := h
  have hvacant : none ∈ named.given components :=
    List.mem_map.mpr ⟨name, hname, lookup_of_notMem hmissing⟩
  simp only [assign, hplaceable.place_eq, bind, Except.bind, mapM_id_eq_none_iff.mpr hvacant]

/-! ### A scratch coordinate -/

/-- A coordinate in the making, and which of its components have been given. -/
structure Scratch (α : Type) where
  /-- The components, each of them filled with something until it is given. -/
  coordinate : List α
  /-- The components that have been given. -/
  seen : List Bool

/-- What some places look like while the vacant ones are filled with the same number. -/
def Scratch.ofPlaces (filler : α) (places : List (Option α)) : Scratch α :=
  ⟨places.map fun place => place.getD filler, places.map Option.isSome⟩

/-- Writes named components over what the coordinate is filled with. -/
def writeAll (named : NamedTable α) (count : Nat) :
    List (String × α) → Scratch α → Except (TableError α) (Scratch α)
  | [], scratch => .ok scratch
  | (name, x) :: rest, scratch =>
    match named.indexOf? name with
    | none => .error (.unknownAxis name)
    | some index =>
      if scratch.seen.getD index true then .error (.arityMismatch named.dimensions count)
      else named.writeAll count rest
        ⟨scratch.coordinate.set index x, scratch.seen.set index true⟩

/-- The interpolated value at named components, taken from a coordinate that is filled with the
    same number at first. -/
def getNamedFrom (named : NamedTable α) (filler : α) (components : List (String × α)) :
    Except (TableError α) α := do
  let blank : Scratch α :=
    ⟨List.replicate named.dimensions filler, List.replicate named.dimensions false⟩
  let scratch ← named.writeAll components.length components blank
  if scratch.seen.all id then .ok (named.interpolate scratch.coordinate)
  else .error (.arityMismatch named.dimensions components.length)

/-- Components are written over the filling where they go into a vacant place. -/
theorem writeAll_ofPlaces (count : Nat) (filler : α) (components : List (String × α))
    (places : List (Option α)) :
    named.writeAll count components (.ofPlaces filler places)
      = (named.place count components places).map (.ofPlaces filler) := by
  induction components generalizing places with
  | nil => rfl
  | cons component components ih =>
    obtain ⟨name, x⟩ := component
    rw [writeAll, place]
    cases named.indexOf? name with
    | none => rfl
    | some index =>
      have hset : Scratch.ofPlaces filler (places.set index (some x))
          = ⟨(places.map fun place => place.getD filler).set index x,
            (places.map Option.isSome).set index true⟩ := by
        simp [Scratch.ofPlaces]
      have hseen : (Scratch.ofPlaces filler places).seen.getD index true
          = (places[index]?.map Option.isSome).getD true := by
        simp [Scratch.ofPlaces, List.getD_eq_getElem?_getD]
      dsimp only
      rw [hseen]
      -- A repeated name and one out of range are refused alike, as the scratch has nothing to tell
      -- them apart by but the marks.
      cases hplace : places[index]? with
      | none => rfl
      | some place =>
        cases place with
        | some y => rfl
        | none =>
          rw [← ih (places.set index (some x)), hset]
          rfl

/-- **A scratch coordinate.**  Whatever it is filled with at first, nothing of it is left. -/
theorem getNamedFrom_eq (named : NamedTable α) (filler : α) (components : List (String × α)) :
    named.getNamedFrom filler components = named.getNamed components := by
  have hblank : (⟨List.replicate named.dimensions filler, List.replicate named.dimensions false⟩
      : Scratch α) = .ofPlaces filler (List.replicate named.dimensions none) := by
    simp [Scratch.ofPlaces]
  unfold getNamedFrom getNamed assign
  dsimp only
  rw [hblank, writeAll_ofPlaces]
  cases named.place components.length components (List.replicate named.dimensions none) with
  | error error => rfl
  | ok places =>
    simp only [Except.map, bind, Except.bind]
    -- Once every place is marked, the filling has been written over everywhere.
    cases hplaces : places.mapM id with
    | some coordinate =>
      obtain rfl := mapM_id_eq_some_iff.mp hplaces
      simp [Scratch.ofPlaces]
    | none =>
      have hvacant : (Scratch.ofPlaces filler places).seen.all id = false := by
        simpa [Scratch.ofPlaces] using mapM_id_eq_none_iff.mp hplaces
      rw [hvacant]
      rfl

/-! ### Answers and refusals -/

/-- All orders of the components are answered as their coordinate is. -/
theorem exists_answer {components : List (String × α)}
    (h : (components.map Prod.fst).Perm named.names) :
    ∃ coordinate : List α, coordinate.length = named.dimensions ∧
      components.Perm (named.names.zip coordinate) ∧
      ∀ other : List (String × α), other.Perm components →
        named.getNamed other = named.get coordinate := by
  obtain ⟨coordinate, hlength, hperm⟩ := exists_coordinate h
  refine ⟨coordinate, hlength, hperm, fun other hother => ?_⟩
  rw [getNamed_of_perm hlength (hother.trans hperm), named.get_of_length hlength]

/-- The first name that is no axis is reported. -/
theorem getNamed_of_firstUnknown {components : List (String × α)} {name : String}
    (h : named.FirstUnknown components name) :
    named.getNamed components = .error (.unknownAxis name) := by
  obtain ⟨hname, before, x, after, rfl, hbefore⟩ := h
  rw [getNamed, assign, place_of_blocked _ hbefore (Or.inl hname), if_neg hname]
  rfl

/-- There is no third reason for a refusal. -/
theorem firstUnknown_or_count {components : List (String × α)}
    (h : ¬ (components.map Prod.fst).Perm named.names) :
    (∃ name, named.FirstUnknown components name) ∨
      named.getNamed components
        = .error (.arityMismatch named.dimensions components.length) := by
  rcases named.placeable_or_blocked components with
    hplaceable | ⟨before, name, x, after, rfl, hbefore, hblocked⟩
  · rw [getNamed, assign_of_not_perm hplaceable h]
    exact Or.inr rfl
  · by_cases hknown : name ∈ named.names
    · rw [getNamed, assign, place_of_blocked _ hbefore hblocked, if_pos hknown]
      exact Or.inr rfl
    · exact Or.inl ⟨name, hknown, before, x, after, rfl, hbefore⟩

/-- **Queries by name.**  There is an answer exactly if the names of the components are those of the
    axes in some order.  It is then the answer at the coordinate that has every component at the
    place of its axis, so the order of the components does not matter.  Otherwise the first name
    without an axis is reported if no name is repeated before it, and in all other cases the number
    of components.  Nothing that a coordinate is filled with before has an influence. -/
theorem getNamed_iff_perm (named : NamedTable α) (components : List (String × α)) :
    ((∃ value, named.getNamed components = .ok value) ↔
        (components.map Prod.fst).Perm named.names) ∧
      ((components.map Prod.fst).Perm named.names → ∃ coordinate : List α,
        coordinate.length = named.dimensions ∧
        components.Perm (named.names.zip coordinate) ∧
        ∀ other : List (String × α), other.Perm components →
          named.getNamed other = named.get coordinate) ∧
      (∀ name, named.FirstUnknown components name →
        named.getNamed components = .error (.unknownAxis name)) ∧
      (¬ (components.map Prod.fst).Perm named.names →
        (∀ name, ¬ named.FirstUnknown components name) →
        named.getNamed components
          = .error (.arityMismatch named.dimensions components.length)) ∧
      ∀ filler, named.getNamedFrom filler components = named.getNamed components := by
  refine ⟨⟨?_, ?_⟩, exists_answer, fun name => getNamed_of_firstUnknown, ?_,
    fun filler => named.getNamedFrom_eq filler components⟩
  · rintro ⟨value, hvalue⟩
    by_contra h
    -- Without a permutation there is one of two faults, and neither is an answer.
    rcases firstUnknown_or_count h with ⟨name, hname⟩ | hcount
    · rw [getNamed_of_firstUnknown hname] at hvalue
      cases hvalue
    · rw [hcount] at hvalue
      cases hvalue
  · intro h
    obtain ⟨coordinate, hlength, -, hget⟩ := exists_answer h
    exact ⟨_, (hget components (.refl _)).trans (named.get_of_length hlength)⟩
  · intro h hnone
    rcases firstUnknown_or_count h with ⟨name, hname⟩ | hcount
    · exact absurd hname (hnone name)
    · exact hcount

/-- Both axes in the wrong order; a name without an axis, which is repeated after that; and a name
    repeated before one without an axis. -/
theorem getNamed_iff_perm_speckled :
    let named := NamedTable.ofTable Table.speckled
    (∃ value, named.getNamed [("dim1", 4.0), ("dim0", 0.5)] = .ok value) ∧
      named.getNamed [("dim0", 0.5), ("dim1", 4.0)]
        = named.getNamed [("dim1", 4.0), ("dim0", 0.5)] ∧
      named.getNamed [("dim1", 4.0), ("height", 1.0), ("height", 2.0)]
        = .error (.unknownAxis "height") ∧
      named.getNamed [("dim1", 4.0), ("dim1", 5.0), ("height", 1.0)]
        = .error (.arityMismatch 2 3) ∧
      named.getNamedFrom Scalar.nan [("dim1", 4.0)] = named.getNamed [("dim1", 4.0)] := by
  intro named
  have hnames : named.names = ["dim0", "dim1"] := by decide +kernel
  obtain ⟨hanswer, hcoordinate, -, -, -⟩ :=
    getNamed_iff_perm named [("dim1", 4.0), ("dim0", 0.5)]
  obtain ⟨-, -, hunknown, -, -⟩ :=
    getNamed_iff_perm named [("dim1", 4.0), ("height", 1.0), ("height", 2.0)]
  obtain ⟨-, -, -, hcount, -⟩ :=
    getNamed_iff_perm named [("dim1", 4.0), ("dim1", 5.0), ("height", 1.0)]
  obtain ⟨-, -, -, -, hscratch⟩ := getNamed_iff_perm named [("dim1", 4.0)]
  rw [hnames] at hanswer hcoordinate hcount
  have hswapped : ["dim1", "dim0"].Perm ["dim0", "dim1"] := List.Perm.swap ..
  obtain ⟨coordinate, -, -, hsame⟩ := hcoordinate hswapped
  refine ⟨hanswer.mpr hswapped, ?_, hunknown "height" ⟨?_, [("dim1", 4.0)], 1.0, [("height", 2.0)],
    rfl, ⟨?_, ?_⟩⟩, hcount (by decide) ?_, hscratch _⟩
  · rw [hsame _ (List.Perm.swap ..), hsame _ (.refl _)]
  · rw [hnames]
    decide
  · decide
  · rw [hnames]
    decide
  · -- What stands before an unknown name would begin with the repeated one twice.
    rintro name ⟨hname, before, x, after, hbefore, hplaceable⟩
    rw [hnames] at hname
    rcases before with _ | ⟨first, _ | ⟨second, before⟩⟩
    · obtain ⟨⟨rfl, -⟩, -⟩ : ("dim1" = name ∧ 4.0 = x) ∧ _ := by simpa using hbefore
      simp at hname
    · obtain ⟨-, ⟨rfl, -⟩, -⟩ : _ ∧ ("dim1" = name ∧ 5.0 = x) ∧ _ := by simpa using hbefore
      simp at hname
    · obtain ⟨rfl, rfl, -⟩ : ("dim1", 4.0) = first ∧ ("dim1", 5.0) = second ∧ _ := by
        simpa using hbefore
      simpa using hplaceable.distinct

end NamedTable

end GridLookup
