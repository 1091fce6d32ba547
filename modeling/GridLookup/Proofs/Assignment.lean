import GridLookup.Table.Named
import Mathlib.Data.List.Nodup

namespace GridLookup

/-!
# Components by name

Naming the components of a coordinate leaves their order open.

* `lookup_of_mem` — entries with distinct keys are found under their keys.
* `NamedTable.given` — what some named components give for each axis.
* `NamedTable.place_given` — components go into their places one after the other.
* `NamedTable.getNamed_of_perm` — a query by name is the query at the coordinate it names.
-/

/-- Where no key repeats, an entry is found under its key. -/
theorem lookup_of_mem {κ β : Type} [BEq κ] [LawfulBEq κ] {entries : List (κ × β)}
    (distinct : (entries.map Prod.fst).Nodup) {key : κ} {value : β} (h : (key, value) ∈ entries) :
    entries.lookup key = some value := by
  obtain ⟨before, after, rfl⟩ := List.append_of_mem h
  rw [List.map_append, List.map_cons, List.nodup_middle, List.nodup_cons, List.mem_append,
    not_or] at distinct
  refine List.lookup_eq_some_iff.mpr ⟨before, after, rfl, fun other hother => ?_⟩
  have hmem := List.mem_map_of_mem (f := Prod.fst) hother
  rw [bne_iff_ne]
  intro hsame
  rw [← hsame] at hmem
  exact distinct.1.1 hmem

/-- Nothing is found under a key that no entry has. -/
theorem lookup_of_notMem {κ β : Type} [BEq κ] [LawfulBEq κ] {entries : List (κ × β)} {key : κ}
    (h : key ∉ entries.map Prod.fst) : entries.lookup key = none := by
  refine List.lookup_eq_none_iff.mpr fun entry hentry => ?_
  simp only [List.mem_map, not_exists, not_and] at h
  exact bne_iff_ne.mpr fun hsame => h entry hentry hsame.symm

namespace NamedTable

variable {α : Type} [Scalar α] {named : NamedTable α}

theorem names_nodup (named : NamedTable α) : named.names.Nodup :=
  (firstRepeated?_eq_none_iff named.names).mp named.names_distinct

/-- What some named components give for each axis. -/
def given (named : NamedTable α) (components : List (String × α)) : List (Option α) :=
  named.names.map fun name => components.lookup name

theorem given_nil (named : NamedTable α) :
    named.given [] = List.replicate named.dimensions none := by
  rw [← named.names_length]
  exact List.map_const ..

/-- One more component fills the place of its axis. -/
theorem given_concat {components : List (String × α)} {name : String} {x : α} {index : Nat}
    (hnew : name ∉ components.map Prod.fst) (hindex : index < named.names.length)
    (hname : named.names[index] = name) :
    (named.given components).set index (some x) = named.given (components ++ [(name, x)]) := by
  refine List.ext_getElem (by simp [given]) fun other hother hother' => ?_
  have hother' : other < named.names.length := by simpa [given] using hother'
  simp only [given, List.getElem_set, List.getElem_map, List.lookup_append]
  by_cases hsame : index = other
  · subst hsame
    simp [hname, lookup_of_notMem hnew]
  · -- Another axis has another name.
    have hne : named.names[other] ≠ name := by
      rw [← hname]
      exact fun h => hsame ((named.names_nodup.getElem_inj_iff).mp h).symm
    simp [hsame, List.lookup_cons, beq_eq_false_iff_ne.mpr hne]

/-- **Placing components.**  Components of distinct axes all go into their places. -/
theorem place_given (count : Nat) {before components : List (String × α)}
    (hdistinct : ((before ++ components).map Prod.fst).Nodup)
    (hknown : ∀ component ∈ components, component.1 ∈ named.names) :
    named.place count components (named.given before)
      = .ok (named.given (before ++ components)) := by
  induction components generalizing before with
  | nil => rw [place, List.append_nil]
  | cons component components ih =>
    obtain ⟨name, x⟩ := component
    obtain ⟨hname, hknown⟩ := List.forall_mem_cons.mp hknown
    have hnew : name ∉ before.map Prod.fst := by
      rw [List.map_append, List.map_cons, List.nodup_middle, List.nodup_cons] at hdistinct
      exact fun hmem => hdistinct.1 (List.mem_append_left _ hmem)
    -- The axis with this name is found, and its place is still vacant.
    obtain ⟨index, hfound⟩ := Option.isSome_iff_exists.mp (List.isSome_idxOf?.mpr hname)
    obtain ⟨hindex, hat, -⟩ := List.idxOf?_eq_some_iff.mp hfound
    have hvacant : (named.given before)[index]? = some none := by
      simp [given, List.getElem?_eq_getElem hindex, hat, lookup_of_notMem hnew]
    rw [place, indexOf?, hfound]
    dsimp only
    rw [hvacant]
    dsimp only
    rw [given_concat hnew hindex hat, ih (by simpa using hdistinct) hknown, List.append_assoc]
    rfl

/-- All components of a coordinate give the coordinate, whatever their order. -/
theorem given_of_perm {coordinate : List α} {components : List (String × α)}
    (hlength : coordinate.length = named.dimensions)
    (hperm : components.Perm (named.names.zip coordinate)) :
    named.given components = coordinate.map some := by
  have hnames : (components.map Prod.fst).Nodup := by
    rw [(hperm.map Prod.fst).nodup_iff, List.map_fst_zip (by simp [hlength, named.names_length])]
    exact named.names_nodup
  refine List.ext_getElem (by simp [given, named.names_length, hlength]) fun i hi hi' => ?_
  have hi' : i < coordinate.length := by simpa using hi'
  have hi : i < named.names.length := by simpa [given] using hi
  have hmem : (named.names[i], coordinate[i]) ∈ components := by
    refine hperm.mem_iff.mpr (List.mem_iff_getElem.mpr ⟨i, ?_, List.getElem_zip⟩)
    rw [List.length_zip]
    omega
  simp [given, lookup_of_mem hnames hmem]

theorem mapM_some {β : Type} (items : List β) : (items.map some).mapM id = some items := by
  induction items with
  | nil => rfl
  | cons item items ih => simp [ih]

/-- **Queries by name.**  With a component for every axis, in any order, a query by name is the
    query at the coordinate of these components. -/
theorem getNamed_of_perm {coordinate : List α} {components : List (String × α)}
    (hlength : coordinate.length = named.dimensions)
    (hperm : components.Perm (named.names.zip coordinate)) :
    named.getNamed components = .ok (named.interpolate coordinate) := by
  have hzip : (named.names.zip coordinate).map Prod.fst = named.names :=
    List.map_fst_zip (by simp [hlength, named.names_length])
  have hnames := hperm.map Prod.fst
  rw [hzip] at hnames
  have hplaced : named.place components.length components (named.given [])
      = .ok (named.given ([] ++ components)) :=
    place_given _ (hnames.nodup_iff.mpr named.names_nodup)
      fun component hcomponent => hnames.mem_iff.mp (List.mem_map_of_mem hcomponent)
  rw [given_nil, List.nil_append, given_of_perm hlength hperm] at hplaced
  have hassigned : named.assign components = .ok coordinate := by
    simp only [assign, hplaced, bind, Except.bind, mapM_some]
  rw [getNamed, hassigned]
  rfl

end NamedTable

end GridLookup
