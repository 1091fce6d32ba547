import GridLookup.Table.Points
import GridLookup.Text.Numeral

namespace GridLookup

/-!
# Named tables

Where the axes of a table have names, a query may give its components by name and in any order.

* `NamedTable` — a table with one distinct name per axis.
* `NamedTable.ofTable`, `NamedTable.ofNames` — tables with the usual names and with given names.
* `NamedTable.assign` — the coordinate that named components describe.
* `NamedTable.getNamed` — the interpolated value at named components.
-/

/-- The first name that already stands before it in the list. -/
def firstRepeated? (names : List String) : Option String :=
  go [] names
where
  /-- `before` holds the names already passed. -/
  go (before : List String) : List String → Option String
    | [] => none
    | name :: rest => if before.contains name then some name else go (before ++ [name]) rest

/-- No repetition is found exactly if the names are distinct, and other than those before. -/
theorem firstRepeated?_go_eq_none_iff (names before : List String) :
    firstRepeated?.go before names = none
      ↔ names.Nodup ∧ ∀ name ∈ names, name ∉ before := by
  induction names generalizing before with
  | nil => simp [firstRepeated?.go]
  | cons name rest ih =>
    unfold firstRepeated?.go
    split
    · next h =>
      have h : name ∈ before := by simpa using h
      simp [h]
    · next h =>
      have h : name ∉ before := by simpa using h
      rw [ih]
      simp only [List.mem_append, List.nodup_cons, List.mem_cons]
      grind

/-- A list has no repeated name exactly if its names are pairwise distinct. -/
theorem firstRepeated?_eq_none_iff (names : List String) :
    firstRepeated? names = none ↔ names.Nodup := by
  simp [firstRepeated?, firstRepeated?_go_eq_none_iff]

/-- A table with named axes. -/
structure NamedTable (α : Type) [Scalar α] extends Table α where
  /-- The axis names, in axis order. -/
  names : List String
  /-- Every axis has a name. -/
  names_length : names.length = toTable.dimensions
  /-- No name repeats. -/
  names_distinct : firstRepeated? names = none

namespace NamedTable

variable {α : Type} [Scalar α]

/-! ### Naming the axes -/

/-- A table with the given axis names. -/
def ofNames (table : Table α) (names : List String) : Except (TableError α) (NamedTable α) :=
  if sized : names.length = table.dimensions then
    match distinct : firstRepeated? names with
    | some name => .error (.duplicateName name)
    | none => .ok ⟨table, names, sized, distinct⟩
  else .error (.arityMismatch table.dimensions names.length)

/-- The usual name of the axis at an index: `dim0`, `dim1`, and so on. -/
def usualName (index : Nat) : String := "dim" ++ Numeral.text index

/-- The usual names tell the axes apart. -/
theorem usualName_injective {i j : Nat} (h : usualName i = usualName j) : i = j := by
  have h := (String.append_right_inj "dim").mp h
  exact Numeral.write_injective (String.ofList_inj.mp h)

/-- A table with the usual axis names. -/
def ofTable (table : Table α) : NamedTable α where
  toTable := table
  names := (List.range table.dimensions).map usualName
  names_length := by simp
  names_distinct := by
    rw [firstRepeated?_eq_none_iff, List.Nodup, List.pairwise_map]
    exact List.nodup_range.imp fun distinct same => distinct (usualName_injective same)

/-- The index of the axis with a name. -/
def indexOf? (table : NamedTable α) (name : String) : Option Nat := table.names.idxOf? name

/-! ### Queries by name -/

/-- Puts named components into their places, which start out vacant.  The first name without
    an axis is an error, and so is a second component for the same axis. -/
def place (table : NamedTable α) (count : Nat) :
    List (String × α) → List (Option α) → Except (TableError α) (List (Option α))
  | [], places => .ok places
  | (name, x) :: rest, places =>
    match table.indexOf? name with
    | none => .error (.unknownAxis name)
    | some index =>
      match places[index]? with
      -- Only a vacant place is filled, so a repeated name cannot hide a missing one.
      | some none => table.place count rest (places.set index (some x))
      | _ => .error (.arityMismatch table.dimensions count)

/-- The coordinate described by named components, which must give every axis exactly once. -/
def assign (table : NamedTable α) (components : List (String × α)) :
    Except (TableError α) (List α) := do
  let vacant := List.replicate table.dimensions none
  let places ← table.place components.length components vacant
  match places.mapM id with
  | some coordinate => .ok coordinate
  | none => .error (.arityMismatch table.dimensions components.length)

/-- The interpolated value at named components, in any order. -/
def getNamed (table : NamedTable α) (components : List (String × α)) : Except (TableError α) α :=
  (table.assign components).map table.interpolate

end NamedTable

end GridLookup
