import GridLookup.Curve.Rows
import GridLookup.Proofs.Bits
import GridLookup.Proofs.Cell
import GridLookup.Proofs.Fields

namespace GridLookup

/-!
# The grammar of curves

What a curve text says depends on its rows alone: the lines, without the blanks around them, that
are neither empty nor comments.

* `Curve.rowsFrom` — the rows of some lines, with the numbers of the lines.
* `Curve.Regular` — the rows are points, except that the first may be a heading.
* `Curve.offence?` — what is wrong with a row; `Curve.firstOffence?` finds the first.
* `Curve.tableOfText_eq` — reading lines one after the other comes to looking at all rows.
* `Curve.tableOfText_grammar` — which texts are accepted, what their tables are, why others are
  refused, and what makes no difference.
-/

namespace Curve

/-! ### Rows -/

/-- The lines that hold rows, trimmed and with their numbers; `number` is that of the first. -/
def rowsFrom : Nat → List (List Char) → List (List Char × Nat)
  | _, [] => []
  | number, line :: rest =>
    if isComment (trim line) then rowsFrom (number + 1) rest
    else (trim line, number) :: rowsFrom (number + 1) rest

/-- The point of a row, if its first two fields are numbers. -/
def pair? (row : List Char) : Option (Float × Float) :=
  match fields separates row with
  | first :: second :: _ => readPair first second
  | _ => none

/-- The points of rows, in order. -/
def points (rows : List (List Char × Nat)) : List (Float × Float) :=
  rows.filterMap fun row => pair? row.1

/-- What is wrong with a row; a heading need not hold numbers. -/
def offence? (heading : Bool) (row : List Char) : Option RowFault :=
  if (fields separates row).length < 2 then some .missingColumn
  else if heading || (pair? row).isSome then none
  else some (.notNumbers (String.ofList row))

/-- The number of the first line with something wrong, and what it is.  Only the first row may be
    a heading, and that only if `heading` holds. -/
def firstOffence? : Bool → List (List Char × Nat) → Option (Nat × RowFault)
  | _, [] => none
  | heading, row :: rest =>
    match offence? heading row.1 with
    | some fault => some (row.2, fault)
    | none => firstOffence? false rest

/-- Every row has two columns, and every row but the first two numbers. -/
structure Regular (rows : List (List Char × Nat)) : Prop where
  /-- There are two columns. -/
  columns : ∀ row ∈ rows, 2 ≤ (fields separates row.1).length
  /-- There are numbers in them. -/
  numbers : ∀ row ∈ rows.tail, (pair? row.1).isSome = true

@[simp] theorem points_nil : points [] = [] := rfl

/-- A row adds a point if there are two numbers in it. -/
theorem points_cons (row : List Char × Nat) (rows : List (List Char × Nat)) :
    points (row :: rows) = (pair? row.1).toList ++ points rows := by
  unfold points
  rw [List.filterMap_cons]
  cases pair? row.1 <;> rfl

/-- The rows of the second part are numbered behind those of the first. -/
theorem rowsFrom_append (number : Nat) (front back : List (List Char)) :
    rowsFrom number (front ++ back)
      = rowsFrom number front ++ rowsFrom (number + front.length) back := by
  induction front generalizing number with
  | nil => rfl
  | cons line front ih =>
    rw [List.cons_append, rowsFrom, rowsFrom, ih, List.length_cons, Nat.add_assoc,
      Nat.add_comm 1 front.length]
    split <;> rfl

/-! ### Offences -/

/-- A row is in order if it has two fields, and numbers in them unless a heading is allowed. -/
theorem offence?_eq_none_iff {heading : Bool} {row : List Char} :
    offence? heading row = none ↔
      2 ≤ (fields separates row).length ∧ (heading = true ∨ (pair? row).isSome = true) := by
  unfold offence?
  split
  · next h =>
    constructor
    · nofun
    · rintro ⟨hcolumns, -⟩
      omega
  · next h =>
    split
    · next hrow => simpa using ⟨by omega, by simpa using hrow⟩
    · next hrow => simpa using fun _ => by simpa using hrow

/-- Behind the heading all rows are in order exactly if each of them has two numbers. -/
theorem firstOffence?_false_eq_none_iff {rows : List (List Char × Nat)} :
    firstOffence? false rows = none ↔ ∀ row ∈ rows,
      2 ≤ (fields separates row.1).length ∧ (pair? row.1).isSome = true := by
  induction rows with
  | nil => simp [firstOffence?]
  | cons row rows ih =>
    rw [firstOffence?, List.forall_mem_cons, ← ih]
    cases hoffence : offence? false row.1 with
    | none => exact (and_iff_right (by simpa using offence?_eq_none_iff.mp hoffence)).symm
    | some fault =>
      constructor
      · nofun
      · rintro ⟨⟨hcolumns, hnumbers⟩, -⟩
        rw [offence?_eq_none_iff.mpr ⟨hcolumns, .inr hnumbers⟩] at hoffence
        cases hoffence

/-- Nothing is wrong with regular rows, and with no others. -/
theorem firstOffence?_eq_none_iff {rows : List (List Char × Nat)} :
    firstOffence? true rows = none ↔ Regular rows := by
  cases rows with
  | nil => exact ⟨fun _ => ⟨by simp, by simp⟩, fun _ => rfl⟩
  | cons row rows =>
    rw [firstOffence?]
    cases hoffence : offence? true row.1 with
    | none =>
      -- The first row may be a heading, so only its columns count.
      have hcolumns := (offence?_eq_none_iff.mp hoffence).1
      dsimp only
      rw [firstOffence?_false_eq_none_iff]
      constructor
      · intro h
        exact ⟨List.forall_mem_cons.mpr ⟨hcolumns, fun row hrow => (h row hrow).1⟩,
          fun row hrow => (h row hrow).2⟩
      · rintro ⟨hcolumns, hnumbers⟩ row hrow
        exact ⟨hcolumns row (List.mem_cons_of_mem _ hrow), hnumbers row hrow⟩
    | some fault =>
      constructor
      · nofun
      · rintro ⟨hcolumns, -⟩
        rw [offence?_eq_none_iff.mpr ⟨hcolumns row List.mem_cons_self, .inl rfl⟩] at hoffence
        cases hoffence

/-- Rows with nothing wrong are passed.  Behind them no heading is allowed. -/
theorem firstOffence?_append {heading : Bool} {before rows : List (List Char × Nat)}
    (h : firstOffence? heading before = none) :
    firstOffence? heading (before ++ rows)
      = firstOffence? (heading && before.isEmpty) rows := by
  induction before generalizing heading with
  | nil => rw [List.nil_append, List.isEmpty_nil, Bool.and_true]
  | cons row before ih =>
    rw [firstOffence?] at h
    rw [List.cons_append, firstOffence?, List.isEmpty_cons, Bool.and_false]
    cases hoffence : offence? heading row.1 with
    | some fault =>
      rw [hoffence] at h
      cases h
    | none =>
      rw [hoffence] at h
      exact ih h

/-- The first offence is that of a row with none before it. -/
theorem exists_of_firstOffence? {heading : Bool} {rows : List (List Char × Nat)} {number : Nat}
    {fault : RowFault} (h : firstOffence? heading rows = some (number, fault)) :
    ∃ before row after, rows = before ++ (row, number) :: after ∧
      firstOffence? heading before = none ∧
      offence? (heading && before.isEmpty) row = some fault := by
  -- The heading is allowed in front of the first row only, hence the emptiness of what is before.
  induction rows generalizing heading with
  | nil => cases h
  | cons first rows ih =>
    obtain ⟨line, number'⟩ := first
    rw [firstOffence?] at h
    cases hoffence : offence? heading line with
    | some fault' =>
      rw [hoffence] at h
      cases h
      exact ⟨[], line, rows, rfl, rfl, by rwa [List.isEmpty_nil, Bool.and_true]⟩
    | none =>
      rw [hoffence] at h
      obtain ⟨before, row, after, rfl, hnone, hrow⟩ := ih h
      refine ⟨(line, number') :: before, row, after, rfl, ?_, ?_⟩
      · rw [firstOffence?, hoffence]
        exact hnone
      · rwa [List.isEmpty_cons, Bool.and_false]

/-- The first offence is that of a row with nothing wrong before it. -/
theorem firstOffence?_eq_some_iff {heading : Bool} {rows : List (List Char × Nat)} {number : Nat}
    {fault : RowFault} :
    firstOffence? heading rows = some (number, fault) ↔
      ∃ before row after, rows = before ++ (row, number) :: after ∧
        firstOffence? heading before = none ∧
        offence? (heading && before.isEmpty) row = some fault := by
  refine ⟨exists_of_firstOffence?, ?_⟩
  rintro ⟨before, row, after, rfl, hnone, hrow⟩
  rw [firstOffence?_append hnone, firstOffence?, hrow]

/-! ### Reading rows -/

/-- The points read so far and those of one more row. -/
def Rows.add (rows : Rows) : Option (Float × Float) → Rows
  | some (x, y) => ⟨rows.xs.push x, rows.ys.push y, false⟩
  | none => ⟨rows.xs, rows.ys, false⟩

/-- A row that is no comment is read, unless there is an offence. -/
theorem readRow_eq {row : List Char} (h : isComment row = false) (rows : Rows) :
    readRow row rows = match offence? rows.headingAllowed row with
      | some fault => .error fault
      | none => .ok (rows.add (pair? row)) := by
  unfold readRow offence? pair?
  rw [if_neg (by simp [h])]
  match fields separates row with
  | [] => rfl
  | [_] => rfl
  | first :: second :: others =>
    have hcolumns : ¬ (first :: second :: others).length < 2 := by simp
    rw [if_neg hcolumns]
    dsimp only
    -- A row that is no pair of numbers is a heading where one is allowed, and an offence elsewhere.
    rcases Option.eq_none_or_eq_some (readPair first second) with hpair | ⟨point, hpair⟩
    · simp only [hpair, Option.isSome_none, Bool.or_false]
      cases rows.headingAllowed <;> rfl
    · simp only [hpair, Option.isSome_some, Bool.or_true]
      rfl

/-- **Reading lines.**  The lines are read as far as nothing is wrong with their rows. -/
theorem readLines_eq (lines : List (List Char)) (number : Nat) (rows : Rows) :
    (readLines (lines.map some) number rows).map (fun rows => (rows.xs.toList, rows.ys.toList))
      = match firstOffence? rows.headingAllowed (rowsFrom number lines) with
        | some (number, fault) => .error (.row number fault)
        | none => .ok
          (rows.xs.toList ++ (points (rowsFrom number lines)).map Prod.fst,
            rows.ys.toList ++ (points (rowsFrom number lines)).map Prod.snd) := by
  -- By induction on the lines, from whatever rows have been read before them.
  induction lines generalizing number rows with
  | nil =>
    rw [rowsFrom, points_nil, List.map_nil, List.map_nil, List.map_nil, List.append_nil,
      List.append_nil]
    rfl
  | cons line lines ih =>
    rw [List.map_cons, readLines, rowsFrom]
    cases hcomment : isComment (trim line) with
    | true =>
      rw [readRow, if_pos hcomment, if_pos rfl]
      exact ih (number + 1) rows
    | false =>
      rw [readRow_eq hcomment, if_neg Bool.false_ne_true, firstOffence?, points_cons]
      dsimp only
      cases offence? rows.headingAllowed (trim line) with
      | some fault => rfl
      | none =>
        dsimp only
        rw [ih]
        cases pair? (trim line) with
        | none => rfl
        | some point =>
          rw [Rows.add, Array.toList_push, Array.toList_push, List.append_assoc, List.append_assoc]
          rfl

/-! ### Tables of points -/

/-- The table with these nodes and values. -/
def tableOfColumns (columns : List Float × List Float) : Except StoreError (Table Float) :=
  if columns.1.isEmpty then .error (.row 0 .noRows)
  else (Table.ofPoints columns.1.toArray columns.2.toArray).mapError StoreError.table

/-- The table of rows. -/
def tableOfRows (rows : List (List Char × Nat)) : Except StoreError (Table Float) :=
  match firstOffence? true rows with
  | some (number, fault) => .error (.row number fault)
  | none => tableOfColumns ((points rows).map Prod.fst, (points rows).map Prod.snd)

/-- **Rows.**  The table of a text is that of its rows. -/
theorem tableOfText_eq (text : List Char) :
    tableOfText text = tableOfRows (rowsFrom 1 (lines text)) := by
  have hcolumns : tableOfText text = (readLines ((lines text).map some) 1 .start).map
      (fun rows => (rows.xs.toList, rows.ys.toList)) >>= tableOfColumns := by
    unfold tableOfText tableOfLines
    cases readLines ((lines text).map some) 1 .start with
    | error error => rfl
    | ok rows =>
      show _ = tableOfColumns (rows.xs.toList, rows.ys.toList)
      unfold tableOfColumns
      rw [Array.isEmpty_toList, Array.toArray_toList, Array.toArray_toList]
      rfl
  rw [hcolumns, readLines_eq, tableOfRows, show Rows.start.headingAllowed = true from rfl]
  cases firstOffence? true (rowsFrom 1 (lines text)) <;> rfl

section Points

variable {xs ys : Array Float}

/-- The table of points has one axis. -/
theorem ofPoints_eq_ok_iff (h : xs.size = ys.size) {table : Table Float} :
    Table.ofPoints xs ys = .ok table ↔ table.axes.map Axis.nodes = [xs] ∧ table.values = ys := by
  unfold Table.ofPoints
  rw [if_pos h]
  -- Both directions are decided by whether the first components make an axis.
  cases haxis : Axis.ofArray xs with
  | ok axis =>
    dsimp only
    rw [Table.build_eq_ok_iff]
    refine and_congr_left fun _ => ⟨fun haxes => ?_, fun haxes => ?_⟩
    · rw [haxes, List.map_singleton, Axis.ofArray_eq_ok_iff.mp haxis]
    · obtain ⟨other, haxes, hother⟩ := List.map_eq_singleton_iff.mp haxes
      rw [← Axis.ofArray_eq_ok_iff, haxis] at hother
      cases hother
      exact haxes
  | error fault =>
    constructor
    · nofun
    · rintro ⟨haxes, -⟩
      obtain ⟨other, -, hother⟩ := List.map_eq_singleton_iff.mp haxes
      rw [← Axis.ofArray_eq_ok_iff, haxis] at hother
      cases hother

/-- Points are refused for their first components alone. -/
theorem ofPoints_eq_error_iff (h : xs.size = ys.size) {error : TableError Float} :
    Table.ofPoints xs ys = .error error ↔
      ∃ fault, axisFault? xs.toList = some fault ∧ error = .axis fault := by
  unfold Table.ofPoints
  rw [if_pos h]
  cases haxis : Axis.ofArray xs with
  | ok axis =>
    -- Nodes without a fault make a table, because there are as many values.
    have hnodes := Axis.ofArray_eq_ok_iff.mp haxis
    have hsize : ys.size = Shape.cells ([axis].map Axis.size) := by
      rw [← h, ← hnodes]
      exact (Nat.mul_one _).symm
    have hfew : 1 ≤ axisLimit := by decide
    have hbuilt : Table.build ys [axis]
        = .ok ⟨[axis], ys, List.cons_ne_nil axis [], hfew, hsize⟩ :=
      Table.build_eq_ok_iff.mpr ⟨rfl, rfl⟩
    dsimp only
    rw [hbuilt, ← hnodes, axis.faultless]
    simp
  | error fault =>
    have hfault : axisFault? xs.toList = some fault := by
      unfold Axis.ofArray at haxis
      split at haxis
      · next h =>
        cases haxis
        exact h
      · cases haxis
    rw [hfault]
    simp [eq_comm]

end Points

/-! ### What makes no difference -/

/-- The number of a line after one more has been put in behind the first `last` ones. -/
def movedNumber (last number : Nat) : Nat := if last < number then number + 1 else number

/-- The error after one more line has been put in behind the first `last` ones. -/
def movedError (last : Nat) : StoreError → StoreError
  | .row number fault => .row (movedNumber last number) fault
  | error => error

/-- Errors that are not about a line stay as they are. -/
theorem tableOfColumns_mapError {columns : List Float × List Float} {f : StoreError → StoreError}
    (hrow : f (.row 0 .noRows) = .row 0 .noRows)
    (htable : ∀ error, f (.table error) = .table error) :
    (tableOfColumns columns).mapError f = tableOfColumns columns := by
  unfold tableOfColumns
  split
  · exact congrArg Except.error hrow
  · cases Table.ofPoints columns.1.toArray columns.2.toArray with
    | ok table => rfl
    | error error => exact congrArg Except.error (htable error)

/-- Numbering the rows otherwise changes nothing but the number of the offence. -/
theorem firstOffence?_renumber (f : Nat → Nat) (heading : Bool) (rows : List (List Char × Nat)) :
    firstOffence? heading (rows.map fun row => (row.1, f row.2))
      = (firstOffence? heading rows).map fun offence => (f offence.1, offence.2) := by
  induction rows generalizing heading with
  | nil => rfl
  | cons row rows ih =>
    rw [List.map_cons, firstOffence?, firstOffence?]
    dsimp only
    cases offence? heading row.1 with
    | some fault => rfl
    | none => exact ih false

/-- Numbering the rows otherwise changes no point. -/
theorem points_renumber (f : Nat → Nat) (rows : List (List Char × Nat)) :
    points (rows.map fun row => (row.1, f row.2)) = points rows := by
  unfold points
  rw [List.filterMap_map]
  rfl

/-- Counting from one more raises all numbers by one. -/
theorem rowsFrom_succ (number : Nat) (lines : List (List Char)) :
    rowsFrom (number + 1) lines = (rowsFrom number lines).map fun row => (row.1, row.2 + 1) := by
  induction lines generalizing number with
  | nil => rfl
  | cons line lines ih =>
    rw [rowsFrom, rowsFrom, ih]
    split <;> rfl

/-- The rows have the numbers of their lines. -/
theorem number_of_mem_rowsFrom {number : Nat} {lines : List (List Char)}
    {row : List Char × Nat} (h : row ∈ rowsFrom number lines) :
    number ≤ row.2 ∧ row.2 < number + lines.length := by
  induction lines generalizing number row with
  | nil => cases h
  | cons line lines ih =>
    -- A line without a row is counted all the same.
    have hrest : ∀ row ∈ rowsFrom (number + 1) lines,
        number ≤ row.2 ∧ row.2 < number + (line :: lines).length := by
      intro row hrow
      have := ih hrow
      rw [List.length_cons]
      omega
    rw [rowsFrom] at h
    split at h
    · exact hrest row h
    · rcases List.mem_cons.mp h with rfl | h
      · rw [List.length_cons]
        exact ⟨le_rfl, by omega⟩
      · exact hrest row h

/-- A line without a row moves those behind it. -/
theorem rowsFrom_insert {before after : List (List Char)} {line : List Char}
    (h : isComment (trim line) = true) :
    rowsFrom 1 (before ++ line :: after)
      = (rowsFrom 1 (before ++ after)).map fun row => (row.1, movedNumber before.length row.2) := by
  rw [rowsFrom_append, rowsFrom_append, rowsFrom, if_pos h, rowsFrom_succ (1 + before.length),
    List.map_append]
  congr 1
  · refine (List.map_id _).symm.trans (List.map_congr_left fun row hrow => ?_)
    have hlast := (number_of_mem_rowsFrom hrow).2
    rw [movedNumber, if_neg (by omega)]
    rfl
  · refine List.map_congr_left fun row hrow => ?_
    have hfirst := (number_of_mem_rowsFrom hrow).1
    rw [movedNumber, if_pos (by omega)]

/-- A comment put between the lines changes nothing but the numbers in the errors. -/
theorem tableOfRows_insert {before after : List (List Char)} {line : List Char}
    (h : isComment (trim line) = true) :
    tableOfRows (rowsFrom 1 (before ++ line :: after))
      = (tableOfRows (rowsFrom 1 (before ++ after))).mapError (movedError before.length) := by
  unfold tableOfRows
  rw [rowsFrom_insert h, firstOffence?_renumber (movedNumber before.length),
    points_renumber (movedNumber before.length)]
  cases firstOffence? true (rowsFrom 1 (before ++ after)) with
  | some offence => rfl
  | none => exact (tableOfColumns_mapError rfl fun _ => rfl).symm

/-- A fault without the row that it quotes. -/
def unquotedFault : RowFault → RowFault
  | .notNumbers _ => .notNumbers ""
  | fault => fault

/-- An error without the row that it quotes. -/
def unquotedError : StoreError → StoreError
  | .row number fault => .row number (unquotedFault fault)
  | error => error

/-- Rows with the same fields, on lines with the same numbers. -/
def SameFields (rows others : List (List Char × Nat)) : Prop :=
  List.Forall₂ (fun row other => fields separates row.1 = fields separates other.1 ∧
    row.2 = other.2) rows others

/-- The point of a row depends on its fields only. -/
theorem pair?_congr {row other : List Char} (h : fields separates row = fields separates other) :
    pair? row = pair? other := by
  unfold pair?
  rw [h]

/-- The offence of a row depends on its fields only, but for the text that is quoted. -/
theorem offence?_congr {row other : List Char} (h : fields separates row = fields separates other)
    (heading : Bool) :
    (offence? heading row).map unquotedFault = (offence? heading other).map unquotedFault := by
  unfold offence?
  rw [h, pair?_congr h]
  split
  · rfl
  · split <;> rfl

/-- Rows with the same fields have the same points. -/
theorem SameFields.points_eq {rows others : List (List Char × Nat)} (h : SameFields rows others) :
    points rows = points others := by
  induction h with
  | nil => rfl
  | cons hrow _ ih => rw [points_cons, points_cons, pair?_congr hrow.1, ih]

/-- Rows with the same fields have the same first offence, but for the text that is quoted. -/
theorem SameFields.firstOffence?_eq {rows others : List (List Char × Nat)}
    (h : SameFields rows others) (heading : Bool) :
    (firstOffence? heading rows).map (Prod.map id unquotedFault)
      = (firstOffence? heading others).map (Prod.map id unquotedFault) := by
  induction h generalizing heading with
  | nil => rfl
  | @cons row other rows others hrow _ ih =>
    have hoffence := offence?_congr hrow.1 heading
    rw [firstOffence?, firstOffence?, hrow.2]
    -- The same fields offend alike, up to the text that the fault quotes.
    cases hfirst : offence? heading row.1 with
    | some fault =>
      rw [hfirst] at hoffence
      obtain ⟨fault', hother, hfault⟩ := Option.map_eq_some_iff.mp hoffence.symm
      rw [hother]
      exact congrArg (fun fault => some (other.2, fault)) hfault.symm
    | none =>
      rw [hfirst] at hoffence
      rw [Option.map_eq_none_iff.mp hoffence.symm]
      exact ih false

/-- Rows with the same fields make the same table, or are refused for the same reason. -/
theorem SameFields.tableOfRows_eq {rows others : List (List Char × Nat)}
    (h : SameFields rows others) :
    (tableOfRows rows).mapError unquotedError = (tableOfRows others).mapError unquotedError := by
  have hoffence := h.firstOffence?_eq true
  unfold tableOfRows
  rw [h.points_eq]
  cases hfirst : firstOffence? true rows with
  | some offence =>
    rw [hfirst] at hoffence
    obtain ⟨offence', hother, heq⟩ := Option.map_eq_some_iff.mp hoffence.symm
    rw [hother]
    exact congrArg (fun offence : Nat × RowFault =>
      (Except.error (.row offence.1 offence.2) : Except StoreError (Table Float))) heq.symm
  | none =>
    rw [hfirst] at hoffence
    rw [Option.map_eq_none_iff.mp hoffence.symm]

/-- Blanks separate fields. -/
theorem separates_of_isBlank (c : Char) (h : isBlank c = true) : separates c = true := by
  unfold separates
  rw [h, Bool.or_true]

/-- Whether a line holds a row is seen at its first character that is no blank. -/
theorem isComment_trim (line : List Char) :
    isComment (trim line) = (line.find? fun c => !isBlank c).all (· == '#') := by
  rw [← head?_trim]
  unfold isComment
  cases trim line with
  | nil => rfl
  | cons c rest => simp

/-- Whether a line is a comment does not depend on what follows its first character that is not
    blank. -/
theorem isComment_trim_congr {front : List Char} (h : ∃ c ∈ front, isBlank c = false)
    (rest others : List Char) :
    isComment (trim (front ++ rest)) = isComment (trim (front ++ others)) := by
  have hfirst : (front.find? fun c => !isBlank c).isSome = true := by
    rw [List.find?_isSome]
    simpa using h
  rw [isComment_trim, isComment_trim, List.find?_append, List.find?_append,
    Option.or_of_isSome hfirst, Option.or_of_isSome hfirst]

/-- Replacing a line by one with the same fields, both or neither of them comments, keeps the
    fields of all rows. -/
theorem sameFields_replace {before after : List (List Char)} {line other : List Char}
    (hcomment : isComment (trim line) = isComment (trim other))
    (hfields : fields separates line = fields separates other) :
    SameFields (rowsFrom 1 (before ++ line :: after)) (rowsFrom 1 (before ++ other :: after)) := by
  have hsame : ∀ rows : List (List Char × Nat), SameFields rows rows :=
    fun rows => List.forall₂_same.mpr fun row _ => ⟨rfl, rfl⟩
  rw [rowsFrom_append, rowsFrom_append, rowsFrom, rowsFrom, hcomment]
  refine List.rel_append (hsame _) ?_
  split
  · exact hsame _
  · refine .cons ⟨?_, rfl⟩ (hsame _)
    dsimp only
    rw [fields_trim separates_of_isBlank, fields_trim separates_of_isBlank, hfields]

/-! ### The grammar -/

/-- Both columns have a number for every point. -/
theorem size_columns (points : List (Float × Float)) :
    (points.map Prod.fst).toArray.size = (points.map Prod.snd).toArray.size := by
  rw [List.size_toArray, List.size_toArray, List.length_map, List.length_map]

/-- Points make a table with one axis. -/
theorem tableOfColumns_eq_ok_iff {points : List (Float × Float)} {table : Table Float} :
    tableOfColumns (points.map Prod.fst, points.map Prod.snd) = .ok table ↔
      points ≠ [] ∧ table.axes.map Axis.nodes = [(points.map Prod.fst).toArray] ∧
        table.values = (points.map Prod.snd).toArray := by
  rw [← ofPoints_eq_ok_iff (size_columns points)]
  unfold tableOfColumns
  cases points with
  | nil => simp
  | cons point points =>
    dsimp only
    cases Table.ofPoints ((point :: points).map Prod.fst).toArray
      ((point :: points).map Prod.snd).toArray <;> simp [Except.mapError]

/-- Columns are refused if they are empty or if the first one cannot be an axis. -/
theorem tableOfColumns_eq_error_iff {points : List (Float × Float)} {error : StoreError} :
    tableOfColumns (points.map Prod.fst, points.map Prod.snd) = .error error ↔
      points = [] ∧ error = .row 0 .noRows ∨ points ≠ [] ∧ ∃ fault,
        axisFault? (points.map Prod.fst) = some fault ∧ error = .table (.axis fault) := by
  by_cases hnone : points = []
  · rw [hnone]
    simp [tableOfColumns, eq_comm]
  unfold tableOfColumns
  rw [if_neg (by simpa using hnone)]
  cases hpoints : Table.ofPoints (points.map Prod.fst).toArray (points.map Prod.snd).toArray with
  | ok table =>
    constructor
    · nofun
    · rintro (⟨h, -⟩ | ⟨-, fault, hfault, -⟩)
      · exact absurd h hnone
      · rw [(ofPoints_eq_error_iff (size_columns points)).mpr ⟨fault, hfault, rfl⟩] at hpoints
        cases hpoints
  | error error' =>
    obtain ⟨fault, hfault, rfl⟩ := (ofPoints_eq_error_iff (size_columns points)).mp hpoints
    rw [List.toList_toArray] at hfault
    rw [hfault]
    simp [hnone, Except.mapError, eq_comm]

/-- Rows are refused for the first one with something wrong, for want of points, or because the
    first components are no axis. -/
theorem tableOfRows_eq_error_iff {rows : List (List Char × Nat)} {error : StoreError} :
    tableOfRows rows = .error error ↔
      (∃ before row number after fault, rows = before ++ (row, number) :: after ∧ Regular before ∧
        offence? before.isEmpty row = some fault ∧ error = .row number fault) ∨
      Regular rows ∧ (points rows = [] ∧ error = .row 0 .noRows ∨
        points rows ≠ [] ∧ ∃ fault, axisFault? ((points rows).map Prod.fst) = some fault ∧
          error = .table (.axis fault)) := by
  unfold tableOfRows
  rw [← firstOffence?_eq_none_iff, ← tableOfColumns_eq_error_iff]
  cases hfirst : firstOffence? true rows with
  | some offence =>
    obtain ⟨number, fault⟩ := offence
    obtain ⟨before, row, after, hrows, hbefore, hrow⟩ := firstOffence?_eq_some_iff.mp hfirst
    constructor
    · rintro ⟨⟩
      exact .inl ⟨before, row, number, after, fault, hrows, firstOffence?_eq_none_iff.mp hbefore,
        hrow, rfl⟩
    · rintro (⟨before, row, number', after, fault', hrows, hbefore, hrow, rfl⟩ | ⟨⟨⟩, -⟩)
      -- The first offence is unique.
      have hother := firstOffence?_eq_some_iff.mpr
        ⟨before, row, after, hrows, firstOffence?_eq_none_iff.mpr hbefore, hrow⟩
      rw [hfirst] at hother
      cases hother
      rfl
  | none =>
    constructor
    · exact fun h => .inr ⟨rfl, h⟩
    · rintro (⟨before, row, number', after, fault', hrows, hbefore, hrow, -⟩ | ⟨-, h⟩)
      · have hother := firstOffence?_eq_some_iff.mpr
          ⟨before, row, after, hrows, firstOffence?_eq_none_iff.mpr hbefore, hrow⟩
        rw [hfirst] at hother
        cases hother
      · exact h

/-- Rows are accepted if they are regular, there are points, and the first components ascend. -/
theorem exists_tableOfRows_iff {rows : List (List Char × Nat)} :
    (∃ table, tableOfRows rows = .ok table) ↔
      Regular rows ∧ points rows ≠ [] ∧ Ascending ((points rows).map Prod.fst) := by
  rw [← firstOffence?_eq_none_iff]
  unfold tableOfRows
  cases firstOffence? true rows with
  | some offence => simp
  | none =>
    dsimp only
    constructor
    · rintro ⟨table, h⟩
      obtain ⟨hsome, haxes, -⟩ := tableOfColumns_eq_ok_iff.mp h
      obtain ⟨axis, -, hnodes⟩ := List.map_eq_singleton_iff.mp haxes
      have hascending := axis.ascending
      rw [hnodes] at hascending
      exact ⟨rfl, hsome, hascending⟩
    · rintro ⟨-, hsome, hascending⟩
      -- Neither of the reasons to refuse points is left.
      have hfault : axisFault? ((points rows).map Prod.fst) = none :=
        axisFault?_eq_none_iff.mpr ⟨by simpa using hsome, hascending⟩
      cases h : tableOfColumns ((points rows).map Prod.fst, (points rows).map Prod.snd) with
      | ok table => exact ⟨table, rfl⟩
      | error error =>
        rcases tableOfColumns_eq_error_iff.mp h with ⟨hnone, -⟩ | ⟨-, fault, hsomeFault, -⟩
        · exact absurd hnone hsome
        · rw [hfault] at hsomeFault
          cases hsomeFault

/-- The table of rows is that of their points. -/
theorem columns_of_tableOfRows {rows : List (List Char × Nat)} {table : Table Float}
    (h : tableOfRows rows = .ok table) :
    table.axes.map Axis.nodes = [((points rows).map Prod.fst).toArray] ∧
      table.values = ((points rows).map Prod.snd).toArray := by
  unfold tableOfRows at h
  split at h
  · cases h
  · exact (tableOfColumns_eq_ok_iff.mp h).2

/-- The rows of a text. -/
def rowsOf (text : List Char) : List (List Char × Nat) := rowsFrom 1 (lines text)

/-- **The grammar of curves.**  A text is accepted exactly if its rows are regular, hold points, and
    the first components of these ascend; its table is the one of these points.  Otherwise it is
    refused for the first row with something wrong, because there are no points, or because the
    first components are no axis.  One more line that holds no row makes no difference, except that
    it moves the lines behind it.  Another gap between fields makes none, as long as the line does
    not begin or cease to hold a row, which a gap behind its first character never brings about. -/
theorem tableOfText_grammar (text : List Char) :
    (∀ bytes, textOfBytes? bytes = some text → tableOfBytes bytes = tableOfText text) ∧
    (∀ row, Cut separates row (fields separates row)) ∧
    ((∃ table, tableOfText text = .ok table) ↔ Regular (rowsOf text) ∧
      points (rowsOf text) ≠ [] ∧ Ascending ((points (rowsOf text)).map Prod.fst)) ∧
    (∀ table, tableOfText text = .ok table →
      table.axes.map Axis.nodes = [((points (rowsOf text)).map Prod.fst).toArray] ∧
        table.values = ((points (rowsOf text)).map Prod.snd).toArray) ∧
    (∀ error, tableOfText text = .error error ↔
      (∃ before row number after fault, rowsOf text = before ++ (row, number) :: after ∧
        Regular before ∧ offence? before.isEmpty row = some fault ∧ error = .row number fault) ∨
      Regular (rowsOf text) ∧ (points (rowsOf text) = [] ∧ error = .row 0 .noRows ∨
        points (rowsOf text) ≠ [] ∧ ∃ fault,
          axisFault? ((points (rowsOf text)).map Prod.fst) = some fault ∧
            error = .table (.axis fault))) ∧
    (∀ other before line after, lines text = before ++ after →
      lines other = before ++ line :: after → isComment (trim line) = true →
      tableOfText other = (tableOfText text).mapError (movedError before.length)) ∧
    ∀ other before front gap gap' back after,
      lines text = before ++ (front ++ gap ++ back) :: after →
      lines other = before ++ (front ++ gap' ++ back) :: after → gap ≠ [] → gap' ≠ [] →
      (∀ c ∈ gap, separates c = true) → (∀ c ∈ gap', separates c = true) →
      ((∃ c ∈ front, isBlank c = false) ∨
        isComment (trim (front ++ gap ++ back)) = isComment (trim (front ++ gap' ++ back))) →
      (tableOfText other).mapError unquotedError = (tableOfText text).mapError unquotedError := by
  rw [tableOfText_eq]
  refine ⟨fun bytes hbytes => ?_, fun row => fields_eq_iff.mp rfl, exists_tableOfRows_iff,
    fun table => columns_of_tableOfRows, fun error => tableOfRows_eq_error_iff,
    fun other before line after htext hother hcomment => ?_,
    fun other before front gap gap' back after htext hother hsome hsome' hgap hgap' hkind => ?_⟩
  · rw [← tableOfText_eq, tableOfBytes, linesOfBytes, hbytes]
    rfl
  · rw [tableOfText_eq, hother, htext, tableOfRows_insert hcomment]
  · have hcomment : isComment (trim (front ++ gap' ++ back))
        = isComment (trim (front ++ gap ++ back)) := by
      -- A character in front of the gap decides whether the line is a comment.
      rcases hkind with hfront | hkind
      · rw [List.append_assoc, List.append_assoc]
        exact isComment_trim_congr hfront _ _
      · exact hkind.symm
    rw [tableOfText_eq, hother, htext]
    exact (sameFields_replace hcomment
      (fields_change_gap hsome' hsome hgap' hgap front back)).tableOfRows_eq

/-- Two points under a heading, also with a comment more or another gap, and a row that is none. -/
theorem tableOfText_grammar_hue :
    (∃ table, tableOfText "hue;y\n0 1\n2;3\n".toList = .ok table ∧
      table.axes.map Axis.nodes = [#[0.0, 2.0]] ∧ table.values = #[1.0, 3.0] ∧
      tableOfText "hue;y\n#\n0 1\n2;3\n".toList = .ok table ∧
      tableOfText "hue;y\n0,1\n2;3\n".toList = .ok table) ∧
    tableOfText "hue;y\n0 1\n2\n".toList = .error (.row 3 .missingColumn) := by
  obtain ⟨-, -, haccepted, hcolumns, -, hinsert, hgap⟩ :=
    tableOfText_grammar "hue;y\n0 1\n2;3\n".toList
  obtain ⟨-, -, -, -, hrefused, -, -⟩ := tableOfText_grammar "hue;y\n0 1\n2\n".toList
  constructor
  · have hpoints : points (rowsOf "hue;y\n0 1\n2;3\n".toList) = [(0.0, 1.0), (2.0, 3.0)] := by
      decide +kernel
    obtain ⟨table, htable⟩ := haccepted.mpr ⟨⟨by decide +kernel, by decide +kernel⟩,
      by rw [hpoints]; exact List.cons_ne_nil _ _, by rw [hpoints]; decide +kernel⟩
    obtain ⟨hnodes, hvalues⟩ := hcolumns table htable
    rw [hpoints] at hnodes hvalues
    have hcomment := hinsert "hue;y\n#\n0 1\n2;3\n".toList ["hue;y".toList] ['#']
      ["0 1".toList, "2;3".toList] (by decide +kernel) (by decide +kernel) (by decide +kernel)
    have hother := hgap "hue;y\n0,1\n2;3\n".toList ["hue;y".toList] ['0'] [' '] [','] ['1']
      ["2;3".toList] (by decide +kernel) (by decide +kernel) (List.cons_ne_nil _ _)
      (List.cons_ne_nil _ _) (List.forall_mem_singleton.mpr (by decide +kernel))
      (List.forall_mem_singleton.mpr (by decide +kernel))
      (.inl ⟨'0', List.mem_singleton_self _, by decide +kernel⟩)
    rw [htable] at hcomment hother
    refine ⟨table, htable, hnodes, hvalues, hcomment, ?_⟩
    cases h : tableOfText "hue;y\n0,1\n2;3\n".toList with
    | ok other =>
      rw [h] at hother
      exact hother
    | error error =>
      rw [h] at hother
      cases hother
  · exact (hrefused _).mpr (.inl ⟨[("hue;y".toList, 1), ("0 1".toList, 2)], "2".toList, 3, [],
      .missingColumn, by decide +kernel, ⟨by decide +kernel, by decide +kernel⟩, by decide +kernel,
      rfl⟩)

/-- Not every gap is as good as another: a line of blanks holds no row, but one with another
    separator holds a row without columns. -/
theorem not_all_gaps_alike :
    ¬ ∀ (text other : List Char) (before : List (List Char)) (front gap gap' back : List Char)
      (after : List (List Char)), lines text = before ++ (front ++ gap ++ back) :: after →
      lines other = before ++ (front ++ gap' ++ back) :: after → gap ≠ [] → gap' ≠ [] →
      (∀ c ∈ gap, separates c = true) → (∀ c ∈ gap', separates c = true) →
      ∀ table, tableOfText text = .ok table → tableOfText other = .ok table := by
  intro h
  have hblank : (tableOfText "0;1\n \n".toList).toOption.isSome = true := by decide +kernel
  have hother : (tableOfText "0;1\n;\n".toList).toOption.isSome = false := by decide +kernel
  cases htable : tableOfText "0;1\n \n".toList with
  | error error =>
    rw [htable] at hblank
    cases hblank
  | ok table =>
    have hsame := h "0;1\n \n".toList "0;1\n;\n".toList ["0;1".toList] [] [' '] [';'] [] []
      (by decide +kernel) (by decide +kernel) (List.cons_ne_nil _ _) (List.cons_ne_nil _ _)
      (List.forall_mem_singleton.mpr (by decide +kernel))
      (List.forall_mem_singleton.mpr (by decide +kernel)) table htable
    rw [hsame] at hother
    cases hother

end Curve

end GridLookup
