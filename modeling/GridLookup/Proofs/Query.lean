import GridLookup.Command.Run
import GridLookup.Proofs.Decimal.NumberText
import GridLookup.Proofs.Naming
import GridLookup.Proofs.Packed

namespace GridLookup

/-!
# Query commands

A query looks up its points without names in one batch and merges the results back with the points
it looks up by name.  What it prints is what it would print if it looked up each point alone.

* `mapM_of_forall₂`, `mapM_of_error`, `forall₂_or_error` — items that are all good, and the first
  that is not.
* `Command.answer`, `Command.printAlone` — points looked up one after the other.
* `Command.transcript` — the lines of results, spelled out.
* `Command.packPoints_of_fits`, `Command.fits_or_length` — the points of the batch.
* `Command.queryPoints_eq_printAlone` — merging the results of a batch is looking up every point
  alone.
* `Command.queryPoints_outcome` — everything that a query can lead to.
-/

/-! ### The first failure -/

section FirstFailure

variable {ε α β : Type} {f : α → Except ε β} {items : List α}

/-- Where every item gives its result, all of them give all results. -/
theorem mapM_of_forall₂ {results : List β}
    (h : List.Forall₂ (fun a b => f a = .ok b) items results) : items.mapM f = .ok results := by
  induction h with
  | nil => rfl
  | cons hitem _ ih =>
    rw [List.mapM_cons, hitem, ih]
    rfl

/-- The first item that fails stops the others. -/
theorem mapM_of_error {before after : List α} {item : α} {error : ε}
    (hbefore : ∀ a ∈ before, ∃ b, f a = .ok b) (h : f item = .error error) :
    (before ++ item :: after).mapM f = .error error := by
  induction before with
  | nil =>
    rw [List.nil_append, List.mapM_cons, h]
    rfl
  | cons a before ih =>
    rw [List.forall_mem_cons] at hbefore
    obtain ⟨⟨b, hb⟩, hbefore⟩ := hbefore
    rw [List.cons_append, List.mapM_cons, hb, ih hbefore]
    rfl

/-- Either all items are good or there is a first one that is not. -/
theorem forall₂_or_error (f : α → Except ε β) (items : List α) :
    (∃ results, List.Forall₂ (fun a b => f a = .ok b) items results) ∨
      ∃ before item after results error, items = before ++ item :: after ∧
        List.Forall₂ (fun a b => f a = .ok b) before results ∧ f item = .error error := by
  induction items with
  | nil => exact .inl ⟨[], .nil⟩
  | cons item items ih =>
    cases hitem : f item with
    | error error => exact .inr ⟨[], item, items, [], error, rfl, .nil, hitem⟩
    | ok result =>
      rcases ih with ⟨results, h⟩ | ⟨before, other, after, results, error, rfl, hbefore, hother⟩
      · exact .inl ⟨result :: results, .cons hitem h⟩
      · exact .inr ⟨item :: before, other, after, result :: results, error, rfl,
          .cons hitem hbefore, hother⟩

/-- Where there are results for all items, there is one for each. -/
theorem exists_of_forall₂ {results : List β}
    (h : List.Forall₂ (fun a b => f a = .ok b) items results) : ∀ a ∈ items, ∃ b, f a = .ok b := by
  induction h with
  | nil => simp
  | cons hitem _ ih => exact List.forall_mem_cons.mpr ⟨⟨_, hitem⟩, ih⟩

end FirstFailure

/-! ### Batches -/

namespace Table

variable {α : Type} [Scalar α] {table : Table α}

/-- Points that were packed are found again. -/
theorem points_flatten {coordinates : List (List α)}
    (h : ∀ coordinate ∈ coordinates, coordinate.length = table.dimensions) :
    table.points coordinates.flatten = .ok coordinates := by
  have heven : coordinates.flatten.length % table.dimensions = 0 := by
    rw [List.length_flatten, List.map_congr_left h, List.map_const', List.sum_replicate_nat]
    exact Nat.mul_mod_left ..
  unfold points
  rw [if_pos heven, cut_flatten table.dimensions_pos h]

/-- The results of a batch are the values at its points. -/
theorem getAllParallel_flatten {coordinates : List (List α)}
    (h : ∀ coordinate ∈ coordinates, coordinate.length = table.dimensions) :
    table.getAllParallel coordinates.flatten = .ok (coordinates.map table.interpolate) := by
  rw [getAllParallel_eq_getAll, getAll, points_flatten h]
  rfl

end Table

namespace Command

variable {table : NamedTable Float} {verbose : Bool} {texts : List String} {points : List Point}
  {values : List Float} {printed : String}

/-! ### One point alone -/

/-- The points that texts hold. -/
def Reads (texts : List String) (points : List Point) : Prop :=
  List.Forall₂ (fun text point => Point.read text.toList = .ok point) texts points

/-- A point without names has one value per axis. -/
def Fits (table : NamedTable Float) : Point → Prop
  | .positional values => values.length = table.dimensions
  | .named _ => True

/-- The answer to a point alone. -/
def answer (table : NamedTable Float) : Point → Except (TableError Float) Float
  | .positional values => table.get values
  | .named components => table.getNamed components

/-- The values at points. -/
def Answers (table : NamedTable Float) (points : List Point) (values : List Float) : Prop :=
  List.Forall₂ (fun point value => answer table point = .ok value) points values

/-- Looks up points one after the other and prints each value. -/
def printAlone (table : NamedTable Float) (verbose : Bool) : List (String × Point) → Running Unit
  | [] => return
  | (text, point) :: rest => do
    let value ← require ((answer table point).mapError (.pointNames text))
    printLine (resultLine verbose text value)
    printAlone table verbose rest

/-- The lines of results, one for each: the plain digits of the value, and in front of them, if
    that is asked for, the text of the point and an arrow. -/
def transcript (verbose : Bool) (results : List (String × Float)) : String :=
  String.join (results.map fun result =>
    (if verbose then result.1 ++ " -> " else "") ++ NumberFormat.plain.write result.2 ++ "\n")

/-- The program prints the first of these lines and goes on with the others. -/
theorem transcript_cons (text : String) (value : Float) (results : List (String × Float)) :
    transcript verbose ((text, value) :: results)
      = resultLine verbose text value ++ "\n" ++ transcript verbose results := by
  have hline : resultLine verbose text value
      = (if verbose then text ++ " -> " else "") ++ NumberFormat.plain.write value := by
    cases verbose with
    | false => exact String.empty_append.symm
    | true => rfl
  rw [transcript, List.map_cons, String.join_cons, hline]
  rfl

/-- A point with a value for every axis is answered by interpolation. -/
theorem answer_of_fits {values : List Float} (h : Fits table (.positional values)) :
    answer table (.positional values) = .ok (table.interpolate values) :=
  table.get_of_length h

/-- Only names are refused when points fit. -/
theorem exists_named_of_error {point : Point} {error : TableError Float} (h : Fits table point)
    (herror : answer table point = .error error) : ∃ components, point = .named components := by
  cases point with
  | named components => exact ⟨components, rfl⟩
  | positional values =>
    rw [answer_of_fits h] at herror
    cases herror

/-- A point that is answered has its line printed before the others. -/
theorem printAlone_cons_ok {text : String} {point : Point} {value : Float}
    (h : answer table point = .ok value) (rest : List (String × Point)) :
    (printAlone table verbose ((text, point) :: rest)).run printed
      = (printAlone table verbose rest).run (printed ++ resultLine verbose text value ++ "\n") := by
  rw [printAlone, h]
  rfl

/-- A point that is refused stops the others. -/
theorem printAlone_cons_error {text : String} {point : Point} {error : TableError Float}
    (h : answer table point = .error error) (rest : List (String × Point)) :
    (printAlone table verbose ((text, point) :: rest)).run printed
      = (.error (.pointNames text error), printed) := by
  rw [printAlone, h]
  rfl

/-- Points with values are printed in turn before whatever follows them. -/
theorem printAlone_append (hlength : texts.length = points.length)
    (h : Answers table points values) (rest : List (String × Point)) :
    (printAlone table verbose (texts.zip points ++ rest)).run printed
      = (printAlone table verbose rest).run
          (printed ++ transcript verbose (texts.zip values)) := by
  -- By induction on the answers, from whatever has been printed before.
  induction h generalizing texts printed with
  | nil =>
    rw [List.zip_nil_right, List.zip_nil_right]
    exact congrArg (printAlone table verbose rest).run String.append_empty.symm
  | cons hanswer _ ih =>
    cases texts with
    | nil => cases hlength
    | cons text texts =>
      rw [List.zip_cons_cons, List.cons_append, printAlone_cons_ok hanswer,
        ih (Nat.succ.inj hlength), List.zip_cons_cons, transcript_cons, ← String.append_assoc,
        ← String.append_assoc]

/-! ### Packing -/

/-- The points without names. -/
def coordinates (points : List Point) : List (List Float) :=
  points.filterMap fun
    | .positional values => some values
    | .named _ => none

/-- Points that fit have a component for every axis. -/
theorem length_of_mem_coordinates (h : ∀ point ∈ points, Fits table point) :
    ∀ coordinate ∈ coordinates points, coordinate.length = table.dimensions := by
  intro coordinate hcoordinate
  obtain ⟨point, hpoint, hvalues⟩ := List.mem_filterMap.mp hcoordinate
  cases point with
  | named components => cases hvalues
  | positional values =>
    cases hvalues
    exact h _ hpoint

/-- Points that fit are packed one after the other. -/
theorem packPoints_of_fits (h : ∀ point ∈ points, Fits table point) :
    packPoints table points = .ok (coordinates points).flatten := by
  induction points with
  | nil => rfl
  | cons point points ih =>
    rw [List.forall_mem_cons] at h
    cases point with
    | named components => exact ih h.2
    | positional values =>
      have hlength : values.length = table.dimensions := h.1
      rw [packPoints, if_neg (not_not_intro hlength), ih h.2]
      rfl

/-- The first point of a wrong length is refused. -/
theorem packPoints_of_not_fits {before after : List Point}
    (hbefore : ∀ point ∈ before, Fits table point) (h : values.length ≠ table.dimensions) :
    packPoints table (before ++ .positional values :: after)
      = .error (.pointLength values.length table.dimensions table.names) := by
  induction before with
  | nil =>
    rw [List.nil_append, packPoints, if_pos h]
    rfl
  | cons point before ih =>
    rw [List.forall_mem_cons] at hbefore
    cases point with
    | named components => exact ih hbefore.2
    | positional others =>
      have hlength : others.length = table.dimensions := hbefore.1
      rw [List.cons_append, packPoints, if_neg (not_not_intro hlength), ih hbefore.2]
      rfl

/-- Either all points fit or there is a first one of a wrong length. -/
theorem fits_or_length (table : NamedTable Float) (points : List Point) :
    (∀ point ∈ points, Fits table point) ∨
      ∃ before values after, points = before ++ .positional values :: after ∧
        (∀ point ∈ before, Fits table point) ∧ values.length ≠ table.dimensions := by
  induction points with
  | nil => exact .inl (List.forall_mem_nil _)
  | cons point points ih =>
    by_cases hpoint : Fits table point
    · rcases ih with h | ⟨before, values, after, rfl, hbefore, h⟩
      · exact .inl (List.forall_mem_cons.mpr ⟨hpoint, h⟩)
      · exact .inr ⟨point :: before, values, after, rfl,
          List.forall_mem_cons.mpr ⟨hpoint, hbefore⟩, h⟩
    · cases point with
      | named components => exact absurd trivial hpoint
      | positional values => exact .inr ⟨[], values, points, rfl, List.forall_mem_nil _, hpoint⟩

/-! ### Merging -/

/-- What did not fail is carried on with. -/
theorem require_ok_bind {α β : Type} (value : α) (next : α → Running β) :
    require (.ok value) >>= next = next value := rfl

/-- Taking the results of a batch in turn is looking up every point alone. -/
theorem printValues_eq (verbose : Bool) {queries : List (String × Point)}
    (h : ∀ query ∈ queries, Fits table query.2) :
    printValues table verbose queries
        ((coordinates (queries.map Prod.snd)).map table.interpolate)
      = printAlone table verbose queries := by
  induction queries with
  | nil => rfl
  | cons query queries ih =>
    obtain ⟨text, point⟩ := query
    rw [List.forall_mem_cons] at h
    obtain ⟨hpoint, h⟩ := h
    cases point with
    | named components =>
      rw [printAlone, ← ih h]
      rfl
    | positional values =>
      -- This point has put its value at the front of the batch, in front of those of the rest.
      rw [printAlone, ← ih h, answer_of_fits hpoint]
      rfl

/-- The first text that is no point is reported. -/
theorem queryPoints_of_fault {before after : List String} {text : String} {read : List Point}
    {fault : PointFault} (hbefore : Reads before read)
    (h : Point.read text.toList = .error fault) :
    (queryPoints table (before ++ text :: after) verbose).run printed
      = (.error (.point fault), printed) := by
  have hpoints : (before ++ text :: after).mapM
      (fun text => (Point.read text.toList).mapError CommandError.point)
        = .error (.point fault) := by
    refine mapM_of_error (exists_of_forall₂ (hbefore.imp fun _ _ hread => ?_)) ?_
    · rw [hread]
      rfl
    · rw [h]
      rfl
  rw [queryPoints, hpoints]
  rfl

/-- Once all texts are read, what is printed depends on the points. -/
theorem queryPoints_of_reads (h : Reads texts points) :
    queryPoints table texts verbose = (do
      let packed ← require (packPoints table points)
      let batch ← require ((table.getAllParallel packed).mapError .table)
      printValues table verbose (texts.zip points) batch) := by
  have hpoints : texts.mapM (fun text => (Point.read text.toList).mapError CommandError.point)
      = .ok points := by
    refine mapM_of_forall₂ (h.imp fun _ _ hread => ?_)
    rw [hread]
    rfl
  rw [queryPoints, hpoints]
  rfl

/-- **Merging.**  A query whose points all fit looks up every point alone. -/
theorem queryPoints_eq_printAlone (h : Reads texts points)
    (hfits : ∀ point ∈ points, Fits table point) :
    queryPoints table texts verbose = printAlone table verbose (texts.zip points) := by
  -- The batch is that of the points that are printed, because there are as many texts as points.
  have hsnd : (texts.zip points).map Prod.snd = points := List.map_snd_zip h.length_eq.ge
  have hzip : ∀ query ∈ texts.zip points, Fits table query.2 := fun query hquery =>
    hfits _ (List.of_mem_zip hquery).2
  have hmerged := printValues_eq verbose hzip
  rw [hsnd] at hmerged
  rw [queryPoints_of_reads h, packPoints_of_fits hfits, require_ok_bind,
    table.getAllParallel_flatten (length_of_mem_coordinates hfits), ← hmerged]
  rfl

/-! ### What a query leads to -/

/-- The first point with too many or too few values is reported before anything is printed. -/
theorem queryPoints_of_length {before after : List Point}
    (h : Reads texts (before ++ .positional values :: after))
    (hbefore : ∀ point ∈ before, Fits table point) (hlength : values.length ≠ table.dimensions) :
    (queryPoints table texts verbose).run printed
      = (.error (.pointLength values.length table.dimensions table.names), printed) := by
  rw [queryPoints_of_reads h, packPoints_of_not_fits hbefore hlength]
  rfl

/-- Points that are answered have their lines printed. -/
theorem queryPoints_of_answers (h : Reads texts points) (hfits : ∀ point ∈ points, Fits table point)
    (hanswers : Answers table points values) :
    (queryPoints table texts verbose).run printed
      = (.ok (), printed ++ transcript verbose (texts.zip values)) := by
  have hall : (printAlone table verbose (texts.zip points ++ [])).run printed = _ :=
    printAlone_append h.length_eq hanswers []
  rw [List.append_nil] at hall
  rw [queryPoints_eq_printAlone h hfits, hall]
  rfl

/-- The texts before the one that holds a point hold the points before it. -/
theorem exists_text {before after : List Point} {point : Point}
    (h : Reads texts (before ++ point :: after)) :
    ∃ earlier text later, texts = earlier ++ text :: later ∧ Reads earlier before := by
  obtain ⟨text, later, -, -, hlater⟩ :=
    List.forall₂_cons_right_iff.mp (List.forall₂_drop_append _ _ _ h)
  refine ⟨texts.take before.length, text, later, ?_, List.forall₂_take_append _ _ _ h⟩
  rw [← hlater, List.take_append_drop]

/-- The first point whose names are refused comes after the lines of those before it. -/
theorem queryPoints_of_error (verbose : Bool) (printed : String) {before after : List Point}
    {point : Point} {error : TableError Float} (h : Reads texts (before ++ point :: after))
    (hfits : ∀ other ∈ before ++ point :: after, Fits table other)
    (hbefore : Answers table before values) (herror : answer table point = .error error) :
    ∃ earlier text later, texts = earlier ++ text :: later ∧ Reads earlier before ∧
      (queryPoints table texts verbose).run printed
        = (.error (.pointNames text error),
          printed ++ transcript verbose (earlier.zip values)) := by
  obtain ⟨earlier, text, later, rfl, hearlier⟩ := exists_text h
  refine ⟨earlier, text, later, rfl, hearlier, ?_⟩
  rw [queryPoints_eq_printAlone h hfits, List.zip_append hearlier.length_eq, List.zip_cons_cons,
    printAlone_append hearlier.length_eq hbefore, printAlone_cons_error herror]

/-- There is a result for every point. -/
theorem queryPoints_ne_missingResult (table : NamedTable Float) (texts : List String)
    (verbose : Bool) (printed : String) :
    ((queryPoints table texts verbose).run printed).1 ≠ .error .missingResult := by
  intro hmissing
  -- One after the other: a text that is no point, a point of a wrong length, a point that is
  -- refused, or answers to all of them.
  rcases forall₂_or_error (fun text : String => Point.read text.toList) texts with
    ⟨points, h⟩ | ⟨before, text, after, read, fault, rfl, hbefore, hfault⟩
  · rcases fits_or_length table points with hfits | ⟨before, values, after, rfl, hbefore, hlength⟩
    · rcases forall₂_or_error (answer table) points with
        ⟨values, hanswers⟩ | ⟨before, point, after, values, error, rfl, hbefore, herror⟩
      · rw [queryPoints_of_answers h hfits hanswers] at hmissing
        cases hmissing
      · obtain ⟨earlier, text, later, -, -, houtcome⟩ :=
          queryPoints_of_error verbose printed h hfits hbefore herror
        rw [houtcome] at hmissing
        cases hmissing
    · rw [queryPoints_of_length h hbefore hlength] at hmissing
      cases hmissing
  · rw [queryPoints_of_fault hbefore hfault] at hmissing
    cases hmissing

/-- **Queries.**  A query finds its table first.  It is then refused for the first text that is no
    point, else for the first point of a wrong length, and nothing is printed.  Otherwise it prints
    one line for each text in turn, with the value at the point that the text holds.  It stops at
    the first point whose names are refused, after the lines of all points before it.  Results are
    never missing, and each can be read from what is printed for it. -/
theorem queryPoints_outcome (table : NamedTable Float) (texts : List String) (verbose : Bool)
    (printed : String) :
    (∀ arithmetic files path argument, findTable arithmetic files argument path = .ok table →
      runQuery arithmetic files path argument texts verbose = queryPoints table texts verbose) ∧
    (∀ before text after read fault, texts = before ++ text :: after → Reads before read →
      Point.read text.toList = .error fault →
      (queryPoints table texts verbose).run printed = (.error (.point fault), printed)) ∧
    (∀ points, Reads texts points →
      (∀ before values after, points = before ++ .positional values :: after →
        (∀ point ∈ before, Fits table point) → values.length ≠ table.dimensions →
        (queryPoints table texts verbose).run printed
          = (.error (.pointLength values.length table.dimensions table.names), printed)) ∧
      ((∀ point ∈ points, Fits table point) →
        (∀ values, Answers table points values →
          (queryPoints table texts verbose).run printed
            = (.ok (), printed ++ transcript verbose (texts.zip values))) ∧
        ∀ before point after values error, points = before ++ point :: after →
          Answers table before values → answer table point = .error error →
          (∃ components, point = .named components) ∧
          ∃ earlier text later, texts = earlier ++ text :: later ∧ Reads earlier before ∧
            (queryPoints table texts verbose).run printed
              = (.error (.pointNames text error),
                printed ++ transcript verbose (earlier.zip values)))) ∧
    ((queryPoints table texts verbose).run printed).1 ≠ .error .missingResult ∧
    ∀ value : Float, readNumber (NumberFormat.plain.write value).toList = .ok value := by
  refine ⟨fun arithmetic files path argument h => ?_, ?_,
    fun points h => ⟨?_, fun hfits => ⟨?_, ?_⟩⟩,
    queryPoints_ne_missingResult table texts verbose printed, NumberFormat.readNumber_plain⟩
  · rw [runQuery, h, require_ok_bind]
  · rintro before text after read fault rfl hbefore hfault
    exact queryPoints_of_fault hbefore hfault
  · rintro before values after rfl hbefore hlength
    exact queryPoints_of_length h hbefore hlength
  · exact fun values hanswers => queryPoints_of_answers h hfits hanswers
  · rintro before point after values error rfl hbefore herror
    have hpoint : Fits table point := hfits point (List.mem_append_right _ List.mem_cons_self)
    exact ⟨exists_named_of_error hpoint herror,
      queryPoints_of_error verbose printed h hfits hbefore herror⟩

/-- Points of both kinds, with and without their texts; names that are refused between them; a point
    of a wrong length behind such names; and a text that is no point behind both. -/
theorem queryPoints_outcome_speckled :
    let table := NamedTable.ofTable Table.speckled
    (queryPoints table ["0.25,2.5", "dim1=2.5,dim0=0.25"] true).run ""
        = (.ok (), "0.25,2.5 -> 2.25\ndim1=2.5,dim0=0.25 -> 2.25\n") ∧
      (queryPoints table ["0.25,2.5", "dim1=2.5,dim0=0.25"] false).run ""
        = (.ok (), "2.25\n2.25\n") ∧
      (queryPoints table ["dim1=2.5,dim0=0.25", "height=1", "0.25,2.5"] true).run ""
        = (.error (.pointNames "height=1" (.unknownAxis "height")),
          "dim1=2.5,dim0=0.25 -> 2.25\n") ∧
      (queryPoints table ["height=1", "0.5"] true).run ""
        = (.error (.pointLength 1 2 ["dim0", "dim1"]), "") ∧
      (queryPoints table ["height=1", "0.5", "4,x"] true).run ""
        = (.error (.point (.badValue "x" .malformed)), "") := by
  intro table
  have hpositional : Point.read "0.25,2.5".toList = .ok (.positional [0.25, 2.5]) := by
    decide +kernel
  have hnamed : Point.read "dim1=2.5,dim0=0.25".toList
      = .ok (.named [("dim1", 2.5), ("dim0", 0.25)]) := by decide +kernel
  have hunknown : Point.read "height=1".toList = .ok (.named [("height", 1.0)]) := by
    decide +kernel
  have hshort : Point.read "0.5".toList = .ok (.positional [0.5]) := by decide +kernel
  have hmalformed : Point.read "4,x".toList = .error (.badValue "x" .malformed) := by
    decide +kernel
  have hnames : table.names = ["dim0", "dim1"] := by decide +kernel
  have hfits : Fits table (.positional [0.25, 2.5]) := rfl
  have hvalue : table.interpolate [0.25, 2.5] = 2.25 := by decide +kernel
  have hanswer : answer table (.positional [0.25, 2.5]) = .ok 2.25 :=
    (answer_of_fits hfits).trans (congrArg Except.ok hvalue)
  have hswapped : answer table (.named [("dim1", 2.5), ("dim0", 0.25)]) = .ok 2.25 :=
    (NamedTable.getNamed_of_perm rfl (by rw [hnames]; exact List.Perm.swap ..)).trans hanswer
  -- The first component has no axis, and nothing stands before it.
  have hheight : table.FirstUnknown [("height", 1.0)] "height" :=
    ⟨by rw [hnames]; decide, [], 1.0, [], rfl, table.placeable_nil⟩
  have hrefused : answer table (.named [("height", 1.0)]) = .error (.unknownAxis "height") :=
    NamedTable.getNamed_of_firstUnknown hheight
  obtain ⟨-, -, hstopped, -⟩ :=
    queryPoints_outcome table ["dim1=2.5,dim0=0.25", "height=1", "0.25,2.5"] true ""
  obtain ⟨-, -, hlength, -⟩ := queryPoints_outcome table ["height=1", "0.5"] true ""
  obtain ⟨-, hfault, -⟩ := queryPoints_outcome table ["height=1", "0.5", "4,x"] true ""
  -- Two points that are answered leave two lines, with their texts or without.
  have hanswered (verbose : Bool) :
      (queryPoints table ["0.25,2.5", "dim1=2.5,dim0=0.25"] verbose).run "" = (.ok (), "" ++
        transcript verbose [("0.25,2.5", 2.25), ("dim1=2.5,dim0=0.25", 2.25)]) := by
    obtain ⟨-, -, hanswered, -⟩ :=
      queryPoints_outcome table ["0.25,2.5", "dim1=2.5,dim0=0.25"] verbose ""
    obtain ⟨-, hfitting⟩ := hanswered _ (.cons hpositional (.cons hnamed .nil))
    obtain ⟨hall, -⟩ := hfitting
      (List.forall_mem_cons.mpr ⟨hfits, List.forall_mem_singleton.mpr trivial⟩)
    exact hall [2.25, 2.25] (.cons hanswer (.cons hswapped .nil))
  refine ⟨?_, ?_, ?_, ?_, ?_⟩
  · have hlines : "" ++ transcript true [("0.25,2.5", 2.25), ("dim1=2.5,dim0=0.25", 2.25)]
        = "0.25,2.5 -> 2.25\ndim1=2.5,dim0=0.25 -> 2.25\n" := by decide +kernel
    rw [hanswered, hlines]
  · have hlines : "" ++ transcript false [("0.25,2.5", 2.25), ("dim1=2.5,dim0=0.25", 2.25)]
        = "2.25\n2.25\n" := by decide +kernel
    rw [hanswered, hlines]
  · have hreads : Reads ["dim1=2.5,dim0=0.25", "height=1", "0.25,2.5"] _ :=
      .cons hnamed (.cons hunknown (.cons hpositional .nil))
    obtain ⟨-, hfitting⟩ := hstopped _ hreads
    obtain ⟨-, hrefusal⟩ := hfitting (List.forall_mem_cons.mpr
      ⟨trivial, List.forall_mem_cons.mpr ⟨trivial, List.forall_mem_singleton.mpr hfits⟩⟩)
    obtain ⟨-, earlier, text, later, htexts, hearlier, houtcome⟩ :=
      hrefusal [_] _ [_] [2.25] _ rfl (.cons hswapped .nil) hrefused
    -- One text stands before the refused one, so it is the first.
    have hsingle : earlier.length = 1 := hearlier.length_eq
    obtain ⟨first, rfl⟩ := List.length_eq_one_iff.mp hsingle
    obtain ⟨rfl, rfl, -⟩ : "dim1=2.5,dim0=0.25" = first ∧ "height=1" = text ∧ _ := by
      simpa using htexts
    have hlines : "" ++ transcript true [("dim1=2.5,dim0=0.25", 2.25)]
        = "dim1=2.5,dim0=0.25 -> 2.25\n" := by decide +kernel
    rw [← hlines]
    exact houtcome
  · have hreads : Reads ["height=1", "0.5"] _ := .cons hunknown (.cons hshort .nil)
    obtain ⟨hwrong, -⟩ := hlength _ hreads
    have houtcome := hwrong [_] [0.5] [] rfl (List.forall_mem_singleton.mpr trivial) (by decide)
    rw [hnames] at houtcome
    exact houtcome
  · exact hfault ["height=1", "0.5"] "4,x" [] _ _ rfl (.cons hunknown (.cons hshort .nil))
      hmalformed

end Command

end GridLookup
