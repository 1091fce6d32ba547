import GridLookup.Proofs.Block
import GridLookup.Proofs.Cell
import GridLookup.Proofs.Image
import GridLookup.Proofs.Source

namespace GridLookup

/-!
# What decoding reads

Reading a table takes the image of a table off the front of a source, and every image is read
back.

* `Layout.readTable_eq_ok_iff`, `Layout.readValues_eq_ok_iff` — the actions a table is read by.
* `Layout.readTable_sound` — what has been read is an image of the result.
* `Layout.readTable_complete` — an image is read, whatever follows it.
* `Layout.decodeFrom_sound`, `Layout.decodeAll_sound`, `Layout.decodeAll_complete` — the same
  for named tables.
-/

namespace Layout

variable {layout : Layout} {arithmetic : Arithmetic} {total : Option Nat} {source rest : Source}

/-! ### Axis vectors -/

/-- An axis is read from its length and as many words. -/
theorem readAxis_sound {index : Nat} {words : Array Word}
    (h : layout.readAxis total index source = .ok (words, rest)) :
    ∃ length : Word, layout.lengthWord.number length = words.size ∧
      source.Passed (length.bytes layout.byteOrder ++ Word.writeAll layout.byteOrder words.toList)
        rest := by
  unfold readAxis at h
  obtain ⟨count, middle, hlength, h⟩ := Reading.bind_eq_ok_iff.mp h
  obtain ⟨length, hcounts, hpassed⟩ := readLengthWord_sound hlength
  rw [Reading.get_bind] at h
  split at h
  · -- The stream is known to end too early, which is an error.
    obtain ⟨_, _, hthrow, -⟩ := Reading.bind_eq_ok_iff.mp h
    cases hthrow
  · obtain ⟨hsize, hwords⟩ := readVector_sound h
    exact ⟨length, by rw [hcounts, hsize], hpassed.trans hwords⟩

/-- Axes are read from their image, in the order of the stream. -/
theorem readAxes_sound {stream : List Nat} {vectors : Vectors}
    (h : layout.readAxes total stream source = .ok (vectors, rest)) :
    vectors.map Prod.fst = stream ∧
      ∃ bytes, layout.AxisImage vectors bytes ∧ source.Passed bytes rest := by
  induction stream generalizing source vectors with
  | nil =>
    cases h
    exact ⟨rfl, [], .nil, Source.Passed.refl _⟩
  | cons index stream ih =>
    obtain ⟨words, middle, hwords, h⟩ := Reading.bind_eq_ok_iff.mp h
    obtain ⟨others, middle', hothers, h⟩ := Reading.bind_eq_ok_iff.mp h
    cases h
    obtain ⟨length, hcounts, hpassed⟩ := readAxis_sound hwords
    obtain ⟨hstream, bytes, himage, hrest⟩ := ih hothers
    exact ⟨by rw [List.map_cons, hstream], _, .cons hcounts himage, hpassed.trans hrest⟩

/-- A vector is read if the stream is not known to end before it does. -/
theorem readAxis_complete {index : Nat} {words : Array Word} {length : Word} {tail : List UInt8}
    (hcounts : layout.lengthWord.number length = words.size)
    (hbytes : source.bytes = length.bytes layout.byteOrder
      ++ Word.writeAll layout.byteOrder words.toList ++ tail)
    (hends : ∀ known, total = some known → source.position + source.bytes.length ≤ known) :
    ∃ rest, layout.readAxis total index source = .ok (words, rest) ∧
      source.Passed (length.bytes layout.byteOrder ++ Word.writeAll layout.byteOrder words.toList)
        rest := by
  rw [List.append_assoc] at hbytes
  obtain ⟨middle, hlength, hpassed⟩ :=
    readLengthWord_complete (layout.nameAt index) hcounts hbytes
  obtain ⟨rest, hwords, hpassed'⟩ :=
    readVector_complete (layout.nameAt index) (hpassed.rest_eq hbytes)
  refine ⟨rest, ?_, hpassed.trans hpassed'⟩
  unfold readAxis
  rw [Reading.bind_of_ok hlength, Reading.get_bind, if_neg]
  · rwa [Array.length_toList, Array.toArray_toList] at hwords
  · -- A stream that is known to end too early could not hold the words.
    intro hany
    obtain ⟨known, hknown, hbeyond⟩ := Option.any_eq_true .. |>.mp hany
    have hends := hends known hknown
    have hposition := hpassed.position_eq
    have hsize : words.toList.length = words.size := Array.length_toList
    rw [decide_eq_true_eq] at hbeyond
    rw [hbytes, List.length_append, List.length_append, Word.length_writeAll] at hends
    omega

/-- From an image of axes these are read, and the source is left behind them. -/
theorem readAxes_complete (total : Option Nat) {vectors : Vectors} {bytes tail : List UInt8}
    (himage : layout.AxisImage vectors bytes) (hbytes : source.bytes = bytes ++ tail)
    (hends : ∀ known, total = some known → source.position + source.bytes.length ≤ known) :
    ∃ rest, layout.readAxes total (vectors.map Prod.fst) source = .ok (vectors, rest) ∧
      source.Passed bytes rest := by
  induction himage generalizing source with
  | nil => exact ⟨source, rfl, Source.Passed.refl _⟩
  | cons counts _ ih =>
    rw [List.append_assoc] at hbytes
    obtain ⟨middle, hread, hpassed⟩ := readAxis_complete counts hbytes hends
    -- What is known of the length holds for the rest too, since reading moves the position as far
    -- as it shortens the bytes.
    have hends' : ∀ known, total = some known → middle.position + middle.bytes.length ≤ known := by
      intro known hknown
      have hposition := hpassed.position_eq
      have hlength := congrArg List.length hpassed.bytes_eq
      rw [List.length_append] at hlength
      have := hends known hknown
      omega
    obtain ⟨rest, hrest, hpassed'⟩ := ih (hpassed.rest_eq hbytes) hends'
    refine ⟨rest, ?_, hpassed.trans hpassed'⟩
    rw [List.map_cons, readAxes, Reading.bind_of_ok hread, Reading.bind_of_ok hrest]
    rfl

/-! ### Trailing vectors -/

/-- Trailing vectors are skipped as their image. -/
theorem skipTrailers_sound {trailers : List Trailer} {index : Nat}
    (h : layout.skipTrailers arithmetic trailers index source = .ok ((), rest)) :
    ∃ bytes, layout.TrailerImage arithmetic trailers bytes ∧ source.Passed bytes rest := by
  induction trailers generalizing source index with
  | nil =>
    cases h
    exact ⟨[], .nil, Source.Passed.refl _⟩
  | cons trailer trailers ih =>
    unfold skipTrailers at h
    cases hfixed : trailer.count with
    | some count =>
      -- A fixed count takes no byte of the source.
      rw [hfixed] at h
      obtain ⟨_, _, hcount, h⟩ := Reading.bind_eq_ok_iff.mp h
      cases hcount
      obtain ⟨⟨⟩, middle, hskip, h⟩ := Reading.bind_eq_ok_iff.mp h
      obtain ⟨skipped, hsize, hskipped⟩ := skipVector_sound hskip
      obtain ⟨bytes, himage, hrest⟩ := ih h
      exact ⟨_, .fixed hfixed hsize himage, hskipped.trans hrest⟩
    | none =>
      rw [hfixed] at h
      obtain ⟨count, middle, hcount, h⟩ := Reading.bind_eq_ok_iff.mp h
      obtain ⟨length, hcounts, hpassed⟩ := readLengthWord_sound hcount
      obtain ⟨⟨⟩, middle', hskip, h⟩ := Reading.bind_eq_ok_iff.mp h
      obtain ⟨skipped, hsize, hskipped⟩ := skipVector_sound hskip
      obtain ⟨bytes, himage, hrest⟩ := ih h
      exact ⟨_, .counted hfixed hcounts hsize himage, (hpassed.trans hskipped).trans hrest⟩

/-- An image of trailing vectors is skipped. -/
theorem skipTrailers_complete (index : Nat) {trailers : List Trailer} {bytes tail : List UInt8}
    (himage : layout.TrailerImage arithmetic trailers bytes)
    (hbytes : source.bytes = bytes ++ tail) :
    ∃ rest, layout.skipTrailers arithmetic trailers index source = .ok ((), rest) ∧
      source.Passed bytes rest := by
  -- One case for each kind of trailing vector: of fixed length, and with its length in front.
  induction himage generalizing source index with
  | nil => exact ⟨source, rfl, Source.Passed.refl _⟩
  | fixed fixed size _ ih =>
    rw [List.append_assoc] at hbytes
    obtain ⟨middle, hskip, hpassed⟩ :=
      skipVector_complete s!"trailing vector {index}" size hbytes
    obtain ⟨rest, hrest, hpassed'⟩ := ih (index + 1) (hpassed.rest_eq hbytes)
    refine ⟨rest, ?_, hpassed.trans hpassed'⟩
    unfold skipTrailers
    rw [fixed, ← hrest]
    exact (Reading.bind_of_ok rfl).trans (Reading.bind_of_ok hskip)
  | counted unfixed counts size _ ih =>
    rw [List.append_assoc, List.append_assoc] at hbytes
    obtain ⟨middle, hlength, hpassed⟩ :=
      readLengthWord_complete s!"trailing vector {index}" counts hbytes
    have hmiddle := hpassed.rest_eq hbytes
    obtain ⟨middle', hskip, hpassed'⟩ :=
      skipVector_complete s!"trailing vector {index}" size hmiddle
    obtain ⟨rest, hrest, hpassed''⟩ := ih (index + 1) (hpassed'.rest_eq hmiddle)
    refine ⟨rest, ?_, (hpassed.trans hpassed').trans hpassed''⟩
    unfold skipTrailers
    rw [unfixed, ← hrest]
    exact (Reading.bind_of_ok hlength).trans (Reading.bind_of_ok hskip)

/-! ### Tables -/

/-- The values are counted as the cells of the shape, as long as a word can count them. -/
theorem countValues_eq_ok_iff {shape : List Nat} {count : Nat} :
    layout.countValues shape = .ok count ↔ Shape.cells shape = count ∧ count < 1 <<< 64 := by
  unfold countValues
  dsimp only
  split <;> simp <;> omega

/-- A block passes if its end fits a 64-bit position and the stream is not known to end before. -/
theorem checkBlock_eq_ok_iff {position count : Nat} :
    layout.checkBlock total position count = .ok () ↔
      position + 4 * count < 1 <<< 64 ∧
        ∀ known, total = some known → position + 4 * count ≤ known := by
  unfold checkBlock
  dsimp only
  split
  · cases total with
    | none => simpa
    | some known =>
      dsimp only
      split <;> simp <;> omega
  · cases total <;> simp <;> omega

/-- Rewriting the failures changes nothing about success. -/
theorem mapError_eq_ok_iff {ε ε' α : Type} {f : ε → ε'} {outcome : Except ε α} {a : α} :
    outcome.mapError f = .ok a ↔ outcome = .ok a := by
  cases outcome <;> simp [Except.mapError]

/-- What has succeeded in front of the values: the layout is consistent, its vectors have been
    read, they make up axes, and the cells over these can be counted. -/
structure Front (layout : Layout) (total : Option Nat) (arrangement : Arrangement)
    (vectors : Vectors) (axes : List (Axis Float)) (source middle : Source) : Prop where
  /-- The layout is consistent. -/
  arranged : layout.arrangement = .ok arrangement
  /-- The vectors of the stored axes have been read. -/
  vectors_read : layout.readAxes total arrangement.stream source = .ok (vectors, middle)
  /-- The vectors and the supplied nodes make up the axes. -/
  axes_made : entryAxes vectors layout.axes 0 = .ok axes
  /-- A 64-bit word holds the number of cells. -/
  counted : Shape.cells (axes.map Axis.size) < 1 <<< 64

/-- Ends the reading of a table.  No byte of a stream of known length may be left over. -/
def finishTable (total : Option Nat) (axes : List (Axis Float)) (values : Array Float) :
    Reading (Table Float) := do
  let position := (← get).position
  match total with
  | some total => if position = total then pure () else throw (.lengthMismatch position total)
  | none => pure ()
  (Table.build values axes).mapError StoreError.table

/-- Reads the values over given axes, and what follows them. -/
def readValues (layout : Layout) (arithmetic : Arithmetic) (total : Option Nat)
    (arrangement : Arrangement) (axes : List (Axis Float)) : Reading (Table Float) := do
  let shape := axes.map Axis.size
  layout.checkBlock total (← get).position (Shape.cells shape)
  let block ← readVector layout.byteOrder "value block" (Shape.cells shape)
  layout.skipTrailers arithmetic layout.trailers 0
  finishTable total axes (unnest (layout.nesting arrangement shape) block)

/-- Behind the axes a table is read from its values on. -/
theorem Front.readTable_eq {arrangement : Arrangement} {vectors : Vectors}
    {axes : List (Axis Float)} {middle : Source}
    (front : layout.Front total arrangement vectors axes source middle) :
    layout.readTable arithmetic total source
      = layout.readValues arithmetic total arrangement axes middle := by
  have hcount : layout.countValues (axes.map Axis.size) = .ok _ :=
    countValues_eq_ok_iff.mpr ⟨rfl, front.counted⟩
  unfold readTable
  rw [Reading.lift_bind_of_ok (mapError_eq_ok_iff.mpr front.arranged),
    Reading.bind_of_ok front.vectors_read, Reading.lift_bind_of_ok front.axes_made]
  dsimp only
  rw [Reading.lift_bind_of_ok hcount]
  rfl

/-- A table is read in two steps: what stands in front of the values, and the values. -/
theorem readTable_eq_ok_iff {table : Table Float} :
    layout.readTable arithmetic total source = .ok (table, rest) ↔
      ∃ arrangement vectors axes middle,
        layout.Front total arrangement vectors axes source middle ∧
        layout.readValues arithmetic total arrangement axes middle = .ok (table, rest) := by
  constructor
  · intro h
    have hparts := h
    unfold readTable at hparts
    obtain ⟨arrangement, harrangement, hparts⟩ := Reading.lift_bind_eq_ok_iff.mp hparts
    obtain ⟨vectors, middle, hvectors, hparts⟩ := Reading.bind_eq_ok_iff.mp hparts
    obtain ⟨axes, haxes, hparts⟩ := Reading.lift_bind_eq_ok_iff.mp hparts
    obtain ⟨count, hcount, -⟩ := Reading.lift_bind_eq_ok_iff.mp hparts
    obtain ⟨rfl, hcounted⟩ := countValues_eq_ok_iff.mp hcount
    have front : layout.Front total arrangement vectors axes source middle :=
      ⟨mapError_eq_ok_iff.mp harrangement, hvectors, haxes, hcounted⟩
    exact ⟨arrangement, vectors, axes, middle, front, front.readTable_eq.symm.trans h⟩
  · rintro ⟨arrangement, vectors, axes, middle, front, h⟩
    rw [front.readTable_eq, h]

/-- A table is finished where the known end is. -/
theorem finishTable_eq_ok_iff {axes : List (Axis Float)} {values : Array Float}
    {table : Table Float} :
    finishTable total axes values source = .ok (table, rest) ↔
      (∀ known, total = some known → source.position = known) ∧
        (table.axes = axes ∧ table.values = values) ∧ source = rest := by
  have hbuild : (liftM ((Table.build values axes).mapError StoreError.table) :
      Reading (Table Float)) source = .ok (table, rest) ↔
        (table.axes = axes ∧ table.values = values) ∧ source = rest := by
    rw [Reading.lift_eq_ok_iff, mapError_eq_ok_iff, Table.build_eq_ok_iff]
  unfold finishTable
  rw [Reading.get_bind, ← hbuild]
  -- A known length is compared with the position before the table is built.
  cases total with
  | none => simp
  | some known =>
    dsimp only
    split
    · next hend => simp [hend]
    · next hend =>
      constructor
      · intro h
        obtain ⟨_, _, hthrow, -⟩ := Reading.bind_eq_ok_iff.mp h
        cases hthrow
      · rintro ⟨hknown, -⟩
        exact absurd (hknown known rfl) hend

/-- A known length that is not used up is named in the error. -/
theorem finishTable_of_ne {known : Nat} (axes : List (Axis Float)) (values : Array Float)
    (h : source.position ≠ known) :
    finishTable (some known) axes values source
      = .error (.lengthMismatch source.position known) := by
  unfold finishTable
  rw [Reading.get_bind]
  dsimp only
  rw [if_neg h]
  rfl

/-- When the values and the trailing vectors have been read, the table is finished. -/
theorem readValues_of_parts {arrangement : Arrangement} {axes : List (Axis Float)}
    {block : Array Word} {middle : Source}
    (hcheck : layout.checkBlock total source.position (Shape.cells (axes.map Axis.size)) = .ok ())
    (hblock : readVector layout.byteOrder "value block" (Shape.cells (axes.map Axis.size)) source
      = .ok (block, middle))
    (htrailers : layout.skipTrailers arithmetic layout.trailers 0 middle = .ok ((), rest)) :
    layout.readValues arithmetic total arrangement axes source
      = finishTable total axes (unnest (layout.nesting arrangement (axes.map Axis.size)) block)
        rest := by
  unfold readValues
  rw [Reading.get_bind, Reading.lift_bind_of_ok hcheck, Reading.bind_of_ok hblock,
    Reading.bind_of_ok htrailers]

/-- Values are read if their block may be there, it and the trailing vectors are read, and a
    known length is used up. -/
theorem readValues_eq_ok_iff {arrangement : Arrangement} {axes : List (Axis Float)}
    {table : Table Float} :
    layout.readValues arithmetic total arrangement axes source = .ok (table, rest) ↔
      layout.checkBlock total source.position (Shape.cells (axes.map Axis.size)) = .ok () ∧
      ∃ block middle,
        readVector layout.byteOrder "value block" (Shape.cells (axes.map Axis.size)) source
          = .ok (block, middle) ∧
        layout.skipTrailers arithmetic layout.trailers 0 middle = .ok ((), rest) ∧
        (∀ known, total = some known → rest.position = known) ∧ table.axes = axes ∧
        table.values = unnest (layout.nesting arrangement (axes.map Axis.size)) block := by
  -- The steps of the program, one after the other, and back.
  constructor
  · intro h
    obtain ⟨⟨⟩, hcheck, h⟩ := Reading.lift_bind_eq_ok_iff.mp (Reading.get_bind.symm.trans h)
    obtain ⟨block, middle, hblock, h⟩ := Reading.bind_eq_ok_iff.mp h
    obtain ⟨⟨⟩, rest', htrailers, h⟩ := Reading.bind_eq_ok_iff.mp h
    obtain ⟨hend, ⟨haxes, hvalues⟩, rfl⟩ := finishTable_eq_ok_iff.mp h
    exact ⟨hcheck, block, middle, hblock, htrailers, hend, haxes, hvalues⟩
  · rintro ⟨hcheck, block, middle, hblock, htrailers, hend, haxes, hvalues⟩
    rw [readValues_of_parts hcheck hblock htrailers]
    exact finishTable_eq_ok_iff.mpr ⟨hend, ⟨haxes, hvalues⟩, rfl⟩

/-- What has been read in front of the values and after it is the image of the table. -/
theorem Front.sound {arrangement : Arrangement} {vectors : Vectors} {axes : List (Axis Float)}
    {middle : Source} {table : Table Float}
    (front : layout.Front total arrangement vectors axes source middle)
    (h : layout.readValues arithmetic total arrangement axes middle = .ok (table, rest)) :
    ∃ block bytes, layout.Image arithmetic arrangement vectors block table bytes ∧
      source.Passed bytes rest ∧ ∀ known, total = some known → rest.position = known := by
  -- What has succeeded as a whole has succeeded at every action.
  obtain ⟨-, block, middle', hblock, htrailers, hend, rfl, hvalues⟩ := readValues_eq_ok_iff.mp h
  obtain ⟨hstream, bytes, hvectors, hpassed⟩ := readAxes_sound front.vectors_read
  obtain ⟨hsize, hpassed'⟩ := readVector_sound hblock
  obtain ⟨back, hback, hpassed''⟩ := skipTrailers_sound htrailers
  refine ⟨block, _, ?_, (hpassed.trans hpassed').trans hpassed'', hend⟩
  exact ⟨front.arranged, hstream, front.axes_made, hsize, hvalues, bytes, back, hvectors, hback,
    rfl⟩

/-- **Reading is sound.**  A table that has been read stood in front of the source, and no byte
    of a stream of known length is left over. -/
theorem readTable_sound {table : Table Float}
    (h : layout.readTable arithmetic total source = .ok (table, rest)) :
    ∃ arrangement vectors block bytes,
      layout.Image arithmetic arrangement vectors block table bytes ∧
      source.Passed bytes rest ∧ ∀ known, total = some known → rest.position = known := by
  obtain ⟨arrangement, vectors, axes, middle, front, h⟩ := readTable_eq_ok_iff.mp h
  exact ⟨arrangement, vectors, front.sound h⟩

/-- **Reading is complete.**  The image of a table is read, whatever follows it; if the stream
    is known to end, it ends with the image. -/
theorem readTable_complete (total : Option Nat) {arrangement : Arrangement} {vectors : Vectors}
    {block : Array Word} {table : Table Float} {bytes tail : List UInt8}
    (image : layout.Image arithmetic arrangement vectors block table bytes)
    (hbytes : source.bytes = bytes ++ tail) (hfits : source.position + bytes.length < 1 <<< 64)
    (hends : ∀ known, total = some known → tail = [] ∧ source.position + bytes.length = known) :
    ∃ rest, layout.readTable arithmetic total source = .ok (table, rest) ∧
      source.Passed bytes rest := by
  obtain ⟨harrangement, hstream, haxes, hcomplete, hvalues, hparts⟩ := image
  obtain ⟨front, back, hfront, hback, rfl⟩ := hparts
  have hbytes' := hbytes
  rw [List.append_assoc, List.append_assoc] at hbytes
  have hknown : ∀ known, total = some known → source.position + source.bytes.length ≤ known := by
    intro known hknown
    obtain ⟨htail, hlength⟩ := hends known hknown
    rw [hbytes', htail, List.append_nil]
    exact hlength.le
  -- The three parts are read one after the other.
  obtain ⟨middle, hvectors, hpassed⟩ := readAxes_complete total hfront hbytes hknown
  have hmiddle := hpassed.rest_eq hbytes
  obtain ⟨middle', hblock, hpassed'⟩ := readVector_complete "value block" hmiddle
  have hmiddle' := hpassed'.rest_eq hmiddle
  obtain ⟨middle'', htrailers, hpassed''⟩ := skipTrailers_complete 0 hback hmiddle'
  have hpassed_all := (hpassed.trans hpassed').trans hpassed''
  refine ⟨middle'', ?_, hpassed_all⟩
  have hsize : block.toList.length = Shape.cells table.shape := by
    rw [Array.length_toList, hcomplete]
  rw [hsize, Array.toArray_toList] at hblock
  rw [List.length_append, List.length_append, Word.length_writeAll, hsize] at hfits
  -- Between them the counts are checked, which are those of the image.
  have hposition := hpassed.position_eq
  have hcheck : layout.checkBlock total middle.position (Shape.cells table.shape) = .ok () := by
    refine checkBlock_eq_ok_iff.mpr ⟨by omega, fun known hknown => ?_⟩
    obtain ⟨-, hlength⟩ := hends known hknown
    rw [List.length_append, List.length_append, Word.length_writeAll, hsize] at hlength
    omega
  -- So every action succeeds, and so does their sequence.
  rw [hstream] at hvectors
  have hcounted : Shape.cells table.shape < 1 <<< 64 := by omega
  refine readTable_eq_ok_iff.mpr ⟨arrangement, vectors, table.axes, middle,
    ⟨harrangement, hvectors, haxes, hcounted⟩, ?_⟩
  refine readValues_eq_ok_iff.mpr ⟨hcheck, block, middle', hblock, htrailers, ?_, rfl, hvalues⟩
  intro known hknown
  rw [hpassed_all.position_eq]
  exact (hends known hknown).2

/-! ### Named tables -/

/-- A table is named after the axes of the layout. -/
theorem nameTable_eq_ok_iff {table : Table Float} {named : NamedTable Float} :
    layout.nameTable table = .ok named ↔
      named.toTable = table ∧ named.names = layout.axisNames := by
  unfold nameTable NamedTable.ofNames
  rw [mapError_eq_ok_iff]
  constructor
  · intro h
    split at h
    · split at h
      · cases h
      · cases h
        exact ⟨rfl, rfl⟩
    · cases h
  · -- Both tests succeed since the named table proves what they check.
    rintro ⟨rfl, hnames⟩
    rw [dif_pos (by rw [← hnames]; exact named.names_length)]
    split
    · next name hrepeated =>
      rw [← hnames, named.names_distinct] at hrepeated
      cases hrepeated
    · cases named
      cases hnames
      rfl

/-- A table over the axes of a consistent layout takes its names. -/
theorem exists_nameTable {arrangement : Arrangement} {table : Table Float}
    (harrangement : layout.arrangement = .ok arrangement)
    (haxes : table.axes.length = layout.axes.length) :
    ∃ named, layout.nameTable table = .ok named := by
  have hlength : layout.axisNames.length = table.dimensions := by
    unfold axisNames Table.dimensions
    rw [List.length_map, haxes]
  have hdistinct := (firstRepeated?_eq_none_iff layout.axisNames).mpr (axisNames_nodup harrangement)
  exact ⟨⟨table, layout.axisNames, hlength, hdistinct⟩, nameTable_eq_ok_iff.mpr ⟨rfl, rfl⟩⟩

/-- A table with names is a table that was read and then named. -/
theorem decodeFrom_eq_ok_iff {named : NamedTable Float} :
    layout.decodeFrom arithmetic source = .ok (named, rest) ↔
      ∃ table, layout.readTable arithmetic none source = .ok (table, rest) ∧
        layout.nameTable table = .ok named := by
  constructor
  · intro h
    obtain ⟨⟨table, rest'⟩, hread, h⟩ := bind_eq_ok_iff.mp h
    obtain ⟨named', hnamed, h⟩ := bind_eq_ok_iff.mp h
    cases h
    exact ⟨table, hread, hnamed⟩
  · rintro ⟨table, hread, hnamed⟩
    exact bind_eq_ok_iff.mpr ⟨_, hread, bind_eq_ok_iff.mpr ⟨_, hnamed, rfl⟩⟩

/-- **What is decoded was there.**  The bytes passed are an image of the table. -/
theorem decodeFrom_sound {named : NamedTable Float}
    (h : layout.decodeFrom arithmetic source = .ok (named, rest)) :
    named.names = layout.axisNames ∧ ∃ arrangement vectors block bytes,
      layout.Image arithmetic arrangement vectors block named.toTable bytes ∧
        source.Passed bytes rest := by
  obtain ⟨table, hread, hnamed⟩ := decodeFrom_eq_ok_iff.mp h
  obtain ⟨rfl, hnames⟩ := nameTable_eq_ok_iff.mp hnamed
  obtain ⟨arrangement, vectors, block, bytes, himage, hpassed, -⟩ := readTable_sound hread
  exact ⟨hnames, arrangement, vectors, block, bytes, himage, hpassed⟩

/-- **Decoding is sound.**  A decoded byte string is the image of its table, from its first
    byte to its last. -/
theorem decodeAll_sound {bytes : List UInt8} {named : NamedTable Float}
    (h : layout.decodeAll arithmetic bytes = .ok named) :
    named.names = layout.axisNames ∧ ∃ arrangement vectors block,
      layout.Image arithmetic arrangement vectors block named.toTable bytes := by
  obtain ⟨⟨table, rest⟩, hread, hnamed⟩ := bind_eq_ok_iff.mp h
  obtain ⟨rfl, hnames⟩ := nameTable_eq_ok_iff.mp hnamed
  obtain ⟨arrangement, vectors, block, passed, himage, hpassed, hend⟩ := readTable_sound hread
  -- As many bytes have been passed as there are.
  obtain rfl : passed = bytes := hpassed.eq_of_position (hend _ rfl)
  exact ⟨hnames, arrangement, vectors, block, himage⟩

/-- **Decoding is complete.**  The image of a table is decoded to that table. -/
theorem decodeAll_complete {arrangement : Arrangement} {vectors : Vectors} {block : Array Word}
    {table : Table Float} {bytes : List UInt8}
    (image : layout.Image arithmetic arrangement vectors block table bytes)
    (hfits : bytes.length < 1 <<< 64) :
    ∃ named, layout.decodeAll arithmetic bytes = .ok named ∧ named.toTable = table ∧
      named.names = layout.axisNames := by
  obtain ⟨named, hnamed⟩ := exists_nameTable image.arranged (entryAxes_eq_ok_iff.mp image.axes).1
  have hsource : (Source.ofBytes bytes).bytes = bytes ++ [] := by
    rw [Source.bytes_ofBytes, List.append_nil]
  have hstart : (Source.ofBytes bytes).position + bytes.length = bytes.length := Nat.zero_add _
  obtain ⟨rest, hread, -⟩ := readTable_complete (some bytes.length) image hsource
    (by rwa [hstart]) (by rintro _ ⟨⟩; exact ⟨rfl, hstart⟩)
  refine ⟨named, ?_, nameTable_eq_ok_iff.mp hnamed⟩
  unfold decodeAll
  rw [hread]
  exact hnamed

end Layout

end GridLookup
