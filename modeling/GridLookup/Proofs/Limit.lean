import GridLookup.Proofs.Encoding
import GridLookup.Proofs.Extent
import GridLookup.Proofs.RoundTrip

namespace GridLookup

/-!
# Sinks with limits

A sink that refuses further bytes has accepted the words that fit, from the first one on.  What
it is given does not depend on it: only a layout that is refused leaves it untouched, and every
other run writes the same bytes up to the same fault, or up to the limit.

* `Piece.reach`, `Piece.verdict` — the bytes in front of the first length that no word holds, and
  how writing ends there.
* `Sink.writeAll_of_unlimited`, `Sink.writeAll_of_limit` — what any sink has accepted in the end.
* `Layout.Describes` — the tables that a layout writes.
* `Layout.encodedSize` — how long they are then.
* `Layout.encodeTo_prefix_or_nothing` — all of this for a whole table.
-/

/-! ### Pieces up to the first fault -/

namespace Piece

/-- The bytes of the pieces in front of the first length that no word holds. -/
def reach (order : ByteOrder) : List Piece → List UInt8
  | [] => []
  | run word copies :: pieces => (run word copies).bytes order ++ reach order pieces
  | badLength _ _ :: _ => []

/-- How writing ends where nothing else stops it. -/
def verdict : List Piece → Except StoreError Unit
  | [] => .ok ()
  | run _ _ :: pieces => verdict pieces
  | badLength vector length :: _ => .error (.invalidLength vector length)

/-- Copies of a word take four bytes each. -/
theorem length_bytes_run (order : ByteOrder) (word : Word) (copies : Nat) :
    ((run word copies).bytes order).length = 4 * copies := by
  simp [bytes, Word.length_bytes, Nat.mul_comm]

/-- A run that is cut behind some of its copies is a shorter run. -/
theorem take_bytes_run (order : ByteOrder) (word : Word) {accepted copies : Nat}
    (h : accepted ≤ copies) :
    ((run word copies).bytes order).take (4 * accepted) = (run word accepted).bytes order := by
  obtain ⟨more, rfl⟩ := Nat.exists_eq_add_of_le h
  have hsplit : (run word (accepted + more)).bytes order
      = (run word accepted).bytes order ++ (run word more).bytes order := by
    rw [bytes, List.replicate_add, List.flatten_append]
    rfl
  rw [hsplit, List.take_left' (length_bytes_run order word accepted)]

/-- Pieces are accepted exactly if each of them can be written. -/
theorem verdict_eq_ok_iff {pieces : List Piece} :
    verdict pieces = .ok () ↔ ∀ piece ∈ pieces, piece.Writable := by
  induction pieces with
  | nil => simp [verdict]
  | cons piece pieces ih =>
    cases piece with
    | run word copies => simp [verdict, ih]
    | badLength vector length => simp [verdict]

/-- Where every piece can be written, all of them are reached. -/
theorem reach_of_writable {order : ByteOrder} {pieces : List Piece}
    (h : ∀ piece ∈ pieces, piece.Writable) : reach order pieces = pieces.flatMap (bytes order) := by
  induction pieces with
  | nil => rfl
  | cons piece pieces ih =>
    rw [List.forall_mem_cons] at h
    cases piece with
    | run word copies => rw [reach, ih h.2, List.flatMap_cons]
    | badLength vector length => exact absurd h.1 (not_writable_badLength vector length)

/-- Pieces are no reason to refuse a layout. -/
theorem verdict_ne_layout (pieces : List Piece) (fault : LayoutFault) :
    verdict pieces ≠ .error (.layout fault) := by
  induction pieces with
  | nil => exact nofun
  | cons piece pieces ih =>
    cases piece with
    | run word copies => exact ih
    | badLength vector length => exact nofun

end Piece

namespace Sink

variable {order : ByteOrder} {pieces : List Piece} {written : Array UInt8}

/-! ### What sinks accept -/

/-- What is appended to the output are the bytes of the run. -/
theorem toList_append (order : ByteOrder) (word : Word) (copies : Nat) (written : Array UInt8) :
    (append order word copies written).toList
      = written.toList ++ (Piece.run word copies).bytes order := by
  rw [append_eq, Array.toList_appendList]
  rfl

/-- A sink without a limit accepts whatever is reached. -/
theorem writeAll_of_unlimited :
    (writeAll order pieces ⟨written, none⟩).1.written.toList
        = written.toList ++ Piece.reach order pieces ∧
      (writeAll order pieces ⟨written, none⟩).2 = Piece.verdict pieces := by
  induction pieces generalizing written with
  | nil => exact ⟨(List.append_nil _).symm, rfl⟩
  | cons piece pieces ih =>
    cases piece with
    | run word copies =>
      obtain ⟨hwritten, hverdict⟩ := @ih (append order word copies written)
      refine ⟨?_, hverdict⟩
      rw [toList_append, List.append_assoc] at hwritten
      exact hwritten
    | badLength vector length => exact ⟨(List.append_nil _).symm, rfl⟩

/-- **Limits.**  A sink with a limit accepts the words of this that fit.  If all of them do, writing
    ends as without a limit, and otherwise with the failure of the sink. -/
theorem writeAll_of_limit {room : Nat} {reason : String} :
    (writeAll order pieces ⟨written, some ⟨room, reason⟩⟩).1.written.toList
        = written.toList ++ (Piece.reach order pieces).take (4 * (room / 4)) ∧
      (writeAll order pieces ⟨written, some ⟨room, reason⟩⟩).2
        = if (Piece.reach order pieces).length ≤ room then Piece.verdict pieces
          else .error (.file (.failing reason)) := by
  -- What has been written and the room left change with every piece, so both are arbitrary.
  induction pieces generalizing written room with
  | nil => exact ⟨by simp [writeAll, Piece.reach], by simp [writeAll, Piece.reach, Piece.verdict]⟩
  | cons piece pieces ih =>
    cases piece with
    | badLength vector length =>
      exact ⟨by simp [writeAll, write, Piece.reach],
        by simp [writeAll, write, Piece.reach, Piece.verdict]⟩
    | run word copies =>
      have hsize := Piece.length_bytes_run order word copies
      rw [writeAll, write, writeRun]
      dsimp only
      rw [Piece.reach, List.take_append, List.length_append, hsize]
      by_cases hfits : copies ≤ room / 4
      · -- All copies are accepted, and the pieces behind them get the room that is left.
        have hall : min copies (room / 4) = copies := Nat.min_eq_left hfits
        have hleft : 4 * ((room - 4 * copies) / 4) = 4 * (room / 4) - 4 * copies := by omega
        have hroom : (Piece.reach order pieces).length ≤ room - 4 * copies
            ↔ 4 * copies + (Piece.reach order pieces).length ≤ room := by omega
        have hwhole : ((Piece.run word copies).bytes order).take (4 * (room / 4))
            = (Piece.run word copies).bytes order := List.take_of_length_le (by omega)
        obtain ⟨hwritten, hend⟩ := @ih (append order word copies written) (room - 4 * copies)
        rw [hall, if_neg (Nat.lt_irrefl _)]
        dsimp only
        rw [hwritten, hend, hleft, toList_append, List.append_assoc, hwhole]
        refine ⟨rfl, ?_⟩
        simp only [hroom, Piece.verdict]
      · have hsome : min copies (room / 4) = room / 4 := Nat.min_eq_right (by omega)
        rw [hsome, if_pos (by omega), if_neg (by omega)]
        dsimp only
        rw [toList_append, Piece.take_bytes_run order word (by omega),
          show 4 * (room / 4) - 4 * copies = 0 by omega, List.take_zero, List.append_nil]
        exact ⟨rfl, rfl⟩

/-- Whatever a sink accepts, pieces are no reason to refuse a layout. -/
theorem writeAll_ne_layout (sink : Sink) (fault : LayoutFault) :
    (writeAll order pieces sink).2 ≠ .error (.layout fault) := by
  obtain ⟨written, _ | ⟨room, reason⟩⟩ := sink
  · rw [writeAll_of_unlimited.2]
    exact Piece.verdict_ne_layout pieces fault
  · rw [writeAll_of_limit.2]
    split
    · exact Piece.verdict_ne_layout pieces fault
    · exact nofun

end Sink

namespace Layout

variable {layout : Layout} {table : Table Float}

/-! ### Tables that are written -/

/-- The layout describes the table, and its length words can count the nodes. -/
structure Describes (layout : Layout) (table : Table Float) : Prop where
  /-- The layout is accepted. -/
  accepted : layout.check = .ok ()
  /-- There are as many axes. -/
  dimensions : table.axes.length = layout.axes.length
  /-- Supplied axes have the nodes of the layout. -/
  supplied : ∀ pair ∈ layout.axes.zip table.axes, ∀ values, pair.1.values = some values →
    (values == pair.2.nodes.toList) = true
  /-- Stored axes can be counted. -/
  counted : ∀ pair ∈ layout.axes.zip table.axes, pair.1.values = none →
    pair.2.size ≤ layout.lengthWord.greatest

/-- How many bytes are written for a table: a length word and the nodes for each stored axis, the
    values, and for each trailing vector as many words as are fixed, or its length word. -/
def encodedSize (layout : Layout) (table : Table Float) : Nat :=
  4 * (layout.frontWords table.shape + table.values.size
    + (layout.trailers.map fun trailer => trailer.count.getD 1).sum)

/-- A length can be written up to the greatest of its kind. -/
theorem writable_lengthPiece_iff {vector : String} {count : Nat} :
    (layout.lengthPiece vector count).Writable ↔ count ≤ layout.lengthWord.greatest := by
  unfold lengthPiece LengthWord.encode?
  by_cases h : count ≤ layout.lengthWord.greatest
  · rw [if_pos h]
    exact ⟨fun _ => h, fun _ => Piece.writable_run _ _⟩
  · rw [if_neg h]
    exact ⟨fun hbad => absurd hbad (Piece.not_writable_badLength _ _), fun hle => absurd hle h⟩

/-- The vector of an axis can be written if its nodes can be counted. -/
theorem writable_vectorPieces_iff {entry : AxisEntry} {axis : Axis Float} :
    (∀ piece ∈ layout.vectorPieces entry axis, piece.Writable) ↔
      axis.size ≤ layout.lengthWord.greatest := by
  have hnodes : ∀ piece ∈ axis.nodes.toList.map fun node => Piece.run (storedNode entry node) 1,
      piece.Writable := by
    rw [List.forall_mem_map]
    exact fun _ _ => Piece.writable_run _ _
  unfold vectorPieces
  rw [List.forall_mem_cons, writable_lengthPiece_iff]
  exact and_iff_left hnodes

/-- Trailing vectors can always be written; those with a length word are empty. -/
theorem writable_trailerPieces (trailers : List Trailer) (index : Nat) :
    ∀ piece ∈ layout.trailerPieces trailers index, piece.Writable := by
  induction trailers generalizing index with
  | nil => exact nofun
  | cons trailer trailers ih =>
    rw [trailerPieces, List.forall_mem_cons]
    refine ⟨?_, ih (index + 1)⟩
    cases trailer.count with
    | some count => exact Piece.writable_run _ _
    | none => exact writable_lengthPiece_iff.mpr (Nat.zero_le _)

/-- Vectors can be written if the nodes of all stored axes can be counted. -/
theorem writable_axisPieces_iff {arrangement : Arrangement}
    (harrangement : layout.arrangement = .ok arrangement)
    (hlength : table.axes.length = layout.axes.length) :
    (∀ piece ∈ layout.axisPieces table arrangement.stream, piece.Writable) ↔
      ∀ pair ∈ layout.axes.zip table.axes, pair.1.values = none →
        pair.2.size ≤ layout.lengthWord.greatest := by
  unfold axisPieces
  rw [List.forall_mem_flatMap]
  -- A stored axis is one of the stream, found at its index among the entries and the axes.
  constructor
  · intro h pair hpair hstored
    obtain ⟨index, hindex⟩ := List.mem_iff_getElem?.mp hpair
    obtain ⟨hentry, haxis⟩ := List.getElem?_zip_eq_some.mp hindex
    obtain ⟨hlt, -⟩ := List.getElem?_eq_some_iff.mp hentry
    have hmem : index ∈ arrangement.stream := by
      rw [mem_stream_iff harrangement, isStoredAt, hentry]
      exact ⟨hlt, Option.isNone_iff_eq_none.mpr hstored⟩
    have hvector := h index hmem
    rw [hentry, haxis] at hvector
    exact writable_vectorPieces_iff.mp hvector
  · intro h index hindex
    obtain ⟨hlt, hstored⟩ := (mem_stream_iff harrangement).mp hindex
    have hentry := List.getElem?_eq_getElem hlt
    have haxis := List.getElem?_eq_getElem (hlength ▸ hlt : index < table.axes.length)
    rw [isStoredAt, hentry] at hstored
    rw [hentry, haxis]
    refine writable_vectorPieces_iff.mpr (h (_, _) ?_ (Option.isNone_iff_eq_none.mp hstored))
    exact List.mem_of_getElem? (List.getElem?_zip_eq_some.mpr ⟨hentry, haxis⟩)

/-- All pieces of a table can be written if the nodes of its stored axes can be counted. -/
theorem writable_pieces_iff {arrangement : Arrangement}
    (harrangement : layout.arrangement = .ok arrangement)
    (hlength : table.axes.length = layout.axes.length) :
    (∀ piece ∈ layout.pieces arrangement table, piece.Writable) ↔
      ∀ pair ∈ layout.axes.zip table.axes, pair.1.values = none →
        pair.2.size ≤ layout.lengthWord.greatest := by
  have hvalues : ∀ piece ∈ valuePieces (layout.nesting arrangement table.shape) table,
      piece.Writable := by
    unfold valuePieces
    rw [List.forall_mem_map]
    exact fun _ _ => Piece.writable_run _ _
  unfold pieces
  rw [List.forall_mem_append, List.forall_mem_append, writable_axisPieces_iff harrangement hlength]
  exact ⟨fun h => h.1.1, fun h => ⟨⟨h, hvalues⟩, writable_trailerPieces _ _⟩⟩

/-- **Tables that are written** are those that the layout describes. -/
theorem describes_iff : layout.Describes table ↔ ∃ arrangement,
    layout.arrangementFor table = .ok arrangement ∧
      ∀ piece ∈ layout.pieces arrangement table, piece.Writable := by
  -- Both sides ask for the same four things, those of the layout itself under one name.
  constructor
  · rintro ⟨haccepted, hdimensions, hsupplied, hcounted⟩
    unfold check at haccepted
    cases harrangement : layout.arrangement with
    | error fault =>
      rw [harrangement] at haccepted
      cases haccepted
    | ok arrangement =>
      exact ⟨arrangement,
        arrangementFor_eq_ok_iff.mpr
          ⟨harrangement, hdimensions, checkSupplied_eq_ok_iff.mpr hsupplied⟩,
        (writable_pieces_iff harrangement hdimensions).mpr hcounted⟩
  · rintro ⟨arrangement, h, hwritable⟩
    obtain ⟨harrangement, hdimensions, hsupplied⟩ := arrangementFor_eq_ok_iff.mp h
    refine ⟨?_, hdimensions, checkSupplied_eq_ok_iff.mp hsupplied,
      (writable_pieces_iff harrangement hdimensions).mp hwritable⟩
    unfold check
    rw [harrangement]
    rfl

/-! ### Sizes -/

/-- The axes take the bytes in front. -/
theorem length_axisPieces {arrangement : Arrangement}
    (harrangement : layout.arrangement = .ok arrangement)
    (hlength : table.axes.length = layout.axes.length)
    (h : ∀ piece ∈ layout.axisPieces table arrangement.stream, piece.Writable) :
    ((layout.axisPieces table arrangement.stream).flatMap (Piece.bytes layout.byteOrder)).length
      = layout.frontSize table.shape := by
  have hlt : ∀ index ∈ arrangement.stream,
      index < layout.axes.length ∧ index < table.axes.length := by
    intro index hindex
    have hlt := ((mem_stream_iff harrangement).mp hindex).1
    exact ⟨hlt, hlength ▸ hlt⟩
  -- The vector of an axis has a word for each node.
  have hsizes : ((layout.storedVectors table arrangement.stream).map fun vector =>
        1 + vector.2.size)
      = arrangement.stream.map fun index => 1 + table.shape.getD index 0 := by
    unfold storedVectors
    rw [List.map_map]
    refine List.map_congr_left fun index hindex => ?_
    obtain ⟨hentry, haxis⟩ := hlt index hindex
    have haxis' := List.getElem?_eq_getElem haxis
    rw [Function.comp_apply, storedVector_eq (List.getElem?_eq_getElem hentry) haxis',
      Array.size_map, Table.shape, List.getD_eq_getElem?_getD, List.getElem?_map, haxis',
      Option.map_some, Option.getD_some, Axis.size]
  rw [(axisImage_axisPieces hlt h).length_eq, hsizes, frontSize, frontWords,
    ((stream_perm harrangement).map _).sum_eq]

/-- A trailing vector takes a word for its length or one for each of its values. -/
theorem length_trailerPieces (trailers : List Trailer) (index : Nat) :
    ((layout.trailerPieces trailers index).flatMap (Piece.bytes layout.byteOrder)).length
      = 4 * (trailers.map fun trailer => trailer.count.getD 1).sum := by
  induction trailers generalizing index with
  | nil => rfl
  | cons trailer trailers ih =>
    rw [trailerPieces, List.flatMap_cons, List.length_append, ih, List.map_cons, List.sum_cons,
      Nat.mul_add]
    -- A trailing vector without a fixed count is written as its length, which is zero.
    congr 1
    cases trailer.count with
    | some count => exact Piece.length_bytes_run ..
    | none =>
      have hwritable : (layout.lengthPiece s!"trailing vector {index}" 0).Writable :=
        writable_lengthPiece_iff.mpr (Nat.zero_le _)
      obtain ⟨length, -, hbytes⟩ := exists_of_writable_lengthPiece hwritable
      dsimp only
      rw [hbytes, Word.length_bytes, Option.getD_none]

/-- The bytes of all pieces. -/
theorem length_pieces {arrangement : Arrangement}
    (h : layout.arrangementFor table = .ok arrangement)
    (hwritable : ∀ piece ∈ layout.pieces arrangement table, piece.Writable) :
    ((layout.pieces arrangement table).flatMap (Piece.bytes layout.byteOrder)).length
      = layout.encodedSize table := by
  obtain ⟨harrangement, hlength, -⟩ := arrangementFor_eq_ok_iff.mp h
  have hblock : (storedBlock (layout.nesting arrangement table.shape) table).toList.length
      = table.values.size := by
    rw [Array.length_toList, storedBlock_size, table.values_size_eq]
    rfl
  unfold pieces at hwritable ⊢
  rw [List.forall_mem_append, List.forall_mem_append] at hwritable
  rw [List.flatMap_append, List.flatMap_append, bytes_valuePieces, List.length_append,
    List.length_append, Word.length_writeAll, hblock,
    length_axisPieces harrangement hlength hwritable.1.1, length_trailerPieces, frontSize,
    encodedSize]
  omega

/-! ### Whole tables -/

/-- What the sinks of a run without and with a limit have accepted. -/
theorem encodeTo_of_limit (room : Nat) (reason : String) :
    (layout.encodeTo table (.failingAfter room reason)).1.written.toList
        = (layout.encodeTo table .unlimited).1.written.toList.take (4 * (room / 4)) ∧
      (layout.encodeTo table (.failingAfter room reason)).2
        = if (layout.encodeTo table .unlimited).1.written.size ≤ room
          then (layout.encodeTo table .unlimited).2 else .error (.file (.failing reason)) := by
  unfold encodeTo
  -- A table of another layout is refused before anything is written, with or without a limit.
  cases layout.arrangementFor table with
  | error fault => exact ⟨by simp [Sink.failingAfter, Sink.unlimited], by simp [Sink.unlimited]⟩
  | ok arrangement =>
    dsimp only
    obtain ⟨hwhole, hverdict⟩ := @Sink.writeAll_of_unlimited layout.byteOrder
      (layout.pieces arrangement table) #[]
    obtain ⟨hpart, hend⟩ := @Sink.writeAll_of_limit layout.byteOrder
      (layout.pieces arrangement table) #[] room reason
    rw [List.nil_append] at hwhole hpart
    rw [← Array.length_toList]
    unfold Sink.unlimited Sink.failingAfter
    rw [hwhole, hpart, hend, hverdict]
    exact ⟨rfl, rfl⟩

/-- A refused layout leaves every sink as it was. -/
theorem encodeTo_of_layout {sink : Sink} {fault : LayoutFault}
    (h : (layout.encodeTo table sink).2 = .error (.layout fault)) :
    (layout.encodeTo table sink).1 = sink := by
  unfold encodeTo at h ⊢
  cases harrangement : layout.arrangementFor table with
  | error fault' => rfl
  | ok arrangement =>
    -- Once pieces are written, what goes wrong is not the layout.
    rw [harrangement] at h
    exact absurd h (Sink.writeAll_ne_layout sink fault)

/-- With room for all of it, a table is encoded exactly if the layout describes it. -/
theorem encodeTo_unlimited_iff :
    (layout.encodeTo table .unlimited).2 = .ok () ↔ layout.Describes table := by
  rw [describes_iff]
  unfold encodeTo
  cases layout.arrangementFor table with
  | error fault => exact ⟨nofun, nofun⟩
  | ok arrangement =>
    dsimp only [Sink.unlimited]
    rw [Sink.writeAll_of_unlimited.2, Piece.verdict_eq_ok_iff]
    constructor
    · intro h
      exact ⟨arrangement, rfl, h⟩
    · rintro ⟨_, ⟨⟩, h⟩
      exact h

/-- A table takes as many bytes as the layout says. -/
theorem size_encodeTo (h : layout.Describes table) :
    (layout.encodeTo table .unlimited).1.written.size = layout.encodedSize table := by
  obtain ⟨arrangement, harrangement, hwritable⟩ := describes_iff.mp h
  unfold encodeTo
  rw [harrangement]
  dsimp only [Sink.unlimited]
  rw [← Array.length_toList, Sink.writeAll_of_unlimited.1, Piece.reach_of_writable hwritable,
    List.nil_append]
  exact length_pieces harrangement hwritable

/-- **All or a front part.**  A sink without a limit is given a whole table exactly if the layout
    describes it, and this many bytes then.  A refused layout leaves every sink as it was.  A sink
    with a limit accepts the words that fit of what one without is given, whether that is a whole
    table or ends at a length that no word holds; writing ends alike if all of it fits, and
    otherwise with the failure of the sink. -/
theorem encodeTo_prefix_or_nothing (layout : Layout) (table : Table Float) :
    ((layout.encodeTo table .unlimited).2 = .ok () ↔ layout.Describes table) ∧
    (layout.Describes table →
      (layout.encodeTo table .unlimited).1.written.size = layout.encodedSize table) ∧
    (∀ sink fault, (layout.encodeTo table sink).2 = .error (.layout fault) →
      (layout.encodeTo table sink).1 = sink) ∧
    ∀ room reason,
      (layout.encodeTo table (.failingAfter room reason)).1.written.toList
          = (layout.encodeTo table .unlimited).1.written.toList.take (4 * (room / 4)) ∧
        (layout.encodeTo table (.failingAfter room reason)).2
          = if (layout.encodeTo table .unlimited).1.written.size ≤ room
            then (layout.encodeTo table .unlimited).2 else .error (.file (.failing reason)) :=
  ⟨encodeTo_unlimited_iff, size_encodeTo, fun _ _ => encodeTo_of_layout, encodeTo_of_limit⟩

/-- Room for twelve words and a half, room for a whole table, and a layout of other tables. -/
theorem encodeTo_prefix_or_nothing_turned :
    turned.Describes turnedTable ∧
      (turned.encodeTo turnedTable .unlimited).1.written.size = 92 ∧
      (turned.encodeTo turnedTable (.failingAfter 50 "full")).1.written.toList.length = 48 ∧
      (turned.encodeTo turnedTable (.failingAfter 50 "full")).2
        = .error (.file (.failing "full")) ∧
      (turned.encodeTo turnedTable (.failingAfter 92 "full")).2 = .ok () ∧
      (plain.encodeTo turnedTable (.failingAfter 50 "full")).2
        = .error (.layout (.axisCount "plain" 1 4)) ∧
      (plain.encodeTo turnedTable (.failingAfter 50 "full")).1 = .failingAfter 50 "full" := by
  obtain ⟨hwhole, hsize, -, hlimit⟩ := encodeTo_prefix_or_nothing turned turnedTable
  obtain ⟨-, -, hrefused, -⟩ := encodeTo_prefix_or_nothing plain turnedTable
  have hwritten : (turned.encodeTo turnedTable .unlimited).2.toOption.map (fun _ => ())
      = some () := by
    decide +kernel
  obtain ⟨⟨⟩, hok, -⟩ := exists_of_map_toOption hwritten
  have hdescribes := hwhole.mp hok
  have hsize : (turned.encodeTo turnedTable .unlimited).1.written.size = 92 := by
    rw [hsize hdescribes]
    decide +kernel
  obtain ⟨hpart, hfailed⟩ := hlimit 50 "full"
  obtain ⟨-, hend⟩ := hlimit 92 "full"
  rw [hsize] at hfailed hend
  have hother : (plain.encodeTo turnedTable (.failingAfter 50 "full")).2
      = .error (.layout (.axisCount "plain" 1 4)) := rfl
  refine ⟨hdescribes, hsize, ?_, hfailed, hend.trans hok, hother, hrefused _ _ hother⟩
  rw [hpart, List.length_take, Array.length_toList, hsize]
  rfl

end Layout

end GridLookup
