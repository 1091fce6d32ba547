import GridLookup.Proofs.Block
import GridLookup.Proofs.Image
import GridLookup.Proofs.Source
import GridLookup.Store.Writing

namespace GridLookup

/-!
# What encoding writes

A sink that accepts everything is given the bytes of all pieces, unless one of them is a length
that no word holds.  For a table these bytes form the vectors, the block and the trailing
vectors that its layout asks for.

* `Sink.writeAll_unlimited` — the bytes of a list of pieces.
* `Layout.encode_eq_ok_iff` — when a table is written, and as which bytes.
* `Layout.encode_parts` — the parts of these bytes.
-/

/-! ### Pieces -/

/-- The piece can be written; it is not a length that no word holds. -/
def Piece.Writable : Piece → Prop
  | .run _ _ => True
  | .badLength _ _ => False

@[simp] theorem Piece.writable_run (word : Word) (copies : Nat) : (run word copies).Writable :=
  True.intro

@[simp] theorem Piece.not_writable_badLength (vector : String) (length : Nat) :
    ¬ (badLength vector length).Writable := id

namespace Sink

/-- Copies of a word are appended one after the other. -/
theorem append_eq (order : ByteOrder) (word : Word) (copies : Nat) (written : Array UInt8) :
    append order word copies written
      = written ++ (List.replicate copies (word.bytes order)).flatten := by
  induction copies generalizing written with
  | zero => simp [append]
  | succ copies ih =>
    rw [append, ih, List.replicate_succ, List.flatten_cons]
    apply Array.toList_inj.mp
    simp

/-- Without a limit, writing appends the bytes of the pieces if all of them can be written. -/
theorem writeAll_unlimited {order : ByteOrder} {pieces : List Piece} {written : Array UInt8}
    {sink : Sink} :
    writeAll order pieces ⟨written, none⟩ = (sink, .ok ()) ↔
      (∀ piece ∈ pieces, piece.Writable) ∧
        sink = ⟨written ++ pieces.flatMap (Piece.bytes order), none⟩ := by
  -- By induction on the pieces, over whatever has been written before them.
  induction pieces generalizing written with
  | nil => simp [writeAll, eq_comm]
  | cons piece pieces ih =>
    cases piece with
    | run word copies =>
      have hwrite : write order (.run word copies) ⟨written, none⟩
          = (⟨append order word copies written, none⟩, .ok ()) := rfl
      have hbytes : append order word copies written ++ pieces.flatMap (Piece.bytes order)
          = written ++ (Piece.run word copies :: pieces).flatMap (Piece.bytes order) := by
        rw [append_eq, List.flatMap_cons, Piece.bytes]
        apply Array.toList_inj.mp
        simp
      rw [writeAll, hwrite]
      dsimp only
      rw [ih, hbytes, List.forall_mem_cons]
      simp only [Piece.writable_run, true_and]
    | badLength vector length => simp [writeAll, write]

end Sink

namespace Layout

variable {layout : Layout} {table : Table Float} {bytes : List UInt8}

/-- **Encoding** succeeds exactly if the layout describes the table and every length fits its
    word, and it yields the bytes of all pieces. -/
theorem encode_eq_ok_iff :
    layout.encode table = .ok bytes ↔ ∃ arrangement,
      layout.arrangementFor table = .ok arrangement ∧
      (∀ piece ∈ layout.pieces arrangement table, piece.Writable) ∧
      bytes = (layout.pieces arrangement table).flatMap (Piece.bytes layout.byteOrder) := by
  unfold encode encodeTo
  cases harrangement : layout.arrangementFor table with
  | error fault => simp
  | ok arrangement =>
    dsimp only
    match hwrite : Sink.unlimited.writeAll layout.byteOrder (layout.pieces arrangement table) with
    | (sink, .ok ()) =>
      obtain ⟨hwritable, hsink⟩ := Sink.writeAll_unlimited.mp hwrite
      rw [hsink]
      constructor
      · intro h
        cases h
        exact ⟨arrangement, rfl, hwritable, by simp⟩
      · rintro ⟨_, ⟨⟩, -, rfl⟩
        simp
    | (sink, .error error) =>
      -- Writable pieces would have been written.
      constructor
      · intro h
        cases h
      · rintro ⟨_, ⟨⟩, hwritable, -⟩
        cases hwrite.symm.trans (Sink.writeAll_unlimited.mpr ⟨hwritable, rfl⟩)

/-! ### Vectors -/

/-- A single word has its own bytes. -/
theorem bytes_run_one (order : ByteOrder) (word : Word) :
    (Piece.run word 1).bytes order = word.bytes order := List.append_nil _

/-- Words written one by one are written as a whole. -/
theorem flatMap_bytes_run (order : ByteOrder) (words : List Word) :
    (words.map fun word => Piece.run word 1).flatMap (Piece.bytes order)
      = Word.writeAll order words := by
  rw [List.flatMap_map]
  simp only [bytes_run_one]
  rfl

/-- A length that can be written is written as a word that counts it. -/
theorem exists_of_writable_lengthPiece {vector : String} {count : Nat}
    (h : (layout.lengthPiece vector count).Writable) :
    ∃ length : Word, layout.lengthWord.number length = count ∧
      (layout.lengthPiece vector count).bytes layout.byteOrder = length.bytes layout.byteOrder := by
  unfold lengthPiece at h ⊢
  cases hword : layout.lengthWord.encode? count with
  | none =>
    rw [hword] at h
    exact absurd h (Piece.not_writable_badLength vector count)
  | some word =>
    have hdecode := LengthWord.decode_of_encode? hword
    exact ⟨word, (LengthWord.decode_eq_ok_iff ..).mp hdecode, bytes_run_one _ word⟩

/-- The vector that is stored for the axis at an index. -/
def storedVector (layout : Layout) (table : Table Float) (index : Nat) : Array Word :=
  match layout.axes[index]?, table.axes[index]? with
  | some entry, some axis => axis.nodes.map (storedNode entry)
  | _, _ => #[]

/-- The vectors that are stored for the axes of a stream order. -/
def storedVectors (layout : Layout) (table : Table Float) (stream : List Nat) : Vectors :=
  stream.map fun index => (index, layout.storedVector table index)

/-- The vectors stored are those of the axes in the stream. -/
theorem map_fst_storedVectors (stream : List Nat) :
    (layout.storedVectors table stream).map Prod.fst = stream := by
  rw [storedVectors, List.map_map]
  exact List.map_id stream

/-- The vector stored for an axis has its nodes, narrowed. -/
theorem storedVector_eq {index : Nat} {entry : AxisEntry} {axis : Axis Float}
    (hentry : layout.axes[index]? = some entry) (haxis : table.axes[index]? = some axis) :
    layout.storedVector table index = axis.nodes.map (storedNode entry) := by
  unfold storedVector
  rw [hentry, haxis]

/-- A vector is written as its length and its words. -/
theorem bytes_vectorPieces {entry : AxisEntry} {axis : Axis Float}
    (h : ∀ piece ∈ layout.vectorPieces entry axis, piece.Writable) :
    ∃ length : Word, layout.lengthWord.number length = (axis.nodes.map (storedNode entry)).size ∧
      (layout.vectorPieces entry axis).flatMap (Piece.bytes layout.byteOrder)
        = length.bytes layout.byteOrder
          ++ Word.writeAll layout.byteOrder (axis.nodes.map (storedNode entry)).toList := by
  obtain ⟨length, hlength, hbytes⟩ := exists_of_writable_lengthPiece
    (h _ List.mem_cons_self : (layout.lengthPiece entry.name axis.size).Writable)
  refine ⟨length, by rw [hlength, Array.size_map, Axis.size], ?_⟩
  unfold vectorPieces
  rw [List.flatMap_cons, hbytes, Array.toList_map, ← flatMap_bytes_run, List.map_map]
  rfl

/-- The vectors of the axes are written one after the other. -/
theorem axisPieces_cons {index : Nat} {entry : AxisEntry} {axis : Axis Float}
    (hentry : layout.axes[index]? = some entry) (haxis : table.axes[index]? = some axis)
    (stream : List Nat) :
    layout.axisPieces table (index :: stream)
      = layout.vectorPieces entry axis ++ layout.axisPieces table stream := by
  unfold axisPieces
  rw [List.flatMap_cons, hentry, haxis]

/-- What is written for the stored axes is an image of their vectors. -/
theorem axisImage_axisPieces {stream : List Nat}
    (hstream : ∀ index ∈ stream, index < layout.axes.length ∧ index < table.axes.length)
    (h : ∀ piece ∈ layout.axisPieces table stream, piece.Writable) :
    layout.AxisImage (layout.storedVectors table stream)
      ((layout.axisPieces table stream).flatMap (Piece.bytes layout.byteOrder)) := by
  induction stream with
  | nil => exact .nil
  | cons index stream ih =>
    obtain ⟨hentry, haxis⟩ := hstream index List.mem_cons_self
    have hentry := List.getElem?_eq_getElem hentry
    have haxis := List.getElem?_eq_getElem haxis
    have hpieces := axisPieces_cons hentry haxis stream
    rw [hpieces, List.forall_mem_append] at h
    -- The pieces of one axis are its length and its words, and the others are an image by
    -- induction.
    obtain ⟨length, hlength, hbytes⟩ := bytes_vectorPieces h.1
    have hrest := ih (fun other hother => hstream other (List.mem_cons_of_mem _ hother)) h.2
    rw [← storedVector_eq hentry haxis] at hlength hbytes
    rw [hpieces, List.flatMap_append, hbytes]
    exact .cons hlength hrest

/-- What is written for the trailing vectors is an image of them, if its size fits a 64-bit
    word. -/
theorem trailerImage_trailerPieces (arithmetic : Arithmetic) {trailers : List Trailer} {index : Nat}
    (h : ∀ piece ∈ layout.trailerPieces trailers index, piece.Writable)
    (hfits : ((layout.trailerPieces trailers index).flatMap
      (Piece.bytes layout.byteOrder)).length < 1 <<< 64) :
    layout.TrailerImage arithmetic trailers
      ((layout.trailerPieces trailers index).flatMap (Piece.bytes layout.byteOrder)) := by
  induction trailers generalizing index with
  | nil => exact .nil
  | cons trailer trailers ih =>
    rw [trailerPieces, List.forall_mem_cons] at h
    rw [trailerPieces, List.flatMap_cons] at hfits ⊢
    rw [List.length_append] at hfits
    have hrest := ih h.2 (by omega)
    cases hcount : trailer.count with
    | some count =>
      rw [hcount] at hfits
      have hsize : ((Piece.run 0 count).bytes layout.byteOrder).length = 4 * count := by
        simp [Piece.bytes, Word.length_bytes, Nat.mul_comm]
      refine .fixed hcount ?_ hrest
      dsimp only at hfits ⊢
      rw [hsize] at hfits ⊢
      exact Arithmetic.size_of_lt (by omega)
    | none =>
      -- A counted vector is written empty: its length word says zero.
      rw [hcount] at h
      obtain ⟨length, hlength, hbytes⟩ := exists_of_writable_lengthPiece h.1
      have hsize : arithmetic.size 0 = .ok ([] : List UInt8).length := rfl
      have himage := TrailerImage.counted hcount hlength hsize hrest
      rw [List.append_nil] at himage
      dsimp only
      rw [hbytes]
      exact himage

/-! ### Tables -/

/-- The words that are stored for the values of a table. -/
def storedBlock (nesting : Nesting) (table : Table Float) : Array Word :=
  (Odometer.start nesting).cells.map fun cell => Word.narrow (table.value cell)

/-- The values are written as the stored block. -/
theorem bytes_valuePieces (nesting : Nesting) (table : Table Float) :
    (valuePieces nesting table).flatMap (Piece.bytes layout.byteOrder)
      = Word.writeAll layout.byteOrder (storedBlock nesting table).toList := by
  rw [← flatMap_bytes_run, storedBlock, Array.toList_map, List.map_map]
  rfl

/-- Axes outside the stream must have the nodes of the layout. -/
theorem checkSupplied_eq_ok_iff {pairs : List (AxisEntry × Axis Float)} :
    layout.checkSupplied pairs = .ok () ↔ ∀ pair ∈ pairs, ∀ values,
      pair.1.values = some values → (values == pair.2.nodes.toList) = true := by
  induction pairs with
  | nil => simp [checkSupplied]
  | cons pair pairs ih =>
    obtain ⟨entry, axis⟩ := pair
    rw [List.forall_mem_cons, ← ih, checkSupplied]
    cases entry.values with
    | none => simp
    | some values =>
      dsimp only
      split
      · next hsame => simp [hsame]
      · next hdiffers => simp [hdiffers]

/-- A table can be arranged if it has the axes of the layout, with the nodes supplied there. -/
theorem arrangementFor_eq_ok_iff {arrangement : Arrangement} :
    layout.arrangementFor table = .ok arrangement ↔
      layout.arrangement = .ok arrangement ∧ table.axes.length = layout.axes.length ∧
        layout.checkSupplied (layout.axes.zip table.axes) = .ok () := by
  unfold arrangementFor
  rw [bind_eq_ok_iff]
  constructor
  · rintro ⟨arrangement', harrangement, h⟩
    split at h
    · next hlength =>
      obtain ⟨⟨⟩, hsupplied, h⟩ := bind_eq_ok_iff.mp h
      cases h
      exact ⟨harrangement, hlength, hsupplied⟩
    · cases h
  · rintro ⟨harrangement, hlength, hsupplied⟩
    refine ⟨arrangement, harrangement, ?_⟩
    rw [if_pos (by exact hlength), hsupplied]
    rfl

/-- **The parts of encoded bytes.**  They are an image of the stored vectors, the narrowed
    values in the order of the nesting, and an image of the trailing vectors. -/
theorem encode_parts (arithmetic : Arithmetic) (h : layout.encode table = .ok bytes)
    (hfits : bytes.length < 1 <<< 64) :
    ∃ arrangement front back, layout.arrangement = .ok arrangement ∧
      table.axes.length = layout.axes.length ∧
      layout.checkSupplied (layout.axes.zip table.axes) = .ok () ∧
      layout.AxisImage (layout.storedVectors table arrangement.stream) front ∧
      layout.TrailerImage arithmetic layout.trailers back ∧
      bytes = front ++ Word.writeAll layout.byteOrder
        (storedBlock (layout.nesting arrangement table.shape) table).toList ++ back := by
  obtain ⟨arrangement, harrangement, hwritable, rfl⟩ := encode_eq_ok_iff.mp h
  obtain ⟨harrangement, hlength, hsupplied⟩ := arrangementFor_eq_ok_iff.mp harrangement
  -- The stream names axes of the layout, and the table has as many.
  have hstream : ∀ index ∈ arrangement.stream,
      index < layout.axes.length ∧ index < table.axes.length := by
    intro index hindex
    have hlt := ((mem_stream_iff harrangement).mp hindex).1
    exact ⟨hlt, hlength ▸ hlt⟩
  unfold pieces at hwritable hfits ⊢
  rw [List.forall_mem_append, List.forall_mem_append] at hwritable
  obtain ⟨⟨haxes, -⟩, htrailers⟩ := hwritable
  rw [List.flatMap_append, List.flatMap_append, bytes_valuePieces] at hfits ⊢
  rw [List.length_append] at hfits
  exact ⟨arrangement, _, _, harrangement, hlength, hsupplied, axisImage_axisPieces hstream haxes,
    trailerImage_trailerPieces arithmetic htrailers (by omega), rfl⟩

end Layout

end GridLookup
