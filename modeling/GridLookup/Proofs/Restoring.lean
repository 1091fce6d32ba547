import GridLookup.Proofs.Extent
import GridLookup.Proofs.RoundTrip
import GridLookup.Proofs.Single

namespace GridLookup

/-!
# Reading and writing back

A stored table that has been decoded is written back byte for byte, unless it holds what a table
does not keep: converted nodes, undefined values, or data in the trailing vectors.

* `Yield` — pieces that are written as given bytes.
* `Layout.valueWords` — the words of the values.
* `Layout.hasBlankTrailers` — trailing vectors without data.
* `Layout.AxisImage.yield`, `Layout.Image.storedBlock_eq`, `Layout.TrailerImage.yield` — each
  part is written back.
* `Layout.encode_decode` — so is the whole.
-/

/-! ### Pieces and their bytes -/

/-- A count is written as the word that stands for it. -/
theorem LengthWord.encode?_number {kind : LengthWord} {word : Word} {count : Nat}
    (h : kind.number word = count) : kind.encode? count = some word := by
  have hword := word.toNat_lt
  have hle : count ≤ kind.greatest ∧ count = word.toNat := by
    cases kind with
    | signed =>
      simp only [number, greatest, Nat.shiftLeft_eq] at h ⊢
      split at h <;> omega
    | unsigned =>
      simp only [number, greatest, Nat.shiftLeft_eq] at h ⊢
      omega
  unfold encode?
  rw [if_pos hle.1, hle.2, UInt32.ofNat_toNat]

/-- The pieces can be written, and these are their bytes. -/
def Yield (order : ByteOrder) (pieces : List Piece) (bytes : List UInt8) : Prop :=
  (∀ piece ∈ pieces, piece.Writable) ∧ pieces.flatMap (Piece.bytes order) = bytes

namespace Yield

variable {order : ByteOrder}

/-- No pieces make no bytes. -/
theorem nil (order : ByteOrder) : Yield order [] [] := ⟨by simp, rfl⟩

/-- Pieces in a row make their bytes in a row. -/
theorem append {pieces others : List Piece} {front back : List UInt8}
    (h : Yield order pieces front) (h' : Yield order others back) :
    Yield order (pieces ++ others) (front ++ back) :=
  ⟨List.forall_mem_append.mpr ⟨h.1, h'.1⟩, by rw [List.flatMap_append, h.2, h'.2]⟩

/-- Single words make the bytes of all of them. -/
theorem words (order : ByteOrder) (words : List Word) :
    Yield order (words.map fun word => .run word 1) (Word.writeAll order words) :=
  ⟨by simp, Layout.flatMap_bytes_run order words⟩

/-- Copies of zero make as many bytes of zeros. -/
theorem zeros (order : ByteOrder) (count : Nat) :
    Yield order [.run 0 count] (List.replicate (4 * count) 0) := by
  refine ⟨by simp, ?_⟩
  have hzero : (0 : Word).bytes order = List.replicate 4 0 := by
    cases order <;> decide
  rw [List.flatMap_singleton, Piece.bytes, hzero, List.flatten_replicate_replicate, Nat.mul_comm]

/-- A length that a word counts makes the bytes of that word. -/
theorem length {layout : Layout} {word : Word} {count : Nat} (vector : String)
    (h : layout.lengthWord.number word = count) :
    Yield layout.byteOrder [layout.lengthPiece vector count] (word.bytes layout.byteOrder) := by
  unfold Layout.lengthPiece
  rw [LengthWord.encode?_number h]
  exact ⟨by simp, by rw [List.flatMap_singleton, Layout.bytes_run_one]⟩

end Yield

/-! ### Words that come back -/

/-- The double that a word stands for is narrowed to the word. -/
theorem Word.map_narrow_widen {words : Array Word}
    (h : ∀ word ∈ words, word.isUndefined = false) : (words.map widen).map narrow = words := by
  rw [Array.map_map, ← Array.map_id words, Array.map_map]
  exact Array.map_congr_left fun word hword => narrow_widen (h word hword)

namespace Layout

variable {layout : Layout} {arithmetic : Arithmetic} {bytes : List UInt8}

/-- The words of the values of a stored table. -/
def valueWords (layout : Layout) (shape : List Nat) (bytes : List UInt8) : Array Word :=
  Word.readAll layout.byteOrder
    ((bytes.drop (layout.frontSize shape)).take (4 * Shape.cells shape))

/-- The trailing vectors hold no data: those of a fixed length are zeros, the others are
    empty. -/
def hasBlankTrailers (layout : Layout) : List Trailer → List UInt8 → Bool
  | [], _ => true
  | trailer :: trailers, bytes =>
    match trailer.count with
    | some count => (bytes.take (4 * count)).all (· == 0)
        && layout.hasBlankTrailers trailers (bytes.drop (4 * count))
    | none => layout.lengthAhead bytes == 0 && layout.hasBlankTrailers trailers (bytes.drop 4)

/-! ### Parts that come back -/

/-- Axis vectors are written back if the nodes of each axis are narrowed to its words. -/
theorem AxisImage.yield {table : Table Float} {vectors : Vectors}
    (h : layout.AxisImage vectors bytes)
    (hstored : ∀ index words, (index, words) ∈ vectors →
      ∃ entry axis, layout.axes[index]? = some entry ∧ table.axes[index]? = some axis ∧
        axis.nodes.map (storedNode entry) = words) :
    Yield layout.byteOrder (layout.axisPieces table (vectors.map Prod.fst)) bytes := by
  induction h with
  | nil => exact .nil _
  | @cons index words length vectors bytes counts rest ih =>
    obtain ⟨entry, axis, hentry, haxis, hwords⟩ := hstored index words List.mem_cons_self
    have hrest := ih fun other words hmem => hstored other words (List.mem_cons_of_mem _ hmem)
    -- The pieces of an axis are its length and one run for each word.
    have hpieces : layout.vectorPieces entry axis
        = [layout.lengthPiece entry.name words.size]
          ++ words.toList.map fun word => .run word 1 := by
      rw [← hwords, Array.size_map, Array.toList_map, List.map_map]
      rfl
    rw [List.map_cons, axisPieces_cons hentry haxis, hpieces]
    exact ((Yield.length entry.name counts).append (Yield.words _ words.toList)).append hrest

/-- Trailing vectors without data are written back. -/
theorem TrailerImage.yield {trailers : List Trailer}
    (h : layout.TrailerImage arithmetic trailers bytes) (index : Nat)
    (hfits : ∀ trailer ∈ trailers, ∀ count, trailer.count = some count → 4 * count < 1 <<< 64)
    (hblank : layout.hasBlankTrailers trailers bytes = true) :
    Yield layout.byteOrder (layout.trailerPieces trailers index) bytes := by
  induction h generalizing index with
  | nil => exact .nil _
  | @fixed trailer count trailers skipped bytes fixed size rest ih =>
    rw [List.forall_mem_cons] at hfits
    rw [Arithmetic.size_of_lt (hfits.1 count fixed)] at size
    have size : skipped.length = 4 * count := (Except.ok.inj size).symm
    rw [hasBlankTrailers, fixed] at hblank
    dsimp only at hblank
    rw [List.take_left' size, List.drop_left' size, Bool.and_eq_true, List.all_eq_true] at hblank
    -- A vector that is skipped is written back as zeros, so it must have held them.
    have hzeros : skipped = List.replicate (4 * count) 0 :=
      List.eq_replicate_iff.mpr ⟨size, fun byte hbyte => eq_of_beq (hblank.1 byte hbyte)⟩
    rw [trailerPieces, fixed, hzeros]
    exact (Yield.zeros _ count).append (ih (index + 1) hfits.2 hblank.2)
  | @counted trailer count length trailers skipped bytes unfixed counts size rest ih =>
    rw [List.forall_mem_cons] at hfits
    rw [hasBlankTrailers, unfixed, List.append_assoc] at hblank
    dsimp only at hblank
    rw [lengthAhead_bytes _ counts, List.drop_left' (Word.length_bytes _ _), Bool.and_eq_true,
      beq_iff_eq] at hblank
    -- A vector with its own length is written back as an empty one.
    obtain ⟨rfl, hblank⟩ := hblank
    rw [Arithmetic.size_of_lt (by decide)] at size
    obtain rfl : skipped = [] := List.eq_nil_of_length_eq_zero (Except.ok.inj size).symm
    rw [trailerPieces, unfixed, List.append_nil]
    exact (Yield.length _ counts).append (ih (index + 1) hfits.2 hblank)

/-- Defined numbers are equal to themselves. -/
theorem beq_self_of_defined {values : List Float}
    (h : ∀ x ∈ values, Scalar.isNaN x = false) : (values == values) = true := by
  induction values with
  | nil => rfl
  | cons x values ih =>
    rw [List.forall_mem_cons] at h
    rw [List.cons_beq_cons, ih h.2, Bool.and_true]
    exact (eq_iff_orderKey x x).mpr ⟨h.1, h.1, rfl⟩

namespace Image

variable {arrangement : Arrangement} {vectors : Vectors} {block : Array Word} {table : Table Float}
  (image : layout.Image arithmetic arrangement vectors block table bytes)

include image

/-- The supplied axes of the layout are those of the table. -/
theorem checkSupplied_eq_ok : layout.checkSupplied (layout.axes.zip table.axes) = .ok () := by
  refine checkSupplied_eq_ok_iff.mpr fun pair hpair values hvalues => ?_
  obtain ⟨index, hindex⟩ := List.mem_iff_getElem?.mp hpair
  obtain ⟨hentry, haxis⟩ := List.getElem?_zip_eq_some.mp hindex
  have hnodes := (entryAxes_eq_ok_iff.mp image.axes).2 index _ _ hentry haxis
  rcases axisNodes_eq_ok_iff.mp hnodes with ⟨supplied, hsupplied, hnodes⟩ | ⟨hnone, -⟩
  · obtain rfl : values = supplied := Option.some.inj (hvalues.symm.trans hsupplied)
    have hlist : pair.2.nodes.toList = values := by rw [hnodes]
    rw [hlist]
    exact beq_self_of_defined (hlist ▸ pair.2.ascending.1)
  · rw [hvalues] at hnone
    cases hnone

/-- Without conversions, the nodes of a stored axis are narrowed to the words they were read
    from. -/
theorem storedNode_nodes
    (hplain : ∀ entry ∈ layout.axes, entry.values = none → entry.conversion = none)
    {index : Nat} {words : Array Word} (h : (index, words) ∈ vectors) :
    ∃ entry axis, layout.axes[index]? = some entry ∧ table.axes[index]? = some axis ∧
      axis.nodes.map (storedNode entry) = words := by
  obtain ⟨entry, axis, hentry, hnone, haxis, hnodes⟩ := image.vector_nodes h
  have hconversion := hplain entry (List.mem_of_getElem? hentry) hnone
  have hnode : nodeOf entry = Word.widen := by
    funext word
    unfold nodeOf
    rw [hconversion]
  have hstored : storedNode entry = Word.narrow := by
    funext node
    unfold storedNode
    rw [hconversion]
  refine ⟨entry, axis, hentry, haxis, ?_⟩
  rw [hnode] at hnodes
  rw [hstored, hnodes]
  -- The nodes of an axis are defined, and so are the words.
  refine Word.map_narrow_widen fun word hword => ?_
  rw [← Word.isNaN_widen]
  refine axis.ascending.1 _ ?_
  rw [hnodes, Array.mem_toList_iff]
  exact Array.mem_map_of_mem hword

/-- Defined values are narrowed to the words they were read from, each at its place. -/
theorem storedBlock_eq (hdefined : ∀ word ∈ block, word.isUndefined = false) :
    storedBlock (layout.nesting arrangement table.shape) table = block := by
  refine Array.ext_getElem? fun place => ?_
  -- Places inside the block are those of multi-indices; outside there is nothing in either.
  by_cases hplace : place < Shape.cells table.shape
  · have hindex : Shape.Contains table.shape
        ((layout.nesting arrangement table.shape).indexAt place) :=
      Nesting.contains_indexAt image.complete_nesting hplace
    obtain ⟨word, hword, hvalue⟩ := image.value_eq hindex
    have hstored := @storedBlock_getElem table _ image.complete_nesting _ hindex
    rw [Nesting.place_indexAt image.complete_nesting hplace] at hword hstored
    rw [hword, hstored]
    show some (Word.narrow (table.value (Shape.offset table.shape _))) = some word
    rw [hvalue, Word.narrow_widen (hdefined word (Array.mem_of_getElem? hword))]
  · have hstored := storedBlock_size (layout.nesting arrangement table.shape) table
    rw [Array.getElem?_eq_none, Array.getElem?_eq_none]
    · rw [image.complete]
      exact Nat.le_of_not_lt hplace
    · rw [hstored]
      exact Nat.le_of_not_lt hplace

/-- The words of the values are those of the block. -/
theorem valueWords_eq : layout.valueWords table.shape bytes = block := by
  obtain ⟨front, back, -, -, rfl, hsize, -⟩ := image.parts
  unfold valueWords Word.readAll
  rw [List.append_assoc, List.drop_left' hsize, List.take_left' image.length_block]
  refine Array.toList_inj.mp ?_
  rw [Word.toList_appendAll_writeAll]
  rfl

end Image

/-- **Reading and writing back.**  A byte string that is decoded is written back as it was, if no
    stored axis is converted, all values are defined, and the trailing vectors, none of them
    longer than a 64-bit word says, hold no data. -/
theorem encode_decode {named : NamedTable Float} (h : layout.decodeAll arithmetic bytes = .ok named)
    (hplain : ∀ entry ∈ layout.axes, entry.values = none → entry.conversion = none)
    (hfits : ∀ trailer ∈ layout.trailers, ∀ count, trailer.count = some count →
      4 * count < 1 <<< 64)
    (hdefined : ∀ word ∈ layout.valueWords named.shape bytes, word.isUndefined = false)
    (hblank : layout.hasBlankTrailers layout.trailers
      (bytes.drop (layout.blockEnd named.shape)) = true) :
    layout.encode named.toTable = .ok bytes := by
  obtain ⟨-, arrangement, vectors, block, image⟩ := decodeAll_sound h
  rw [image.valueWords_eq] at hdefined
  -- The bytes are three stretches, and the pieces of each yield it again.
  obtain ⟨front, back, hfront, hback, rfl, -, hend⟩ := image.parts
  rw [List.drop_left' hend] at hblank
  have haxes := hfront.yield fun index words => image.storedNode_nodes hplain
  rw [image.stream] at haxes
  have hvalues : Yield layout.byteOrder
      (valuePieces (layout.nesting arrangement named.shape) named.toTable)
      (Word.writeAll layout.byteOrder block.toList) := by
    refine ⟨by simp [valuePieces], ?_⟩
    rw [bytes_valuePieces]
    exact congrArg (fun words => Word.writeAll layout.byteOrder words.toList)
      (image.storedBlock_eq hdefined)
  have htrailers := hback.yield 0 hfits hblank
  obtain ⟨hwritable, hbytes⟩ := (haxes.append hvalues).append htrailers
  have harranged : layout.arrangementFor named.toTable = .ok arrangement :=
    arrangementFor_eq_ok_iff.mpr ⟨image.arranged, image.axes_length, image.checkSupplied_eq_ok⟩
  exact encode_eq_ok_iff.mpr ⟨arrangement, harranged, hwritable, hbytes.symm⟩

/-- A layout without conversions, with one axis from its last node on and both kinds of trailing
    vectors. -/
def mirrored : Layout where
  name := "mirrored"
  byteOrder := .big
  lengthWord := .unsigned
  axes :=
    [⟨"height", none, true, none⟩,
     ⟨"band", some [Float.ofBits 0x3ff0000000000000, Float.ofBits 0x4000000000000000], false, none⟩,
     ⟨"angle", none, false, none⟩]
  streamOrder := ["angle", "height"]
  storageOrder := ["angle", "band", "height"]
  trailers := [⟨false, some 2⟩, ⟨true, none⟩]

/-- A table of that layout; infinities, a minus zero and the least positive number are among
    its nodes and values. -/
def mirroredBytes : List UInt8 :=
  Word.writeAll .big
    [2, 0x80000000, 0x7f800000, 2, 0xff800000, 1,
     0x80000000, 0x7f800000, 0xff800000, 1, 0x7f7fffff, 0, 0x3f800000, 0xc0000000,
     0, 0, 0]

theorem encode_decode_mirrored :
    ∃ named, mirrored.decodeAll .checked mirroredBytes = .ok named ∧
      mirrored.encode named.toTable = .ok mirroredBytes := by
  have hshape : (mirrored.decodeAll .checked mirroredBytes).toOption.map (fun named => named.shape)
      = some [2, 2, 2] := by decide +kernel
  obtain ⟨named, h, hshape⟩ := exists_of_map_toOption hshape
  have hwords : (mirrored.valueWords [2, 2, 2] mirroredBytes).toList.all (! ·.isUndefined) = true :=
    by decide +kernel
  have hblank : mirrored.hasBlankTrailers mirrored.trailers
      (mirroredBytes.drop (mirrored.blockEnd [2, 2, 2])) = true := by decide +kernel
  rw [← hshape] at hwords hblank
  refine ⟨named, h, encode_decode h (by simp [mirrored])
    (lostSize_eq_zero_iff.mp (by decide +kernel)) (fun word hword => ?_) hblank⟩
  exact Bool.not_eq_true' _ |>.mp (List.all_eq_true.mp hwords word (Array.mem_toList_iff.mpr hword))

end Layout

end GridLookup
