import GridLookup.Proofs.Assignment
import GridLookup.Proofs.Placement
import Mathlib.Algebra.Order.BigOperators.Group.List

namespace GridLookup

/-!
# How long a stored table is

The lengths of the axes say where the values of a stored table begin and end.  With the length
words behind them they say how long the whole table is, except where the size of a skipped vector
wraps: what a 64-bit word does not hold of it is not skipped.

* `Layout.frontSize`, `Layout.blockEnd` — where the values begin and end.
* `Layout.declaredSize` — the size of all vectors and values, as the layout and the length words
  declare them.
* `Layout.Image.parts` — the parts of a stored table with their sizes.
* `Layout.TrailerImage.fits` — checked sizes do not wrap.
* `Layout.decoded_length` — when a decoded byte string has the declared size.
* `Layout.not_all_decoded_declared` — one that is `2 ^ 64` bytes too short.
-/

namespace Layout

/-! ### Sizes -/

/-- The number of words in front of the values: one more than there are nodes, for each stored
    axis. -/
def frontWords (layout : Layout) (shape : List Nat) : Nat :=
  (layout.storedIndices.map fun index => 1 + shape.getD index 0).sum

/-- How many bytes stand in front of the values. -/
def frontSize (layout : Layout) (shape : List Nat) : Nat := 4 * layout.frontWords shape

/-- How many bytes stand in front of the trailing vectors. -/
def blockEnd (layout : Layout) (shape : List Nat) : Nat :=
  layout.frontSize shape + 4 * Shape.cells shape

/-- The length that the first four bytes stand for. -/
def lengthAhead (layout : Layout) : List UInt8 → Nat
  | a :: b :: c :: d :: _ =>
    (layout.lengthWord.number (Word.ofBytes layout.byteOrder a b c d)).toNat
  | _ => 0

/-- The number of words that trailing vectors declare: as many as are fixed, or one more than
    the length word in front says. -/
def trailerWords (layout : Layout) : List Trailer → List UInt8 → Nat
  | [], _ => 0
  | trailer :: trailers, bytes =>
    match trailer.count with
    | some count => count + layout.trailerWords trailers (bytes.drop (4 * count % (1 <<< 64)))
    | none =>
      let count := layout.lengthAhead bytes
      1 + count + layout.trailerWords trailers (bytes.drop (4 + 4 * count))

/-- The size in bytes of all vectors and values, as they are declared. -/
def declaredSize (layout : Layout) (shape : List Nat) (bytes : List UInt8) : Nat :=
  4 * (layout.frontWords shape + Shape.cells shape
    + layout.trailerWords layout.trailers (bytes.drop (layout.blockEnd shape)))

/-- The part of the sizes of fixed vectors that does not fit a 64-bit word. -/
def lostSize (trailers : List Trailer) : Nat :=
  (trailers.map fun trailer => 4 * trailer.count.getD 0 / (1 <<< 64) * (1 <<< 64)).sum

variable {layout : Layout} {arithmetic : Arithmetic} {bytes : List UInt8}

/-- Nothing is lost exactly if the size of every fixed vector fits. -/
theorem lostSize_eq_zero_iff {trailers : List Trailer} :
    lostSize trailers = 0 ↔
      ∀ trailer ∈ trailers, ∀ count, trailer.count = some count → 4 * count < 1 <<< 64 := by
  unfold lostSize
  rw [List.sum_eq_zero_iff, List.forall_mem_map]
  refine forall₂_congr fun trailer _ => ?_
  cases trailer.count with
  | none => simp
  | some count =>
    rw [Option.getD_some]
    constructor
    · rintro h _ ⟨⟩
      simp only [Nat.shiftLeft_eq] at h ⊢
      omega
    · intro h
      have hfits := h count rfl
      rw [Nat.div_eq_of_lt hfits, Nat.zero_mul]

/-! ### The parts of a stored table -/

/-- The length ahead is the one that was written. -/
theorem lengthAhead_bytes {count : Nat} {length : Word} (tail : List UInt8)
    (hcounts : layout.lengthWord.number length = count) :
    layout.lengthAhead (length.bytes layout.byteOrder ++ tail) = count := by
  obtain ⟨a, b, c, d, hbytes, hword⟩ := Word.exists_bytes layout.byteOrder length
  rw [hbytes]
  show (layout.lengthWord.number (Word.ofBytes layout.byteOrder a b c d)).toNat = count
  rw [hword, hcounts, Int.toNat_natCast]

/-- Axes take a word for each length and one for each node. -/
theorem AxisImage.length_eq {vectors : Vectors} (h : layout.AxisImage vectors bytes) :
    bytes.length = 4 * (vectors.map fun vector => 1 + vector.2.size).sum := by
  induction h with
  | nil => rfl
  | cons counts _ ih =>
    rw [List.length_append, List.length_append, Word.length_bytes, Word.length_writeAll, ih,
      Array.length_toList, List.map_cons, List.sum_cons]
    dsimp only
    omega

/-- Trailing vectors have their declared size, up to what is lost. -/
theorem TrailerImage.length_add_lostSize {trailers : List Trailer}
    (h : layout.TrailerImage arithmetic trailers bytes) :
    bytes.length + lostSize trailers = 4 * layout.trailerWords trailers bytes := by
  induction h with
  | nil => rfl
  | @fixed trailer count trailers skipped bytes fixed size rest ih =>
    have hlost : lostSize (trailer :: trailers)
        = 4 * count / (1 <<< 64) * (1 <<< 64) + lostSize trailers := by
      rw [lostSize, List.map_cons, List.sum_cons, fixed, Option.getD_some, lostSize]
    obtain ⟨size, -⟩ := Arithmetic.size_eq_ok_iff.mp size
    have hwords : layout.trailerWords (trailer :: trailers) (skipped ++ bytes)
        = count + layout.trailerWords trailers bytes := by
      rw [trailerWords, fixed]
      dsimp only
      rw [List.drop_left' size]
    have hsplit := Nat.div_add_mod (4 * count) (1 <<< 64)
    rw [Nat.mul_comm] at hsplit
    rw [hlost, hwords, List.length_append, size]
    omega
  | @counted trailer count length trailers skipped bytes unfixed counts size rest ih =>
    -- The size of a vector with a length word always fits.
    have hsize : skipped.length = 4 * count := by
      rw [Arithmetic.size_of_lt (LengthWord.size_lt counts)] at size
      exact (Except.ok.inj size).symm
    have hlost : lostSize (trailer :: trailers) = lostSize trailers := by
      rw [lostSize, List.map_cons, List.sum_cons, unfixed, Option.getD_none, lostSize]
      exact Nat.zero_add _
    have hwords : layout.trailerWords (trailer :: trailers)
        (length.bytes layout.byteOrder ++ skipped ++ bytes)
          = 1 + count + layout.trailerWords trailers bytes := by
      rw [trailerWords, unfixed]
      dsimp only
      rw [List.append_assoc, lengthAhead_bytes _ counts, ← List.append_assoc, List.drop_left']
      rw [List.length_append, Word.length_bytes, hsize]
    rw [hlost, hwords, List.length_append, List.length_append, Word.length_bytes, hsize]
    omega

/-- Where sizes are checked, the size of every vector that is skipped fits. -/
theorem TrailerImage.fits {trailers : List Trailer}
    (h : layout.TrailerImage arithmetic trailers bytes) (hchecked : arithmetic = .checked) :
    ∀ trailer ∈ trailers, ∀ count, trailer.count = some count → 4 * count < 1 <<< 64 := by
  induction h with
  | nil => simp
  | @fixed trailer count _ _ _ fixed size _ ih =>
    refine List.forall_mem_cons.mpr ⟨fun other hother => ?_, ih⟩
    obtain rfl : count = other := Option.some.inj (fixed.symm.trans hother)
    exact (Arithmetic.size_eq_ok_iff.mp size).2 hchecked
  | counted unfixed _ _ _ ih =>
    refine List.forall_mem_cons.mpr ⟨fun other hother => ?_, ih⟩
    rw [unfixed] at hother
    cases hother

namespace Image

variable {arrangement : Arrangement} {vectors : Vectors} {block : Array Word} {table : Table Float}
  (image : layout.Image arithmetic arrangement vectors block table bytes)

include image

/-- Every vector is that of a stored axis, and holds its nodes. -/
theorem vector_nodes {index : Nat} {words : Array Word} (h : (index, words) ∈ vectors) :
    ∃ entry axis, layout.axes[index]? = some entry ∧ entry.values = none ∧
      table.axes[index]? = some axis ∧ axis.nodes = words.map (nodeOf entry) := by
  have hstream : index ∈ arrangement.stream := by
    rw [← image.stream]
    exact List.mem_map_of_mem h
  obtain ⟨hlt, hstored⟩ := (mem_stream_iff image.arranged).mp hstream
  have hentry := List.getElem?_eq_getElem hlt
  have haxis := List.getElem?_eq_getElem (image.axes_length ▸ hlt : index < table.axes.length)
  have hnone : layout.axes[index].values = none := by
    unfold isStoredAt at hstored
    rw [hentry, Option.map_some, Option.getD_some] at hstored
    exact Option.isNone_iff_eq_none.mp hstored
  refine ⟨_, _, hentry, hnone, haxis, ?_⟩
  -- No axis has a second vector, so this is the one its nodes are made from.
  have hdistinct : (vectors.map Prod.fst).Nodup := by
    rw [image.stream, (stream_perm image.arranged).nodup_iff]
    exact List.nodup_range.filter _
  have hnodes := (entryAxes_eq_ok_iff.mp image.axes).2 index _ _ hentry haxis
  rw [Nat.zero_add, lookup_of_mem hdistinct h] at hnodes
  rcases axisNodes_eq_ok_iff.mp hnodes with ⟨values, hvalues, -⟩ | ⟨-, _, ⟨⟩, hnodes⟩
  · rw [hnone] at hvalues
    cases hvalues
  · exact hnodes

/-- The vector of an axis has a word for each node. -/
theorem size_vector {index : Nat} {words : Array Word} (h : (index, words) ∈ vectors) :
    words.size = table.shape.getD index 0 := by
  obtain ⟨entry, axis, -, -, haxis, hnodes⟩ := image.vector_nodes h
  rw [Table.shape, List.getD_eq_getElem?_getD, List.getElem?_map, haxis, Option.map_some,
    Option.getD_some, Axis.size, hnodes, Array.size_map]

/-- The words in front are those of the shape. -/
theorem sum_vectors :
    (vectors.map fun vector => 1 + vector.2.size).sum = layout.frontWords table.shape := by
  have hsizes : (vectors.map fun vector => 1 + vector.2.size)
      = arrangement.stream.map fun index => 1 + table.shape.getD index 0 := by
    rw [← image.stream, List.map_map]
    refine List.map_congr_left fun vector hvector => ?_
    rw [Function.comp_apply, image.size_vector hvector]
  rw [hsizes, frontWords, ((stream_perm image.arranged).map _).sum_eq]

/-- The block takes four bytes for every cell. -/
theorem length_block : (Word.writeAll layout.byteOrder block.toList).length
    = 4 * Shape.cells table.shape := by
  rw [Word.length_writeAll, Array.length_toList, image.complete]

/-- **The parts.**  The vectors of the stored axes end where the values begin, and the trailing
    vectors begin where these end. -/
theorem parts : ∃ front back, layout.AxisImage vectors front ∧
    layout.TrailerImage arithmetic layout.trailers back ∧
    bytes = front ++ Word.writeAll layout.byteOrder block.toList ++ back ∧
    front.length = layout.frontSize table.shape ∧
    (front ++ Word.writeAll layout.byteOrder block.toList).length
      = layout.blockEnd table.shape := by
  obtain ⟨front, back, hfront, hback, hbytes⟩ := image.bytes_eq
  have hsize : front.length = layout.frontSize table.shape := by
    rw [hfront.length_eq, image.sum_vectors, frontSize]
  refine ⟨front, back, hfront, hback, hbytes, hsize, ?_⟩
  rw [List.length_append, hsize, image.length_block, blockEnd]

/-- The bytes of a table are as many as declared, but for what is lost to the wrapped sizes. -/
theorem length_add_lostSize :
    bytes.length + lostSize layout.trailers = layout.declaredSize table.shape bytes := by
  obtain ⟨front, back, -, hback, rfl, -, hend⟩ := image.parts
  have htrailers := hback.length_add_lostSize
  unfold declaredSize
  rw [List.drop_left' hend, List.length_append, hend, blockEnd, frontSize]
  omega

end Image

/-! ### Decoded sizes -/

/-- **Decoded sizes.**  A decoded byte string falls short of its declared size by what is lost of
    the sizes of its fixed vectors.  So it has the declared size exactly if the size of every
    fixed vector fits a 64-bit word, which is so whenever sizes are checked. -/
theorem decoded_length {named : NamedTable Float}
    (h : layout.decodeAll arithmetic bytes = .ok named) :
    bytes.length + lostSize layout.trailers = layout.declaredSize named.shape bytes ∧
      (bytes.length = layout.declaredSize named.shape bytes ↔
        ∀ trailer ∈ layout.trailers, ∀ count, trailer.count = some count →
          4 * count < 1 <<< 64) ∧
      (arithmetic = .checked → bytes.length = layout.declaredSize named.shape bytes) := by
  obtain ⟨-, arrangement, vectors, block, image⟩ := decodeAll_sound h
  obtain ⟨front, back, -, hback, -⟩ := image.bytes_eq
  have hlength := image.length_add_lostSize
  have hexact : bytes.length = layout.declaredSize named.shape bytes
      ↔ lostSize layout.trailers = 0 := by omega
  rw [hexact, ← lostSize_eq_zero_iff]
  exact ⟨hlength, Iff.rfl, fun hchecked => lostSize_eq_zero_iff.mpr (hback.fits hchecked)⟩

/-- A turned table has its declared size, where nothing is checked because nothing is lost. -/
theorem decoded_length_turned :
    ∃ named, turned.decodeAll .wrapping turnedBytes = .ok named ∧
      turnedBytes.length + lostSize turned.trailers
        = turned.declaredSize named.shape turnedBytes ∧
      turnedBytes.length = turned.declaredSize named.shape turnedBytes := by
  have hdecodes : (turned.decodeAll .wrapping turnedBytes).toOption.map (fun _ => ())
      = some () := by
    decide +kernel
  obtain ⟨named, h, -⟩ := exists_of_map_toOption hdecodes
  have hfits : ∀ trailer ∈ turned.trailers, ∀ count, trailer.count = some count →
      4 * count < 1 <<< 64 := lostSize_eq_zero_iff.mp (by decide +kernel)
  obtain ⟨hlength, hexact, -⟩ := decoded_length h
  exact ⟨named, h, hlength, hexact.mpr hfits⟩

/-- One stored axis, and behind the values a vector whose size is `2 ^ 64` bytes. -/
def boundless : Layout where
  name := "boundless"
  byteOrder := .little
  lengthWord := .signed
  axes := [⟨"height", none, false, none⟩]
  streamOrder := []
  storageOrder := []
  trailers := [⟨false, some (1 <<< 62)⟩]

/-- One node and its value, without the vector that should follow. -/
def boundlessBytes : List UInt8 := [1, 0, 0, 0, 0, 0, 0, 0, 0, 0, 0, 0]

/-- Where sizes wrap, not everything that is decoded has its declared size. -/
theorem not_all_decoded_declared :
    ¬ ∀ (layout : Layout) (bytes : List UInt8) (named : NamedTable Float),
      layout.decodeAll .wrapping bytes = .ok named →
      bytes.length = layout.declaredSize named.shape bytes := by
  intro hall
  have hsize : (boundless.decodeAll .wrapping boundlessBytes).toOption.map
      (fun named => boundless.declaredSize named.shape boundlessBytes)
        = some (12 + 1 <<< 64) := by
    decide +kernel
  obtain ⟨named, h, hsize⟩ := exists_of_map_toOption hsize
  have hlength : 12 = 12 + 1 <<< 64 := (hall boundless boundlessBytes named h).trans hsize
  revert hlength
  decide

end Layout

end GridLookup
