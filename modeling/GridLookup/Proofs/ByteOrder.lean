import GridLookup.Proofs.Encoding
import GridLookup.Proofs.Placement

namespace GridLookup

/-!
# The other byte order

Byte order is no more than a mirror of words: with every word of a stream turned around, the layout
of the other byte order reads the same table, or fails in the same way, and it writes every word
turned around.

* `ByteOrder.opposite`, `Layout.opposite` — the other byte order, and nothing else changed.
* `reverseWords_append` — runs of words are turned around one after the other.
* `Source.Mirrors`, `Reading.Mirrored` — sources and outcomes that are mirror images.
* `readBytes_mirrored`, `readVector_mirrored`, `Layout.readTable_mirrored` — every reading action
  keeps to whole words.
* `Sink.writeAll_mirrored` — so does writing, whatever the sink accepts.
* `Layout.decodeAll_encode_opposite` — both directions together.
-/

/-! ### Words turned around -/

/-- The other byte order. -/
def ByteOrder.opposite : ByteOrder → ByteOrder
  | .little => .big
  | .big => .little

/-- Four bytes make the same word when they are read backwards in the opposite order. -/
theorem Word.ofBytes_opposite (order : ByteOrder) (a b c d : UInt8) :
    ofBytes order.opposite d c b a = ofBytes order a b c d := by
  cases order <;> rfl

/-- In the opposite order the bytes of a word stand backwards. -/
theorem Word.bytes_opposite (order : ByteOrder) (word : Word) :
    bytes order.opposite word = (bytes order word).reverse := by
  cases order <;> rfl

/-- Reversing the words changes no length. -/
@[simp] theorem length_reverseWords (bytes : List UInt8) :
    (reverseWords bytes).length = bytes.length := by
  induction bytes using reverseWords.induct with
  | case1 a b c d rest ih => simp [reverseWords, ih]
  | case2 rest => rw [reverseWords]; assumption

/-- Whole words are turned around one after the other. -/
theorem reverseWords_append {front : List UInt8} (h : 4 ∣ front.length) (back : List UInt8) :
    reverseWords (front ++ back) = reverseWords front ++ reverseWords back := by
  induction front using reverseWords.induct with
  | case1 a b c d rest ih =>
    have hrest : 4 ∣ rest.length := by
      simp only [List.length_cons] at h
      omega
    simp [reverseWords, ih hrest]
  | case2 rest hshort =>
    match rest, h with
    | [], _ => rfl
    | [_], h | [_, _], h | [_, _, _], h =>
      simp only [List.length_cons, List.length_nil] at h
      omega
    | a :: b :: c :: d :: rest, _ => exact absurd rfl (hshort a b c d rest)

/-- Turned around, a run holds the same words in the other byte order. -/
theorem Word.appendAll_opposite (order : ByteOrder) (bytes : List UInt8) (words : Array Word) :
    appendAll order.opposite (reverseWords bytes) words = appendAll order bytes words := by
  induction bytes using reverseWords.induct generalizing words with
  | case1 a b c d rest ih =>
    show appendAll order.opposite (reverseWords rest)
      (words.push (ofBytes order.opposite d c b a)) = _
    rw [ih, ofBytes_opposite]
    rfl
  | case2 rest hshort =>
    match rest with
    | [] | [_] | [_, _] | [_, _, _] => rfl
    | a :: b :: c :: d :: rest => exact absurd rfl (hshort a b c d rest)

/-! ### Mirror images -/

/-- The other source holds the same words in the other byte order, whole ones only. -/
structure Source.Mirrors (source other : Source) : Prop where
  /-- The words are turned around. -/
  bytes_eq : other.bytes = reverseWords source.bytes
  /-- There is no part of a word at the end. -/
  whole : 4 ∣ source.bytes.length
  /-- The same comes after the last byte. -/
  ending_eq : other.ending = source.ending
  /-- As many bytes have been read. -/
  position_eq : other.position = source.position

/-- A byte string of whole words and its mirror image. -/
theorem Source.mirrors_ofBytes {bytes : List UInt8} (h : 4 ∣ bytes.length) :
    (ofBytes bytes).Mirrors (ofBytes (reverseWords bytes)) where
  bytes_eq := by rw [bytes_ofBytes, bytes_ofBytes]
  whole := by rwa [bytes_ofBytes]
  ending_eq := rfl
  position_eq := rfl

namespace Reading

variable {α β : Type} {alike : α → α → Prop} {alike' : β → β → Prop}

/-- Two outcomes are the same error, or results that are alike in front of mirror images. -/
inductive Mirrored (alike : α → α → Prop) :
    Except StoreError (α × Source) → Except StoreError (α × Source) → Prop where
  /-- Both succeed. -/
  | ok {a a' : α} {rest rest' : Source} (result : alike a a') (mirrors : rest.Mirrors rest') :
      Mirrored alike (.ok (a, rest)) (.ok (a', rest'))
  /-- Both fail alike. -/
  | error (error : StoreError) : Mirrored alike (.error error) (.error error)

/-- Two sequences of readings mirror each other if their parts do. -/
theorem Mirrored.bind {action action' : Reading α} {next next' : α → Reading β}
    {source source' : Source} (h : Mirrored alike (action source) (action' source'))
    (hnext : ∀ a a' rest rest', alike a a' → rest.Mirrors rest' →
      Mirrored alike' (next a rest) (next' a' rest')) :
    Mirrored alike' ((action >>= next) source) ((action' >>= next') source') := by
  generalize haction : action source = outcome at h
  generalize haction' : action' source' = outcome' at h
  cases h with
  | ok result mirrors =>
    rw [bind_of_ok haction, bind_of_ok haction']
    exact hnext _ _ _ _ result mirrors
  | error error =>
    rw [bind_of_error haction, bind_of_error haction']
    exact .error error

/-- The same with results that are equal. -/
theorem Mirrored.bind_eq {action action' : Reading α} {next next' : α → Reading β}
    {source source' : Source} (h : Mirrored Eq (action source) (action' source'))
    (hnext : ∀ a rest rest', rest.Mirrors rest' →
      Mirrored alike' (next a rest) (next' a rest')) :
    Mirrored alike' ((action >>= next) source) ((action' >>= next') source') := by
  refine h.bind ?_
  rintro a _ rest rest' rfl hrest
  exact hnext a rest rest' hrest

/-- What does not look at the source is the same in front of both. -/
theorem Mirrored.lift {source source' : Source} (h : source.Mirrors source')
    (outcome : Except StoreError α) :
    Mirrored Eq ((liftM outcome : Reading α) source) ((liftM outcome : Reading α) source') := by
  cases outcome with
  | ok a => exact .ok rfl h
  | error error => exact .error error

end Reading

/-! ### Reading whole words -/

variable {source other : Source}

/-- **Whole words.**  As many bytes as make up whole words are passed on both sides. -/
theorem readBytes_mirrored (h : source.Mirrors other) {count : Nat} (hcount : 4 ∣ count)
    (part : String) :
    Reading.Mirrored (fun bytes bytes' => bytes' = reverseWords bytes ∧ bytes.length = count)
      (readBytes count part source) (readBytes count part other) := by
  by_cases hle : count ≤ source.bytes.length
  · -- The bytes that are taken are whole words, and so are those that are left.
    obtain ⟨rest, hread, hpassed⟩ := readBytes_complete part
      (List.length_take_of_le hle) (List.take_append_drop count source.bytes).symm
    have hlength : (source.bytes.take count).length = count := List.length_take_of_le hle
    have hwhole := h.whole
    rw [hpassed.bytes_eq, List.length_append, hlength] at hwhole
    have hbytes : other.bytes
        = reverseWords (source.bytes.take count) ++ reverseWords rest.bytes := by
      rw [h.bytes_eq, ← reverseWords_append (by rwa [hlength]), ← hpassed.bytes_eq]
    obtain ⟨rest', hread', hpassed'⟩ :=
      readBytes_complete part ((length_reverseWords _).trans hlength) hbytes
    rw [hread, hread']
    have hwhole : 4 ∣ rest.bytes.length := (Nat.dvd_add_right hcount).mp hwhole
    refine .ok ⟨rfl, hlength⟩ ⟨hpassed'.rest_eq hbytes, hwhole, ?_, ?_⟩
    · rw [hpassed'.ending_eq, hpassed.ending_eq, h.ending_eq]
    · rw [hpassed'.position_eq, hpassed.position_eq, h.position_eq, length_reverseWords]
  · have hshort : source.bytes.length < count := Nat.lt_of_not_le hle
    have hshort' : other.bytes.length < count := by rwa [h.bytes_eq, length_reverseWords]
    rw [readBytes_of_short part hshort, readBytes_of_short part hshort', h.ending_eq]
    exact .error _

variable (order : ByteOrder)

/-- A length word counts the same in the mirrored source. -/
theorem readLengthWord_mirrored (h : source.Mirrors other) (kind : LengthWord) (vector : String) :
    Reading.Mirrored Eq (readLengthWord kind order vector source)
      (readLengthWord kind order.opposite vector other) := by
  unfold readLengthWord
  refine (readBytes_mirrored h (Nat.dvd_refl 4) _).bind ?_
  rintro bytes _ rest rest' ⟨rfl, hlength⟩ hrest
  match bytes, hlength with
  | [a, b, c, d], _ =>
    dsimp only [reverseWords]
    rw [Word.ofBytes_opposite]
    cases kind.decode (Word.ofBytes order a b c d) with
    | ok length => exact .ok rfl hrest
    | error number => exact .error _

/-- The portions of a vector are the same in the mirrored source. -/
theorem readPortions_mirrored (h : source.Mirrors other) (vector : String) (remaining : Nat)
    (words : Array Word) :
    Reading.Mirrored Eq (readPortions order vector remaining words source)
      (readPortions order.opposite vector remaining words other) := by
  induction remaining using Nat.strong_induction_on generalizing words source other with
  | _ remaining ih =>
    rw [readPortions, readPortions]
    split
    · next hmore =>
      have hpositive : 0 < wordsAtOnce := by decide
      refine (readBytes_mirrored h (Nat.dvd_mul_right 4 _) vector).bind ?_
      rintro bytes _ rest rest' ⟨rfl, -⟩ hrest
      rw [Word.appendAll_opposite]
      exact ih _ (by omega) hrest _
    · exact .ok rfl h

/-- A vector is the same in the mirrored source. -/
theorem readVector_mirrored (h : source.Mirrors other) (vector : String) (length : Nat) :
    Reading.Mirrored Eq (readVector order vector length source)
      (readVector order.opposite vector length other) :=
  readPortions_mirrored order h vector length #[]

/-- A skipped vector has a whole number of words, also where its size wraps. -/
theorem skipVector_mirrored (h : source.Mirrors other) (arithmetic : Arithmetic) (vector : String)
    (length : Nat) :
    Reading.Mirrored Eq (skipVector arithmetic vector length source)
      (skipVector arithmetic vector length other) := by
  unfold skipVector
  match hsize : arithmetic.size length with
  | .error error => exact .error error
  | .ok size =>
  rw [Reading.lift_bind_of_ok rfl, Reading.lift_bind_of_ok rfl]
  have hwhole : 4 ∣ size := by
    rw [(Arithmetic.size_eq_ok_iff.mp hsize).1]
    exact (Nat.dvd_mod_iff (by decide)).mpr (Nat.dvd_mul_right 4 length)
  refine (readBytes_mirrored h hwhole vector).bind ?_
  rintro bytes _ rest rest' - hrest
  exact .ok rfl hrest

/-! ### Writing whole words -/

namespace Sink

/-- The other sink has accepted the same words in the other byte order, and accepts as many. -/
structure Mirrors (sink other : Sink) : Prop where
  /-- The words are turned around. -/
  written_eq : other.written.toList = reverseWords sink.written.toList
  /-- There is no part of a word at the end. -/
  whole : 4 ∣ sink.written.toList.length
  /-- As much more is accepted. -/
  limit_eq : other.limit = sink.limit

/-- Words are appended to mirrored bytes as their mirror images. -/
theorem append_mirrored (word : Word) (copies : Nat) {written written' : Array UInt8}
    (h : written'.toList = reverseWords written.toList) (hwhole : 4 ∣ written.toList.length) :
    (append order.opposite word copies written').toList
        = reverseWords (append order word copies written).toList ∧
      4 ∣ (append order word copies written).toList.length := by
  induction copies generalizing written written' with
  | zero => exact ⟨h, hwhole⟩
  | succ copies ih =>
    -- Reversing a word gives the bytes that the opposite order writes for it.
    have hbytes : reverseWords (word.bytes order) = word.bytes order.opposite := by
      obtain ⟨a, b, c, d, hfour, -⟩ := Word.exists_bytes order word
      rw [Word.bytes_opposite, hfour]
      rfl
    rw [append, append]
    refine ih ?_ ?_
    · rw [Array.toList_appendList, Array.toList_appendList, reverseWords_append hwhole, h, hbytes]
    · rw [Array.toList_appendList, List.length_append, Word.length_bytes]
      exact (Nat.dvd_add_self_right).mpr hwhole

variable {sink other : Sink}

/-- Every piece is accepted on both sides, or refused alike. -/
theorem write_mirrored (h : sink.Mirrors other) (piece : Piece) :
    (other.write order.opposite piece).2 = (sink.write order piece).2 ∧
      (sink.write order piece).1.Mirrors (other.write order.opposite piece).1 := by
  cases piece with
  | badLength vector length => exact ⟨rfl, h⟩
  | run word copies =>
    unfold write writeRun
    dsimp only
    rw [h.limit_eq]
    -- A limit leaves room for as many copies on either side.
    cases sink.limit with
    | none =>
      obtain ⟨hwritten, hwhole⟩ := append_mirrored order word copies h.written_eq h.whole
      exact ⟨rfl, hwritten, hwhole, rfl⟩
    | some limit =>
      obtain ⟨hwritten, hwhole⟩ := append_mirrored order word
        (min copies (limit.room / 4)) h.written_eq h.whole
      exact ⟨rfl, hwritten, hwhole, rfl⟩

/-- Pieces are written to a mirrored sink as their mirror images, with the same outcome. -/
theorem writeAll_mirrored (h : sink.Mirrors other) (pieces : List Piece) :
    (other.writeAll order.opposite pieces).2 = (sink.writeAll order pieces).2 ∧
      (sink.writeAll order pieces).1.Mirrors (other.writeAll order.opposite pieces).1 := by
  induction pieces generalizing sink other with
  | nil => exact ⟨rfl, h⟩
  | cons piece pieces ih =>
    obtain ⟨houtcome, hsinks⟩ := write_mirrored order h piece
    unfold writeAll
    generalize sink.write order piece = result at houtcome hsinks
    generalize other.write order.opposite piece = result' at houtcome hsinks
    obtain ⟨sink, outcome⟩ := result
    obtain ⟨other, outcome'⟩ := result'
    obtain rfl : outcome' = outcome := houtcome
    cases outcome' with
    | ok => exact ih hsinks
    | error error => exact ⟨rfl, hsinks⟩

end Sink

namespace Layout

/-- The same layout in the other byte order. -/
def opposite (layout : Layout) : Layout := { layout with byteOrder := layout.byteOrder.opposite }

variable {layout : Layout} {arithmetic : Arithmetic}

/-! ### Reading tables -/

/-- The nodes of an axis are the same in the mirrored source. -/
theorem readAxis_mirrored (h : source.Mirrors other) (total : Option Nat) (index : Nat) :
    Reading.Mirrored Eq (layout.readAxis total index source)
      (layout.opposite.readAxis total index other) := by
  unfold readAxis
  refine (readLengthWord_mirrored layout.byteOrder h layout.lengthWord _).bind_eq ?_
  intro length rest rest' hrest
  rw [Reading.get_bind, Reading.get_bind, hrest.position_eq]
  split
  · exact .error _
  · exact readVector_mirrored layout.byteOrder hrest _ length

/-- The nodes of all axes are the same in the mirrored source. -/
theorem readAxes_mirrored (h : source.Mirrors other) (total : Option Nat) (stream : List Nat) :
    Reading.Mirrored Eq (layout.readAxes total stream source)
      (layout.opposite.readAxes total stream other) := by
  induction stream generalizing source other with
  | nil => exact .ok rfl h
  | cons index stream ih =>
    refine (readAxis_mirrored h total index).bind_eq fun words rest rest' hrest => ?_
    refine (ih hrest).bind_eq fun vectors rest rest' hrest => ?_
    exact .ok rfl hrest

/-- The trailing vectors are skipped alike in the mirrored source. -/
theorem skipTrailers_mirrored (h : source.Mirrors other) (trailers : List Trailer) (index : Nat) :
    Reading.Mirrored Eq (layout.skipTrailers arithmetic trailers index source)
      (layout.opposite.skipTrailers arithmetic trailers index other) := by
  induction trailers generalizing source other index with
  | nil => exact .ok rfl h
  | cons trailer trailers ih =>
    -- Whatever its length, the vector is skipped and the others after it.
    have hskip (length : Nat) (rest rest' : Source) (hrest : rest.Mirrors rest') :
        Reading.Mirrored Eq
          ((do skipVector arithmetic s!"trailing vector {index}" length
               layout.skipTrailers arithmetic trailers (index + 1) : Reading Unit) rest)
          ((do skipVector arithmetic s!"trailing vector {index}" length
               layout.opposite.skipTrailers arithmetic trailers (index + 1)
                 : Reading Unit) rest') :=
      (skipVector_mirrored hrest _ _ length).bind_eq fun _ rest rest' hrest => ih hrest (index + 1)
    unfold skipTrailers
    cases trailer.count with
    | some count => exact hskip count source other h
    | none =>
      exact (readLengthWord_mirrored layout.byteOrder h layout.lengthWord _).bind_eq hskip

/-- The check of the axes does not depend on the byte order. -/
theorem checkAxes_opposite (before : List String) (entries : List AxisEntry) :
    layout.opposite.checkAxes before entries = layout.checkAxes before entries := by
  induction entries generalizing before with
  | nil => rfl
  | cons entry entries ih =>
    rw [checkAxes, checkAxes, ih]
    rfl

/-- What an order of axes stands for does not depend on the byte order. -/
theorem resolveOrder_opposite (allow : Nat → String → Except LayoutFault Unit)
    (repeated : String → LayoutFault) (names : List String) (order : List Nat) :
    layout.opposite.resolveOrder allow repeated names order
      = layout.resolveOrder allow repeated names order := by
  induction names generalizing order with
  | nil => rfl
  | cons name names ih =>
    rw [resolveOrder, resolveOrder]
    simp only [ih]
    rfl

/-- The byte order plays no part in how a layout is arranged. -/
theorem arrangement_opposite : layout.opposite.arrangement = layout.arrangement := by
  have hstream : layout.opposite.streamIndices = layout.streamIndices := by
    unfold streamIndices
    simp only [resolveOrder_opposite]
    rfl
  have hstorage : layout.opposite.storageIndices = layout.storageIndices := by
    unfold storageIndices
    simp only [resolveOrder_opposite]
    rfl
  unfold arrangement
  rw [hstream, hstorage, checkAxes_opposite]
  rfl

/-- The end of the mirrored source is where that of the source is. -/
theorem finishTable_mirrored (h : source.Mirrors other) (total : Option Nat)
    (axes : List (Axis Float)) (values : Array Float) :
    Reading.Mirrored Eq (finishTable total axes values source)
      (finishTable total axes values other) := by
  unfold finishTable
  rw [Reading.get_bind, Reading.get_bind, h.position_eq]
  cases total with
  | none => exact Reading.Mirrored.lift h _
  | some known =>
    dsimp only
    split
    · exact Reading.Mirrored.lift h _
    · exact .error _

/-- **Reading.**  In front of mirror images the layouts of opposite byte orders read the same
    table, or fail alike. -/
theorem readTable_mirrored (h : source.Mirrors other) (total : Option Nat) :
    Reading.Mirrored Eq (layout.readTable arithmetic total source)
      (layout.opposite.readTable arithmetic total other) := by
  unfold readTable
  rw [arrangement_opposite]
  refine (Reading.Mirrored.lift h _).bind_eq fun arrangement rest rest' hrest => ?_
  refine (readAxes_mirrored hrest total _).bind_eq fun vectors rest rest' hrest => ?_
  refine (Reading.Mirrored.lift hrest _).bind_eq fun axes rest rest' hrest => ?_
  refine (Reading.Mirrored.lift hrest _).bind_eq fun count rest rest' hrest => ?_
  rw [Reading.get_bind, Reading.get_bind, hrest.position_eq]
  refine (Reading.Mirrored.lift hrest _).bind_eq fun _ rest rest' hrest => ?_
  refine (readVector_mirrored _ hrest _ count).bind_eq fun block rest rest' hrest => ?_
  refine (skipTrailers_mirrored hrest _ 0).bind_eq fun _ rest rest' hrest => ?_
  exact finishTable_mirrored hrest total axes _

/-- A byte string of whole words is decoded as its mirror image is. -/
theorem decodeAll_opposite {bytes : List UInt8} (h : 4 ∣ bytes.length) :
    layout.opposite.decodeAll arithmetic (reverseWords bytes)
      = layout.decodeAll arithmetic bytes := by
  have hread : Reading.Mirrored Eq _ (layout.opposite.readTable arithmetic _ _) :=
    readTable_mirrored (Source.mirrors_ofBytes h) (some bytes.length)
  unfold decodeAll
  rw [length_reverseWords]
  generalize layout.readTable arithmetic (some bytes.length) (.ofBytes bytes) = outcome at hread
  generalize layout.opposite.readTable arithmetic (some bytes.length)
      (.ofBytes (reverseWords bytes)) = outcome' at hread
  cases hread with
  | ok result mirrors => rw [result]; rfl
  | error error => rfl

/-! ### Writing tables -/

/-- The trailing vectors are written as the same pieces in either byte order. -/
theorem trailerPieces_opposite (trailers : List Trailer) (index : Nat) :
    layout.opposite.trailerPieces trailers index = layout.trailerPieces trailers index := by
  induction trailers generalizing index with
  | nil => rfl
  | cons trailer trailers ih =>
    rw [trailerPieces, trailerPieces, ih]
    rfl

/-- The byte order plays no part in what is written. -/
theorem pieces_opposite (arrangement : Arrangement) (table : Table Float) :
    layout.opposite.pieces arrangement table = layout.pieces arrangement table := by
  unfold pieces
  rw [trailerPieces_opposite]
  rfl

/-- The comparison with the supplied nodes does not depend on the byte order. -/
theorem checkSupplied_opposite (pairs : List (AxisEntry × Axis Float)) :
    layout.opposite.checkSupplied pairs = layout.checkSupplied pairs := by
  induction pairs with
  | nil => rfl
  | cons pair pairs ih =>
    rw [checkSupplied, checkSupplied, ih]
    rfl

/-- Where the values of a table go does not depend on the byte order. -/
theorem arrangementFor_opposite (table : Table Float) :
    layout.opposite.arrangementFor table = layout.arrangementFor table := by
  unfold arrangementFor
  rw [arrangement_opposite, checkSupplied_opposite]
  rfl

/-- **Writing.**  To sinks that are mirror images the layouts of opposite byte orders write the same
    words, as far as they get, and fail alike. -/
theorem encodeTo_mirrored {sink other : Sink} (h : sink.Mirrors other) (table : Table Float) :
    (layout.opposite.encodeTo table other).2 = (layout.encodeTo table sink).2 ∧
      (layout.encodeTo table sink).1.Mirrors (layout.opposite.encodeTo table other).1 := by
  unfold encodeTo
  rw [arrangementFor_opposite]
  cases layout.arrangementFor table with
  | error fault => exact ⟨rfl, h⟩
  | ok arrangement =>
    dsimp only
    rw [pieces_opposite]
    exact Sink.writeAll_mirrored layout.byteOrder h _

/-- **Encoding** in the opposite byte order reverses every word of the output and keeps the
    errors. -/
theorem encode_opposite (table : Table Float) :
    layout.opposite.encode table = (layout.encode table).map reverseWords := by
  have hempty : Sink.unlimited.Mirrors Sink.unlimited := ⟨rfl, Nat.dvd_zero 4, rfl⟩
  obtain ⟨houtcome, hsinks⟩ := @encodeTo_mirrored layout _ _ hempty table
  unfold encode
  generalize layout.encodeTo table .unlimited = result at houtcome hsinks
  generalize layout.opposite.encodeTo table .unlimited = result' at houtcome hsinks
  obtain ⟨sink, outcome⟩ := result
  obtain ⟨other, outcome'⟩ := result'
  obtain rfl : outcome' = outcome := houtcome
  cases outcome' with
  | ok => exact congrArg Except.ok hsinks.written_eq
  | error error => rfl

/-! ### Both directions -/

/-- **Byte order** is a mirror of words.  Layouts that differ in nothing else decode a byte string
    of whole words and its mirror image to the same table, bit for bit, or to the same error, and
    encode every table as mirror images, or with the same error. -/
theorem decodeAll_encode_opposite {little big : Layout} (hlittle : little.byteOrder = .little)
    (hbig : big = { little with byteOrder := .big }) :
    (∀ (arithmetic : Arithmetic) (bytes : List UInt8), 4 ∣ bytes.length →
      big.decodeAll arithmetic (reverseWords bytes) = little.decodeAll arithmetic bytes) ∧
    ∀ table, big.encode table = (little.encode table).map reverseWords := by
  have hopposite : big = little.opposite := by
    rw [hbig, opposite, hlittle]
    rfl
  rw [hopposite]
  exact ⟨fun arithmetic bytes h => decodeAll_opposite h, fun table => encode_opposite table⟩

/-- A turned table, and the same with its words in the little byte order. -/
theorem decodeAll_encode_opposite_turned :
    ∃ named, turned.decodeAll .checked turnedBytes = .ok named ∧
      { turned with byteOrder := .little }.decodeAll .checked (reverseWords turnedBytes)
        = .ok named ∧
      turned.encode named.toTable
        = ({ turned with byteOrder := .little }.encode named.toTable).map reverseWords := by
  have hshape : (turned.decodeAll .checked turnedBytes).toOption.map (fun named => named.shape)
      = some [2, 2, 1, 3] := by decide +kernel
  have hturned : reverseWords (reverseWords turnedBytes) = turnedBytes := by decide +kernel
  obtain ⟨named, h, -⟩ := exists_of_map_toOption hshape
  obtain ⟨hdecode, hencode⟩ :=
    @decodeAll_encode_opposite { turned with byteOrder := .little } turned rfl rfl
  have hlittle := hdecode .checked (reverseWords turnedBytes) (by decide +kernel)
  rw [hturned, h] at hlittle
  exact ⟨named, h, hlittle.symm, hencode named.toTable⟩

end Layout

end GridLookup
