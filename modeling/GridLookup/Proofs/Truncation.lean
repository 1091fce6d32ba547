import GridLookup.Proofs.Extent
import GridLookup.Proofs.KnownLength

namespace GridLookup

/-!
# Cut streams

A stream that breaks off before its last byte is refused, and the error depends on where the cut
falls.  If the length is known, the values are missed before they are read.

* `Layout.AxisImage.needs`, `Layout.TrailerImage.needs` — images are what reading needs.
* `Layout.decoded_blockEnd_lt` — the values end at a 64-bit position.
* `Layout.refused_of_cut` — the error for each cut.
* `Layout.decodeFrom_of_front` — what stands behind a table is not touched, and a read that fails
  within it is reported as it is.
-/

namespace Layout

variable {layout : Layout} {arithmetic : Arithmetic} {total : Option Nat} {source rest : Source}
  {bytes : List UInt8}

/-! ### The bytes of each part -/

/-- Axis vectors need their image. -/
theorem AxisImage.needs {vectors : Vectors} (h : layout.AxisImage vectors bytes) (position : Nat) :
    (layout.readAxes none (vectors.map Prod.fst)).Needs position bytes vectors :=
  (readAxes_exact _).needs fun _ _ hbytes =>
    readAxes_complete none h (by rw [hbytes, List.append_nil]) (by rintro _ ⟨⟩)

/-- Trailing vectors need their image. -/
theorem TrailerImage.needs {trailers : List Trailer}
    (h : layout.TrailerImage arithmetic trailers bytes) (index position : Nat) :
    (layout.skipTrailers arithmetic trailers index).Needs position bytes () :=
  (skipTrailers_exact trailers index).needs fun _ _ hbytes =>
    skipTrailers_complete index h (by rw [hbytes, List.append_nil])

/-! ### Refusals -/

/-- Vectors that cannot be read are no table. -/
theorem readTable_of_readAxes_error {arrangement : Arrangement} {error : StoreError}
    (harranged : layout.arrangement = .ok arrangement)
    (h : layout.readAxes total arrangement.stream source = .error error) :
    layout.readTable arithmetic total source = .error error := by
  unfold readTable
  rw [Reading.lift_bind_of_ok (mapError_eq_ok_iff.mpr harranged)]
  exact Reading.bind_of_error h

/-- A block that passes a known end is refused with both lengths. -/
theorem checkBlock_of_lt {known position count : Nat} (hfits : position + 4 * count < 1 <<< 64)
    (hshort : known < position + 4 * count) :
    layout.checkBlock (some known) position count
      = .error (.lengthMismatch (position + 4 * count) known) := by
  unfold checkBlock
  dsimp only
  rw [if_pos hfits, if_pos hshort]

/-- A block that does not fit is refused before it is read. -/
theorem readValues_of_checkBlock_error {arrangement : Arrangement} {axes : List (Axis Float)}
    {error : StoreError}
    (h : layout.checkBlock total source.position (Shape.cells (axes.map Axis.size))
      = .error error) :
    layout.readValues arithmetic total arrangement axes source = .error error := by
  unfold readValues
  rw [Reading.get_bind]
  exact Reading.lift_bind_of_error h

/-- Trailing vectors that cannot be skipped refuse the table. -/
theorem readValues_of_skipTrailers_error {arrangement : Arrangement} {axes : List (Axis Float)}
    {block : Array Word} {middle : Source} {error : StoreError}
    (hcheck : layout.checkBlock total source.position (Shape.cells (axes.map Axis.size)) = .ok ())
    (hblock : readVector layout.byteOrder "value block" (Shape.cells (axes.map Axis.size)) source
      = .ok (block, middle))
    (h : layout.skipTrailers arithmetic layout.trailers 0 middle = .error error) :
    layout.readValues arithmetic total arrangement axes source = .error error := by
  unfold readValues
  rw [Reading.get_bind, Reading.lift_bind_of_ok hcheck, Reading.bind_of_ok hblock]
  exact Reading.bind_of_error h

/-- What refuses the table refuses all the bytes. -/
theorem decodeAll_of_readTable_error {error : StoreError}
    (h : layout.readTable arithmetic (some bytes.length) (.ofBytes bytes) = .error error) :
    layout.decodeAll arithmetic bytes = .error error := by
  unfold decodeAll
  rw [h]
  rfl

/-! ### Cuts -/

/-- The values that have been read end at a 64-bit position. -/
theorem readTable_blockEnd_lt {table : Table Float}
    (h : layout.readTable arithmetic total source = .ok (table, rest)) :
    source.position + layout.blockEnd table.shape < 1 <<< 64 := by
  obtain ⟨arrangement, vectors, axes, middle, front, hvalues⟩ := readTable_eq_ok_iff.mp h
  obtain ⟨block, whole, image, -⟩ := front.sound hvalues
  obtain ⟨hcheck, -, -, -, -, -, rfl, -⟩ := readValues_eq_ok_iff.mp hvalues
  obtain ⟨-, bytes, himage, hpassed⟩ := readAxes_sound front.vectors_read
  have hfits : middle.position + 4 * Shape.cells table.shape < 1 <<< 64 :=
    (checkBlock_eq_ok_iff.mp hcheck).1
  have hfront : bytes.length = layout.frontSize table.shape := by
    rw [himage.length_eq, image.sum_vectors, frontSize]
  rw [hpassed.position_eq, hfront] at hfits
  rw [blockEnd, ← Nat.add_assoc]
  exact hfits

/-- The block of a table that was read ends within what a word can count. -/
theorem decoded_blockEnd_lt {named : NamedTable Float}
    (h : layout.decodeAll arithmetic bytes = .ok named) :
    layout.blockEnd named.shape < 1 <<< 64 := by
  obtain ⟨⟨table, rest⟩, hread, hnamed⟩ := bind_eq_ok_iff.mp h
  obtain ⟨rfl, -⟩ := nameTable_eq_ok_iff.mp hnamed
  have hlt := readTable_blockEnd_lt hread
  rwa [show (Source.ofBytes bytes).position = 0 from rfl, Nat.zero_add] at hlt

namespace Image

variable {arrangement : Arrangement} {vectors : Vectors} {block : Array Word} {table : Table Float}
  (image : layout.Image arithmetic arrangement vectors block table bytes) {cut : List UInt8}

include image

/-- Cut within its axis vectors, a table runs out of bytes. -/
theorem refused_in_front (hcut : cut <+: bytes)
    (hlength : cut.length < layout.frontSize table.shape) :
    ∃ part, layout.decodeAll arithmetic cut = .error (.truncated part) := by
  obtain ⟨front, back, hfront, -, rfl, hsize, -⟩ := image.parts
  rw [← hsize] at hlength
  have hneeds := hfront.needs 0
  rw [image.stream] at hneeds
  have hcut' : (Source.ofBytes cut).bytes <+: front := by
    rw [Source.bytes_ofBytes]
    rw [List.append_assoc] at hcut
    exact List.prefix_of_prefix_length_le hcut (List.prefix_append ..) hlength.le
  obtain ⟨error, hread, part, rfl⟩ := hneeds.cut rfl hcut' (by rwa [Source.bytes_ofBytes])
  -- With the known length the cut may have been noticed earlier.
  obtain ⟨part', hread'⟩ :=
    (readAxes_alike (Source.endsAt_ofBytes cut) arrangement.stream).truncated hread
  exact ⟨part', decodeAll_of_readTable_error (readTable_of_readAxes_error image.arranged hread')⟩

/-- Cut behind its axis vectors, a table is read up to its values. -/
theorem front_of_cut (hcut : cut <+: bytes) (hfits : layout.blockEnd table.shape < 1 <<< 64)
    (hlength : layout.frontSize table.shape ≤ cut.length) :
    ∃ middle, layout.Front (some cut.length) arrangement vectors table.axes (.ofBytes cut) middle ∧
      middle.position = layout.frontSize table.shape ∧ middle.ending = .complete ∧
      middle.bytes = cut.drop (layout.frontSize table.shape) := by
  obtain ⟨front, back, hfront, -, rfl, hsize, -⟩ := image.parts
  have hneeds := hfront.needs 0
  rw [image.stream] at hneeds
  rw [← hsize] at hlength
  -- The axis vectors are left whole, so they are read as before.
  have hcut' : front <+: cut := by
    rw [List.append_assoc] at hcut
    exact List.prefix_of_prefix_length_le (List.prefix_append ..) hcut hlength
  obtain ⟨tail, rfl⟩ := hcut'
  obtain ⟨middle, hread, hpassed⟩ :=
    hneeds.enough (.ofBytes (front ++ tail)) tail rfl (Source.bytes_ofBytes _)
  have hcounted : Shape.cells table.shape < 1 <<< 64 := by
    rw [blockEnd] at hfits
    omega
  refine ⟨middle, (front_some_iff (Source.endsAt_ofBytes _)).mpr
    ⟨image.arranged, hread, image.axes, hcounted⟩, ?_, hpassed.ending_eq, ?_⟩
  · rw [hpassed.position_eq, hsize]
    exact Nat.zero_add _
  · rw [List.drop_left' hsize]
    exact hpassed.rest_eq (Source.bytes_ofBytes _)

/-- Cut within its values, a table has the wrong length. -/
theorem refused_in_block (hcut : cut <+: bytes) (hfits : layout.blockEnd table.shape < 1 <<< 64)
    (hfront : layout.frontSize table.shape ≤ cut.length)
    (hlength : cut.length < layout.blockEnd table.shape) :
    layout.decodeAll arithmetic cut
      = .error (.lengthMismatch (layout.blockEnd table.shape) cut.length) := by
  obtain ⟨middle, front, hposition, -⟩ := image.front_of_cut hcut hfits hfront
  refine decodeAll_of_readTable_error ?_
  rw [front.readTable_eq]
  refine readValues_of_checkBlock_error ?_
  rw [hposition]
  exact checkBlock_of_lt hfits hlength

/-- Cut within its trailing vectors, a table runs out of bytes. -/
theorem refused_in_trailers (hcut : cut <+: bytes) (hshort : cut.length < bytes.length)
    (hfits : layout.blockEnd table.shape < 1 <<< 64)
    (hlength : layout.blockEnd table.shape ≤ cut.length) :
    ∃ part, layout.decodeAll arithmetic cut = .error (.truncated part) := by
  have hle : layout.frontSize table.shape ≤ cut.length := (Nat.le_add_right _ _).trans hlength
  obtain ⟨middle, front, hposition, hending, hmiddle⟩ := image.front_of_cut hcut hfits hle
  obtain ⟨vectorBytes, back, -, hback, rfl, hsize, hend⟩ := image.parts
  -- The block is still there as a whole.
  obtain ⟨tail, rfl⟩ : vectorBytes ++ Word.writeAll layout.byteOrder block.toList <+: cut :=
    List.prefix_of_prefix_length_le (List.prefix_append ..) hcut (hend.trans_le hlength)
  rw [List.append_assoc, List.drop_left' hsize] at hmiddle
  have hcells : block.toList.length = Shape.cells table.shape := by
    rw [Array.length_toList, image.complete]
  obtain ⟨middle', hblock, hpassed⟩ := readVector_complete "value block" hmiddle
  rw [hcells, Array.toArray_toList] at hblock
  -- What is left of the trailing vectors is too short.
  have htail : middle'.bytes = tail := hpassed.rest_eq hmiddle
  rw [List.prefix_append_right_inj, ← htail] at hcut
  have hcutShort : middle'.bytes.length < back.length := by
    simp only [List.length_append] at hshort
    rw [htail]
    omega
  obtain ⟨error, hskip, hexplains⟩ :=
    (hback.needs 0 middle'.position).cut rfl hcut hcutShort
  rw [hpassed.ending_eq, hending] at hexplains
  obtain ⟨part, rfl⟩ := hexplains
  refine ⟨part, decodeAll_of_readTable_error ?_⟩
  rw [front.readTable_eq]
  refine readValues_of_skipTrailers_error (checkBlock_eq_ok_iff.mpr ⟨?_, ?_⟩) hblock hskip
  · rw [hposition]
    exact hfits
  · rintro _ ⟨⟩
    rw [hposition]
    exact hlength

end Image

/-- **Cut streams.**  Whatever is cut off a decoded byte string, the rest is refused.  As a stream
    of unknown length it runs out of bytes.  As a whole it does so too if the cut is within the
    axis vectors or behind the values; if the cut is within the values, it has the wrong length. -/
theorem refused_of_cut {cut : List UInt8} {named : NamedTable Float}
    (h : layout.decodeAll arithmetic bytes = .ok named) (hcut : cut <+: bytes)
    (hshort : cut.length < bytes.length) :
    (∀ source : Source, source.position = 0 → source.bytes = cut → source.ending = .complete →
      ∃ part, layout.decodeFrom arithmetic source = .error (.truncated part)) ∧
    (cut.length < layout.frontSize named.shape →
      ∃ part, layout.decodeAll arithmetic cut = .error (.truncated part)) ∧
    (layout.frontSize named.shape ≤ cut.length → cut.length < layout.blockEnd named.shape →
      layout.decodeAll arithmetic cut
        = .error (.lengthMismatch (layout.blockEnd named.shape) cut.length)) ∧
    (layout.blockEnd named.shape ≤ cut.length →
      ∃ part, layout.decodeAll arithmetic cut = .error (.truncated part)) := by
  have hfits := decoded_blockEnd_lt h
  obtain ⟨-, arrangement, vectors, block, image⟩ := decodeAll_sound h
  refine ⟨fun source hstart hbytes hcomplete => ?_, image.refused_in_front hcut,
    image.refused_in_block hcut hfits, image.refused_in_trailers hcut hshort hfits⟩
  -- The last three parts are about a known length. For an unknown one, decoding needs all bytes.
  rw [← hbytes] at hcut hshort
  obtain ⟨error, hdecode, hexplains⟩ :=
    (decodeAll_eq_ok_iff_needs.mp h).cut hstart hcut hshort
  rw [hcomplete] at hexplains
  obtain ⟨part, rfl⟩ := hexplains
  exact ⟨part, hdecode⟩

/-- Cuts within each part of a turned table. -/
theorem refused_of_cut_turned :
    (∃ part, turned.decodeFrom .checked (.ofBytes (turnedBytes.take 91))
      = .error (.truncated part)) ∧
      (∃ part, turned.decodeAll .checked (turnedBytes.take 35) = .error (.truncated part)) ∧
      turned.decodeAll .checked (turnedBytes.take 36) = .error (.lengthMismatch 84 36) ∧
      ∃ part, turned.decodeAll .checked (turnedBytes.take 84) = .error (.truncated part) := by
  have hshape : (turned.decodeAll .checked turnedBytes).toOption.map (fun named => named.shape)
      = some [2, 2, 1, 3] := by decide +kernel
  obtain ⟨named, h, hshape⟩ := exists_of_map_toOption hshape
  have hlength : turnedBytes.length = 92 := by decide +kernel
  have hfront : turned.frontSize named.shape = 36 := by
    rw [hshape]
    decide +kernel
  have hend : turned.blockEnd named.shape = 84 := by
    rw [hshape]
    decide +kernel
  -- The theorem holds of every cut, so it can be read at each of these.
  have hcuts (count : Nat) (hcount : count < 92) :=
    refused_of_cut h (turnedBytes.take_prefix count) (by rw [List.length_take, hlength]; omega)
  have hsize (count : Nat) (hcount : count < 92) : (turnedBytes.take count).length = count := by
    rw [List.length_take, hlength]
    omega
  rw [hfront, hend] at hcuts
  refine ⟨(hcuts 91 (by decide)).1 _ rfl (Source.bytes_ofBytes _) rfl,
    (hcuts 35 (by decide)).2.1 (by rw [hsize 35 (by decide)]; decide), ?_,
    (hcuts 84 (by decide)).2.2.2 (by rw [hsize 84 (by decide)])⟩
  have hblock := (hcuts 36 (by decide)).2.2.1
  rw [hsize 36 (by decide)] at hblock
  exact hblock (by decide) (by decide)

/-! ### Streams that go on or fail -/

/-- **Nothing but the table is read.**  Every stream that begins with the bytes of a table yields
    it, in whatever pieces they arrive, and is left right behind them, whether more bytes, a failure
    or the end come next.  A stream that fails within these bytes makes decoding fail with that
    failure. -/
theorem decodeFrom_of_front {named : NamedTable Float}
    (h : layout.decodeFrom arithmetic (.ofBytes bytes) = .ok (named, rest)) :
    rest.position ≤ bytes.length ∧
    (∀ (source : Source) (tail : List UInt8), source.position = 0 →
      source.bytes = bytes.take rest.position ++ tail →
      ∃ left, layout.decodeFrom arithmetic source = .ok (named, left) ∧
        left.position = rest.position ∧ left.bytes = tail ∧ left.ending = source.ending) ∧
    (∀ (source : Source) (count : Nat) (reason : String), source.position = 0 →
      count < rest.position → source.bytes = bytes.take count → source.ending = .fault reason →
      layout.decodeFrom arithmetic source = .error (.file (.failing reason))) := by
  obtain ⟨needed, hsplit, hposition, hneeds⟩ := needs_of_decodeFrom rfl h
  rw [Source.bytes_ofBytes] at hsplit
  rw [hposition, hsplit, List.take_left]
  refine ⟨?_, fun source tail hstart hbytes => ?_,
    fun source count reason hstart hcount hbytes hfails => ?_⟩
  · rw [List.length_append]
    exact Nat.le_add_right ..
  · obtain ⟨left, hdecode, hpassed⟩ := hneeds.enough source tail hstart hbytes
    refine ⟨left, hdecode, ?_, hpassed.rest_eq hbytes, hpassed.ending_eq⟩
    rw [hpassed.position_eq, hstart, Nat.zero_add]
  · rw [List.take_append_of_le_length hcount.le] at hbytes
    have hshort : source.bytes.length < needed.length := by
      rw [hbytes, List.length_take]
      omega
    obtain ⟨error, hdecode, hexplains⟩ :=
      hneeds.cut hstart (hbytes ▸ needed.take_prefix count) hshort
    -- The stream fails behind its last byte, and so does the read that passes it.
    rw [hfails] at hexplains
    rw [hdecode, hexplains]

/-- A turned table in two pieces with three more bytes behind it, and one that fails before its
    last bytes. -/
theorem decodeFrom_of_front_turned :
    ∃ named rest, turned.decodeFrom .checked (.ofBytes turnedBytes) = .ok (named, rest) ∧
      (∃ left, turned.decodeFrom .checked
          ⟨[turnedBytes.take 5, turnedBytes.drop 5 ++ [1, 2, 3]], .fault "timed out", 0⟩
            = .ok (named, left) ∧ left.position = 92 ∧ left.bytes = [1, 2, 3]) ∧
      turned.decodeFrom .checked
          ⟨[turnedBytes.take 5, (turnedBytes.drop 5).take 80], .fault "timed out", 0⟩
        = .error (.file (.failing "timed out")) := by
  have hdecodes : (turned.decodeFrom .checked (.ofBytes turnedBytes)).toOption.map
      (fun result => result.2.position) = some 92 := by
    decide +kernel
  obtain ⟨⟨named, rest⟩, h, hposition⟩ := exists_of_map_toOption hdecodes
  dsimp only at hposition
  obtain ⟨-, hfront, hfails⟩ := decodeFrom_of_front h
  rw [hposition] at hfront hfails
  obtain ⟨left, hdecode, hleft, htail, -⟩ := hfront
    ⟨[turnedBytes.take 5, turnedBytes.drop 5 ++ [1, 2, 3]], .fault "timed out", 0⟩ [1, 2, 3] rfl
    (by decide +kernel)
  exact ⟨named, rest, h, ⟨left, hdecode, hleft, htail⟩,
    hfails _ 85 "timed out" rfl (by decide) (by decide +kernel) rfl⟩

end Layout

end GridLookup
