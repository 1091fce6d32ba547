import GridLookup.Proofs.Exactness
import GridLookup.Proofs.Placement

namespace GridLookup

/-!
# Streams of known length

Where the length of a stream is known, its parts are checked against it before they are read.
The checks refuse only what could not have been read anyway, and what leaves bytes over.

* `Source.EndsAt` — a stream of known length.
* `Reading.Alike` — outcomes that agree, or run out of bytes at different checks.
* `Layout.readAxes_alike` — axis vectors are read as if the length were not known.
* `Layout.readTable_some`, `Layout.readTable_none` — tables are, if no byte is left over.
* `Layout.decodeAll_eq_ok_iff_needs` — byte strings are decoded that a stream needs.
* `Layout.decodeAll_iff_decodeFrom` — decoding a byte string and decoding a stream of its bytes.
-/

/-- No byte follows the position `total`. -/
structure Source.EndsAt (source : Source) (total : Nat) : Prop where
  /-- The bytes that are left end there. -/
  position_add : source.position + source.bytes.length = total
  /-- They are complete. -/
  complete : source.ending = .complete

/-- A source made of bytes ends behind them. -/
theorem Source.endsAt_ofBytes (bytes : List UInt8) : (ofBytes bytes).EndsAt bytes.length where
  position_add := by
    rw [bytes_ofBytes]
    exact Nat.zero_add _
  complete := rfl

/-- Reading does not move the end of a source. -/
theorem Source.Passed.endsAt {source rest : Source} {bytes : List UInt8} {total : Nat}
    (h : source.Passed bytes rest) (hends : source.EndsAt total) : rest.EndsAt total where
  position_add := by
    rw [h.position_eq, ← hends.position_add, h.bytes_eq, List.length_append, Nat.add_assoc]
  complete := h.ending_eq.trans hends.complete

namespace Reading

variable {α β : Type} {outcome other : Except StoreError α}

/-- Two outcomes are the same, or both tell that the stream has ended early. -/
def Alike (outcome other : Except StoreError α) : Prop :=
  outcome = other ∨
    ∃ part part', outcome = .error (.truncated part) ∧ other = .error (.truncated part')

/-- An outcome is like itself. -/
theorem Alike.refl (outcome : Except StoreError α) : Alike outcome outcome := .inl rfl

/-- Outcomes that are alike succeed with the same result. -/
theorem Alike.eq_ok_iff (h : Alike outcome other) {a : α} : outcome = .ok a ↔ other = .ok a := by
  obtain rfl | ⟨part, part', rfl, rfl⟩ := h
  · rfl
  · constructor <;> exact nofun

/-- What is like a truncation is one. -/
theorem Alike.truncated (h : Alike outcome other) {part : String}
    (hother : other = .error (.truncated part)) :
    ∃ part, outcome = .error (.truncated part) := by
  obtain rfl | ⟨part', -, houtcome, -⟩ := h
  · exact ⟨part, hother⟩
  · exact ⟨part', houtcome⟩

/-- Two sequences of readings are alike if their parts are. -/
theorem Alike.bind {action action' : Reading α} {next next' : α → Reading β} {source : Source}
    (h : Alike (action source) (action' source))
    (h' : ∀ a middle, action' source = .ok (a, middle) → Alike (next a middle) (next' a middle)) :
    Alike ((action >>= next) source) ((action' >>= next') source) := by
  obtain heq | ⟨part, part', haction, haction'⟩ := h
  · match hresult : action' source with
    | .ok (a, middle) =>
      rw [bind_of_ok (heq.trans hresult), bind_of_ok hresult]
      exact h' a middle hresult
    | .error error =>
      rw [bind_of_error (heq.trans hresult), bind_of_error hresult]
      exact .refl _
  · exact .inr ⟨part, part', bind_of_error haction, bind_of_error haction'⟩

end Reading

namespace Layout

variable {layout : Layout} {arithmetic : Arithmetic} {total : Nat} {source rest : Source}

/-! ### Axis vectors -/

/-- A vector that is refused for its length would have run out of bytes. -/
theorem readAxis_alike (hends : source.EndsAt total) (index : Nat) :
    Reading.Alike (layout.readAxis (some total) index source)
      (layout.readAxis none index source) := by
  rw [readAxis_none]
  refine Reading.Alike.bind (.refl _) fun length middle hlength => ?_
  obtain ⟨_, _, hpassed⟩ := readLengthWord_sound hlength
  have hends := hpassed.endsAt hends
  rw [Reading.get_bind]
  split
  · -- The check in advance refuses the very vectors of which the bytes would run out.
    next hbeyond =>
    have hshort : middle.bytes.length < 4 * length := by
      have hbeyond : total < middle.position + 4 * length := of_decide_eq_true hbeyond
      have := hends.position_add
      omega
    obtain ⟨error, hread, hexplains⟩ :=
      readVector_short layout.byteOrder (layout.nameAt index) hshort
    rw [hends.complete] at hexplains
    obtain ⟨part, rfl⟩ := hexplains
    exact .inr ⟨_, part, rfl, hread⟩
  · exact .refl _

/-- Whether the end is known or not, the axes are read alike. -/
theorem readAxes_alike (hends : source.EndsAt total) (stream : List Nat) :
    Reading.Alike (layout.readAxes (some total) stream source)
      (layout.readAxes none stream source) := by
  induction stream generalizing source with
  | nil => exact .refl _
  | cons index stream ih =>
    refine Reading.Alike.bind (readAxis_alike hends index) fun words middle hwords => ?_
    obtain ⟨_, _, hpassed⟩ := readAxis_sound hwords
    exact Reading.Alike.bind (ih (hpassed.endsAt hends)) fun _ _ _ => .refl _

/-- The same stands in front of the values, whether the length is known or not. -/
theorem front_some_iff (hends : source.EndsAt total) {arrangement : Arrangement}
    {vectors : Vectors} {axes : List (Axis Float)} {middle : Source} :
    layout.Front (some total) arrangement vectors axes source middle
      ↔ layout.Front none arrangement vectors axes source middle := by
  have hvectors : layout.readAxes (some total) arrangement.stream source = .ok (vectors, middle)
      ↔ layout.readAxes none arrangement.stream source = .ok (vectors, middle) :=
    (readAxes_alike hends arrangement.stream).eq_ok_iff
  exact ⟨fun ⟨harranged, hread, haxes, hcounted⟩ => ⟨harranged, hvectors.mp hread, haxes, hcounted⟩,
    fun ⟨harranged, hread, haxes, hcounted⟩ => ⟨harranged, hvectors.mpr hread, haxes, hcounted⟩⟩

/-- Behind the axes the source ends where it did. -/
theorem Front.endsAt {known : Option Nat} {arrangement : Arrangement} {vectors : Vectors}
    {axes : List (Axis Float)} {middle : Source}
    (front : layout.Front known arrangement vectors axes source middle)
    (hends : source.EndsAt total) : middle.EndsAt total := by
  obtain ⟨-, bytes, -, hpassed⟩ := readAxes_sound front.vectors_read
  exact hpassed.endsAt hends

/-! ### Values -/

/-- Values that can be read are read, if no byte is left over. -/
theorem readValues_some (hends : source.EndsAt total) {arrangement : Arrangement}
    {axes : List (Axis Float)} {table : Table Float}
    (h : layout.readValues arithmetic none arrangement axes source = .ok (table, rest)) :
    layout.readValues arithmetic (some total) arrangement axes source
      = if rest.position = total then .ok (table, rest)
        else .error (.lengthMismatch rest.position total) := by
  obtain ⟨hcheck, block, middle, hblock, htrailers, -, haxes, hvalues⟩ :=
    readValues_eq_ok_iff.mp h
  -- The block has been read, so it does not pass the end.
  have hknown : layout.checkBlock (some total) source.position
      (Shape.cells (axes.map Axis.size)) = .ok () := by
    refine checkBlock_eq_ok_iff.mpr ⟨(checkBlock_eq_ok_iff.mp hcheck).1, ?_⟩
    rintro _ ⟨⟩
    obtain ⟨hsize, hpassed⟩ := readVector_sound hblock
    have hend := (hpassed.endsAt hends).position_add
    rw [hpassed.position_eq, Word.length_writeAll, Array.length_toList, hsize] at hend
    omega
  rw [readValues_of_parts hknown hblock htrailers]
  split
  · next hposition =>
    refine finishTable_eq_ok_iff.mpr ⟨?_, ⟨haxes, hvalues⟩, rfl⟩
    rintro _ ⟨⟩
    exact hposition
  · next hposition => exact finishTable_of_ne axes _ hposition

/-- Values that are read with a known length are read without it. -/
theorem readValues_none {arrangement : Arrangement} {axes : List (Axis Float)}
    {table : Table Float}
    (h : layout.readValues arithmetic (some total) arrangement axes source = .ok (table, rest)) :
    layout.readValues arithmetic none arrangement axes source = .ok (table, rest) := by
  obtain ⟨hcheck, block, middle, hblock, htrailers, -, haxes, hvalues⟩ :=
    readValues_eq_ok_iff.mp h
  have hunknown : layout.checkBlock none source.position
      (Shape.cells (axes.map Axis.size)) = .ok () :=
    checkBlock_eq_ok_iff.mpr ⟨(checkBlock_eq_ok_iff.mp hcheck).1, by rintro _ ⟨⟩⟩
  exact readValues_eq_ok_iff.mpr
    ⟨hunknown, block, middle, hblock, htrailers, by rintro _ ⟨⟩, haxes, hvalues⟩

/-! ### Tables -/

/-- **Known lengths.**  What can be read without the length is read with it, if no byte is left
    over; otherwise the two lengths are named. -/
theorem readTable_some (hends : source.EndsAt total) {table : Table Float}
    (h : layout.readTable arithmetic none source = .ok (table, rest)) :
    layout.readTable arithmetic (some total) source
      = if rest.position = total then .ok (table, rest)
        else .error (.lengthMismatch rest.position total) := by
  obtain ⟨arrangement, vectors, axes, middle, front, hvalues⟩ := readTable_eq_ok_iff.mp h
  rw [((front_some_iff hends).mpr front).readTable_eq]
  exact readValues_some (front.endsAt hends) hvalues

/-- A table that ends where the source does is read without the end as well. -/
theorem readTable_none (hends : source.EndsAt total) {table : Table Float}
    (h : layout.readTable arithmetic (some total) source = .ok (table, rest)) :
    layout.readTable arithmetic none source = .ok (table, rest) ∧ rest.position = total := by
  obtain ⟨-, -, -, -, -, -, hposition⟩ := readTable_sound h
  obtain ⟨arrangement, vectors, axes, middle, front, hvalues⟩ := readTable_eq_ok_iff.mp h
  refine ⟨?_, hposition total rfl⟩
  rw [((front_some_iff hends).mp front).readTable_eq]
  exact readValues_none hvalues

/-! ### Named tables -/

variable {bytes : List UInt8} {named : NamedTable Float}

/-- What is decoded from the front of a byte string is decoded from the whole string if it is the
    whole string. -/
theorem decodeAll_of_decodeFrom
    (h : layout.decodeFrom arithmetic (.ofBytes bytes) = .ok (named, rest)) :
    layout.decodeAll arithmetic bytes
      = if rest.position = bytes.length then .ok named
        else .error (.lengthMismatch rest.position bytes.length) := by
  obtain ⟨table, hread, hnamed⟩ := decodeFrom_eq_ok_iff.mp h
  unfold decodeAll
  rw [readTable_some (Source.endsAt_ofBytes bytes) hread]
  split
  · exact hnamed
  · rfl

/-- A table made of all the bytes is read from them as from any source, up to their end. -/
theorem decodeFrom_of_decodeAll (h : layout.decodeAll arithmetic bytes = .ok named) :
    ∃ rest, layout.decodeFrom arithmetic (.ofBytes bytes) = .ok (named, rest) ∧
      rest.position = bytes.length := by
  obtain ⟨⟨table, rest⟩, hread, hnamed⟩ := bind_eq_ok_iff.mp h
  obtain ⟨hread, hposition⟩ := readTable_none (Source.endsAt_ofBytes bytes) hread
  exact ⟨rest, decodeFrom_eq_ok_iff.mpr ⟨table, hread, hnamed⟩, hposition⟩

/-- **Needed bytes.**  A byte string is decoded if a stream needs just its bytes. -/
theorem decodeAll_eq_ok_iff_needs :
    layout.decodeAll arithmetic bytes = .ok named ↔
      Reading.Needs (layout.decodeFrom arithmetic) 0 bytes named := by
  constructor
  · intro h
    obtain ⟨rest, hdecode, hposition⟩ := decodeFrom_of_decodeAll h
    obtain ⟨needed, hpassed, hneeds⟩ := decodeFrom_exact _ _ _ hdecode
    obtain rfl : needed = bytes := hpassed.eq_of_position hposition
    exact hneeds
  · intro h
    obtain ⟨rest, hdecode, hpassed⟩ := h.enough (.ofBytes bytes) [] rfl
      (by rw [Source.bytes_ofBytes, List.append_nil])
    rw [decodeAll_of_decodeFrom hdecode, if_pos]
    exact hpassed.position_eq.trans (Nat.zero_add _)

/-- What a stream passes is what it needs. -/
theorem needs_of_decodeFrom (hstart : source.position = 0)
    (h : layout.decodeFrom arithmetic source = .ok (named, rest)) :
    ∃ needed, source.bytes = needed ++ rest.bytes ∧ rest.position = needed.length ∧
      Reading.Needs (layout.decodeFrom arithmetic) 0 needed named := by
  obtain ⟨needed, hpassed, hneeds⟩ := decodeFrom_exact _ _ _ h
  rw [hstart] at hneeds
  refine ⟨needed, hpassed.bytes_eq, ?_, hneeds⟩
  rw [hpassed.position_eq, hstart, Nat.zero_add]

/-- More bytes than are needed are refused for their number. -/
theorem decodeAll_append {back : List UInt8}
    (h : Reading.Needs (layout.decodeFrom arithmetic) 0 bytes named) (hback : back ≠ []) :
    layout.decodeAll arithmetic (bytes ++ back)
      = .error (.lengthMismatch bytes.length (bytes ++ back).length) := by
  obtain ⟨rest, hdecode, hpassed⟩ := h.enough (.ofBytes (bytes ++ back)) back rfl
    (Source.bytes_ofBytes _)
  have hposition : rest.position = bytes.length := hpassed.position_eq.trans (Nat.zero_add _)
  have hpositive := List.length_pos_of_ne_nil hback
  rw [decodeAll_of_decodeFrom hdecode, hposition, if_neg]
  rw [List.length_append]
  omega

/-- **Known and unknown lengths.**  A byte string is decoded exactly if a stream of its bytes is,
    in whatever pieces they arrive, and is used up.  If bytes are left over, the byte string is
    refused for its length, and what has been read of it is decoded.  If the stream is refused,
    the byte string is. -/
theorem decodeAll_iff_decodeFrom (hstart : source.position = 0) (hbytes : source.bytes = bytes) :
    (∀ named, layout.decodeAll arithmetic bytes = .ok named ↔
      ∃ rest, layout.decodeFrom arithmetic source = .ok (named, rest) ∧ rest.bytes = []) ∧
    (∀ named rest, layout.decodeFrom arithmetic source = .ok (named, rest) →
      rest.position ≤ bytes.length ∧ rest.bytes = bytes.drop rest.position ∧
        layout.decodeAll arithmetic (bytes.take rest.position) = .ok named ∧
        (rest.position < bytes.length →
          layout.decodeAll arithmetic bytes
            = .error (.lengthMismatch rest.position bytes.length))) ∧
    (∀ error, layout.decodeFrom arithmetic source = .error error →
      ∃ error', layout.decodeAll arithmetic bytes = .error error') := by
  subst hbytes
  -- A decoded byte string is what decoding needs, so a stream of its bytes is used up.
  have hforward : ∀ named, layout.decodeAll arithmetic source.bytes = .ok named →
      ∃ rest, layout.decodeFrom arithmetic source = .ok (named, rest) ∧ rest.bytes = [] := by
    intro named h
    have hall : source.bytes = source.bytes ++ [] := (List.append_nil _).symm
    obtain ⟨rest, hdecode, hpassed⟩ :=
      (decodeAll_eq_ok_iff_needs.mp h).enough source [] hstart hall
    exact ⟨rest, hdecode, hpassed.rest_eq hall⟩
  refine ⟨fun named => ⟨hforward named, ?_⟩, fun named rest h => ?_, fun error h => ?_⟩
  · rintro ⟨rest, h, hrest⟩
    obtain ⟨needed, hsplit, -, hneeds⟩ := needs_of_decodeFrom hstart h
    rw [hrest, List.append_nil] at hsplit
    rw [hsplit]
    exact decodeAll_eq_ok_iff_needs.mpr hneeds
  · obtain ⟨needed, hsplit, hposition, hneeds⟩ := needs_of_decodeFrom hstart h
    rw [hposition, hsplit, List.take_left, List.drop_left]
    refine ⟨?_, rfl, decodeAll_eq_ok_iff_needs.mpr hneeds, fun hleft => ?_⟩
    · rw [List.length_append]
      exact Nat.le_add_right ..
    · -- With nothing left over there would be no bytes behind the position.
      refine decodeAll_append hneeds ?_
      intro hnone
      rw [hnone, List.append_nil] at hleft
      exact Nat.lt_irrefl _ hleft
  · match hall : layout.decodeAll arithmetic source.bytes with
    | .ok named =>
      obtain ⟨rest, hdecode, -⟩ := hforward named hall
      rw [hdecode] at h
      cases h
    | .error error' => exact ⟨error', rfl⟩

/-- The bytes of a turned table and three more, in two pieces. -/
theorem decodeAll_iff_decodeFrom_turned :
    ∃ named rest, turned.decodeFrom .checked
        ⟨[turnedBytes.take 5, turnedBytes.drop 5 ++ [1, 2, 3]], .complete, 0⟩ = .ok (named, rest) ∧
      rest.bytes = [1, 2, 3] ∧ turned.decodeAll .checked turnedBytes = .ok named ∧
      turned.decodeAll .checked (turnedBytes ++ [1, 2, 3]) = .error (.lengthMismatch 92 95) := by
  have hdecodes : (turned.decodeFrom .checked
      ⟨[turnedBytes.take 5, turnedBytes.drop 5 ++ [1, 2, 3]], .complete, 0⟩).toOption.map
        (fun result => result.2.position) = some 92 := by
    decide +kernel
  obtain ⟨⟨named, rest⟩, h, hposition⟩ := exists_of_map_toOption hdecodes
  dsimp only at hposition
  have hbytes : (⟨[turnedBytes.take 5, turnedBytes.drop 5 ++ [1, 2, 3]], .complete, 0⟩ :
      Source).bytes = turnedBytes ++ [1, 2, 3] := by
    decide +kernel
  have hlength : turnedBytes.length = 92 := by decide +kernel
  obtain ⟨-, hpart, -⟩ := @decodeAll_iff_decodeFrom turned .checked _ _ rfl hbytes
  obtain ⟨-, hrest, hfront, hleft⟩ := hpart named rest h
  rw [hposition, List.drop_left' hlength] at hrest
  rw [hposition, List.take_left' hlength] at hfront
  rw [hposition, List.length_append, hlength] at hleft
  exact ⟨named, rest, h, hrest, hfront, hleft (by decide)⟩

end Layout

end GridLookup
