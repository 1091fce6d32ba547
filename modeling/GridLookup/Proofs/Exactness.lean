import GridLookup.Proofs.Decoding

namespace GridLookup

/-!
# Actions that read exactly what they need

What an action makes of a source depends on nothing but the bytes that it passes.  In front of
the same bytes it succeeds alike, whatever follows them and in whatever pieces they arrive.  If
the bytes break off earlier it fails, and the error tells how the source ends.

* `Ending.Explains` — the errors of an action that runs out of bytes.
* `Reading.Needs`, `Reading.Exact` — the bytes an action needs, and the actions that need
  exactly the bytes they pass.
* `Reading.exact_bind` — a sequence of such actions is one.
* `Layout.readTable_exact`, `Layout.decodeFrom_exact` — reading a table is one.
-/

/-- The error is that of a read beyond the last byte. -/
def Ending.Explains : Ending → StoreError → Prop
  | .complete, error => ∃ part, error = .truncated part
  | .fault reason, error => error = .file (.failing reason)

/-- The error of a read beyond the last byte, whatever was to be read, is such an error. -/
theorem Ending.explains_shortfall (ending : Ending) (part : String) :
    ending.Explains (ending.shortfall part) := by
  cases ending with
  | complete => exact ⟨part, rfl⟩
  | fault reason => rfl

namespace Reading

variable {α β : Type} {action : Reading α} {next : α → Reading β} {position : Nat}

/-- From a position on, the action needs exactly these bytes to yield its result. -/
structure Needs (action : Reading α) (position : Nat) (bytes : List UInt8) (a : α) : Prop where
  /-- The bytes are enough, whatever follows them. -/
  enough : ∀ (source : Source) (tail : List UInt8), source.position = position →
    source.bytes = bytes ++ tail → ∃ rest, action source = .ok (a, rest) ∧ source.Passed bytes rest
  /-- No byte can be missing at their end. -/
  short : ∀ (source : Source) (cut : List UInt8), source.position = position → cut ≠ [] →
    source.bytes ++ cut = bytes →
    ∃ error, action source = .error error ∧ source.ending.Explains error

/-- The action needs exactly the bytes that it passes. -/
def Exact (action : Reading α) : Prop :=
  ∀ (source : Source) (a : α) (rest : Source), action source = .ok (a, rest) →
    ∃ bytes, source.Passed bytes rest ∧ action.Needs source.position bytes a

/-- Bytes that are enough for such an action are the ones it needs. -/
theorem Exact.needs {bytes : List UInt8} {a : α} (hexact : action.Exact)
    (h : ∀ source : Source, source.position = position → source.bytes = bytes →
      ∃ rest, action source = .ok (a, rest) ∧ source.Passed bytes rest) :
    action.Needs position bytes a := by
  obtain ⟨rest, haction, hpassed⟩ := h ⟨[bytes], .complete, position⟩ rfl List.flatten_singleton
  obtain ⟨needed, hneeded, hneeds⟩ := hexact _ a rest haction
  obtain rfl : needed = bytes :=
    List.append_cancel_right (hneeded.bytes_eq.symm.trans hpassed.bytes_eq)
  exact hneeds

/-- A source that ends within the bytes is too short. -/
theorem Needs.cut {source : Source} {bytes : List UInt8} {a : α}
    (h : action.Needs position bytes a) (hposition : source.position = position)
    (hfront : source.bytes <+: bytes) (hlength : source.bytes.length < bytes.length) :
    ∃ error, action source = .error error ∧ source.ending.Explains error := by
  obtain ⟨missing, hbytes⟩ := hfront
  refine h.short source missing hposition ?_ hbytes
  rintro rfl
  rw [← hbytes, List.append_nil] at hlength
  exact Nat.lt_irrefl _ hlength

/-! ### Sequences of actions -/

/-- A result on its own needs no bytes. -/
theorem needs_pure (position : Nat) (a : α) : (pure a : Reading α).Needs position [] a where
  enough source _ _ _ := ⟨source, rfl, .refl source⟩
  short _ _ _ hcut h := absurd (List.append_eq_nil_iff.mp h).2 hcut

/-- A sequence needs the bytes of its parts, one after the other. -/
theorem Needs.bind {front back : List UInt8} {a : α} {b : β} (h : action.Needs position front a)
    (h' : (next a).Needs (position + front.length) back b) :
    (action >>= next).Needs position (front ++ back) b where
  enough source tail hposition hbytes := by
    rw [List.append_assoc] at hbytes
    obtain ⟨middle, haction, hpassed⟩ := h.enough source _ hposition hbytes
    have hmiddle : middle.position = position + front.length := by
      rw [hpassed.position_eq, hposition]
    obtain ⟨rest, hnext, hpassed'⟩ := h'.enough middle tail hmiddle (hpassed.rest_eq hbytes)
    exact ⟨rest, by rw [bind_of_ok haction, hnext], hpassed.trans hpassed'⟩
  short source cut hposition hcut hbytes := by
    -- The source ends within the bytes of the first action, or within those of the second.
    have hfirst : ∀ missing, missing ≠ [] → source.bytes ++ missing = front →
        ∃ error, (action >>= next) source = .error error ∧ source.ending.Explains error := by
      intro missing hmissing hfront
      obtain ⟨error, haction, hends⟩ := h.short source missing hposition hmissing hfront
      exact ⟨error, bind_of_error haction, hends⟩
    have hsecond : ∀ begun, source.bytes = front ++ begun → begun ++ cut = back →
        ∃ error, (action >>= next) source = .error error ∧ source.ending.Explains error := by
      intro begun hbegun hback
      obtain ⟨middle, haction, hpassed⟩ := h.enough source begun hposition hbegun
      have hmiddle : middle.position = position + front.length := by
        rw [hpassed.position_eq, hposition]
      rw [← hpassed.rest_eq hbegun] at hback
      obtain ⟨error, hnext, hends⟩ := h'.short middle cut hmiddle hcut hback
      rw [hpassed.ending_eq] at hends
      exact ⟨error, by rw [bind_of_ok haction, hnext], hends⟩
    rcases List.append_eq_append_iff.mp hbytes with
      ⟨missing, hfront, hcut'⟩ | ⟨begun, hbegun, hback⟩
    · by_cases hmissing : missing = []
      · refine hsecond [] ?_ (by rw [hcut', hmissing]; rfl)
        rw [hfront, hmissing, List.append_nil, List.append_nil]
      · exact hfirst missing hmissing hfront.symm
    · exact hsecond begun hbegun hback.symm

/-- A result on its own needs exactly the bytes that it passes, which are none. -/
theorem exact_pure (a : α) : (pure a : Reading α).Exact := by
  intro source a' rest h
  cases h
  exact ⟨[], .refl source, needs_pure _ a⟩

/-- A failure has no result to need bytes for. -/
theorem exact_throw (error : StoreError) : (throw error : Reading α).Exact := by
  intro source a rest h
  cases h

/-- **Sequences.**  Actions that need what they pass do so one after the other. -/
theorem exact_bind (h : action.Exact) (h' : ∀ a, (next a).Exact) : (action >>= next).Exact := by
  intro source b rest hbind
  obtain ⟨a, middle, haction, hnext⟩ := bind_eq_ok_iff.mp hbind
  obtain ⟨front, hpassed, hneeds⟩ := h source a middle haction
  obtain ⟨back, hpassed', hneeds'⟩ := h' a middle b rest hnext
  rw [hpassed.position_eq] at hneeds'
  exact ⟨front ++ back, hpassed.trans hpassed', hneeds.bind hneeds'⟩

/-- A check of something other than the source passes nothing. -/
theorem exact_lift_bind {outcome : Except StoreError α}
    (h : ∀ a, outcome = .ok a → (next a).Exact) :
    ((liftM outcome : Reading α) >>= next).Exact := by
  cases outcome with
  | ok a => exact h a rfl
  | error error => exact exact_throw error

/-- What does not read needs exactly the bytes that it passes, which are none. -/
theorem exact_lift (outcome : Except StoreError α) : (liftM outcome : Reading α).Exact := by
  cases outcome with
  | ok a => exact exact_pure a
  | error error => exact exact_throw error

/-- An action may look at the position of the source, which is that of the first byte it
    needs. -/
theorem exact_get_bind {next : Source → Reading β}
    (h : ∀ source other : Source, source.position = other.position → next source = next other)
    (h' : ∀ source, (next source).Exact) : ((get : Reading Source) >>= next).Exact := by
  intro source b rest hget
  rw [get_bind] at hget
  obtain ⟨bytes, hpassed, hneeds⟩ := h' source source b rest hget
  refine ⟨bytes, hpassed, fun other tail hposition hbytes => ?_,
    fun other cut hposition hcut hbytes => ?_⟩
  · rw [get_bind, h other source hposition]
    exact hneeds.enough other tail hposition hbytes
  · rw [get_bind, h other source hposition]
    exact hneeds.short other cut hposition hcut hbytes

end Reading

/-! ### Bytes, words and vectors -/

section Vectors

variable {order : ByteOrder} {vector : String} {source : Source}

/-- Too few bytes are refused as the end of the source explains. -/
theorem readBytes_short (part : String) {count : Nat} (h : source.bytes.length < count) :
    ∃ error, readBytes count part source = .error error ∧ source.ending.Explains error :=
  ⟨_, readBytes_of_short part h, source.ending.explains_shortfall part⟩

/-- Reading bytes needs exactly these. -/
theorem readBytes_exact (count : Nat) (part : String) : (readBytes count part).Exact := by
  intro source bytes rest h
  obtain ⟨hlength, hpassed⟩ := readBytes_sound h
  refine ⟨bytes, hpassed, fun other tail _ hbytes => readBytes_complete part hlength hbytes,
    fun other cut _ hcut hbytes => readBytes_short part ?_⟩
  have hpos := List.length_pos_of_ne_nil hcut
  rw [← hlength, ← hbytes, List.length_append]
  omega

/-- Reading a length word needs exactly its bytes. -/
theorem readLengthWord_exact (kind : LengthWord) (order : ByteOrder) (vector : String) :
    (readLengthWord kind order vector).Exact := by
  refine Reading.exact_bind (readBytes_exact _ _) fun bytes => ?_
  split
  · split
    · exact Reading.exact_pure _
    · exact Reading.exact_throw _
  · exact Reading.exact_throw _

/-- Reading the portions of a vector needs exactly their bytes. -/
theorem readPortions_exact (remaining : Nat) (words : Array Word) :
    (readPortions order vector remaining words).Exact := by
  induction remaining using Nat.strong_induction_on generalizing words with
  | _ remaining ih =>
    rw [readPortions]
    split
    · next hmore =>
      have hpositive : 0 < wordsAtOnce := by decide
      exact Reading.exact_bind (readBytes_exact _ _) fun bytes => ih _ (by omega) _
    · exact Reading.exact_pure words

/-- Reading a vector needs exactly its bytes. -/
theorem readVector_exact (order : ByteOrder) (vector : String) (length : Nat) :
    (readVector order vector length).Exact := readPortions_exact length #[]

/-- A vector needs the bytes of its words. -/
theorem readVector_needs (order : ByteOrder) (vector : String) (position : Nat)
    (words : List Word) :
    (readVector order vector words.length).Needs position (Word.writeAll order words)
      words.toArray :=
  (readVector_exact order vector words.length).needs fun _ _ hbytes =>
    readVector_complete vector (by rw [hbytes, List.append_nil])

/-- A vector needs four bytes for each word. -/
theorem readVector_short (order : ByteOrder) (vector : String) {length : Nat}
    (h : source.bytes.length < 4 * length) :
    ∃ error, readVector order vector length source = .error error ∧
      source.ending.Explains error := by
  -- Whatever the missing bytes are, a vector would be read from all of them.
  have hlength : (source.bytes ++ List.replicate (4 * length - source.bytes.length) 0).length
      = 4 * length := by
    rw [List.length_append, List.length_replicate]
    omega
  obtain ⟨words, rfl, hbytes⟩ := Word.exists_writeAll order hlength
  refine (readVector_needs order vector source.position words).cut rfl ⟨_, hbytes.symm⟩ ?_
  rw [Word.length_writeAll]
  exact h

/-- Skipping a vector needs exactly its bytes. -/
theorem skipVector_exact (arithmetic : Arithmetic) (vector : String) (length : Nat) :
    (skipVector arithmetic vector length).Exact :=
  Reading.exact_lift_bind fun _ _ =>
    Reading.exact_bind (readBytes_exact _ _) fun _ => Reading.exact_pure ()

end Vectors

/-! ### Tables -/

namespace Layout

variable {layout : Layout} {arithmetic : Arithmetic}

/-- Where no end is known, an axis is read as a length and a vector. -/
theorem readAxis_none (layout : Layout) (index : Nat) :
    layout.readAxis none index
      = readLengthWord layout.lengthWord layout.byteOrder (layout.nameAt index) >>= fun length =>
          readVector layout.byteOrder (layout.nameAt index) length := rfl

/-- Reading the axes needs exactly their bytes. -/
theorem readAxes_exact (stream : List Nat) : (layout.readAxes none stream).Exact := by
  induction stream with
  | nil => exact Reading.exact_pure []
  | cons index stream ih =>
    rw [readAxes, readAxis_none]
    refine Reading.exact_bind (Reading.exact_bind (readLengthWord_exact _ _ _)
      fun length => readVector_exact _ _ length) fun words => ?_
    exact Reading.exact_bind ih fun vectors => Reading.exact_pure _

/-- Skipping the trailing vectors needs exactly their bytes. -/
theorem skipTrailers_exact (trailers : List Trailer) (index : Nat) :
    (layout.skipTrailers arithmetic trailers index).Exact := by
  induction trailers generalizing index with
  | nil => exact Reading.exact_pure ()
  | cons trailer trailers ih =>
    have hskip (length : Nat) :
        (skipVector arithmetic s!"trailing vector {index}" length >>= fun _ =>
          layout.skipTrailers arithmetic trailers (index + 1)).Exact :=
      Reading.exact_bind (skipVector_exact _ _ _) fun _ => ih (index + 1)
    unfold skipTrailers
    cases trailer.count with
    | some count => exact hskip count
    | none => exact Reading.exact_bind (readLengthWord_exact _ _ _) hskip

/-- Reading what follows the axes needs exactly its bytes. -/
theorem readValues_exact (arrangement : Arrangement) (axes : List (Axis Float)) :
    (layout.readValues arithmetic none arrangement axes).Exact := by
  refine Reading.exact_get_bind (fun source other hposition => by rw [hposition]) fun source => ?_
  refine Reading.exact_lift_bind fun _ _ => ?_
  refine Reading.exact_bind (readVector_exact _ _ _) fun block => ?_
  refine Reading.exact_bind (skipTrailers_exact _ _) fun _ => ?_
  exact Reading.exact_get_bind (fun _ _ _ => rfl) fun _ => Reading.exact_lift _

/-- **Reading a table** needs exactly the bytes of the table. -/
theorem readTable_exact : (layout.readTable arithmetic none).Exact := by
  refine Reading.exact_lift_bind fun arrangement _ => ?_
  refine Reading.exact_bind (readAxes_exact _) fun vectors => ?_
  refine Reading.exact_lift_bind fun axes _ => ?_
  refine Reading.exact_lift_bind fun count hcount => ?_
  obtain ⟨rfl, -⟩ := countValues_eq_ok_iff.mp hcount
  exact readValues_exact arrangement axes

/-- **Decoding** needs exactly the bytes of the table. -/
theorem decodeFrom_exact : Reading.Exact (layout.decodeFrom arithmetic) :=
  Reading.exact_bind readTable_exact fun table => Reading.exact_lift (layout.nameTable table)

end Layout

end GridLookup
