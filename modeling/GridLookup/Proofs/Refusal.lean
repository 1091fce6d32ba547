import GridLookup.Proofs.Assignment
import GridLookup.Proofs.Placement
import GridLookup.Proofs.Walk

namespace GridLookup

/-!
# Why decoding refuses

Reading a table checks more than it has to: by the time axes are made up of vectors, a table is
built and axes are named, the layout has been found consistent, and these steps can only fail for
what the nodes themselves are.

* `OnlyFails` — the errors of an outcome are of some kind; `OnlyFails.bind` for sequences.
* `Layout.Refusal` — all reasons for which decoding refuses.
* `Layout.readTable_onlyFails` — there are no others.
* `Layout.decoding_fallbacks_unreachable` — so the checks that cannot fail never do, and no number
  wraps on the way.
-/

/-- Every error that the outcome can be is of the expected kind. -/
def OnlyFails {ε α : Type} (expected : ε → Prop) (outcome : Except ε α) : Prop :=
  ∀ error, outcome = .error error → expected error

namespace OnlyFails

variable {ε α β : Type} {expected : ε → Prop} {outcome : Except ε α}

/-- What succeeds does not fail. -/
theorem ok (a : α) : OnlyFails expected (.ok a : Except ε α) := nofun

/-- What fails has that failure only. -/
theorem error {error : ε} (h : expected error) :
    OnlyFails expected (.error error : Except ε α) := by
  rintro _ ⟨⟩
  exact h

/-- Failures that are of one kind are of any wider one. -/
theorem imp {other : ε → Prop} (h : OnlyFails expected outcome)
    (himp : ∀ error, expected error → other error) : OnlyFails other outcome :=
  fun error herror => himp error (h error herror)

/-- A sequence fails as its first part does, or as the second does after what the first yields. -/
theorem bind {next : α → Except ε β} (h : OnlyFails expected outcome)
    (h' : ∀ a, outcome = .ok a → OnlyFails expected (next a)) :
    OnlyFails expected (outcome >>= next) := by
  intro e he
  cases outcome with
  | error error =>
    cases he
    exact h _ rfl
  | ok a => exact h' a rfl e he

/-- A failure that is rewritten is of a kind if it is so after the rewriting. -/
theorem mapError {ε' : Type} {f : ε → ε'} {expected : ε' → Prop}
    (h : OnlyFails (fun error => expected (f error)) outcome) :
    OnlyFails expected (outcome.mapError f) := by
  intro e he
  cases outcome with
  | error error =>
    cases he
    exact h _ rfl
  | ok a => cases he

end OnlyFails

namespace Reading

variable {α β : Type} {expected : StoreError → Prop} {action : Reading α} {next : α → Reading β}
  {source : Source}

/-- A sequence of two readings fails as the first or as the second does. -/
theorem onlyFails_bind (h : OnlyFails expected (action source))
    (h' : ∀ a middle, action source = .ok (a, middle) → OnlyFails expected (next a middle)) :
    OnlyFails expected ((action >>= next) source) := by
  show OnlyFails expected (action source >>= fun result => next result.1 result.2)
  exact h.bind fun result hresult => h' result.1 result.2 hresult

/-- What does not read from the source fails as it does on its own. -/
theorem onlyFails_lift {outcome : Except StoreError α} (h : OnlyFails expected outcome) :
    OnlyFails expected ((liftM outcome : Reading α) source) := by
  cases outcome with
  | error error => exact .error (h _ rfl)
  | ok a => exact .ok _

/-- What does not read from the source and the reading behind it fail as either does. -/
theorem onlyFails_lift_bind {outcome : Except StoreError α} (h : OnlyFails expected outcome)
    (h' : ∀ a, outcome = .ok a → OnlyFails expected (next a source)) :
    OnlyFails expected (((liftM outcome : Reading α) >>= next) source) := by
  refine onlyFails_bind (onlyFails_lift h) fun a middle ha => ?_
  obtain ⟨houtcome, rfl⟩ := lift_eq_ok_iff.mp ha
  exact h' a houtcome

end Reading

/-! ### Errors of the stream -/

/-- The stream itself is to blame: it ends, it fails, or its lengths are wrong. -/
def StoreError.OfStream : StoreError → Prop
  | .truncated _ | .lengthMismatch .. | .invalidLength .. | .file _ => True
  | .layout _ | .row .. | .yaml _ | .table _ | .overflow => False

/-- The error of a check that repeats what has been found before: a stored axis has no vector, a
    table has not one value per cell or not one name per axis, or a name occurs twice. -/
def StoreError.IsFallback : StoreError → Prop
  | .layout (.neverRead _) | .table (.sizeMismatch ..) | .table (.arityMismatch ..)
  | .table (.duplicateName _) => True
  | _ => False

section Stream

/-- Bytes are refused because of the stream only. -/
theorem readBytes_onlyFails (count : Nat) (part : String) (source : Source) :
    OnlyFails StoreError.OfStream (readBytes count part source) := by
  unfold readBytes
  dsimp only
  split
  · exact .ok _
  · split
    · exact .error trivial
    · exact .error trivial

/-- A length word is refused because of the stream only. -/
theorem readLengthWord_onlyFails (kind : LengthWord) (order : ByteOrder) (vector : String)
    (source : Source) :
    OnlyFails StoreError.OfStream (readLengthWord kind order vector source) := by
  unfold readLengthWord
  refine Reading.onlyFails_bind (readBytes_onlyFails _ _ _) fun bytes middle _ => ?_
  split
  · next a b c d _ =>
    cases kind.decode (Word.ofBytes order a b c d) with
    | ok length => exact .ok _
    | error number => exact .error trivial
  · exact .error trivial

/-- The portions of a vector are refused because of the stream only. -/
theorem readPortions_onlyFails (order : ByteOrder) (vector : String) (remaining : Nat)
    (words : Array Word) (source : Source) :
    OnlyFails StoreError.OfStream (readPortions order vector remaining words source) := by
  fun_induction readPortions order vector remaining words generalizing source with
  | case1 remaining words hmore count ih =>
    exact Reading.onlyFails_bind (readBytes_onlyFails _ _ _) fun bytes middle _ => ih bytes middle
  | case2 => exact .ok _

/-- A vector is refused because of the stream only. -/
theorem readVector_onlyFails (order : ByteOrder) (vector : String) (length : Nat)
    (source : Source) : OnlyFails StoreError.OfStream (readVector order vector length source) :=
  readPortions_onlyFails _ _ _ _ _

/-- Skipping fails for the stream or for the size of the vector. -/
theorem skipVector_onlyFails {expected : StoreError → Prop} {arithmetic : Arithmetic}
    (hstream : ∀ error, error.OfStream → expected error) {length : Nat}
    (hsize : OnlyFails expected (arithmetic.size length)) (vector : String) (source : Source) :
    OnlyFails expected (skipVector arithmetic vector length source) :=
  Reading.onlyFails_lift_bind hsize fun _ _ =>
    Reading.onlyFails_bind ((readBytes_onlyFails _ _ _).imp hstream) fun _ _ _ => .ok _

/-- A size can only fail where it is checked and does not fit. -/
theorem Arithmetic.size_onlyFails (arithmetic : Arithmetic) (length : Nat) :
    OnlyFails (fun error => error = .overflow ∧ arithmetic = .checked ∧ 1 <<< 64 ≤ 4 * length)
      (arithmetic.size length) := by
  unfold Arithmetic.size
  dsimp only
  split
  · exact .ok _
  · next hlarge =>
    cases arithmetic with
    | wrapping => exact .ok _
    | checked => exact .error ⟨rfl, rfl, Nat.le_of_not_lt hlarge⟩

end Stream

namespace Layout

variable {layout : Layout} {arithmetic : Arithmetic} {total : Option Nat} {source rest : Source}

/-- The nodes of an axis are refused because of the stream only. -/
theorem readAxis_onlyFails (index : Nat) (source : Source) :
    OnlyFails StoreError.OfStream (layout.readAxis total index source) := by
  unfold readAxis
  refine Reading.onlyFails_bind (readLengthWord_onlyFails _ _ _ _) fun length middle _ => ?_
  rw [Reading.get_bind]
  split
  · exact .error trivial
  · exact readVector_onlyFails _ _ _ _

/-- The nodes of all axes are refused because of the stream only. -/
theorem readAxes_onlyFails (stream : List Nat) (source : Source) :
    OnlyFails StoreError.OfStream (layout.readAxes total stream source) := by
  induction stream generalizing source with
  | nil => exact .ok _
  | cons index stream ih =>
    unfold readAxes
    exact Reading.onlyFails_bind (readAxis_onlyFails _ _) fun words middle _ =>
      Reading.onlyFails_bind (ih middle) fun vectors middle' _ => .ok _

/-- Skipping trailing vectors fails for the stream or for the size of a fixed one. -/
theorem skipTrailers_onlyFails {expected : StoreError → Prop}
    (hstream : ∀ error, error.OfStream → expected error) {trailers : List Trailer}
    (hsize : ∀ trailer ∈ trailers, ∀ count, trailer.count = some count →
      OnlyFails expected (arithmetic.size count)) (index : Nat) (source : Source) :
    OnlyFails expected (layout.skipTrailers arithmetic trailers index source) := by
  induction trailers generalizing index source with
  | nil => exact .ok _
  | cons trailer trailers ih =>
    rw [List.forall_mem_cons] at hsize
    unfold skipTrailers
    have hskip (length : Nat) (middle : Source)
        (hlength : OnlyFails expected (arithmetic.size length)) : OnlyFails expected ((do
          skipVector arithmetic s!"trailing vector {index}" length
          layout.skipTrailers arithmetic trailers (index + 1) : Reading Unit) middle) :=
      Reading.onlyFails_bind (skipVector_onlyFails hstream hlength _ _) fun _ middle' _ =>
        ih hsize.2 _ middle'
    cases hcount : trailer.count with
    | some count => exact hskip count source (hsize.1 count hcount)
    | none =>
      refine Reading.onlyFails_bind ((readLengthWord_onlyFails _ _ _ _).imp hstream)
        fun length middle hlength => hskip length middle ?_
      -- The size of a vector with a length word always fits.
      obtain ⟨word, hcounts, -⟩ := readLengthWord_sound hlength
      rw [Arithmetic.size_of_lt (LengthWord.size_lt hcounts)]
      exact .ok _

/-! ### Errors of the layout -/

/-- Axes are refused for their own sake, never by a fallback. -/
theorem checkAxes_onlyFails (before : List String) (axes : List AxisEntry) :
    OnlyFails (fun fault => ¬ (StoreError.layout fault).IsFallback)
      (layout.checkAxes before axes) := by
  induction axes generalizing before with
  | nil => exact .ok _
  | cons entry rest ih =>
    unfold checkAxes
    split
    · exact .error id
    split
    · exact .error id
    split
    · exact .error id
    · exact ih _

/-- An order of axes is refused for an unknown name, for a name that is not allowed or for a
    repeated one. -/
theorem resolveOrder_onlyFails {allow : Nat → String → Except LayoutFault Unit}
    {repeated : String → LayoutFault} {expected : LayoutFault → Prop}
    (hunknown : ∀ name, expected (.unknownAxis name))
    (hallow : ∀ index name, OnlyFails expected (allow index name))
    (hrepeated : ∀ name, expected (repeated name)) (names : List String) (order : List Nat) :
    OnlyFails expected (layout.resolveOrder allow repeated names order) := by
  -- Each name can fail to be known, to be allowed or to be new.
  induction names generalizing order with
  | nil => exact .ok _
  | cons name names ih =>
    unfold resolveOrder
    refine OnlyFails.bind ?_ fun index _ => (hallow index name).bind fun _ _ => ?_
    · unfold indexOf
      split
      · exact .ok _
      · exact .error (hunknown name)
    · split
      · exact .error (hrepeated name)
      · exact ih _

/-- **The arrangement.**  That an axis was never read is no fault of a layout. -/
theorem arrangement_onlyFails :
    OnlyFails (fun fault => ¬ (StoreError.layout fault).IsFallback) layout.arrangement := by
  unfold arrangement
  split
  · exact .error id
  refine OnlyFails.bind (checkAxes_onlyFails _ _) fun _ _ => ?_
  -- The checks of the program in turn, each a goal of its own.
  refine OnlyFails.bind ?trailers fun _ _ => ?_
  case trailers =>
    unfold checkTrailers
    split
    · exact .error id
    · exact .ok _
  refine OnlyFails.bind ?stream fun _ _ => OnlyFails.bind ?storage fun _ _ => .ok _
  case stream =>
    unfold streamIndices
    split
    · exact .ok _
    refine OnlyFails.bind (resolveOrder_onlyFails (fun _ => id) (fun index name => ?_)
      (fun _ => id) _ _)
      fun order _ => ?_
    · split
      · exact .ok _
      · exact .error id
    · split
      · exact .ok _
      · exact .error id
  case storage =>
    unfold storageIndices
    split
    · exact .ok _
    refine OnlyFails.bind (resolveOrder_onlyFails (fun _ => id) (fun _ _ => .ok _)
      (fun _ => id) _ _)
      fun order _ => ?_
    split
    · exact .ok _
    · exact .error id

/-! ### All reasons -/

/-- Why decoding may refuse. -/
inductive Refusal (layout : Layout) (arithmetic : Arithmetic) (total : Option Nat)
    (source : Source) : StoreError → Prop where
  /-- The stream is to blame. -/
  | stream {error : StoreError} (stream : error.OfStream) :
      Refusal layout arithmetic total source error
  /-- The layout is not consistent. -/
  | arrangement {fault : LayoutFault} (faulty : layout.arrangement = .error fault) :
      Refusal layout arithmetic total source (.layout fault)
  /-- There are more cells than a word counts. -/
  | count {arrangement : Arrangement} {vectors : Vectors} {middle : Source}
      {axes : List (Axis Float)} (arranged : layout.arrangement = .ok arrangement)
      (vectors_read : layout.readAxes total arrangement.stream source = .ok (vectors, middle))
      (axes_made : entryAxes vectors layout.axes 0 = .ok axes)
      (many : 1 <<< 64 ≤ Shape.cells (axes.map Axis.size)) :
      Refusal layout arithmetic total source (.layout (.countOverflow layout.name))
  /-- The values end beyond what a position can reach. -/
  | block {arrangement : Arrangement} {vectors : Vectors} {middle : Source}
      {axes : List (Axis Float)}
      (front : layout.Front total arrangement vectors axes source middle)
      (long : 1 <<< 64 ≤ middle.position + 4 * Shape.cells (axes.map Axis.size)) :
      Refusal layout arithmetic total source
        (.layout (.blockTooLong layout.name (Shape.cells (axes.map Axis.size))))
  /-- The nodes of an axis, supplied or read from the stream, are no axis. -/
  | axis {arrangement : Arrangement} {vectors : Vectors} {middle : Source} {index : Nat}
      {entry : AxisEntry} {nodes : Array Float} {fault : AxisFault Float}
      (arranged : layout.arrangement = .ok arrangement)
      (vectors_read : layout.readAxes total arrangement.stream source = .ok (vectors, middle))
      (entry_at : layout.axes[index]? = some entry)
      (nodes_made : axisNodes entry (vectors.lookup index) = .ok nodes)
      (faulty : axisFault? nodes.toList = some fault) :
      Refusal layout arithmetic total source (.table (.namedAxis entry.name fault))
  /-- There are more axes than a table may have. -/
  | axes (many : axisLimit < layout.axes.length) :
      Refusal layout arithmetic total source (.table (.tooManyAxes layout.axes.length axisLimit))
  /-- Sizes are checked, and that of a fixed trailing vector does not fit. -/
  | overflow {trailer : Trailer} {count : Nat} (checked : arithmetic = .checked)
      (skipped : trailer ∈ layout.trailers) (fixed : trailer.count = some count)
      (large : 1 <<< 64 ≤ 4 * count) : Refusal layout arithmetic total source .overflow

/-- Nodes are there as soon as a vector is, where one is needed. -/
theorem exists_axisNodes {entry : AxisEntry} {words : Option (Array Word)}
    (hread : entry.values = none → words.isSome = true) :
    ∃ nodes, axisNodes entry words = .ok nodes := by
  cases hvalues : entry.values with
  | some values => exact ⟨_, axisNodes_eq_ok_iff.mpr (.inl ⟨values, hvalues, rfl⟩)⟩
  | none =>
    obtain ⟨vector, hvector⟩ := Option.isSome_iff_exists.mp (hread hvalues)
    exact ⟨_, axisNodes_eq_ok_iff.mpr (.inr ⟨hvalues, vector, hvector, rfl⟩)⟩

/-- Once its nodes are at hand, an axis is refused only because of what is wrong with them. -/
theorem entryAxis_onlyFails {entry : AxisEntry} {words : Option (Array Word)}
    (hread : entry.values = none → words.isSome = true) :
    OnlyFails (fun error => ∃ nodes fault, axisNodes entry words = .ok nodes ∧
      axisFault? nodes.toList = some fault ∧ error = .table (.namedAxis entry.name fault))
      (entryAxis entry words) := by
  unfold entryAxis
  refine OnlyFails.bind (fun error herror => ?_) fun nodes hnodes => ?_
  · -- The words have been read, so the nodes are there.
    obtain ⟨nodes, hnodes⟩ := exists_axisNodes hread
    rw [hnodes] at herror
    cases herror
  · unfold Axis.ofArray
    split
    · exact .ok _
    · next fault hfault =>
      split at hfault
      · next h =>
        cases hfault
        exact .error ⟨nodes, _, hnodes, h, rfl⟩
      · cases hfault

/-- Axes can only fail for their nodes, as soon as there are vectors for all that need one. -/
theorem entryAxes_onlyFails {vectors : Vectors} {entries : List AxisEntry} {first : Nat}
    (hread : ∀ k entry, entries[k]? = some entry → entry.values = none →
      (vectors.lookup (first + k)).isSome = true) :
    OnlyFails (fun error => ∃ k entry nodes fault, entries[k]? = some entry ∧
        axisNodes entry (vectors.lookup (first + k)) = .ok nodes ∧
        axisFault? nodes.toList = some fault ∧ error = .table (.namedAxis entry.name fault))
      (entryAxes vectors entries first) := by
  induction entries generalizing first with
  | nil => exact .ok _
  | cons entry rest ih =>
    unfold entryAxes
    refine OnlyFails.bind ?first fun axis _ => OnlyFails.bind ?rest fun axes _ => .ok _
    case first =>
      refine (entryAxis_onlyFails (hread 0 entry rfl)).imp ?_
      rintro error ⟨nodes, fault, h⟩
      exact ⟨0, entry, nodes, fault, rfl, h⟩
    case rest =>
      -- The vectors of the remaining axes are looked up one index further on.
      have hshift (k : Nat) : first + 1 + k = first + (k + 1) := by omega
      have hrest : ∀ k entry, rest[k]? = some entry → entry.values = none →
          (vectors.lookup (first + 1 + k)).isSome = true := by
        intro k entry' hentry hvalues
        rw [hshift]
        exact hread (k + 1) entry' hentry hvalues
      refine (ih hrest).imp ?_
      rintro error ⟨k, entry', nodes, fault, hentry, h⟩
      rw [hshift] at h
      exact ⟨k + 1, entry', nodes, fault, hentry, h⟩

/-- Every stored axis has its vector once all have been read. -/
theorem isSome_lookup {arrangement : Arrangement} {vectors : Vectors} {middle : Source}
    (harranged : layout.arrangement = .ok arrangement)
    (h : layout.readAxes total arrangement.stream source = .ok (vectors, middle)) {index : Nat}
    {entry : AxisEntry} (hentry : layout.axes[index]? = some entry)
    (hvalues : entry.values = none) :
    (vectors.lookup index).isSome = true := by
  have hstored : index ∈ vectors.map Prod.fst := by
    rw [(readAxes_sound h).1, mem_stream_iff harranged, isStoredAt, hentry, Option.map_some,
      Option.getD_some, AxisEntry.isStored, hvalues]
    exact ⟨(List.getElem?_eq_some_iff.mp hentry).1, rfl⟩
  rw [← Option.ne_none_iff_isSome, ne_eq, List.lookup_eq_none_iff]
  intro hnone
  obtain ⟨pair, hpair, rfl⟩ := List.mem_map.mp hstored
  exact absurd (hnone pair hpair) (by simp)

section Front

variable {arrangement : Arrangement} {vectors : Vectors} {axes : List (Axis Float)}
  {middle : Source} (front : layout.Front total arrangement vectors axes source middle)

include front

/-- The size of the block is refused for the reasons listed. -/
theorem Front.checkBlock_onlyFails : OnlyFails (layout.Refusal arithmetic total source)
    (layout.checkBlock total middle.position (Shape.cells (axes.map Axis.size))) := by
  unfold checkBlock
  dsimp only
  split
  · cases total with
    | none => exact .ok _
    | some known =>
      dsimp only
      split
      · exact .error (.stream trivial)
      · exact .ok _
  · next hlong =>
    -- Where the end is known, values beyond the last position are values beyond the end.
    cases total with
    | none => exact .error (.block front (Nat.le_of_not_lt hlong))
    | some known => exact .error (.stream trivial)

/-- There are as many axes as the layout declares. -/
theorem Front.axes_length : axes.length = layout.axes.length :=
  (entryAxes_eq_ok_iff.mp front.axes_made).1

/-- A layout that was accepted has axes. -/
theorem Front.axes_ne_nil : axes ≠ [] := by
  have hsome := (arrangement_eq_ok_iff.mp front.arranged).1
  rintro rfl
  exact hsome (List.eq_nil_of_length_eq_zero front.axes_length.symm)

/-- With all its values, a table is refused for the number of its axes alone. -/
theorem Front.build_onlyFails {values : Array Float}
    (hsize : values.size = Shape.cells (axes.map Axis.size)) :
    OnlyFails (fun error => layout.Refusal arithmetic total source (.table error))
      (Table.build values axes) := by
  unfold Table.build
  rw [dif_neg front.axes_ne_nil]
  split
  · exact .ok _
  · next hmany =>
    rw [front.axes_length] at hmany ⊢
    exact .error (.axes (Nat.lt_of_not_le hmany))

/-- A table whose values fill its shape is refused for the reasons listed. -/
theorem Front.finishTable_onlyFails {values : Array Float}
    (hsize : values.size = Shape.cells (axes.map Axis.size)) (last : Source) :
    OnlyFails (layout.Refusal arithmetic total source) (finishTable total axes values last) := by
  have hbuild : OnlyFails (layout.Refusal arithmetic total source)
      ((liftM ((Table.build values axes).mapError StoreError.table) : Reading (Table Float))
        last) :=
    Reading.onlyFails_lift (front.build_onlyFails hsize).mapError
  unfold finishTable
  rw [Reading.get_bind]
  cases total with
  | none => exact hbuild
  | some known =>
    dsimp only
    split
    · exact hbuild
    · exact .error (.stream trivial)

/-- What follows the axes is refused for the reasons listed. -/
theorem Front.readValues_onlyFails :
    OnlyFails (layout.Refusal arithmetic total source)
      (layout.readValues arithmetic total arrangement axes middle) := by
  unfold readValues
  rw [Reading.get_bind]
  refine Reading.onlyFails_lift_bind front.checkBlock_onlyFails fun _ _ => ?_
  refine Reading.onlyFails_bind ((readVector_onlyFails _ _ _ _).imp fun _ => .stream)
    fun block middle' hblock => ?_
  refine Reading.onlyFails_bind (skipTrailers_onlyFails (fun _ => .stream) ?size _ _)
    fun _ last _ => ?_
  case size =>
    intro trailer htrailer count hfixed
    refine (arithmetic.size_onlyFails count).imp ?_
    rintro _ ⟨rfl, hchecked, hlarge⟩
    exact .overflow hchecked htrailer hfixed hlarge
  refine front.finishTable_onlyFails ?_ last
  rw [unnest_size, (readVector_sound hblock).1]

end Front

/-- **Refusals.**  Reading a table fails for one of these reasons. -/
theorem readTable_onlyFails (layout : Layout) (arithmetic : Arithmetic) (total : Option Nat)
    (source : Source) :
    OnlyFails (layout.Refusal arithmetic total source)
      (layout.readTable arithmetic total source) := by
  unfold readTable
  refine Reading.onlyFails_lift_bind (OnlyFails.mapError fun _ => .arrangement)
    fun arrangement harranged => ?_
  have harranged := mapError_eq_ok_iff.mp harranged
  refine Reading.onlyFails_bind ((readAxes_onlyFails _ _).imp fun _ => .stream)
    fun vectors middle hvectors => ?_
  refine Reading.onlyFails_lift_bind ?axes fun axes haxes => ?_
  case axes =>
    -- All vectors have been read by now, so only the nodes in them can be wrong.
    refine (entryAxes_onlyFails fun k entry hentry hvalues => ?_).imp ?_
    · rw [Nat.zero_add]
      exact isSome_lookup harranged hvectors hentry hvalues
    · rintro error ⟨k, entry, nodes, fault, hentry, hnodes, hfault, rfl⟩
      rw [Nat.zero_add] at hnodes
      exact .axis harranged hvectors hentry hnodes hfault
  refine Reading.onlyFails_lift_bind ?count fun count hcount => ?_
  case count =>
    unfold countValues
    dsimp only
    split
    · exact .ok _
    · next hmany => exact .error (.count harranged hvectors haxes (Nat.le_of_not_lt hmany))
  obtain ⟨rfl, hcounted⟩ := countValues_eq_ok_iff.mp hcount
  exact Front.readValues_onlyFails ⟨harranged, hvectors, haxes, hcounted⟩

/-- A table that has been read takes the names of its layout, so naming adds no reason. -/
theorem nameTable_onlyFails {expected : StoreError → Prop} {table : Table Float}
    (h : layout.readTable arithmetic total source = .ok (table, rest)) :
    OnlyFails expected (layout.nameTable table) := by
  -- The names are distinct because the layout has been arranged, and there is one per axis.
  obtain ⟨arrangement, vectors, axes, middle, front, hvalues⟩ := readTable_eq_ok_iff.mp h
  obtain ⟨-, -, -, -, -, -, rfl, -⟩ := readValues_eq_ok_iff.mp hvalues
  obtain ⟨named, hnamed⟩ := exists_nameTable front.arranged front.axes_length
  rw [hnamed]
  exact .ok _

/-- A table read from a source is refused for the reasons listed. -/
theorem decodeFrom_onlyFails (layout : Layout) (arithmetic : Arithmetic) (source : Source) :
    OnlyFails (layout.Refusal arithmetic none source) (layout.decodeFrom arithmetic source) := by
  unfold decodeFrom
  exact (readTable_onlyFails layout arithmetic none source).bind fun result hread =>
    (nameTable_onlyFails hread).bind fun _ _ => .ok _

/-- A table read from all the bytes is refused for the reasons listed. -/
theorem decodeAll_onlyFails (layout : Layout) (arithmetic : Arithmetic) (bytes : List UInt8) :
    OnlyFails (layout.Refusal arithmetic (some bytes.length) (.ofBytes bytes))
      (layout.decodeAll arithmetic bytes) := by
  unfold decodeAll
  exact (readTable_onlyFails layout arithmetic _ _).bind fun result hread =>
    nameTable_onlyFails hread

/-! ### Checks that cannot fail -/

/-- None of the reasons is a fallback. -/
theorem Refusal.not_isFallback {error : StoreError}
    (refusal : layout.Refusal arithmetic total source error) : ¬ error.IsFallback := by
  cases refusal with
  | @stream error hstream => cases error <;> first | exact id | exact hstream.elim
  | arrangement hfaulty => exact arrangement_onlyFails _ hfaulty
  | count => exact id
  | block => exact id
  | axis => exact id
  | axes => exact id
  | overflow => exact id

/-- The nodes of an axis, the ones supplied or those of words that were read, have this fault, or
    there are too many axes. -/
def BadAxes (layout : Layout) (error : TableError Float) : Prop :=
  (∃ entry ∈ layout.axes, ∃ nodes fault, axisFault? nodes = some fault ∧
    error = .namedAxis entry.name fault ∧ (entry.values = some nodes ∨
      entry.values = none ∧ ∃ words : List Word, nodes = words.map (nodeOf entry))) ∨
  axisLimit < layout.axes.length ∧ error = .tooManyAxes layout.axes.length axisLimit

/-- The only table errors among the reasons are those of axes. -/
theorem Refusal.badAxes {error : TableError Float}
    (refusal : layout.Refusal arithmetic total source (.table error)) : layout.BadAxes error := by
  cases refusal with
  | stream hstream => exact hstream.elim
  | @axis _ _ _ _ entry nodes fault _ _ hentry hnodes hfaulty =>
    refine .inl ⟨entry, List.mem_of_getElem? hentry, nodes.toList, fault, hfaulty, rfl, ?_⟩
    rcases axisNodes_eq_ok_iff.mp hnodes with
      ⟨values, hvalues, rfl⟩ | ⟨hvalues, words, -, rfl⟩
    · exact .inl hvalues
    · exact .inr ⟨hvalues, words.toList, Array.toList_map⟩
  | axes hmany => exact .inr ⟨hmany, rfl⟩

section Machine

variable {arrangement : Arrangement} {vectors : Vectors} {axes : List (Axis Float)}
  {middle : Source} (front : layout.Front total arrangement vectors axes source middle)
  (room : Shape.cells (axes.map Axis.size) ≤ Machine.memoryLimit)

include front room

/-- On a machine nothing wraps while values are counted and moved to their cells. -/
theorem Front.machine_eq :
    (axes.map Axis.size).foldlM Machine.mul 1 = .ok (Shape.cells (axes.map Axis.size)) ∧
    Machine.strides (axes.map Axis.size) = .ok (Shape.strides (axes.map Axis.size)) ∧
    Machine.start (layout.nesting arrangement (axes.map Axis.size))
      = .ok (Odometer.start (layout.nesting arrangement (axes.map Axis.size))) ∧
    ∀ block : Array Word, block.size = Shape.cells (axes.map Axis.size) →
      Machine.unnest (layout.nesting arrangement (axes.map Axis.size)) block
        = .ok (unnest (layout.nesting arrangement (axes.map Axis.size)) block) := by
  have hlength : (axes.map Axis.size).length = layout.axes.length := by
    rw [List.length_map, front.axes_length]
  have complete := nesting_complete front.arranged hlength
  have hreversed : (layout.nesting arrangement (axes.map Axis.size)).reversed.length
      = (axes.map Axis.size).length := by
    rw [hlength]
    exact List.length_map _
  have hpositive : ∀ length ∈ axes.map Axis.size, 0 < length := Table.size_pos_of_mem_map
  have hpos : 0 < Shape.cells (axes.map Axis.size) := Shape.cells_pos hpositive
  -- A table that fits into memory has fewer cells than the greatest signed number counts.
  have hsigned := room.trans Machine.memoryLimit_le
  have hword := hsigned.trans Machine.largestSigned_le
  refine ⟨?_, Machine.strides_eq hpos hword, Machine.start_eq complete hpos hsigned hreversed,
    fun block hsize => Machine.unnest_eq complete hpos hsigned hreversed hsize⟩
  rw [Machine.foldlM_mul hpositive (by decide), Nat.one_mul, Machine.word_of_le hword]

end Machine

/-- **Fallbacks are out of reach.**  Whatever the layout and the stream, decoding never runs into a
    check that repeats an earlier one, and if a table is refused then for the nodes of an axis or
    for the number of axes.  Once the values have been counted, and if they fit into memory, no
    number wraps that says where they go. -/
theorem decoding_fallbacks_unreachable (layout : Layout) (arithmetic : Arithmetic) :
    (∀ error, ((∃ source, layout.decodeFrom arithmetic source = .error error) ∨
        (∃ source, layout.decodeUnnamed arithmetic source = .error error) ∨
        ∃ bytes, layout.decodeAll arithmetic bytes = .error error) →
      ¬ error.IsFallback ∧ ∀ reason, error = .table reason → layout.BadAxes reason) ∧
    ∀ total source arrangement vectors axes middle,
      layout.Front total arrangement vectors axes source middle →
      Shape.cells (axes.map Axis.size) ≤ Machine.memoryLimit →
      (axes.map Axis.size).foldlM Machine.mul 1 = .ok (Shape.cells (axes.map Axis.size)) ∧
      Machine.strides (axes.map Axis.size) = .ok (Shape.strides (axes.map Axis.size)) ∧
      Machine.start (layout.nesting arrangement (axes.map Axis.size))
        = .ok (Odometer.start (layout.nesting arrangement (axes.map Axis.size))) ∧
      ∀ block : Array Word, block.size = Shape.cells (axes.map Axis.size) →
        Machine.unnest (layout.nesting arrangement (axes.map Axis.size)) block
          = .ok (unnest (layout.nesting arrangement (axes.map Axis.size)) block) := by
  refine ⟨fun error h => ?_, fun total source arrangement vectors axes middle front room =>
    front.machine_eq room⟩
  -- However the table is decoded, it is refused for one of the listed reasons.
  obtain ⟨total, source, refusal⟩ : ∃ total source,
      layout.Refusal arithmetic total source error := by
    rcases h with ⟨source, h⟩ | ⟨source, h⟩ | ⟨bytes, h⟩
    · exact ⟨_, _, decodeFrom_onlyFails layout arithmetic source error h⟩
    · exact ⟨_, _, readTable_onlyFails layout arithmetic none source error h⟩
    · exact ⟨_, _, decodeAll_onlyFails layout arithmetic bytes error h⟩
  refine ⟨refusal.not_isFallback, ?_⟩
  rintro reason rfl
  exact refusal.badAxes

/-- The turned table with its last angle below the one before it, and as it is. -/
theorem decoding_fallbacks_unreachable_turned :
    (∃ error, turned.decodeAll .checked (turnedBytes.set 12 0) = .error error ∧ ¬ error.IsFallback ∧
      ∃ reason, error = .table reason ∧ turned.BadAxes reason) ∧
    ∃ arrangement vectors axes middle,
      turned.Front none arrangement vectors axes (.ofBytes turnedBytes) middle ∧
      Shape.cells (axes.map Axis.size) = 12 ∧
      Machine.start (turned.nesting arrangement (axes.map Axis.size))
        = .ok (Odometer.start (turned.nesting arrangement (axes.map Axis.size))) := by
  obtain ⟨hrefused, hmachine⟩ := decoding_fallbacks_unreachable turned .checked
  constructor
  · have herror : (match turned.decodeAll .checked (turnedBytes.set 12 0) with
        | .error (.table (.namedAxis name _)) => some name
        | _ => none) = some "angle" := by
      decide +kernel
    split at herror
    · next name fault h =>
      obtain ⟨hreachable, hbad⟩ := hrefused _ (.inr (.inr ⟨_, h⟩))
      exact ⟨_, h, hreachable, _, rfl, hbad _ rfl⟩
    · cases herror
  · have hreads : (turned.readTable .checked none (.ofBytes turnedBytes)).toOption.map
        (fun result => Shape.cells result.1.shape) = some 12 := by
      decide +kernel
    obtain ⟨⟨table, rest⟩, h, hcells⟩ := exists_of_map_toOption hreads
    obtain ⟨arrangement, vectors, axes, middle, front, hvalues⟩ := readTable_eq_ok_iff.mp h
    obtain ⟨-, -, -, -, -, -, rfl, -⟩ := readValues_eq_ok_iff.mp hvalues
    have hroom : Shape.cells (table.axes.map Axis.size) ≤ Machine.memoryLimit := by
      rw [show Shape.cells (table.axes.map Axis.size) = 12 from hcells]
      decide
    exact ⟨arrangement, vectors, table.axes, middle, front, hcells,
      (hmachine _ _ _ _ _ _ front hroom).2.2.1⟩

end Layout

end GridLookup
