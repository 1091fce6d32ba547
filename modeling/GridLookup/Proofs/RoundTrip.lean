import GridLookup.Proofs.Encoding
import GridLookup.Proofs.Placement
import GridLookup.Proofs.Single

namespace GridLookup

/-!
# Writing and reading back

What is written for a table is read back as the same table, up to the narrowing of its numbers,
as long as the nodes of the stored axes still ascend after narrowing.  Nothing is used of the
conversions: they need not even be each other's inverse.

* `rereadNode`, `Layout.StaysAscending` — what narrowing does to the nodes of stored axes.
* `Layout.rereadTable_image` — the bytes of a table are an image of the narrowed table.
* `Layout.decode_encode` — the round trip, which every layout of the same axes makes alike.
* `Layout.decodes_iff_staysAscending` — exactly which tables are read back.
-/

/-! ### Nodes that are read back -/

/-- What an entry says about the table, and not about the file. -/
def AxisEntry.meaning (entry : AxisEntry) : String × Option (List Float) × Option Conversion :=
  (entry.name, entry.values, entry.conversion)

/-- The node that is read back where a node was written. -/
def rereadNode (entry : AxisEntry) (node : Float) : Float :=
  match entry.conversion with
  | some conversion => conversion.toNode (Word.narrow (conversion.toStored node)).widen
  | none => (Word.narrow node).widen

/-- The nodes that are read back for an axis. -/
def rereadNodes (entry : AxisEntry) (axis : Axis Float) : List Float :=
  match entry.values with
  | some values => values
  | none => axis.nodes.toList.map (rereadNode entry)

/-- A node outside the domain of its conversion is stored as another undefined number than
    narrowing gives, but both are read alike. -/
theorem nodeOf_storedNode (entry : AxisEntry) (node : Float) :
    Layout.nodeOf entry (Layout.storedNode entry node) = rereadNode entry node := by
  unfold Layout.nodeOf Layout.storedNode rereadNode
  cases entry.conversion with
  | none => rfl
  | some conversion =>
    dsimp only
    split
    · -- The stored word and the narrowed number differ in their sign, which widening drops.
      next hnan => rw [Word.widen_invalid, Word.narrow_of_isNaN hnan]
    · rfl

/-- Lists that the layout compares as equal are numerically equal node by node. -/
theorem forall₂_of_beq {values nodes : List Float} (h : (values == nodes) = true) :
    List.Forall₂ (fun x y => Scalar.eq x y = true) values nodes := by
  induction values generalizing nodes with
  | nil =>
    cases nodes with
    | nil => exact .nil
    | cons y nodes => cases h
  | cons x values ih =>
    cases nodes with
    | nil => cases h
    | cons y nodes =>
      rw [List.cons_beq_cons, Bool.and_eq_true] at h
      exact .cons h.1 (ih h.2)

/-- Valid node lists are those of axes. -/
theorem exists_axes {lists : List (List Float)}
    (h : ∀ nodes ∈ lists, nodes ≠ [] ∧ Ascending nodes) :
    ∃ axes : List (Axis Float), axes.map (fun axis => axis.nodes.toList) = lists := by
  induction lists with
  | nil => exact ⟨[], rfl⟩
  | cons nodes lists ih =>
    rw [List.forall_mem_cons] at h
    obtain ⟨axes, haxes⟩ := ih h.2
    exact ⟨⟨nodes.toArray, axisFault?_eq_none_iff.mpr h.1⟩ :: axes, by rw [List.map_cons, haxes]⟩

/-- Axes with the same nodes are the same. -/
theorem Axis.ext_nodes {axis other : Axis Float} (h : axis.nodes.toList = other.nodes.toList) :
    axis = other := by
  cases axis
  cases other
  cases Array.toList_inj.mp h
  rfl

/-- Named tables with the same names, nodes and values are the same. -/
theorem NamedTable.ext_nodes {named other : NamedTable Float} (hnames : named.names = other.names)
    (hnodes : named.axes.map (fun axis => axis.nodes.toList)
      = other.axes.map fun axis => axis.nodes.toList)
    (hvalues : named.values = other.values) : named = other := by
  obtain ⟨⟨axes, values, _, _, _⟩, names, _, _⟩ := named
  obtain ⟨⟨axes', values', _, _, _⟩, names', _, _⟩ := other
  obtain rfl : axes = axes' := List.map_injective_iff.mpr (fun _ _ => Axis.ext_nodes) hnodes
  cases hnames
  cases hvalues
  rfl

/-- Other axes of the same lengths hold as many values. -/
theorem Table.exists_of_shape (table : Table Float) {axes : List (Axis Float)}
    {values : Array Float} (hshape : axes.map Axis.size = table.shape)
    (hsize : values.size = table.values.size) :
    ∃ other : Table Float, other.axes = axes ∧ other.values = values := by
  have hcount : axes.length = table.axes.length := by
    have := congrArg List.length hshape
    rwa [List.length_map, Table.shape, List.length_map] at this
  have hsome : axes ≠ [] := fun hnil => table.axes_ne_nil
    (List.eq_nil_of_length_eq_zero (by rw [← hcount, hnil, List.length_nil]))
  exact ⟨⟨axes, values, hsome, hcount ▸ table.axes_length_le,
    by rw [hsize, table.values_size_eq, hshape]⟩, rfl, rfl⟩

namespace Layout

variable {layout : Layout} {arithmetic : Arithmetic} {table : Table Float}
  {arrangement : Arrangement}

/-- The nodes of every stored axis still ascend when they are read back. -/
def StaysAscending (layout : Layout) (table : Table Float) : Prop :=
  ∀ (index : Nat) (entry : AxisEntry) (axis : Axis Float),
    layout.axes[index]? = some entry → table.axes[index]? = some axis →
    entry.values = none → Ascending (axis.nodes.toList.map (rereadNode entry))

/-! ### Axes that are read back -/

/-- The vector of an axis in the stream is found. -/
theorem lookup_storedVectors {stream : List Nat} {index : Nat} (h : index ∈ stream) :
    (layout.storedVectors table stream).lookup index = some (layout.storedVector table index) := by
  induction stream with
  | nil => exact absurd h List.not_mem_nil
  | cons first stream ih =>
    rw [storedVectors, List.map_cons, List.lookup_cons]
    by_cases hfirst : index = first
    · rw [hfirst, beq_self_eq_true]
    · rw [beq_false_of_ne hfirst]
      exact ih (List.mem_of_ne_of_mem hfirst h)

/-- The nodes that the stored vectors give an axis. -/
theorem axisNodes_storedVectors (harrangement : layout.arrangement = .ok arrangement)
    {index : Nat} {entry : AxisEntry} {axis : Axis Float}
    (hentry : layout.axes[index]? = some entry) (haxis : table.axes[index]? = some axis) :
    axisNodes entry ((layout.storedVectors table arrangement.stream).lookup index)
      = .ok (rereadNodes entry axis).toArray := by
  refine axisNodes_eq_ok_iff.mpr ?_
  unfold rereadNodes
  -- Nodes of the layout are not stored, and the others are found under the index of their axis.
  cases hvalues : entry.values with
  | some values => exact Or.inl ⟨values, rfl, rfl⟩
  | none =>
    refine Or.inr ⟨rfl, layout.storedVector table index, lookup_storedVectors ?_, ?_⟩
    · rw [mem_stream_iff harrangement]
      refine ⟨(List.getElem?_eq_some_iff.mp hentry).1, ?_⟩
      unfold isStoredAt AxisEntry.isStored
      rw [hentry, Option.map_some, hvalues]
      rfl
    · rw [storedVector_eq hentry haxis, Array.map_map]
      apply Array.toList_inj.mp
      simp [Function.comp_def, nodeOf_storedNode]

/-- The axes that are read back are those with the reread nodes. -/
theorem entryAxes_storedVectors (harrangement : layout.arrangement = .ok arrangement)
    (hlength : table.axes.length = layout.axes.length) {axes : List (Axis Float)} :
    entryAxes (layout.storedVectors table arrangement.stream) layout.axes 0 = .ok axes ↔
      axes.map (fun axis => axis.nodes.toList)
        = List.zipWith rereadNodes layout.axes table.axes := by
  rw [entryAxes_eq_ok_iff]
  -- Both sides are compared entry by entry, since the reader goes by index.
  constructor
  · rintro ⟨hcount, hnodes⟩
    refine List.ext_getElem (by simp [hcount, hlength]) fun index h h' => ?_
    rw [List.length_map] at h
    have hentry := List.getElem?_eq_getElem (hcount ▸ h : index < layout.axes.length)
    have haxis := List.getElem?_eq_getElem (hlength ▸ hcount ▸ h : index < table.axes.length)
    have h := hnodes index _ _ hentry (List.getElem?_eq_getElem h)
    rw [Nat.zero_add, axisNodes_storedVectors harrangement hentry haxis, Except.ok.injEq] at h
    rw [List.getElem_map, List.getElem_zipWith, ← h]
  · intro h
    have hcount : axes.length = layout.axes.length := by
      have := congrArg List.length h
      simpa [hlength] using this
    refine ⟨hcount, fun index entry axis hentry haxis => ?_⟩
    have hlt := (List.getElem?_eq_some_iff.mp hentry).1
    have hwritten := List.getElem?_eq_getElem (hlength ▸ hlt : index < table.axes.length)
    have hnodes := congrArg (fun lists => lists[index]?) h
    simp only [List.getElem?_map, haxis, Option.map_some, List.getElem?_zipWith, hentry,
      hwritten, Option.some.injEq] at hnodes
    rw [Nat.zero_add, axisNodes_storedVectors harrangement hentry hwritten, ← hnodes]

/-- The reread nodes make up axes exactly if the stored ones still ascend. -/
theorem staysAscending_iff (hlength : table.axes.length = layout.axes.length)
    (hsupplied : layout.checkSupplied (layout.axes.zip table.axes) = .ok ()) :
    layout.StaysAscending table ↔ ∃ axes : List (Axis Float),
      axes.map (fun axis => axis.nodes.toList)
        = List.zipWith rereadNodes layout.axes table.axes := by
  constructor
  · intro hstays
    refine exists_axes fun nodes hnodes => ?_
    obtain ⟨index, hindex, rfl⟩ := List.mem_iff_getElem.mp hnodes
    rw [List.length_zipWith, Nat.lt_min] at hindex
    rw [List.getElem_zipWith]
    have hentry := List.getElem?_eq_getElem hindex.1
    have haxis := List.getElem?_eq_getElem hindex.2
    unfold rereadNodes
    -- Nodes of the layout ascend since they equal those of the table.
    cases hvalues : layout.axes[index].values with
    | some values =>
      have hpair : (layout.axes[index], table.axes[index]) ∈ layout.axes.zip table.axes :=
        List.mem_of_getElem? (List.getElem?_zip_eq_some.mpr ⟨hentry, haxis⟩)
      have hequal := forall₂_of_beq
        (checkSupplied_eq_ok_iff.mp hsupplied _ hpair values hvalues)
      refine ⟨fun hempty => ?_, table.axes[index].ascending.congr hequal⟩
      have hcount := hequal.length_eq
      rw [show values = [] from hempty] at hcount
      exact table.axes[index].nodes_ne_empty (List.eq_nil_of_length_eq_zero hcount.symm)
    | none =>
      refine ⟨fun hempty => ?_, hstays index _ _ hentry haxis hvalues⟩
      exact table.axes[index].nodes_ne_empty (List.map_eq_nil_iff.mp hempty)
  · rintro ⟨axes, haxes⟩ index entry axis hentry haxis hvalues
    have hlt := congrArg (fun lists => lists[index]?) haxes
    simp only [List.getElem?_map, List.getElem?_zipWith, hentry, haxis] at hlt
    obtain ⟨reread, -, hnodes⟩ := Option.map_eq_some_iff.mp hlt
    have hascending := reread.ascending
    rwa [hnodes, rereadNodes, hvalues] at hascending

/-! ### Values that are read back -/

/-- An axis is read back with as many nodes. -/
theorem length_rereadNodes {entry : AxisEntry} {axis : Axis Float}
    (h : ∀ values, entry.values = some values → (values == axis.nodes.toList) = true) :
    (rereadNodes entry axis).length = axis.size := by
  unfold rereadNodes
  cases hvalues : entry.values with
  | some values =>
    rw [(forall₂_of_beq (h values hvalues)).length_eq, Array.length_toList, Axis.size]
  | none => rw [List.length_map, Array.length_toList, Axis.size]

/-- Axes that are read back have as many nodes as those that were written. -/
theorem shape_reread (hlength : table.axes.length = layout.axes.length)
    (hsupplied : layout.checkSupplied (layout.axes.zip table.axes) = .ok ())
    {axes : List (Axis Float)} (haxes : axes.map (fun axis => axis.nodes.toList)
      = List.zipWith rereadNodes layout.axes table.axes) :
    axes.map Axis.size = table.shape := by
  have hsizes : axes.map Axis.size = (axes.map fun axis => axis.nodes.toList).map List.length := by
    rw [List.map_map]
    exact List.map_congr_left fun axis _ => Array.length_toList.symm
  rw [hsizes, haxes, Table.shape]
  refine List.ext_getElem (by simp [hlength]) fun index h h' => ?_
  rw [List.length_map, List.length_zipWith, Nat.lt_min] at h
  rw [List.getElem_map, List.getElem_zipWith, List.getElem_map]
  refine length_rereadNodes (checkSupplied_eq_ok_iff.mp hsupplied
    (layout.axes[index], table.axes[index]) (List.mem_of_getElem? (i := index) ?_))
  rw [List.getElem?_zip_eq_some]
  exact ⟨List.getElem?_eq_getElem h.1, List.getElem?_eq_getElem h.2⟩

/-- The stored block has a word for every cell. -/
theorem storedBlock_size (nesting : Nesting) (table : Table Float) :
    (storedBlock nesting table).size = Shape.cells nesting.shape := by
  rw [storedBlock, Array.size_map, Odometer.size_cells_start]

/-- The word at the place of a multi-index is the narrowed value of its cell. -/
theorem storedBlock_getElem {nesting : Nesting}
    (complete : nesting.storage.Perm (List.range nesting.shape.length)) {index : List Nat}
    (h : Shape.Contains nesting.shape index) :
    (storedBlock nesting table)[nesting.place index]?
      = some (Word.narrow (table.value (Shape.offset nesting.shape index))) := by
  have hcell := Odometer.cells_getElem_place complete h
  rw [Array.getElem?_toList] at hcell
  rw [storedBlock, Array.getElem?_map, hcell, Option.map_some]

/-- Unnesting the stored block gives every value back, narrowed. -/
theorem unnest_storedBlock {nesting : Nesting}
    (complete : nesting.storage.Perm (List.range nesting.shape.length))
    (hshape : nesting.shape = table.shape) :
    unnest nesting (storedBlock nesting table)
      = table.values.map fun value => (Word.narrow value).widen := by
  refine Array.ext_getElem? fun cell => ?_
  by_cases hcell : cell < Shape.cells nesting.shape
  · -- Every cell is that of a multi-index.
    have hindex := Shape.digits_contains hcell
    have hvalue := unnest_getElem complete (storedBlock_size nesting table) hindex
    rw [storedBlock_getElem complete hindex, Shape.offset_digits hcell, Option.map_some] at hvalue
    have hlt : cell < table.values.size := by rwa [table.values_size_eq, ← hshape]
    rw [hvalue, Array.getElem?_map, Array.getElem?_eq_getElem hlt, Option.map_some,
      Table.value_of_lt hlt]
  · rw [Array.getElem?_eq_none, Array.getElem?_eq_none]
    · rw [Array.size_map, table.values_size_eq, ← hshape]
      omega
    · rw [unnest_size, storedBlock_size]
      omega

/-! ### The narrowed table -/

/-- **The narrowed table.**  If the stored axes still ascend, encoded bytes are an image of the
    table with the reread nodes and the narrowed values. -/
theorem rereadTable_image {bytes : List UInt8} (hencode : layout.encode table = .ok bytes)
    (hfits : bytes.length < 1 <<< 63) (hstays : layout.StaysAscending table) :
    ∃ arrangement vectors block reread,
      layout.Image arithmetic arrangement vectors block reread bytes ∧
      reread.axes.map (fun axis => axis.nodes.toList)
        = List.zipWith rereadNodes layout.axes table.axes ∧
      reread.values = table.values.map fun value => (Word.narrow value).widen := by
  obtain ⟨arrangement, front, back, harrangement, hlength, hsupplied, hfront, hback, hbytes⟩ :=
    encode_parts arithmetic hencode (by omega)
  obtain ⟨axes, haxes⟩ := (staysAscending_iff hlength hsupplied).mp hstays
  have hshape := shape_reread hlength hsupplied haxes
  have hcomplete := nesting_complete harrangement
    (show table.shape.length = layout.axes.length by rw [Table.shape, List.length_map, hlength])
  -- The reread axes are as long as before, so the arrangement of the values is the same.
  obtain ⟨reread, rfl, hvalues⟩ := table.exists_of_shape hshape
    (Array.size_map : (table.values.map fun value => (Word.narrow value).widen).size = _)
  have hshape : reread.shape = table.shape := hshape
  refine ⟨arrangement, layout.storedVectors table arrangement.stream,
    storedBlock (layout.nesting arrangement table.shape) table, reread, ?_, haxes, hvalues⟩
  refine ⟨harrangement, map_fst_storedVectors _,
    (entryAxes_storedVectors harrangement hlength).mpr haxes, ?_, ?_,
    front, back, hfront, hback, hbytes⟩
  · rw [storedBlock_size, hshape]
    rfl
  · rw [hvalues, hshape, unnest_storedBlock hcomplete rfl]

/-! ### The round trip -/

section Meaning

variable {other : Layout} (h : other.axes.map AxisEntry.meaning = layout.axes.map AxisEntry.meaning)

include h

/-- Layouts of the same meaning have the same names. -/
theorem axisNames_of_meaning : other.axisNames = layout.axisNames := by
  have hnames := congrArg (List.map Prod.fst) h
  rwa [List.map_map, List.map_map] at hnames

/-- Layouts of the same meaning read the same nodes back. -/
theorem rereadNodes_of_meaning (axes : List (Axis Float)) :
    List.zipWith rereadNodes other.axes axes = List.zipWith rereadNodes layout.axes axes := by
  have hmeaning (entries : List AxisEntry) : List.zipWith rereadNodes entries axes
      = List.zipWith (fun meaning => rereadNodes ⟨meaning.1, meaning.2.1, false, meaning.2.2⟩)
          (entries.map AxisEntry.meaning) axes := by
    rw [List.zipWith_map_left]
    rfl
  rw [hmeaning, h, ← hmeaning]

/-- Whether nodes stay ascending depends on the meaning of the layout only. -/
theorem staysAscending_of_meaning (hstays : layout.StaysAscending table) :
    other.StaysAscending table := by
  intro index entry axis hentry haxis hvalues
  have hmeaning := congrArg (fun meanings => meanings[index]?) h
  simp only [List.getElem?_map, hentry, Option.map_some] at hmeaning
  obtain ⟨entry', hentry', hsame⟩ := Option.map_eq_some_iff.mp hmeaning.symm
  have hreread : rereadNode entry' = rereadNode entry := by
    unfold rereadNode
    rw [show entry'.conversion = entry.conversion from congrArg (fun meaning => meaning.2.2) hsame]
  have hvalues' : entry'.values = none :=
    (congrArg (fun meaning => meaning.2.1) hsame).trans hvalues
  rw [← hreread]
  exact hstays index entry' axis hentry' haxis hvalues'

end Meaning

/-- **The round trip.**  The bytes of a table whose stored axes still ascend are decoded: to
    the names of the layout, the supplied or reread nodes and the narrowed values.  Every other
    layout of the same axes, whatever orders, flags, words and trailing vectors it asks for,
    yields the same table. -/
theorem decode_encode {bytes : List UInt8} (hencode : layout.encode table = .ok bytes)
    (hfits : bytes.length < 1 <<< 63) (hstays : layout.StaysAscending table) :
    ∃ named, layout.decodeAll arithmetic bytes = .ok named ∧ named.names = layout.axisNames ∧
      named.axes.map (fun axis => axis.nodes.toList)
        = List.zipWith rereadNodes layout.axes table.axes ∧
      named.values = table.values.map (fun value => (Word.narrow value).widen) ∧
      ∀ (other : Layout) (otherBytes : List UInt8),
        other.axes.map AxisEntry.meaning = layout.axes.map AxisEntry.meaning →
        other.encode table = .ok otherBytes → otherBytes.length < 1 <<< 63 →
        other.decodeAll arithmetic otherBytes = .ok named := by
  -- Each layout yields its own reread nodes, and those of layouts with the same axes agree.
  have hreread : ∀ (other : Layout) (otherBytes : List UInt8), other.encode table = .ok otherBytes →
      otherBytes.length < 1 <<< 63 → other.StaysAscending table →
      ∃ named, other.decodeAll arithmetic otherBytes = .ok named ∧ named.names = other.axisNames ∧
        named.axes.map (fun axis => axis.nodes.toList)
          = List.zipWith rereadNodes other.axes table.axes ∧
        named.values = table.values.map fun value => (Word.narrow value).widen := by
    intro other otherBytes hencode hfits hstays
    obtain ⟨arrangement, vectors, block, reread, image, hnodes, hvalues⟩ :=
      rereadTable_image hencode hfits hstays
    obtain ⟨named, hnamed, rfl, hnames⟩ := decodeAll_complete image (by omega)
    exact ⟨named, hnamed, hnames, hnodes, hvalues⟩
  obtain ⟨named, hnamed, hnames, hnodes, hvalues⟩ := hreread layout bytes hencode hfits hstays
  refine ⟨named, hnamed, hnames, hnodes, hvalues, fun other otherBytes hmeaning hother hfits' => ?_⟩
  obtain ⟨named', hnamed', hnames', hnodes', hvalues'⟩ :=
    hreread other otherBytes hother hfits' (staysAscending_of_meaning hmeaning hstays)
  have hsame : named' = named := NamedTable.ext_nodes
    (by rw [hnames', axisNames_of_meaning hmeaning, hnames])
    (by rw [hnodes', rereadNodes_of_meaning hmeaning, hnodes]) (by rw [hvalues', hvalues])
  rw [hnamed', hsame]

/-- A table for the turned layout, with numbers that narrowing changes. -/
def turnedTable : Table Float where
  axes :=
    [⟨#[Float.ofBits 0, Float.ofBits 0x3fb999999999999a], by decide +kernel⟩,
     ⟨#[Float.ofBits 0x3ff0000000000000, Float.ofBits 0x4000000000000000], by decide +kernel⟩,
     ⟨#[Float.ofBits 0xbff0000000000000], by decide +kernel⟩,
     ⟨#[Float.ofBits 0xfff0000000000000, Float.ofBits 0x3ff0000000000000,
        Float.ofBits 0x4000000000000000], by decide +kernel⟩]
  values :=
    #[Float.ofBits 0x3fb999999999999a, Float.ofBits 0x8000000000000000,
      Float.ofBits 0x7ff8000000000000, Float.ofBits 0x47f0000000000000,
      Float.ofBits 0x3690000000000001, Float.ofBits 0xfff0000000000000,
      Float.ofBits 0, Float.ofBits 1, Float.ofBits 2, Float.ofBits 3, Float.ofBits 4,
      Float.ofBits 5]
  axes_ne_nil := by simp
  axes_length_le := by decide
  values_size := by decide +kernel

theorem turned_staysAscending : turned.StaysAscending turnedTable := by
  intro index entry axis hentry haxis hvalues
  rcases index with _ | _ | _ | _ | index <;> cases hentry <;> cases haxis
  · decide +kernel
  · cases hvalues
  · decide +kernel
  · decide +kernel

theorem decode_encode_turned :
    ∃ bytes named, turned.encode turnedTable = .ok bytes ∧ bytes.length < 1 <<< 63 ∧
      turned.decodeAll .checked bytes = .ok named ∧
      named.values = turnedTable.values.map fun value => (Word.narrow value).widen := by
  have hlength : (turned.encode turnedTable).toOption.map List.length = some 92 := by
    decide +kernel
  obtain ⟨bytes, hencode, hlength⟩ := exists_of_map_toOption hlength
  have hfits : bytes.length < 1 <<< 63 := by
    rw [hlength]
    decide
  obtain ⟨named, hnamed, -, -, hvalues, -⟩ := decode_encode hencode hfits turned_staysAscending
  exact ⟨bytes, named, hencode, hfits, hnamed, hvalues⟩

/-! ### What is not read back -/

/-- The vectors of an image are determined by its bytes. -/
theorem AxisImage.unique {vectors others : Vectors} {front front' tail tail' : List UInt8}
    (h : layout.AxisImage vectors front) (h' : layout.AxisImage others front')
    (hstream : vectors.map Prod.fst = others.map Prod.fst)
    (hbytes : front ++ tail = front' ++ tail') : vectors = others := by
  -- Reading the bytes yields both.
  have hsource := Source.bytes_ofBytes (front ++ tail)
  obtain ⟨rest, hread, -⟩ := readAxes_complete none h hsource (by simp)
  obtain ⟨rest', hread', -⟩ := readAxes_complete none h' (hsource.trans hbytes) (by simp)
  rw [hstream, hread'] at hread
  cases hread
  rfl

/-- **What is read back.**  The bytes of a table are decoded exactly if the nodes of its stored
    axes still ascend after narrowing. -/
theorem decodes_iff_staysAscending {bytes : List UInt8} (hencode : layout.encode table = .ok bytes)
    (hfits : bytes.length < 1 <<< 63) :
    (∃ named, layout.decodeAll arithmetic bytes = .ok named) ↔ layout.StaysAscending table := by
  constructor
  · rintro ⟨named, hnamed⟩
    obtain ⟨arrangement, front, back, harrangement, hlength, hsupplied, hfront, -, hbytes⟩ :=
      encode_parts arithmetic hencode (by omega)
    obtain ⟨-, arrangement', vectors, block, image⟩ := decodeAll_sound hnamed
    obtain ⟨front', back', hfront', -, hbytes'⟩ := image.bytes_eq
    have harrangements := harrangement.symm.trans image.arranged
    cases harrangements
    have hstream : (layout.storedVectors table arrangement.stream).map Prod.fst
        = vectors.map Prod.fst := by
      rw [image.stream, map_fst_storedVectors]
    rw [hbytes', List.append_assoc, List.append_assoc] at hbytes
    -- The vectors that were read are those that were written.
    have hvectors := hfront.unique hfront' hstream hbytes.symm
    have haxes := image.axes
    rw [← hvectors] at haxes
    exact (staysAscending_iff hlength hsupplied).mpr
      ⟨_, (entryAxes_storedVectors harrangement hlength).mp haxes⟩
  · intro hstays
    obtain ⟨arrangement, vectors, block, reread, image, -⟩ := rereadTable_image hencode hfits hstays
    obtain ⟨named, hnamed, -⟩ := decodeAll_complete image (by omega)
    exact ⟨named, hnamed⟩

/-- One stored axis. -/
def plain : Layout where
  name := "plain"
  byteOrder := .little
  lengthWord := .signed
  axes := [⟨"height", none, false, none⟩]
  streamOrder := []
  storageOrder := []
  trailers := []

/-- A table whose nodes 1 and 1.00000001 narrow to the same number. -/
def closeTable : Table Float where
  axes := [⟨#[Float.ofBits 0x3ff0000000000000, Float.ofBits 0x3ff0000002af31dc], by decide +kernel⟩]
  values := #[Float.ofBits 0x4024000000000000, Float.ofBits 0x4034000000000000]
  axes_ne_nil := by simp
  axes_length_le := by decide
  values_size := by decide +kernel

theorem decodes_iff_staysAscending_close :
    ∃ bytes, plain.encode closeTable = .ok bytes ∧ bytes.length < 1 <<< 63 ∧
      ((∃ named, plain.decodeAll .checked bytes = .ok named) ↔
        plain.StaysAscending closeTable) := by
  have hlength : (plain.encode closeTable).toOption.map List.length = some 20 := by decide +kernel
  obtain ⟨bytes, hencode, hlength⟩ := exists_of_map_toOption hlength
  have hfits : bytes.length < 1 <<< 63 := by
    rw [hlength]
    decide
  exact ⟨bytes, hencode, hfits, decodes_iff_staysAscending hencode hfits⟩

/-- Not everything that is encoded is decoded, however sizes are calculated. -/
theorem not_all_encoded_decoded :
    ¬ ∃ arithmetic : Arithmetic, ∀ (layout : Layout) (table : Table Float) (bytes : List UInt8),
      layout.encode table = .ok bytes → bytes.length < 1 <<< 63 →
      ∃ named, layout.decodeAll arithmetic bytes = .ok named := by
  rintro ⟨arithmetic, hall⟩
  have hrefused : (plain.encode closeTable).toOption.map
      (fun bytes => (bytes.length, (plain.decodeAll arithmetic bytes).isOk))
        = some (20, false) := by
    cases arithmetic <;> decide +kernel
  obtain ⟨bytes, hencode, hrefused⟩ := exists_of_map_toOption hrefused
  obtain ⟨hlength, hrefused⟩ := Prod.mk.inj hrefused
  have hfits : bytes.length < 1 <<< 63 := by
    rw [hlength]
    decide
  obtain ⟨named, hnamed⟩ := hall plain closeTable bytes hencode hfits
  rw [hnamed] at hrefused
  cases hrefused

end Layout

end GridLookup
