import GridLookup.Layout.Document
import GridLookup.Proofs.Assignment
import GridLookup.Proofs.Yaml.DocumentText

namespace GridLookup

/-!
# Layouts as texts

A layout is written with some of its fields left out, and read with usual values in their place.

* `Tree.ConsistsOf` — a record with fields of which some may be left out, and what is found in it.
* `Layout.ofTree_toTree` — every field that is left out of a tree has its usual value again.
* `Layout.schema_fits` — the tree of a layout is one that layout documents are read as.
* `Layout.toTree_restored` — the text of a layout shows its tree.
* `Layout.ofYaml_toYaml` — **a consistent layout survives its text**.
-/

open Yaml

/-! ### Fields that may be left out -/

namespace Yaml.Tree

/-- The fields that are there, of some that may be left out. -/
def present (fields : List (String × Option Tree)) : List (String × Tree) :=
  fields.filterMap fun (name, tree?) => tree?.map fun tree => (name, tree)

/-- A tree is a record of fields with different names, of which some may be left out. -/
structure ConsistsOf (tree : Tree) (fields : List (String × Option Tree)) : Prop where
  /-- The fields that are not left out make up the tree. -/
  eq_record : tree = .record (present fields)
  /-- No name is there twice. -/
  distinct : (fields.map Prod.fst).Nodup

variable {fields : List (String × Option Tree)} {name : String} {tree part : Tree}

/-- The fields present are those that have a part. -/
theorem mem_present : (name, part) ∈ present fields ↔ (name, some part) ∈ fields := by
  simp only [present, List.mem_filterMap, Prod.exists, Option.map_eq_some_iff, Prod.mk.injEq]
  constructor
  · rintro ⟨_, _, hmem, _, rfl, rfl, rfl⟩
    exact hmem
  · exact fun hmem => ⟨name, some part, hmem, part, rfl, rfl, rfl⟩

/-- The names present stand in the order of all of them. -/
theorem names_present_sublist :
    ((present fields).map Prod.fst).Sublist (fields.map Prod.fst) := by
  induction fields with
  | nil => exact .slnil
  | cons field fields ih =>
    obtain ⟨name, part?⟩ := field
    cases part? with
    | none => exact ih.cons name
    | some part => exact ih.cons_cons name

/-- A field that is there has its tree, although it may be left out. -/
theorem eq_of_some_eq_ite {absent : Bool} (h : some part = if absent then none else some tree) :
    part = tree :=
  Option.some.inj (Option.ite_none_left_eq_some.mp h.symm).2.symm

/-! ### Parts of trees -/

/-- A text is read back. -/
theorem asText_ofText (text : String) : asText (ofText text) = .ok text := rfl

/-- A named variant is read back if its name tells it apart. -/
theorem asVariant_ofText {α : Type} {ofName? : String → Option α} {name : String} {a : α}
    (h : ofName? name = some a) : asVariant ofName? (ofText name) = .ok a := by
  have hname : asText (ofText name) = pure name := rfl
  rw [asVariant, hname, pure_bind, h]

/-- A list reads back if its items do. -/
theorem asList_map {α : Type} {read : Tree → Except Fault α} {write : α → Tree}
    (h : ∀ a, read (write a) = .ok a) (items : List α) :
    asList read (.list (items.map write)) = .ok items := by
  refine mapM_eq_pure ?_
  rw [List.forall₂_map_left_iff]
  exact List.forall₂_same.mpr fun a _ => h a

namespace ConsistsOf

/-- No field is present twice. -/
theorem distinct_present (h : tree.ConsistsOf fields) : ((present fields).map Prod.fst).Nodup :=
  h.distinct.sublist names_present_sublist

/-- A field is found if it is there. -/
theorem field?_eq (h : tree.ConsistsOf fields) {part? : Option Tree}
    (hmem : (name, part?) ∈ fields) : tree.field? name = part? := by
  rw [h.eq_record, field?]
  cases part? with
  | some part => exact lookup_of_mem h.distinct_present (mem_present.mpr hmem)
  | none =>
    refine lookup_of_notMem fun hname => ?_
    obtain ⟨⟨name, part⟩, hpart, rfl⟩ := List.mem_map.mp hname
    cases List.inj_on_of_nodup_map h.distinct hmem (mem_present.mp hpart) rfl

variable {α : Type} {read : Tree → Except Fault α} {write : α → Tree}

/-- A field that is always there. -/
theorem required_eq (h : tree.ConsistsOf fields) {a : α} (hmem : (name, some part) ∈ fields)
    (hread : read part = .ok a) : tree.required name read = .ok a := by
  rw [required, h.field?_eq hmem, ← hread]

/-- A field that is there if it has something to say. -/
theorem optional_eq (h : tree.ConsistsOf fields) {a? : Option α}
    (hmem : (name, a?.map write) ∈ fields) (hread : ∀ a, read (write a) = .ok a) :
    tree.optional name read = .ok a? := by
  rw [optional, h.field?_eq hmem]
  cases a? with
  | none => rfl
  | some a =>
    dsimp only [Option.map_some]
    rw [hread]
    rfl

/-- A field that is left out for its usual value, and for no other. -/
theorem usually_eq (h : tree.ConsistsOf fields) {usual a : α} {part? : Option Tree}
    (hmem : (name, part?) ∈ fields) (hread : ∀ part ∈ part?, read part = .ok a)
    (husual : part? = none → a = usual) : tree.usually name usual read = .ok a := by
  rw [usually, optional, h.field?_eq hmem]
  cases part? with
  | none =>
    rw [husual rfl]
    rfl
  | some part =>
    dsimp only
    rw [hread part rfl]
    rfl

/-- A flag that is left out if it is not set. -/
theorem usually_flag (h : tree.ConsistsOf fields) {value : Bool}
    (hmem : (name, if value then some (.leaf (.flag true)) else none) ∈ fields) :
    tree.usually name false asFlag = .ok value := by
  refine h.usually_eq hmem (fun part hpart => ?_) fun hnone => ?_
  · cases value <;> cases hpart
    rfl
  · cases value <;> [rfl; cases hnone]

/-- A list that is left out if it has no items. -/
theorem usually_list (h : tree.ConsistsOf fields) {items : List α}
    (hmem : (name, if items.isEmpty then none else some (.list (items.map write))) ∈ fields)
    (hread : ∀ a, read (write a) = .ok a) : tree.usually name [] (asList read) = .ok items := by
  refine h.usually_eq hmem (fun part hpart => ?_) fun hnone => ?_
  · cases items with
    | nil => cases hpart
    | cons first rest =>
      cases hpart
      exact asList_map hread _
  · cases items <;> [rfl; cases hnone]

/-- The tree is one of those that a schema describes if each field that is there is. -/
theorem fits (h : tree.ConsistsOf fields) {known : Fields}
    (hfits : ∀ name part, (name, some part) ∈ fields → known.Fits name part) :
    (Schema.record known).Fits tree :=
  ⟨present fields, h.eq_record, h.distinct_present, fun field hfield =>
    hfits field.1 field.2 (mem_present.mp hfield)⟩

/-- What all fields that are there have in common. -/
theorem all (h : tree.ConsistsOf fields) {p : Leaf → Prop} {q : String → Prop}
    (hnames : ∀ name ∈ fields.map Prod.fst, q name)
    (hparts : ∀ name part, (name, some part) ∈ fields → part.All p q) : tree.All p q := by
  rw [h.eq_record]
  refine .record (fun field hfield => hnames _ ?_) fun field hfield =>
    hparts field.1 field.2 (mem_present.mp hfield)
  exact List.mem_map.mpr ⟨_, mem_present.mp hfield, rfl⟩

end ConsistsOf

end Yaml.Tree

/-! ### Names of variants -/

/-- A byte order is known by its name. -/
theorem ByteOrder.ofName?_name (order : ByteOrder) : ofName? order.name = some order := by
  cases order <;> decide

/-- A kind of length words is known by its name. -/
theorem LengthWord.ofName?_name (kind : LengthWord) : ofName? kind.name = some kind := by
  cases kind <;> decide

/-- A conversion is known by its name. -/
theorem Conversion.ofName?_name (conversion : Conversion) :
    ofName? conversion.name = some conversion := by
  cases conversion
  decide

/-! ### Layouts as trees -/

/-- The names of all fields in layout documents. -/
def fieldNames : List String :=
  ["name", "byte_order", "length_prefix", "axes", "stream_order", "storage_order", "trailing",
    "values", "reversed", "transform", "prefixed", "count"]

variable {p : Leaf → Prop} {q : String → Prop}

namespace AxisEntry

/-- The fields of the tree of an axis, with those that are left out. -/
def fields (entry : AxisEntry) : List (String × Option Tree) :=
  [("name", some (.ofText entry.name)),
   ("values", entry.values.map fun values => .list (values.map fun x => .leaf (.number x))),
   ("reversed", if entry.reversed then some (.leaf (.flag true)) else none),
   ("transform", entry.conversion.map fun conversion => .ofText conversion.name)]

/-- What is written of an axis are its fields. -/
theorem toTree_consistsOf (entry : AxisEntry) : entry.toTree.ConsistsOf entry.fields where
  eq_record := by
    obtain ⟨name, values, reversed, conversion⟩ := entry
    cases values <;> cases reversed <;> cases conversion <;> rfl
  distinct := by
    show ["name", "values", "reversed", "transform"].Nodup
    decide

/-- An axis survives its tree. -/
theorem ofTree_toTree (entry : AxisEntry) : ofTree entry.toTree = .ok entry := by
  have h := entry.toTree_consistsOf
  have hname : entry.toTree.required "name" Tree.asText = .ok entry.name :=
    h.required_eq (.head _) rfl
  have hvalues : entry.toTree.optional "values" (Tree.asList Tree.asNumber) = .ok entry.values :=
    h.optional_eq (.tail _ (.head _)) (Tree.asList_map fun _ => rfl)
  have hreversed : entry.toTree.usually "reversed" false Tree.asFlag = .ok entry.reversed :=
    h.usually_flag (.tail _ (.tail _ (.head _)))
  have hconversion : entry.toTree.optional "transform" (Tree.asVariant Conversion.ofName?)
      = .ok entry.conversion :=
    h.optional_eq (.tail _ (.tail _ (.tail _ (.head _))))
      fun conversion => Tree.asVariant_ofText conversion.ofName?_name
  rw [ofTree, hname, hvalues, hreversed, hconversion]
  rfl

/-- The tree of an axis has the fields of axes. -/
theorem schema_fits (entry : AxisEntry) : schema.Fits entry.toTree := by
  refine entry.toTree_consistsOf.fits fun name part hmem => ?_
  simp only [fields, List.mem_cons, Prod.mk.injEq, List.not_mem_nil, or_false] at hmem
  rcases hmem with ⟨rfl, h⟩ | ⟨rfl, h⟩ | ⟨rfl, h⟩ | ⟨rfl, h⟩
  · exact ⟨_, Option.some.inj h⟩
  · obtain ⟨values, -, rfl⟩ := Option.map_eq_some_iff.mp h.symm
    show (Schema.list .number).Fits _
    exact ⟨_, rfl, List.forall_mem_map.mpr fun x _ => ⟨x, rfl⟩⟩
  · cases hreversed : entry.reversed <;> rw [hreversed] at h <;> cases h
    show Schema.flag.Fits _
    exact ⟨true, rfl⟩
  · obtain ⟨conversion, -, rfl⟩ := Option.map_eq_some_iff.mp h.symm
    show Schema.variant.Fits _
    exact ⟨_, rfl⟩

/-- What holds of the parts of an axis holds of all that is written of it. -/
theorem toTree_all (entry : AxisEntry) (htext : ∀ text, p (.text text))
    (hflag : p (.flag true)) (hnumber : ∀ values ∈ entry.values, ∀ x ∈ values, p (.number x))
    (hnames : ∀ name ∈ fieldNames, q name) : entry.toTree.All p q := by
  have hsubset : entry.fields.map Prod.fst ⊆ fieldNames := by
    show ["name", "values", "reversed", "transform"] ⊆ fieldNames
    decide
  refine entry.toTree_consistsOf.all (fun name h => hnames name (hsubset h))
    fun name part hmem => ?_
  simp only [fields, List.mem_cons, Prod.mk.injEq, List.not_mem_nil, or_false] at hmem
  rcases hmem with ⟨-, h⟩ | ⟨-, h⟩ | ⟨-, h⟩ | ⟨-, h⟩
  · rw [Option.some.inj h]
    exact .leaf (htext entry.name)
  · obtain ⟨values, hvalues, rfl⟩ := Option.map_eq_some_iff.mp h.symm
    exact .list (List.forall_mem_map.mpr fun x hx => .leaf (hnumber values hvalues x hx))
  · cases hreversed : entry.reversed <;> rw [hreversed] at h <;> cases h
    exact .leaf hflag
  · obtain ⟨conversion, -, rfl⟩ := Option.map_eq_some_iff.mp h.symm
    exact .leaf (htext conversion.name)

end AxisEntry

namespace Trailer

/-- The fields of the tree of a trailing vector, with those that are left out. -/
def fields (vector : Trailer) : List (String × Option Tree) :=
  [("prefixed", if vector.prefixed then some (.leaf (.flag true)) else none),
   ("count", vector.count.map fun count => .leaf (.count count))]

/-- What is written of a trailing vector are its fields. -/
theorem toTree_consistsOf (vector : Trailer) : vector.toTree.ConsistsOf vector.fields where
  eq_record := by
    obtain ⟨prefixed, count⟩ := vector
    cases prefixed <;> cases count <;> rfl
  distinct := by
    show ["prefixed", "count"].Nodup
    decide

/-- A trailing vector survives its tree. -/
theorem ofTree_toTree (vector : Trailer) : ofTree vector.toTree = .ok vector := by
  have h := vector.toTree_consistsOf
  have hprefixed : vector.toTree.usually "prefixed" false Tree.asFlag = .ok vector.prefixed :=
    h.usually_flag (.head _)
  have hcount : vector.toTree.optional "count" Tree.asCount = .ok vector.count :=
    h.optional_eq (.tail _ (.head _)) fun _ => rfl
  rw [ofTree, hprefixed, hcount]
  rfl

/-- The tree of a trailing vector has the fields of trailing vectors. -/
theorem schema_fits (vector : Trailer) : schema.Fits vector.toTree := by
  refine vector.toTree_consistsOf.fits fun name part hmem => ?_
  simp only [fields, List.mem_cons, Prod.mk.injEq, List.not_mem_nil, or_false] at hmem
  rcases hmem with ⟨rfl, h⟩ | ⟨rfl, h⟩
  · cases hprefixed : vector.prefixed <;> rw [hprefixed] at h <;> cases h
    show Schema.flag.Fits _
    exact ⟨true, rfl⟩
  · obtain ⟨count, -, rfl⟩ := Option.map_eq_some_iff.mp h.symm
    show Schema.count.Fits _
    exact ⟨count, rfl⟩

/-- What holds of the parts of a trailing vector holds of all that is written of it. -/
theorem toTree_all (vector : Trailer) (hflag : p (.flag true))
    (hcount : ∀ count ∈ vector.count, p (.count count))
    (hnames : ∀ name ∈ fieldNames, q name) : vector.toTree.All p q := by
  have hsubset : vector.fields.map Prod.fst ⊆ fieldNames := by
    show ["prefixed", "count"] ⊆ fieldNames
    decide
  refine vector.toTree_consistsOf.all (fun name h => hnames name (hsubset h))
    fun name part hmem => ?_
  simp only [fields, List.mem_cons, Prod.mk.injEq, List.not_mem_nil, or_false] at hmem
  rcases hmem with ⟨-, h⟩ | ⟨-, h⟩
  · cases hprefixed : vector.prefixed <;> rw [hprefixed] at h <;> cases h
    exact .leaf hflag
  · obtain ⟨count, hsome, rfl⟩ := Option.map_eq_some_iff.mp h.symm
    exact .leaf (hcount count hsome)

end Trailer

namespace Layout

/-- The fields of the tree of a layout, with those that are left out. -/
def fields (layout : Layout) : List (String × Option Tree) :=
  [("name", some (.ofText layout.name)),
   ("byte_order", some (.ofText layout.byteOrder.name)),
   ("length_prefix", some (.ofText layout.lengthWord.name)),
   ("axes", some (.list (layout.axes.map AxisEntry.toTree))),
   ("stream_order", if layout.streamOrder.isEmpty then none
     else some (.list (layout.streamOrder.map .ofText))),
   ("storage_order", if layout.storageOrder.isEmpty then none
     else some (.list (layout.storageOrder.map .ofText))),
   ("trailing", if layout.trailers.isEmpty then none
     else some (.list (layout.trailers.map Trailer.toTree)))]

/-- What is written of a layout are its fields. -/
theorem toTree_consistsOf (layout : Layout) : layout.toTree.ConsistsOf layout.fields where
  eq_record := by
    obtain ⟨name, byteOrder, lengthWord, axes, streamOrder, storageOrder, trailers⟩ := layout
    cases streamOrder <;> cases storageOrder <;> cases trailers <;> rfl
  distinct := by
    show ["name", "byte_order", "length_prefix", "axes", "stream_order", "storage_order",
      "trailing"].Nodup
    decide

/-- A layout survives its tree. -/
theorem ofTree_toTree (layout : Layout) : ofTree layout.toTree = .ok layout := by
  have h := layout.toTree_consistsOf
  have hname : layout.toTree.required "name" Tree.asText = .ok layout.name :=
    h.required_eq (.head _) rfl
  have hbyteOrder : layout.toTree.usually "byte_order" .little (Tree.asVariant ByteOrder.ofName?)
      = .ok layout.byteOrder :=
    h.usually_eq (.tail _ (.head _))
      (fun _ hpart => by cases hpart; exact Tree.asVariant_ofText layout.byteOrder.ofName?_name)
      nofun
  have hlengthWord : layout.toTree.usually "length_prefix" .signed
      (Tree.asVariant LengthWord.ofName?) = .ok layout.lengthWord :=
    h.usually_eq (.tail _ (.tail _ (.head _)))
      (fun _ hpart => by cases hpart; exact Tree.asVariant_ofText layout.lengthWord.ofName?_name)
      nofun
  have haxes : layout.toTree.required "axes" (Tree.asList AxisEntry.ofTree) = .ok layout.axes :=
    h.required_eq (by simp [fields]) (Tree.asList_map AxisEntry.ofTree_toTree _)
  have hstreamOrder : layout.toTree.usually "stream_order" [] (Tree.asList Tree.asText)
      = .ok layout.streamOrder :=
    h.usually_list (by simp [fields]) Tree.asText_ofText
  have hstorageOrder : layout.toTree.usually "storage_order" [] (Tree.asList Tree.asText)
      = .ok layout.storageOrder :=
    h.usually_list (by simp [fields]) Tree.asText_ofText
  have htrailers : layout.toTree.usually "trailing" [] (Tree.asList Trailer.ofTree)
      = .ok layout.trailers :=
    h.usually_list (by simp [fields]) Trailer.ofTree_toTree
  rw [ofTree, hname, hbyteOrder, hlengthWord, haxes, hstreamOrder, hstorageOrder, htrailers]
  rfl

/-- The tree of a layout has the fields of layouts. -/
theorem schema_fits (layout : Layout) : schema.Fits layout.toTree := by
  have htexts (texts : List String) : (Schema.list .text).Fits (.list (texts.map .ofText)) :=
    ⟨_, rfl, List.forall_mem_map.mpr fun text _ => ⟨text, rfl⟩⟩
  refine layout.toTree_consistsOf.fits fun name part hmem => ?_
  simp only [fields, List.mem_cons, Prod.mk.injEq, List.not_mem_nil, or_false] at hmem
  rcases hmem with ⟨rfl, h⟩ | ⟨rfl, h⟩ | ⟨rfl, h⟩ | ⟨rfl, h⟩ | ⟨rfl, h⟩ | ⟨rfl, h⟩ | ⟨rfl, h⟩
  · exact ⟨_, Option.some.inj h⟩
  · exact ⟨_, Option.some.inj h⟩
  · exact ⟨_, Option.some.inj h⟩
  · rw [Option.some.inj h]
    exact ⟨_, rfl, List.forall_mem_map.mpr fun entry _ => entry.schema_fits⟩
  · rw [Tree.eq_of_some_eq_ite h]
    exact htexts layout.streamOrder
  · rw [Tree.eq_of_some_eq_ite h]
    exact htexts layout.storageOrder
  · rw [Tree.eq_of_some_eq_ite h]
    exact ⟨_, rfl, List.forall_mem_map.mpr fun vector _ => vector.schema_fits⟩

/-- What holds of the parts of a layout holds of all that is written of it. -/
theorem toTree_all (layout : Layout) (htext : ∀ text, p (.text text)) (hflag : p (.flag true))
    (hnumber : ∀ entry ∈ layout.axes, ∀ values ∈ entry.values, ∀ x ∈ values, p (.number x))
    (hcount : ∀ vector ∈ layout.trailers, ∀ count ∈ vector.count, p (.count count))
    (hnames : ∀ name ∈ fieldNames, q name) : layout.toTree.All p q := by
  have htexts (texts : List String) : (Tree.list (texts.map .ofText)).All p q :=
    .list (List.forall_mem_map.mpr fun text _ => .leaf (htext text))
  have hsubset : layout.fields.map Prod.fst ⊆ fieldNames := by
    show ["name", "byte_order", "length_prefix", "axes", "stream_order", "storage_order",
      "trailing"] ⊆ fieldNames
    decide
  refine layout.toTree_consistsOf.all (fun name h => hnames name (hsubset h))
    fun name part hmem => ?_
  simp only [fields, List.mem_cons, Prod.mk.injEq, List.not_mem_nil, or_false] at hmem
  rcases hmem with ⟨-, h⟩ | ⟨-, h⟩ | ⟨-, h⟩ | ⟨-, h⟩ | ⟨-, h⟩ | ⟨-, h⟩ | ⟨-, h⟩
  · rw [Option.some.inj h]
    exact .leaf (htext layout.name)
  · rw [Option.some.inj h]
    exact .leaf (htext layout.byteOrder.name)
  · rw [Option.some.inj h]
    exact .leaf (htext layout.lengthWord.name)
  · rw [Option.some.inj h]
    exact .list (List.forall_mem_map.mpr fun entry hentry =>
      entry.toTree_all htext hflag (hnumber entry hentry) hnames)
  · rw [Tree.eq_of_some_eq_ite h]
    exact htexts layout.streamOrder
  · rw [Tree.eq_of_some_eq_ite h]
    exact htexts layout.storageOrder
  · rw [Tree.eq_of_some_eq_ite h]
    exact .list (List.forall_mem_map.mpr fun vector hvector =>
      vector.toTree_all hflag (hcount vector hvector) hnames)

/-! ### Layouts as texts -/

/-- The names of the fields are written as they are. -/
theorem isName_of_mem_fieldNames : ∀ name ∈ fieldNames, Scan.IsName name := by
  have hall : ∀ name ∈ fieldNames, allowsPlain name.toList = true ∧ name.toList ≠ [] ∧
      (name.toList.all fun c => !isGap c) = true ∧ name.toList.head? ≠ some '#' ∧
      name.toList.length ≤ 1024 := by decide +kernel
  intro name hname
  obtain ⟨hplain, hsome, hsolid, hmark, hshort⟩ := hall name hname
  exact ⟨⟨hsome, by simpa using hsolid, hmark⟩, hplain, hshort⟩

/-- The text of a layout is taken for a document that shows its tree. -/
theorem toTree_restored (layout : Layout)
    (hcounts : ∀ vector ∈ layout.trailers, ∀ count ∈ vector.count, count < 2 ^ 64) :
    layout.toTree.Restored :=
  Tree.restored (layout.toTree_all (fun _ => trivial) trivial (fun _ _ _ _ _ _ => trivial) hcounts
    isName_of_mem_fieldNames)

/-- **Layouts survive their texts.**  The text of a consistent layout is read as the same layout, if
    words hold the numbers of values in its trailing vectors. -/
theorem ofYaml_toYaml (layout : Layout) (hcheck : layout.check = .ok ())
    (hcounts : ∀ vector ∈ layout.trailers, ∀ count ∈ vector.count, count < 2 ^ 64) :
    ofYaml layout.toYaml.toList = .ok layout := by
  have hread : readYaml layout.toYaml.toList = .ok layout := by
    rw [readYaml, toYaml, readTree_of_restored (layout.toTree_restored hcounts) layout.schema_fits]
    exact layout.ofTree_toTree
  rw [ofYaml, hread]
  show (layout.check.mapError StoreError.layout >>= fun _ => Except.ok layout) = _
  rw [hcheck]
  rfl

/-- A layout with a field of every kind, and names that are written in quotes. -/
def manifold : Layout where
  name := "null"
  byteOrder := .big
  lengthWord := .unsigned
  axes := [⟨"12", none, true, some .barometric⟩, ⟨"- a: b", some [-0.0, 0.1], false, none⟩]
  streamOrder := []
  storageOrder := ["- a: b", "12"]
  trailers := [⟨true, none⟩, ⟨false, some 3⟩]

theorem ofYaml_toYaml_manifold : ofYaml manifold.toYaml.toList = .ok manifold := by
  refine ofYaml_toYaml manifold (by decide +kernel) fun vector hvector count hcount => ?_
  simp only [manifold, List.mem_cons, List.not_mem_nil, or_false] at hvector
  rcases hvector with rfl | rfl <;> cases hcount
  norm_num

end Layout

end GridLookup
