import GridLookup.Layout.Arrangement
import GridLookup.Store.Error
import GridLookup.Yaml.Printer
import GridLookup.Yaml.Reader

namespace GridLookup

/-!
# Layout documents

The text form of layouts.  Fields that have their usual value are left out of the text, and
reading puts the usual value back.

* `Layout.schema` — the fields of a layout document.
* `Layout.toTree`, `Layout.ofTree` — a layout as a tree and back.
* `Layout.ofYaml` — the layout that a text describes, if it is consistent.
* `Layout.toYaml` — the text of a layout.
-/

open Yaml

/-! ### Names of variants -/

/-- The name of a byte order. -/
def ByteOrder.name : ByteOrder → String
  | .little => "little"
  | .big => "big"

/-- The byte order with a name. -/
def ByteOrder.ofName? (name : String) : Option ByteOrder :=
  [ByteOrder.little, .big].find? fun order => order.name == name

/-- The name of a reading of length words. -/
def LengthWord.name : LengthWord → String
  | .signed => "i32"
  | .unsigned => "u32"

/-- The reading of length words with a name. -/
def LengthWord.ofName? (name : String) : Option LengthWord :=
  [LengthWord.signed, .unsigned].find? fun kind => kind.name == name

/-- The name of a conversion. -/
def Conversion.name : Conversion → String
  | .barometric => "pressure_to_elevation"

/-- The conversion with a name. -/
def Conversion.ofName? (name : String) : Option Conversion :=
  [Conversion.barometric].find? fun conversion => conversion.name == name

/-! ### The schema -/

/-- The fields of an axis. -/
def AxisEntry.schema : Schema :=
  .record <|
    .field "name" false .text <|
    .field "values" true (.list .number) <|
    .field "reversed" false .flag <|
    .field "transform" true .variant .none

/-- The fields of a trailing vector. -/
def Trailer.schema : Schema :=
  .record <|
    .field "prefixed" false .flag <|
    .field "count" true .count .none

/-- The fields of a layout. -/
def Layout.schema : Schema :=
  .record <|
    .field "name" false .text <|
    .field "byte_order" false .variant <|
    .field "length_prefix" false .variant <|
    .field "axes" false (.list AxisEntry.schema) <|
    .field "stream_order" false (.list .text) <|
    .field "storage_order" false (.list .text) <|
    .field "trailing" false (.list Trailer.schema) .none

/-! ### Parts of trees -/

namespace Yaml.Tree

/-- The text of a tree. -/
def asText : Tree → Except Fault String
  | .leaf (.text text) => .ok text
  | _ => .error (.wrongKind "text")

/-- The truth value of a tree. -/
def asFlag : Tree → Except Fault Bool
  | .leaf (.flag value) => .ok value
  | _ => .error (.wrongKind "flag")

/-- The number of a tree. -/
def asNumber : Tree → Except Fault Float
  | .leaf (.number value) => .ok value
  | _ => .error (.wrongKind "number")

/-- The natural number of a tree. -/
def asCount : Tree → Except Fault Nat
  | .leaf (.count value) => .ok value
  | _ => .error (.wrongKind "count")

/-- The items of a tree. -/
def asList {α : Type} (read : Tree → Except Fault α) : Tree → Except Fault (List α)
  | .list items => items.mapM read
  | _ => .error (.wrongKind "list")

/-- The variant that a tree names. -/
def asVariant {α : Type} (ofName? : String → Option α) (tree : Tree) : Except Fault α := do
  match ofName? (← tree.asText) with
  | some value => .ok value
  | none => .error (.wrongKind "variant")

/-- The field of a record, if it has one of that name. -/
def field? (name : String) : Tree → Option Tree
  | .record fields => fields.lookup name
  | _ => none

/-- What a field says, if there is one. -/
def optional {α : Type} (tree : Tree) (name : String) (read : Tree → Except Fault α) :
    Except Fault (Option α) :=
  match tree.field? name with
  | some field => (read field).map some
  | none => .ok none

/-- What a field says, or a usual value if there is none. -/
def usually {α : Type} (tree : Tree) (name : String) (usual : α)
    (read : Tree → Except Fault α) : Except Fault α :=
  (tree.optional name read).map fun value => value.getD usual

/-- What a field says that must not be left out. -/
def required {α : Type} (tree : Tree) (name : String) (read : Tree → Except Fault α) :
    Except Fault α :=
  match tree.field? name with
  | some field => read field
  | none => .error (.missingField name)

/-- A text as a tree. -/
def ofText (text : String) : Tree := .leaf (.text text)

end Yaml.Tree

/-! ### Layouts as trees -/

/-- The tree of an axis. -/
def AxisEntry.toTree (entry : AxisEntry) : Tree :=
  let values := entry.values.map fun values => .list (values.map fun x => .leaf (.number x))
  let conversion := entry.conversion.map fun conversion => .ofText conversion.name
  .record <|
    [("name", .ofText entry.name)]
      ++ values.toList.map (fun tree => ("values", tree))
      ++ (if entry.reversed then [("reversed", .leaf (.flag true))] else [])
      ++ conversion.toList.map (fun tree => ("transform", tree))

/-- The axis of a tree. -/
def AxisEntry.ofTree (tree : Tree) : Except Fault AxisEntry := do
  let name ← tree.required "name" Tree.asText
  let values ← tree.optional "values" (Tree.asList Tree.asNumber)
  let reversed ← tree.usually "reversed" false Tree.asFlag
  let conversion ← tree.optional "transform" (Tree.asVariant Conversion.ofName?)
  .ok ⟨name, values, reversed, conversion⟩

/-- The tree of a trailing vector. -/
def Trailer.toTree (vector : Trailer) : Tree :=
  let count := vector.count.map fun count => .leaf (.count count)
  .record <|
    (if vector.prefixed then [("prefixed", .leaf (.flag true))] else [])
      ++ count.toList.map (fun tree => ("count", tree))

/-- The trailing vector of a tree. -/
def Trailer.ofTree (tree : Tree) : Except Fault Trailer := do
  let prefixed ← tree.usually "prefixed" false Tree.asFlag
  let count ← tree.optional "count" Tree.asCount
  .ok ⟨prefixed, count⟩

namespace Layout

/-- A list as a field, unless it is empty. -/
def listField (name : String) (items : List Tree) : List (String × Tree) :=
  if items.isEmpty then [] else [(name, .list items)]

/-- The tree of a layout. -/
def toTree (layout : Layout) : Tree :=
  .record <|
    [("name", .ofText layout.name),
     ("byte_order", .ofText layout.byteOrder.name),
     ("length_prefix", .ofText layout.lengthWord.name),
     ("axes", .list (layout.axes.map AxisEntry.toTree))]
      ++ listField "stream_order" (layout.streamOrder.map .ofText)
      ++ listField "storage_order" (layout.storageOrder.map .ofText)
      ++ listField "trailing" (layout.trailers.map Trailer.toTree)

/-- The layout of a tree. -/
def ofTree (tree : Tree) : Except Fault Layout := do
  let name ← tree.required "name" Tree.asText
  let byteOrder ← tree.usually "byte_order" .little (Tree.asVariant ByteOrder.ofName?)
  let lengthWord ← tree.usually "length_prefix" .signed (Tree.asVariant LengthWord.ofName?)
  let axes ← tree.required "axes" (Tree.asList AxisEntry.ofTree)
  let streamOrder ← tree.usually "stream_order" [] (Tree.asList Tree.asText)
  let storageOrder ← tree.usually "storage_order" [] (Tree.asList Tree.asText)
  let trailers ← tree.usually "trailing" [] (Tree.asList Trailer.ofTree)
  .ok ⟨name, byteOrder, lengthWord, axes, streamOrder, storageOrder, trailers⟩

/-! ### Layouts as texts -/

/-- The layout that a document text describes, whether it is consistent or not. -/
def readYaml (text : List Char) : Except Fault Layout := do
  ofTree (← readTree schema text)

/-- The consistent layout that a document text describes. -/
def ofYaml (text : List Char) : Except StoreError Layout := do
  let layout ← (readYaml text).mapError StoreError.yaml
  layout.check.mapError StoreError.layout
  .ok layout

/-- The document text of a layout. -/
def toYaml (layout : Layout) : String := layout.toTree.write

end Layout

end GridLookup
