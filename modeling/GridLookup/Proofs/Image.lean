import GridLookup.Store.Reading
import GridLookup.Proofs.Arrangement
import GridLookup.Proofs.Order
import GridLookup.Proofs.Word

namespace GridLookup

/-!
# Images of tables

What a table looks like in a file, as a relation between the file's bytes and its parts.  What
is read is described by this relation, and so is what is written.

* `Layout.AxisImage`, `Layout.TrailerImage` — the vectors in front of and behind the values.
* `Layout.Image` — a whole table.
* `Layout.entryAxes_eq_ok_iff` — which vectors make up the axes of a table.
-/

namespace Layout

/-! ### Vectors -/

/-- The bytes of the stored axes: for each of them a length word and as many words. -/
inductive AxisImage (layout : Layout) : Vectors → List UInt8 → Prop where
  /-- No axis is stored. -/
  | nil : AxisImage layout [] []
  /-- One more axis in front. -/
  | cons {index : Nat} {words : Array Word} {length : Word} {vectors : Vectors}
      {bytes : List UInt8} (counts : layout.lengthWord.number length = words.size)
      (rest : AxisImage layout vectors bytes) :
      AxisImage layout ((index, words) :: vectors)
        (length.bytes layout.byteOrder ++ Word.writeAll layout.byteOrder words.toList ++ bytes)

/-- The bytes of the trailing vectors: a length word where the count is not fixed, and as many
    bytes as their size is calculated to be. -/
inductive TrailerImage (layout : Layout) (arithmetic : Arithmetic) :
    List Trailer → List UInt8 → Prop where
  /-- Nothing follows the values. -/
  | nil : TrailerImage layout arithmetic [] []
  /-- One more vector of a fixed length in front. -/
  | fixed {trailer : Trailer} {count : Nat} {trailers : List Trailer} {skipped bytes : List UInt8}
      (fixed : trailer.count = some count) (size : arithmetic.size count = .ok skipped.length)
      (rest : TrailerImage layout arithmetic trailers bytes) :
      TrailerImage layout arithmetic (trailer :: trailers) (skipped ++ bytes)
  /-- One more vector with a length word in front. -/
  | counted {trailer : Trailer} {count : Nat} {length : Word} {trailers : List Trailer}
      {skipped bytes : List UInt8} (unfixed : trailer.count = none)
      (counts : layout.lengthWord.number length = count)
      (size : arithmetic.size count = .ok skipped.length)
      (rest : TrailerImage layout arithmetic trailers bytes) :
      TrailerImage layout arithmetic (trailer :: trailers)
        (length.bytes layout.byteOrder ++ skipped ++ bytes)

/-! ### Axes from vectors -/

/-- The node that a stored word stands for. -/
def nodeOf (entry : AxisEntry) (word : Word) : Float :=
  match entry.conversion with
  | some conversion => conversion.toNode word.widen
  | none => word.widen

/-- The nodes of an axis are those the layout supplies, or else those of its vector. -/
theorem axisNodes_eq_ok_iff {entry : AxisEntry} {words : Option (Array Word)}
    {nodes : Array Float} :
    axisNodes entry words = .ok nodes ↔
      (∃ values, entry.values = some values ∧ nodes = values.toArray) ∨
        entry.values = none ∧
          ∃ vector, words = some vector ∧ nodes = vector.map (nodeOf entry) := by
  unfold axisNodes nodeOf
  cases entry.values with
  | some values => simp [eq_comm]
  | none =>
    cases words with
    | none => simp
    | some vector =>
      cases entry.conversion with
      | none => simp [eq_comm]
      | some conversion => simp [eq_comm]

/-- An axis is accepted exactly if its nodes are at hand, and it consists of them. -/
theorem entryAxis_eq_ok_iff {entry : AxisEntry} {words : Option (Array Word)} {axis : Axis Float} :
    entryAxis entry words = .ok axis ↔ axisNodes entry words = .ok axis.nodes := by
  unfold entryAxis
  constructor
  · intro h
    obtain ⟨nodes, hnodes, h⟩ := bind_eq_ok_iff.mp h
    split at h
    · next axis' hofArray =>
      cases h
      rw [hnodes, Axis.ofArray_eq_ok_iff.mp hofArray]
    · cases h
  · intro h
    refine bind_eq_ok_iff.mpr ⟨axis.nodes, h, ?_⟩
    rw [Axis.ofArray_eq_ok_iff.mpr rfl]

/-- The axes of a table are those of the layout, one by one. -/
theorem entryAxes_eq_ok_iff {vectors : Vectors} {entries : List AxisEntry} {first : Nat}
    {axes : List (Axis Float)} :
    entryAxes vectors entries first = .ok axes ↔
      axes.length = entries.length ∧ ∀ k entry axis, entries[k]? = some entry →
        axes[k]? = some axis →
        axisNodes entry (vectors.lookup (first + k)) = .ok axis.nodes := by
  induction entries generalizing first axes with
  | nil =>
    unfold entryAxes
    rw [Except.ok.injEq]
    constructor
    · rintro rfl
      exact ⟨rfl, by simp⟩
    · rintro ⟨hlength, -⟩
      exact (List.eq_nil_of_length_eq_zero hlength).symm
  | cons entry rest ih =>
    unfold entryAxes
    rw [bind_eq_ok_iff]
    constructor
    · rintro ⟨axis, haxis, h⟩
      obtain ⟨axes, haxes, h⟩ := bind_eq_ok_iff.mp h
      cases h
      obtain ⟨hlength, hrest⟩ := ih.mp haxes
      refine ⟨by rw [List.length_cons, List.length_cons, hlength], fun k entry' axis' he ha => ?_⟩
      cases k with
      | zero =>
        cases he
        cases ha
        exact entryAxis_eq_ok_iff.mp haxis
      | succ k =>
        have := hrest k entry' axis' he ha
        rwa [Nat.add_assoc, Nat.add_comm 1 k] at this
    · rintro ⟨hlength, h⟩
      match axes, hlength with
      | axis :: axes, hlength =>
        -- The vectors of the remaining axes are looked up one index further on.
        refine ⟨axis, entryAxis_eq_ok_iff.mpr (h 0 entry axis rfl rfl), ?_⟩
        have haxes : entryAxes vectors rest (first + 1) = .ok axes := by
          refine ih.mpr ⟨by simpa using hlength, fun k entry' axis' he ha => ?_⟩
          rw [Nat.add_assoc, Nat.add_comm 1 k]
          exact h (k + 1) entry' axis' he ha
        rw [haxes]
        rfl

/-! ### Whole tables -/

/-- The bytes that hold a table under a layout, together with what they say: the vectors of the
    stored axes, the block of values and the table these make up. -/
structure Image (layout : Layout) (arithmetic : Arithmetic) (arrangement : Arrangement)
    (vectors : Vectors) (block : Array Word) (table : Table Float) (bytes : List UInt8) : Prop where
  /-- The layout is consistent. -/
  arranged : layout.arrangement = .ok arrangement
  /-- Its axes are stored in the order it gives. -/
  stream : vectors.map Prod.fst = arrangement.stream
  /-- The vectors and the supplied nodes make up the axes. -/
  axes : entryAxes vectors layout.axes 0 = .ok table.axes
  /-- There is a word for each cell. -/
  complete : block.size = Shape.cells table.shape
  /-- The values are those of the block. -/
  values : table.values = unnest (layout.nesting arrangement table.shape) block
  /-- The bytes are those of the axes, the block and the trailing vectors. -/
  bytes_eq : ∃ front back, layout.AxisImage vectors front ∧
    layout.TrailerImage arithmetic layout.trailers back ∧
    bytes = front ++ Word.writeAll layout.byteOrder block.toList ++ back

end Layout

end GridLookup
