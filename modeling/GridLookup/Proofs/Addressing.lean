import GridLookup.Command.Files
import GridLookup.Proofs.Placement

namespace GridLookup

/-!
# Arguments that name axes

One argument names an axis by its index or by its name.  Indices always lead to their axis; a name
does unless it reads as the index of something else, for a number is never taken for a name.

* `Numeral.readCount?_write` — the digits of a number are read as this number.
* `NamedTable.chooseAxis_of_count`, `NamedTable.chooseAxis_of_name` — arguments that are numbers,
  and names that are none.
* `Layout.chooseAxis_decoded` — both ways to every axis of a decoded table.
-/

/-! ### Numbers -/

theorem Numeral.readCount?_write {n : Nat} (h : n < 1 <<< 64) : readCount? (write n) = some n := by
  unfold readCount?
  split
  next rest hsign =>
    -- Digits do not begin with a sign.
    have hvalue := extend_write n
    rw [hsign] at hvalue
    cases hvalue
  next =>
    dsimp only
    rw [read?_write]
    exact if_pos h

/-! ### Arguments -/

namespace NamedTable

variable {named : NamedTable Float} {argument name : String} {i n : Nat}

/-- A number is an index, whatever the names are. -/
theorem chooseAxis_of_count (h : Numeral.readCount? argument.toList = some n) :
    named.chooseAxis argument
      = if n < named.dimensions then .ok n else .error (.axisNumber n named.dimensions) := by
  unfold chooseAxis
  rw [h]

/-- A name that is no number leads to its axis. -/
theorem chooseAxis_of_name (hname : named.names[i]? = some name)
    (h : Numeral.readCount? name.toList = none) : named.chooseAxis name = .ok i := by
  obtain ⟨hi, hat⟩ := List.getElem?_eq_some_iff.mp hname
  have hdistinct := (firstRepeated?_eq_none_iff named.names).mp named.names_distinct
  have hindex : named.indexOf? name = some i := by
    refine List.idxOf?_eq_some_iff.mpr ⟨hi, hat, fun j hji hj => ?_⟩
    have hsame := (List.Nodup.getElem_inj_iff hdistinct).mp (hj.trans hat.symm)
    omega
  unfold chooseAxis
  rw [h, hindex]

theorem lt_dimensions (h : named.names[i]? = some name) : i < named.dimensions := by
  rw [← named.names_length]
  exact (List.getElem?_eq_some_iff.mp h).1

theorem chooseAxis_text (h : i < named.dimensions) :
    named.chooseAxis (Numeral.text i) = .ok i := by
  have hfew : named.dimensions ≤ axisLimit := named.axes_length_le
  have hword : i < 1 <<< 64 := by
    unfold axisLimit at hfew
    omega
  have hcount : Numeral.readCount? (Numeral.text i).toList = some i := by
    rw [Numeral.text, String.toList_ofList, Numeral.readCount?_write hword]
  rw [chooseAxis_of_count hcount, if_pos h]

/-- A name leads to its axis unless it reads as another number. -/
theorem chooseAxis_eq_ok_iff (hname : named.names[i]? = some name) :
    named.chooseAxis name = .ok i ↔
      ∀ n, Numeral.readCount? name.toList = some n → n = i := by
  cases hcount : Numeral.readCount? name.toList with
  | none => exact iff_of_true (chooseAxis_of_name hname hcount) (by simp)
  | some n =>
    rw [chooseAxis_of_count hcount]
    constructor
    · intro h m hm
      cases hm
      split at h
      · exact Except.ok.inj h
      · cases h
    · intro h
      obtain rfl := h n rfl
      exact if_pos (lt_dimensions hname)

end NamedTable

/-! ### Decoded tables -/

namespace Layout

/-- **Both ways to an axis.**  In every decoded table the digits of an index lead to this axis.  The
    name that the layout gives to an axis leads to it exactly if the name does not read as another
    number.  A name that does is taken for this number: it leads to the axis with this index, and is
    refused if there is none. -/
theorem chooseAxis_decoded {layout : Layout} {arithmetic : Arithmetic} {named : NamedTable Float}
    (h : (∃ bytes, layout.decodeAll arithmetic bytes = .ok named) ∨
      ∃ source rest, layout.decodeFrom arithmetic source = .ok (named, rest)) :
    named.dimensions = layout.axes.length ∧
    ∀ i entry, layout.axes[i]? = some entry →
      named.chooseAxis (Numeral.text i) = .ok i ∧
      (named.chooseAxis entry.name = .ok i ↔
        ∀ n, Numeral.readCount? entry.name.toList = some n → n = i) ∧
      ∀ n, Numeral.readCount? entry.name.toList = some n →
        named.chooseAxis entry.name = if n < named.dimensions then .ok n
          else .error (.axisNumber n named.dimensions) := by
  -- However it was decoded, the table has the names of the layout, in its order.
  have hnames : named.names = layout.axisNames := by
    rcases h with ⟨bytes, h⟩ | ⟨source, rest, h⟩
    · exact (decodeAll_sound h).1
    · exact (decodeFrom_sound h).1
  have hlength : named.dimensions = layout.axes.length := by
    rw [← named.names_length, hnames, axisNames, List.length_map]
  refine ⟨hlength, fun i entry hentry => ?_⟩
  have hname : named.names[i]? = some entry.name := by
    rw [hnames, axisNames, List.getElem?_map, hentry]
    rfl
  exact ⟨NamedTable.chooseAxis_text (NamedTable.lt_dimensions hname),
    NamedTable.chooseAxis_eq_ok_iff hname, fun n hn => NamedTable.chooseAxis_of_count hn⟩

/-- A layout with names that read as numbers: as that of another axis, as their own with a sign, and
    as that of no axis. -/
def numbered : Layout where
  name := "numbered"
  byteOrder := .little
  lengthWord := .signed
  axes := [⟨"2", some [1.0], false, none⟩, ⟨"+1", some [1.0], false, none⟩,
    ⟨"height", some [1.0], false, none⟩, ⟨"560", some [1.0], false, none⟩]
  streamOrder := []
  storageOrder := []
  trailers := []

/-- One word makes a table of that layout. -/
theorem numbered_decodes (arithmetic : Arithmetic) :
    ∃ named, numbered.decodeAll arithmetic [0, 0, 0, 0] = .ok named := by
  have hdecodes : (numbered.decodeAll arithmetic [0, 0, 0, 0]).toOption.map
      (fun named => named.values.size) = some 1 := by
    cases arithmetic <;> decide +kernel
  obtain ⟨named, h, -⟩ := exists_of_map_toOption hdecodes
  exact ⟨named, h⟩

theorem chooseAxis_decoded_numbered :
    ∃ named, numbered.decodeAll .checked [0, 0, 0, 0] = .ok named ∧
      named.chooseAxis (Numeral.text 0) = .ok 0 ∧ named.chooseAxis "2" = .ok 2 ∧
      named.chooseAxis "+1" = .ok 1 ∧ named.chooseAxis "height" = .ok 2 ∧
      named.chooseAxis "560" = .error (.axisNumber 560 4) := by
  obtain ⟨named, h⟩ := numbered_decodes .checked
  obtain ⟨hdimensions, haxes⟩ := chooseAxis_decoded (Or.inl ⟨_, h⟩)
  have hfour : named.dimensions = 4 := hdimensions
  obtain ⟨hzero, -, hother⟩ := haxes 0 _ rfl
  obtain ⟨-, hsigned, -⟩ := haxes 1 _ rfl
  obtain ⟨-, hword, -⟩ := haxes 2 _ rfl
  obtain ⟨-, -, hbeyond⟩ := haxes 3 _ rfl
  have htwo : named.chooseAxis "2" = _ := hother 2 (by decide +kernel)
  have hlarge : named.chooseAxis "560" = _ := hbeyond 560 (by decide +kernel)
  rw [hfour] at htwo hlarge
  refine ⟨named, h, hzero, htwo, hsigned.mpr fun n hn => ?_, hword.mpr fun n hn => ?_, hlarge⟩
  · have hone : Numeral.readCount? "+1".toList = some 1 := by decide +kernel
    exact Option.some.inj (hn.symm.trans hone)
  · have hnone : Numeral.readCount? "height".toList = none := by decide +kernel
    cases hn.symm.trans hnone

/-- A name that reads as the index of another axis leads there. -/
theorem not_all_names_chosen :
    ¬ ∃ arithmetic : Arithmetic,
      ∀ (layout : Layout) (bytes : List UInt8) (named : NamedTable Float),
      layout.check = .ok () → layout.decodeAll arithmetic bytes = .ok named →
      ∀ i name, named.names[i]? = some name →
        named.chooseAxis name = .ok i ∧ named.chooseAxis (Numeral.text i) = .ok i := by
  rintro ⟨arithmetic, hall⟩
  obtain ⟨named, h⟩ := numbered_decodes arithmetic
  have hnames : named.names[0]? = some "2" := by
    rw [(decodeAll_sound h).1]
    rfl
  have hdimensions : named.dimensions = 4 := by
    rw [← named.names_length, (decodeAll_sound h).1]
    rfl
  obtain ⟨hname, -⟩ := hall numbered [0, 0, 0, 0] named (by decide +kernel) h 0 "2" hnames
  have hcount : Numeral.readCount? "2".toList = some 2 := by decide +kernel
  rw [NamedTable.chooseAxis_of_count hcount, hdimensions] at hname
  cases hname

end Layout

end GridLookup
