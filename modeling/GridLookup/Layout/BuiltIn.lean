import GridLookup.Layout.Basic
import GridLookup.Layout.Fault

namespace GridLookup

/-!
# Built-in layouts

* `Layout.merisAot` — aerosol optical thickness at the bands of the MERIS instrument.
* `Layout.merisAotKx` — the coupling terms that belong to it.
* `Layout.builtIn` — a built-in layout by name.
-/

/-- An axis whose nodes are stored. -/
def AxisEntry.stored (name : String) : AxisEntry := ⟨name, none, false, none⟩

/-- An axis with the given nodes. -/
def AxisEntry.supplied (name : String) (values : List Float) : AxisEntry :=
  ⟨name, some values, false, none⟩

namespace Layout

/-- The wavelengths of the instrument, in nm. -/
def bands : List Float :=
  [412.0, 442.0, 490.0, 510.0, 560.0, 620.0, 665.0, 681.0, 708.0, 753.0, 760.0, 778.0, 865.0,
   885.0, 900.0]

/-- The stored axes of both layouts, in the order they are stored in. -/
def geometryOrder : List String := ["vza", "sza", "azimuth", "elevation", "aot"]

/-- Aerosol tables: surface pressures are stored in place of elevations, azimuths run
    backwards, and the wavelengths follow the values once more. -/
def merisAot : Layout where
  name := "meris-aot"
  byteOrder := .little
  lengthWord := .signed
  axes :=
    [.supplied "wavelength" bands, .stored "aot",
     ⟨"elevation", none, false, some .barometric⟩, ⟨"azimuth", none, true, none⟩,
     .stored "sza", .stored "vza", .supplied "parameter" [1.0, 2.0, 3.0, 4.0, 5.0]]
  streamOrder := geometryOrder
  storageOrder := []
  trailers := [⟨false, some 15⟩]

/-- Coupling tables: elevations are stored in km, azimuths run forwards, and nothing follows
    the values. -/
def merisAotKx : Layout where
  name := "meris-aot-kx"
  byteOrder := .little
  lengthWord := .signed
  axes :=
    [.supplied "wavelength" bands, .stored "aot", .stored "elevation", .stored "azimuth",
     .stored "sza", .stored "vza", .supplied "kx" [1.0, 2.0]]
  streamOrder := geometryOrder
  storageOrder := []
  trailers := []

/-- The built-in layouts. -/
def builtIns : List Layout := [merisAot, merisAotKx]

/-- The names of the built-in layouts. -/
def builtInNames : List String := builtIns.map Layout.name

/-- The built-in layout with a name. -/
def builtIn (name : String) : Except LayoutFault Layout :=
  match builtIns.find? fun layout => layout.name == name with
  | some layout => .ok layout
  | none => .error (.unknownBuiltIn name builtInNames)

end Layout

end GridLookup
