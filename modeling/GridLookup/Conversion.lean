import GridLookup.Scalar

namespace GridLookup

/-!
# Conversions

Aerosol tables are computed at surface pressures, while queries ask by terrain height.  The
barometric formula takes one to the other.

* `elevationOfPressure`, `pressureOfElevation` — hPa to km above sea level and back.
* `Conversion` — the conversions that an axis of a stored table may ask for.
-/

section Formula

variable {α : Type} [PowerScalar α]

/-- Standard pressure at sea level, in hPa. -/
def seaLevelPressure : α := 1013.25

/-- Exponent of the barometric formula. -/
def barometricExponent : α := 5.25588

/-- Relative temperature lapse per metre. -/
def temperatureLapse : α := 2.25577e-5

/-- The coordinate of a placeholder node, which no conversion changes. -/
def placeholder : α := 0.0 - 1.0

/-- Surface pressure in hPa to elevation in km. -/
def elevationOfPressure (pressure : α) : α :=
  if Scalar.eq pressure placeholder then pressure
  else
    0.001 * (1.0 - PowerScalar.pow (pressure / seaLevelPressure) (1.0 / barometricExponent))
      / temperatureLapse

/-- Elevation in km to surface pressure in hPa. -/
def pressureOfElevation (elevation : α) : α :=
  if Scalar.eq elevation placeholder then elevation
  else
    seaLevelPressure
      * PowerScalar.pow (1.0 - 1000.0 * temperatureLapse * elevation) barometricExponent

end Formula

/-- A conversion of the stored coordinates of an axis. -/
inductive Conversion where
  /-- Pressures in hPa are stored, elevations in km are looked up. -/
  | barometric
  deriving DecidableEq, Repr

namespace Conversion

variable {α : Type} [PowerScalar α]

/-- A stored coordinate as the table has it. -/
def toNode : Conversion → α → α
  | .barometric => elevationOfPressure

/-- A coordinate of the table as it is stored. -/
def toStored : Conversion → α → α
  | .barometric => pressureOfElevation

end Conversion

end GridLookup
