import GridLookup.Curve.Rows

namespace GridLookup

/-!
# Curves

* `Curve` — a one-dimensional table with an optional lower bound of its inputs.
* `Curve.ofTable`, `Curve.ofBytes` — the curve of a table and of a curve file.
* `Curve.value` — the value at an input.
-/

/-- A one-dimensional table with an optional lower bound of its inputs. -/
structure Curve (α : Type) [Scalar α] where
  /-- The table. -/
  table : Table α
  /-- Inputs below this bound have no value. -/
  least : Option α

namespace Curve

variable {α : Type} [Scalar α]

/-- A table as a curve, if it has one axis. -/
def ofTable (table : Table α) : Except (TableError α) (Curve α) :=
  if table.dimensions = 1 then .ok ⟨table, none⟩
  else .error (.arityMismatch 1 table.dimensions)

/-- The curve with a lower bound of its inputs. -/
def withLeast (curve : Curve α) (least : α) : Curve α := ⟨curve.table, some least⟩

/-- The value at an input: undefined below the bound, and that of the table elsewhere. -/
def value (curve : Curve α) (x : α) : α :=
  if curve.least.any fun least => Scalar.lt x least then Scalar.nan
  else
    match curve.table.get1 x with
    | .ok y => y
    | .error _ => Scalar.nan

/-- The curve of a curve file. -/
def ofBytes (bytes : List UInt8) : Except StoreError (Curve Float) := do
  (ofTable (← tableOfBytes bytes)).mapError StoreError.table

end Curve

end GridLookup
