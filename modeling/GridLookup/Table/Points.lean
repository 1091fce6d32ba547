import GridLookup.Table.Interpolation

namespace GridLookup

/-!
# Packed points

Many points at once, packed one after the other into a single coordinate array.

* `Table.points` — the packed points, if they come out even.
* `Table.getAll` — their values, one after the other.
* `Table.getAllParallel` — the same values; many points are spread over worker threads.
* `Table.fill` — the same values, written into a buffer of the caller.
-/

/-- Cuts a list into consecutive pieces of `size`, the last one possibly shorter. -/
def cut {α : Type} (size : Nat) (items : List α) : List (List α) :=
  if 0 < size ∧ items ≠ [] then items.take size :: cut size (items.drop size) else []
termination_by items.length
decreasing_by
  have := List.length_pos_iff.mpr ‹0 < size ∧ items ≠ []›.2
  simp only [List.length_drop]
  omega

namespace Table

variable {α : Type} [Scalar α]

/-- The packed points.  A list that leaves an incomplete point over is refused, and the
    refusal counts the components of that point. -/
def points (table : Table α) (packed : List α) : Except (TableError α) (List (List α)) :=
  let left := packed.length % table.dimensions
  if left = 0 then .ok (cut table.dimensions packed)
  else .error (.arityMismatch table.dimensions left)

/-- The values at packed points, one after the other. -/
def getAll (table : Table α) (packed : List α) : Except (TableError α) (List α) :=
  (table.points packed).map fun points => points.map table.interpolate

/-- Fewer points than these are not spread over threads. -/
def parallelMinimum : Nat := 4096

/-- Points that one worker thread takes at a time. -/
def pointsPerTask : Nat := 1024

/-- The values at the points, each group of points on a worker thread of its own. -/
def interpolateParallel (table : Table α) (points : List (List α)) : List α :=
  let tasks := (cut pointsPerTask points).map fun group =>
    Task.spawn fun _ => group.map table.interpolate
  tasks.flatMap Task.get

/-- The values at packed points, in order; many points are spread over worker threads. -/
def getAllParallel (table : Table α) (packed : List α) : Except (TableError α) (List α) :=
  (table.points packed).map fun points =>
    if points.length < parallelMinimum then points.map table.interpolate
    else table.interpolateParallel points

/-- Writes the values at packed points into `buffer`, which must have one place per point.
    The buffer comes back with the outcome, unchanged on an error. -/
def fill (table : Table α) (packed : List α) (buffer : Array α) :
    Array α × Except (TableError α) Unit :=
  match table.points packed with
  | .error error => (buffer, .error error)
  | .ok points =>
    if buffer.size = points.length then ((table.interpolateParallel points).toArray, .ok ())
    else (buffer, .error (.sizeMismatch points.length buffer.size))

end Table

end GridLookup
