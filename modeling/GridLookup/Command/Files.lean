import GridLookup.Command.Error
import GridLookup.Curve.Basic
import GridLookup.Layout.BuiltIn
import GridLookup.Layout.Document
import GridLookup.Store.Reading

namespace GridLookup

/-!
# Files

What the commands read, and how their arguments name it.

* `Files` — what is found at each path.
* `findLayout`, `findCurve` — the layout and the curve that an argument names.
* `tableBytes`, `namedTable` — the contents of a table file.
* `NamedTable.chooseAxis` — the axis that an argument names.
-/

/-- What is found at each path: the bytes of a file, or why there are none. -/
abbrev Files := String → Except FileFault (List UInt8)

namespace Files

/-- Where a part of a path leads. -/
inductive Place where
  /-- To the folder that paths begin in. -/
  | folder
  /-- To a folder around it, in which only folders further out are known. -/
  | around
  /-- To a file. -/
  | file (bytes : List UInt8)

/-- The most bytes that the name of a file has. -/
def nameLimit : Nat := 255

/-- One byte more than a path may have. -/
def pathLimit : Nat := 4096

/-- One part of a path further.  From a file no part leads on, not even an empty one. -/
def enter (folder : List (String × List UInt8)) (place : Place) (part : String) :
    Except FileFault Place :=
  match place with
  | .file _ => .error .notDirectory
  | place =>
    if part = "" || part = "." then .ok place
    else if part = ".." then .ok .around
    else if nameLimit < part.utf8ByteSize then .error .nameTooLong
    else
      match place, folder.lookup part with
      | .folder, some bytes => .ok (.file bytes)
      | _, _ => .error .missing

/-- The files of a folder without subfolders, at paths relative to it.  A path that begins with a
    slash begins outside the folder. -/
def ofFolder (folder : List (String × List UInt8)) : Files := fun path => do
  if path.isEmpty then .error .missing
  if pathLimit ≤ path.utf8ByteSize then .error .nameTooLong
  let start := if path.startsWith "/" then .around else .folder
  match ← (path.splitOn "/").foldlM (enter folder) start with
  | .file bytes => .ok bytes
  | _ => .error .directory

/-- Why nothing is found at a path. -/
def absence? (files : Files) (path : String) : Option FileFault :=
  match files path with
  | .error .missing => some .missing
  | .error .notDirectory => some .notDirectory
  | .error .nameTooLong => some .nameTooLong
  | _ => none

/-- The bytes of a file. -/
def bytes (files : Files) (path : String) : Except StoreError (List UInt8) :=
  (files path).mapError StoreError.file

end Files

/-! ### Contents of files -/

/-- The layout of a file. -/
def Layout.ofBytes (bytes : List UInt8) : Except StoreError Layout :=
  match textOfBytes? bytes with
  | some text => ofYaml text
  | none => .error (.file .notText)

/-- The layout that an argument names: a built-in one, or that of a file. -/
def findLayout (files : Files) (argument : String) : Except CommandError Layout :=
  match Layout.builtIn argument with
  | .ok layout => .ok layout
  | .error _ =>
    match files.absence? argument with
    | some _ => .error (.noLayout argument Layout.builtInNames)
    | none => (files.bytes argument >>= Layout.ofBytes).mapError (.layoutFile argument)

/-- The bytes of a table file. -/
def tableBytes (files : Files) (path : String) : Except CommandError (List UInt8) :=
  (files.bytes path).mapError (.tableFile path)

/-- The error of a table file that is refused.  A size that does not fit is not put down to the
    file. -/
def CommandError.ofTableFile (path : String) : StoreError → CommandError
  | .overflow => .overflow
  | error => .tableFile path error

/-- The named table of the bytes of a table file. -/
def namedTable (arithmetic : Arithmetic) (layout : Layout) (path : String) (bytes : List UInt8) :
    Except CommandError (NamedTable Float) :=
  (layout.decodeAll arithmetic bytes).mapError (.ofTableFile path)

/-- The curve of a curve file. -/
def findCurve (files : Files) (path : String) : Except CommandError (Curve Float) :=
  (files.bytes path >>= Curve.ofBytes).mapError (.curveFile path)

/-! ### Axes -/

/-- The index of the axis that an argument names, which is a number or a name.  An argument that
    is a number is never taken for a name. -/
def NamedTable.chooseAxis (table : NamedTable Float) (argument : String) :
    Except CommandError Nat :=
  match Numeral.readCount? argument.toList with
  | some index =>
    if index < table.dimensions then .ok index
    else .error (.axisNumber index table.dimensions)
  | none =>
    match table.indexOf? argument with
    | some index => .ok index
    | none => .error (.axisName argument table.names)

end GridLookup
