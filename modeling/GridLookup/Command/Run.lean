import GridLookup.Command.Files
import GridLookup.Command.Request
import GridLookup.Command.Summary

namespace GridLookup.Command

/-!
# Commands

What the commands print.

* `Running` — an action that prints and may stop.
* `run` — carries out a request on given files.
* `Outcome` — what a command line leads to; `execute` finds it.
-/

/-- An action that prints and may stop; what was printed before stays. -/
abbrev Running := ExceptT CommandError (StateM String)

/-- A value that must be there to go on. -/
def require {α : Type} (result : Except CommandError α) : Running α :=
  match result with
  | .ok value => return value
  | .error error => throw error

/-- Prints a line. -/
def printLine (line : String) : Running Unit := modify fun printed => printed ++ line ++ "\n"

/-- The spelling of numbers in results. -/
def number (x : Float) : String := NumberFormat.plain.write x

/-- A text with blanks after it up to a width. -/
def padRight (width : Nat) (text : String) : String :=
  text ++ String.ofList (List.replicate (width - text.length) ' ')

/-- A text with blanks before it up to a width. -/
def padLeft (width : Nat) (text : String) : String :=
  String.ofList (List.replicate (width - text.length) ' ') ++ text

/-- The range of an axis. -/
def rangeText (axis : Axis Float) : String :=
  number axis.least ++ " .. " ++ number axis.greatest

/-! ### Descriptions -/

/-- The nodes of an axis in one line. -/
def nodeList (axis : Axis Float) : String :=
  "[" ++ ", ".intercalate (axis.nodes.toList.map NumberFormat.listed.write) ++ "]"

/-- The line of an axis. -/
def axisLine (index : Nat) (name : String) (axis : Axis Float) : String :=
  "    [" ++ Numeral.text index ++ "] " ++ padRight 12 name ++ " "
    ++ padLeft 4 (Numeral.text axis.size) ++ " nodes  " ++ rangeText axis

/-- Describes the axes; `index` is the index of the first. -/
def describeAxes (verbose : Bool) : List (String × Axis Float) → Nat → Running Unit
  | [], _ => return
  | (name, axis) :: rest, index => do
    printLine (axisLine index name axis)
    if verbose then printLine ("        " ++ nodeList axis)
    describeAxes verbose rest (index + 1)

/-- Describes the values. -/
def describeValues (values : Array Float) : Running Unit := do
  let summary := Summary.ofValues values
  printLine ("  Values:     " ++ Numeral.text values.size)
  printLine ("  Min value:  " ++ writeFixed summary.least)
  printLine ("  Max value:  " ++ writeFixed summary.greatest)
  printLine ("  Avg value:  " ++ writeFixed summary.mean)

/-- Describes a table file. -/
def describeFile (arithmetic : Arithmetic) (files : Files) (layout : Layout) (verbose : Bool)
    (path : String) : Running Unit := do
  -- A file that is not there is reported as such, without the name of the step that needs it.
  if let some fault := files.absence? path then throw (.file fault)
  let bytes ← require (tableBytes files path)
  let table ← require (namedTable arithmetic layout path bytes)
  printLine path
  printLine ("  Layout:     " ++ layout.name)
  printLine ("  File size:  " ++ Numeral.text bytes.length ++ " bytes")
  printLine ("  Dimensions: " ++ Numeral.text table.dimensions)
  describeAxes verbose (table.names.zip table.axes) 0
  describeValues table.values

/-- Describes table files, with an empty line after each of several, and the layout if asked
    for. -/
def runInfo (arithmetic : Arithmetic) (files : Files) (inputs : List String) (argument : String)
    (yaml verbose : Bool) : Running Unit := do
  let layout ← require (findLayout files argument)
  inputs.forM fun path => do
    describeFile arithmetic files layout verbose path
    if 1 < inputs.length then printLine ""
  if yaml then printLine layout.toYaml

/-! ### Points -/

/-- The table of a file under the layout that an argument names. -/
def findTable (arithmetic : Arithmetic) (files : Files) (argument path : String) :
    Except CommandError (NamedTable Float) := do
  let layout ← findLayout files argument
  namedTable arithmetic layout path (← tableBytes files path)

/-- The values of the points that have no names, one point after the other.  Each of them must
    have one value per axis. -/
def packPoints (table : NamedTable Float) : List Point → Except CommandError (List Float)
  | [] => .ok []
  | .named _ :: rest => packPoints table rest
  | .positional values :: rest => do
    if values.length ≠ table.dimensions then
      .error (.pointLength values.length table.dimensions table.names)
    .ok (values ++ (← packPoints table rest))

/-- The line of a result. -/
def resultLine (verbose : Bool) (text : String) (value : Float) : String :=
  if verbose then text ++ " -> " ++ number value else number value

/-- Prints the value of every point in turn.  Points without names take theirs from the results
    of the batch, the others are looked up on the way. -/
def printValues (table : NamedTable Float) (verbose : Bool) :
    List (String × Point) → List Float → Running Unit
  | [], _ => return
  | (text, .named components) :: rest, batch => do
    let value ← require ((table.getNamed components).mapError (.pointNames text))
    printLine (resultLine verbose text value)
    printValues table verbose rest batch
  | (text, .positional _) :: rest, value :: batch => do
    printLine (resultLine verbose text value)
    printValues table verbose rest batch
  | (_, .positional _) :: _, [] => throw .missingResult

/-- Looks up points.  Nothing is printed unless all texts are points and those without names have
    one value per axis. -/
def queryPoints (table : NamedTable Float) (texts : List String) (verbose : Bool) :
    Running Unit := do
  let points ← require (texts.mapM fun text => (Point.read text.toList).mapError .point)
  let packed ← require (packPoints table points)
  let batch ← require ((table.getAllParallel packed).mapError .table)
  printValues table verbose (texts.zip points) batch

/-- Looks up points in a table file. -/
def runQuery (arithmetic : Arithmetic) (files : Files) (path argument : String)
    (texts : List String) (verbose : Bool) : Running Unit := do
  let table ← require (findTable arithmetic files argument path)
  queryPoints table texts verbose

/-! ### Nodes and curves -/

/-- Lists the nodes of an axis of a table file. -/
def runGrid (arithmetic : Arithmetic) (files : Files) (path argument chosen : String)
    (verbose : Bool) : Running Unit := do
  let table ← require (findTable arithmetic files argument path)
  let index ← require (table.chooseAxis chosen)
  let axis ← require ((table.axis index).mapError .table)
  if verbose then
    printLine ("# " ++ table.names.getD index "" ++ " (" ++ Numeral.text axis.size ++ " nodes)")
  axis.nodes.toList.forM fun node => printLine (number node)

/-- Describes the inputs of a curve. -/
def describeCurve (curve : Curve Float) : Running Unit := do
  let axis ← require ((curve.table.axis 0).mapError .table)
  printLine ("# " ++ Numeral.text axis.size ++ " nodes, x in " ++ rangeText axis)

/-- Looks up values on a curve file. -/
def runCurve (files : Files) (path : String) (xs : List Float) (least : Option Float)
    (verbose : Bool) : Running Unit := do
  let unbounded ← require (findCurve files path)
  let curve := match least with
    | some least => unbounded.withLeast least
    | none => unbounded
  if verbose then describeCurve curve
  xs.forM fun x => printLine (resultLine verbose (number x) (curve.value x))

/-! ### Command lines -/

/-- Carries out a request on given files. -/
def run (arithmetic : Arithmetic) (files : Files) (invocation : Invocation) : Running Unit :=
  match invocation.request with
  | .info inputs layout yaml => runInfo arithmetic files inputs layout yaml invocation.verbose
  | .query input layout points =>
    runQuery arithmetic files input layout points invocation.verbose
  | .grid input layout axis => runGrid arithmetic files input layout axis invocation.verbose
  | .curve input xs least => runCurve files input xs least invocation.verbose

/-- What a command line leads to. -/
structure Outcome where
  /-- The exit code. -/
  exitCode : Nat
  /-- What is printed. -/
  printed : String
  /-- What is reported besides. -/
  reported : Option String
  deriving DecidableEq, Repr

/-- The outcome of a request. -/
def Outcome.ofInvocation (arithmetic : Arithmetic) (files : Files) (invocation : Invocation) :
    Outcome :=
  match (run arithmetic files invocation).run "" with
  | (.ok (), printed) => ⟨0, printed, none⟩
  | (.error .overflow, printed) => ⟨101, printed, some StoreError.overflow.message⟩
  | (.error error, printed) => ⟨1, printed, some (report error.causes)⟩

/-- The name of the program. -/
def programName : String := "rtlut"

/-- How the program is used. -/
def usage : String :=
  "Usage: " ++ programName ++ " [-v]... [-j THREADS] COMMAND\n\n"
    ++ "Commands:\n"
    ++ "  info INPUT... -l LAYOUT [--yaml]        describe table files\n"
    ++ "  query INPUT -l LAYOUT --at POINT...     look up points\n"
    ++ "  grid INPUT -l LAYOUT --axis AXIS        list the nodes of an axis\n"
    ++ "  curve INPUT --x X... [--min-input X]    look up values on a curve\n"

/-- The outcome of a command line that asks for no work. -/
def Outcome.ofStop : Stop → Outcome
  | .help => ⟨0, usage, none⟩
  | .version => ⟨0, programName ++ " 0.1.0\n", none⟩
  | .misuse fault => ⟨2, "", some (fault.message ++ "\n\n" ++ usage)⟩

/-- The outcome of a command line. -/
def execute (arithmetic : Arithmetic) (files : Files) (arguments : List String) : Outcome :=
  match Invocation.read arguments with
  | .ok invocation => .ofInvocation arithmetic files invocation
  | .error stop => .ofStop stop

end GridLookup.Command
