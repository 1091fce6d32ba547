import GridLookup.Command.Arguments
import GridLookup.Decimal.Reader

namespace GridLookup

/-!
# Requests

What a command line asks for.

* `Request` — one of the four commands with its arguments.
* `Draft` — what has been gathered of a command line.
* `Invocation.read` — the request of a command line, or why there is none.
-/

/-- A command with its arguments. -/
inductive Request where
  /-- Describe table files. -/
  | info (inputs : List String) (layout : String) (yaml : Bool)
  /-- Look up points in a table file. -/
  | query (input layout : String) (points : List String)
  /-- List the nodes of an axis of a table file. -/
  | grid (input layout axis : String)
  /-- Look up values on a curve file. -/
  | curve (input : String) (xs : List Float) (least : Option Float)
  deriving Repr

/-- A request and how much is said about its results. -/
structure Invocation where
  /-- The request. -/
  request : Request
  /-- Results come with explanations. -/
  verbose : Bool
  deriving Repr

/-- The paths of the files that a request may read. -/
def Request.paths : Request → List String
  | .info inputs layout _ => layout :: inputs
  | .query input layout _ => [layout, input]
  | .grid input layout _ => [layout, input]
  | .curve input _ _ => [input]

/-! ### Drafts -/

/-- What has been gathered of a command line. -/
structure Draft where
  /-- The files. -/
  inputs : List String
  /-- The layout argument. -/
  layout : Option String
  /-- Whether the layout is to be shown. -/
  yaml : Bool
  /-- The points. -/
  points : List String
  /-- The axis argument. -/
  axis : Option String
  /-- The inputs of a curve. -/
  xs : List Float
  /-- The lower bound of those inputs. -/
  least : Option Float
  /-- How often explanations have been asked for. -/
  verbosity : Nat
  /-- The number of worker threads, which changes no result. -/
  threads : Option Nat

namespace Draft

/-- Nothing yet. -/
def empty : Draft := ⟨[], none, false, [], none, [], none, 0, none⟩

/-- Adds a file, whose path is not empty. -/
def addInput (path : String) (draft : Draft) : Except UsageFault Draft :=
  if path.isEmpty then .error (.badValue "INPUT" path)
  else .ok { draft with inputs := draft.inputs ++ [path] }

/-- Sets the only file. -/
def setInput (path : String) (draft : Draft) : Except UsageFault Draft :=
  if draft.inputs.isEmpty then draft.addInput path else .error (.unexpected path)

/-- Sets the layout argument. -/
def setLayout (value : String) (draft : Draft) : Except UsageFault Draft :=
  if draft.layout.isSome then .error (.repeated "layout")
  else .ok { draft with layout := some value }

/-- Has the layout shown. -/
def setYaml (draft : Draft) : Except UsageFault Draft :=
  if draft.yaml then .error (.repeated "yaml") else .ok { draft with yaml := true }

/-- Adds a point. -/
def addPoint (value : String) (draft : Draft) : Except UsageFault Draft :=
  .ok { draft with points := draft.points ++ [value] }

/-- Sets the axis argument. -/
def setAxis (value : String) (draft : Draft) : Except UsageFault Draft :=
  if draft.axis.isSome then .error (.repeated "axis")
  else .ok { draft with axis := some value }

/-- The number of an option. -/
def number (option value : String) : Except UsageFault Float :=
  (readNumber value.toList).mapError fun _ => .badValue option value

/-- Adds an input of a curve. -/
def addX (value : String) (draft : Draft) : Except UsageFault Draft := do
  let x ← number "x" value
  .ok { draft with xs := draft.xs ++ [x] }

/-- Sets the lower bound of those inputs. -/
def setLeast (value : String) (draft : Draft) : Except UsageFault Draft := do
  if draft.least.isSome then .error (.repeated "min-input")
  let least ← number "min-input" value
  .ok { draft with least := some least }

/-- Asks for explanations. -/
def addVerbosity (draft : Draft) : Except UsageFault Draft :=
  .ok { draft with verbosity := draft.verbosity + 1 }

/-- Sets the number of worker threads. -/
def setThreads (value : String) (draft : Draft) : Except UsageFault Draft :=
  if draft.threads.isSome then .error (.repeated "threads")
  else
    match Numeral.readCount? value.toList with
    | some count => .ok { draft with threads := some count }
    | none => .error (.badValue "threads" value)

/-- The only file. -/
def input (draft : Draft) : Except UsageFault String :=
  match draft.inputs with
  | path :: _ => .ok path
  | [] => .error (.missing "INPUT")

/-- A list that must not be empty. -/
def someOf {α : Type} (name : String) (items : List α) : Except UsageFault (List α) :=
  if items.isEmpty then .error (.missing name) else .ok items

/-- An argument that must be given. -/
def given {α : Type} (name : String) : Option α → Except UsageFault α
  | some value => .ok value
  | none => .error (.missing name)

end Draft

/-! ### Commands -/

/-- The options that stand before or after the name of the command. -/
def commonOptions : List (OptionRule Draft) :=
  [⟨some 'v', "verbose", .flag Draft.addVerbosity⟩,
   ⟨some 'j', "threads", .value .none Draft.setThreads⟩,
   ⟨some 'h', "help", .stop .help⟩]

/-- The layout option. -/
def layoutOption : OptionRule Draft := ⟨some 'l', "layout", .value .none Draft.setLayout⟩

/-- What stands before the name of the command. -/
def commonGrammar : Grammar Draft :=
  ⟨commonOptions ++ [⟨some 'V', "version", .stop .version⟩], none⟩

/-- A command: what it understands, and the request of what was gathered. -/
structure CommandRule where
  /-- The names of the command. -/
  names : List String
  /-- What it understands. -/
  grammar : Grammar Draft
  /-- The request of a draft. -/
  request : Draft → Except UsageFault Request

/-- The command that describes table files. -/
def infoRule : CommandRule where
  names := ["info", "i"]
  grammar := ⟨commonOptions ++ [layoutOption, ⟨none, "yaml", .flag Draft.setYaml⟩],
    some Draft.addInput⟩
  request draft := do
    .ok (.info (← Draft.someOf "INPUT" draft.inputs) (← Draft.given "layout" draft.layout)
      draft.yaml)

/-- The command that looks up points. -/
def queryRule : CommandRule where
  names := ["query", "q"]
  grammar := ⟨commonOptions ++ [layoutOption, ⟨some 'a', "at", .value .all Draft.addPoint⟩],
    some Draft.setInput⟩
  request draft := do
    .ok (.query (← draft.input) (← Draft.given "layout" draft.layout)
      (← Draft.someOf "at" draft.points))

/-- The command that lists the nodes of an axis. -/
def gridRule : CommandRule where
  names := ["grid", "g"]
  grammar := ⟨commonOptions ++ [layoutOption, ⟨some 'a', "axis", .value .none Draft.setAxis⟩],
    some Draft.setInput⟩
  request draft := do
    .ok (.grid (← draft.input) (← Draft.given "layout" draft.layout)
      (← Draft.given "axis" draft.axis))

/-- The command that looks up values on a curve. -/
def curveRule : CommandRule where
  names := ["curve"]
  grammar := ⟨commonOptions ++ [⟨some 'x', "x", .value .numbers Draft.addX⟩,
    ⟨none, "min-input", .value .numbers Draft.setLeast⟩], some Draft.setInput⟩
  request draft := do
    .ok (.curve (← draft.input) (← Draft.someOf "x" draft.xs) draft.least)

/-- The commands. -/
def commandRules : List CommandRule := [infoRule, queryRule, gridRule, curveRule]

/-- The command with a name. -/
def command? (name : String) : Option CommandRule :=
  commandRules.find? fun rule => rule.names.contains name

/-- What a call for help leads to, whose arguments name a command.  No argument after it has a
    meaning, and neither has an option in its place. -/
def helpOn : List String → Stop
  | [] => .help
  | [topic] =>
    if topic = "help" || (command? topic).isSome then .help else .misuse (.unexpected topic)
  | _ :: argument :: _ => .misuse (.unexpected argument)

namespace Invocation

/-- The request of the arguments after the name of a command. -/
def readCommand (rule : CommandRule) (before : Draft) (arguments : List String) :
    Except Stop Invocation := do
  -- Commands take words, so no argument is left over.
  let (draft, _) ← rule.grammar.scan arguments (.empty, none)
  let request ← Grammar.outcome (rule.request draft)
  .ok ⟨request, 0 < before.verbosity || 0 < draft.verbosity⟩

/-- The request of a command line. -/
def read (arguments : List String) : Except Stop Invocation := do
  match ← commonGrammar.scan arguments (.empty, none) with
  | (_, []) => .error (.misuse (.missing "COMMAND"))
  | (before, name :: rest) =>
    match command? name with
    | some rule => readCommand rule before rest
    | none =>
      if name = "help" then .error (helpOn rest) else .error (.misuse (.unexpected name))

end Invocation

end GridLookup
