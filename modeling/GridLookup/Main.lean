import GridLookup.Command.Run

/-!
# The program

Reads the files that a command line names, carries it out and prints the outcome.
-/

namespace GridLookup

/-- The file fault of a failed read; a directory fails only when it is read from. -/
def FileFault.ofError : IO.Error → FileFault
  | .noFileOrDirectory .. => .missing
  | .permissionDenied .. => .denied
  | .inappropriateType _ code _ => if code = 21 then .directory else .notDirectory
  | .invalidArgument _ 36 _ => .nameTooLong
  | error => .failing error.toString

/-- What is found at a path. -/
def readPath (path : String) : IO (Except FileFault (List UInt8)) := do
  try
    return .ok (← IO.FS.readBinFile path).toList
  catch error =>
    return .error (.ofError error)

/-- What is found at some paths. -/
def readPaths (paths : List String) : IO Files := do
  let entries ← paths.mapM fun path => return (path, ← readPath path)
  return fun path => (entries.lookup path).getD (.error .missing)

/-- The files that a command line names. -/
def readFiles (arguments : List String) : IO Files :=
  match Invocation.read arguments with
  | .ok invocation => readPaths invocation.request.paths
  | .error _ => return fun _ => .error .missing

end GridLookup

/-- Carries out a command line, with checked sizes. -/
def main (arguments : List String) : IO UInt32 := do
  let files ← GridLookup.readFiles arguments
  let outcome := GridLookup.Command.execute .checked files arguments
  IO.print outcome.printed
  if let some report := outcome.reported then IO.eprintln report
  return UInt32.ofNat outcome.exitCode
