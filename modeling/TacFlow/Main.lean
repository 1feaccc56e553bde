import TacFlow.CommandLine.Outcome

/-!
# The command line program

Reads the files, prints the answer and exits with its status. All decisions are taken elsewhere.
-/

namespace TacFlow

/-- Reads a file if there is one at the path. -/
def readIfPresent (path : String) : IO (String × Path.Found) := do
  try
    return (path, .file (← IO.FS.readFile path))
  catch _ =>
    return (path, .nothing)

/-- Prints an answer. -/
def printOutcome (o : Outcome) : IO Unit := do
  (← IO.getStdout).putStr o.output
  let err ← IO.getStderr
  for line in o.log do
    err.putStrLn line.text
  match o.failureText with
  | some text => err.putStrLn text.printed
  | none => pure ()

end TacFlow

/-- Runs the program. -/
def main (args : List String) : IO UInt32 := do
  let places ← (TacFlow.Outcome.paths args).mapM TacFlow.readIfPresent
  let find := fun path => ((places.find? (·.1 == path)).map (·.2)).getD .nothing
  let outcome := TacFlow.Outcome.ofArguments find args
  TacFlow.printOutcome outcome
  return outcome.status.toUInt32
