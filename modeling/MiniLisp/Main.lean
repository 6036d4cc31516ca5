import MiniLisp.CommandLine.Run
/-!
# The program

The only part of the library with effects: it reads the environment and the file, writes
what `CommandLine.outcome` says, and ends with its status.
-/
namespace MiniLisp

/-- What is found under a path on disk. -/
def readFile (path : String) : IO File := do
  try
    return .content (← IO.FS.readBinFile path).toList
  catch
    | .noFileOrDirectory .. => return .missing
    | .inappropriateType .. => return .directory
    | e => throw e

/-- The variables that settings are read from. -/
def readEnvironment : IO Environment := do
  let names := [Settings.showValsVariable, Settings.logLevelVariable, Settings.recursionLimitVariable]
  let values ← names.mapM fun name => return (name, ← IO.getEnv name)
  return fun name => (values.lookup name).join

end MiniLisp

open MiniLisp in
def main (argv : List String) : IO UInt32 := do
  let env ← readEnvironment
  let file ← match Options.request argv with
    | .run o => readFile o.file
    | _ => pure .missing
  let outcome := CommandLine.outcome env (fun _ => file) argv
  IO.print outcome.stdout
  IO.eprint (outcome.stderr.getD "")
  return outcome.status.toUInt32
