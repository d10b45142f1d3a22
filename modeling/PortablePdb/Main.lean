import PortablePdb.Command.Basic

/-!
The command line.
-/

namespace PortablePdb.Command

def readContents (path : String) : IO (Option ByteArray) := do
  try
    return some (← IO.FS.readBinFile path)
  catch _ =>
    return none

def outcomeOf (arguments : List String) : IO Outcome := do
  match Request.parse arguments with
  | .ok (path, request) => return run (← readContents path) request
  | .error stop => return stop.outcome

end PortablePdb.Command

open PortablePdb.Command in
def main (arguments : List String) : IO UInt32 := do
  let outcome ← outcomeOf arguments
  IO.print outcome.output
  if let some line := outcome.error then
    IO.eprintln line
  return outcome.exitCode.toUInt32
