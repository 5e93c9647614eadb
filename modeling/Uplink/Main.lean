import Uplink.CommandLine

/-!
# The program

Hands arguments, environment and files to `CommandLine.run` and carries out how the run ends.
-/

open Uplink

/-- The bytes of a file, if it can be read. -/
def readFile (path : String) : IO (Option (List UInt8)) := do
  try
    let bytes ← IO.FS.readBinFile path
    return some bytes.data.toList
  catch _ => return none

def main (args : List String) : IO UInt32 := do
  let named := (← IO.getEnv CommandLine.fileVariable).map fun v => (CommandLine.fileVariable, v)
  let env : Environment := .ofList named.toList
  let wanted := match CommandLine.interpret env args with
    | .command (some path) _ => [path]
    | _ => CommandLine.defaultFiles
  let found ← wanted.filterMapM fun path => do
    return (← readFile path).map fun bytes => (path, bytes)
  let files : CommandLine.Files := fun path => (found.find? fun f => f.1 == path).map (·.2)
  match CommandLine.run env files args with
  | .finished exitCode output =>
    IO.print output
    return UInt32.ofNat exitCode
  | .serving _ =>
    IO.eprintln "The configuration is sound, but there is no network to serve on."
    return 1
