import ZkCommand.CommandLine.Run

/-!
# ZkCommand.Main

**The executable.** Reads the environment and the files that the arguments name, and prints what
`CommandLine.run` makes of them.
-/

namespace ZkCommand.CommandLine

/-- The content of a file, if it can be read. -/
def readFile? (name : String) : IO (Option String) := do
  try
    let text ← IO.FS.readFile name
    return some text
  catch _ => return none

/-- The settings of the environment. -/
def environmentSettings : IO Config.Settings := do
  let name ← IO.getEnv "ZKAPP_VECTOR_NAME"
  let variant ← IO.getEnv "ZKAPP_SCHEMA_VARIANT"
  let shape ← IO.getEnv "ZKAPP_OPTIONAL_SHAPE"
  return { name, variant, shape }

end ZkCommand.CommandLine

open ZkCommand CommandLine

/-- The program: the exit code is that of the run. -/
def main (args : List String) : IO UInt32 := do
  let settings ← environmentSettings
  let names := ((Invocation.read args).map Invocation.files).getD []
  let files ← names.mapM fun name => do return (name, ← readFile? name)
  let result := run { settings, file? := fun name => (files.lookup name).join } args
  IO.print result.output
  if let some digest := result.fingerprint then IO.eprintln ("fingerprint: " ++ digest)
  if let some complaint := result.complaint then IO.eprintln complaint
  return UInt32.ofNat result.exit
