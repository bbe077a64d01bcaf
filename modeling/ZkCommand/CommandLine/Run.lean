import ZkCommand.CommandLine.Invocation
import ZkCommand.Fingerprint
import ZkCommand.Literal.Record
import ZkCommand.Transcode
import ZkCommand.Witness.Compare
import ZkCommand.Witness.Reference

/-!
# ZkCommand.CommandLine.Run

**Running the program** on its arguments, the environment's settings and the files, without any
effect. An exit code of zero means success or a match, one a mismatch and two an error; nothing
is printed where there is an error.
-/

namespace ZkCommand.CommandLine

/-- What the program finds outside its arguments. -/
structure Surroundings where
  settings : Config.Settings
  file? : String → Option String

/-- What a run leaves: the exit code, the printed text, the fingerprint, and a complaint. -/
structure Result where
  exit : Nat
  output : String
  fingerprint : Option String
  complaint : Option String
  deriving DecidableEq, Repr

/-- The result of an error. -/
def Result.failed (complaint : String) : Result := ⟨2, "", none, some complaint⟩

/-- The version line. -/
def versionLine : String := "zkapp-transcoder 0.1.0\n"

/-! ### Configuration -/

/-- The environment with a name in place of its own. -/
def named (settings : Config.Settings) (name : Option String) : Config.Settings :=
  { settings with name := name <|> settings.name }

/-- The configuration of a transcoding. The environment is resolved first, and the options that
are given replace what it says. -/
def configure (settings : Config.Settings) (request : TranscodeRequest) :
    Except Config.Fault Config := do
  let config ← Config.resolve (named settings request.name)
  .ok { config with
    variant := request.variant.getD config.variant
    shape := request.shape.getD config.shape }

/-! ### Commands -/

/-- The text of a record. -/
def Format.write (r : Record) : Format → String
  | .literal => r.literal
  | .json => (toTree r).pretty

/-- The content of a file that has to be there. -/
def content (s : Surroundings) (file : String) : Except String String :=
  match s.file? file with
  | some text => .ok text
  | none => .error ("failed to read " ++ file)

/-- A transcoding. -/
def runTranscode (s : Surroundings) (request : TranscodeRequest) : Except String Result := do
  let config ← (configure s.settings request).mapError Config.Fault.message
  let text ← content s request.file
  let outcome ← (Transcode.ofText config text).mapError Transcode.Fault.message
  .ok {
    exit := 0
    output := request.format.write outcome.record ++ "\n"
    fingerprint := if request.fingerprint then some outcome.record.fingerprint else none
    complaint := none }

/-- A comparison. -/
def runCompare (s : Surroundings) (witness reference : String) : Except String Result := do
  let witnessText ← content s witness
  let referenceText ← content s reference
  let decoded ← (Witness.decode witnessText).mapError Witness.Fault.message
  let t ← (Relaxed.readTree referenceText).mapError Relaxed.Fault.message
  let expected ← (Witness.ofReference t).mapError Witness.Fault.message
  let report := Witness.compare decoded expected
  .ok {
    exit := if report.isMatch then 0 else 1
    output := report.display ++ "\n"
    fingerprint := none
    complaint := none }

/-- A use of the program. -/
def Invocation.run (s : Surroundings) : Invocation → Except String Result
  | .version => .ok ⟨0, versionLine, none, none⟩
  | .transcode request => runTranscode s request
  | .compare witness reference => runCompare s witness reference

/-- The program. -/
def run (s : Surroundings) (args : List String) : Result :=
  match Invocation.read args with
  | none => .failed "these arguments are no use of the program"
  | some invocation =>
      match invocation.run s with
      | .ok result => result
      | .error complaint => .failed complaint

end ZkCommand.CommandLine
