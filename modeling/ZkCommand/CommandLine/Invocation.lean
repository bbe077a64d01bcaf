import ZkCommand.CommandLine.Arguments
import ZkCommand.Config

/-!
# ZkCommand.CommandLine.Invocation

**What the program is asked to do.** The first argument is a command, or asks for the version. A
command has its own options and a fixed number of files.
-/

namespace ZkCommand.CommandLine

/-- The format of a transcoded record. -/
inductive Format
  | literal
  | json
  deriving DecidableEq, Repr

/-- The format with a name. Case matters. -/
def Format.ofName? (name : String) : Option Format :=
  if name = "rust" then some .literal
  else if name = "json" then some .json
  else none

/-- What a transcoding is asked for. -/
structure TranscodeRequest where
  file : String
  name : Option String
  variant : Option Variant
  shape : Option Shape
  format : Format
  fingerprint : Bool
  deriving DecidableEq, Repr

/-- A use of the program. -/
inductive Invocation
  | version
  | transcode (request : TranscodeRequest)
  | compare (witness reference : String)
  deriving DecidableEq, Repr

/-! ### Transcoding -/

/-- The options of a transcoding. -/
def transcodeOptions : Options :=
  { valued := ["name", "variant", "optional-shape", "format"], flags := ["fingerprint"] }

/-- The meaning of an option's value, which has to have one. -/
def optionValue {α : Type} (a : Arguments) (name : String) (read : String → Option α) :
    Option (Option α) :=
  match a.value? name with
  | none => some none
  | some text => (read text).map some

/-- A transcoding of one file. -/
def transcodeRequest (args : List String) : Option TranscodeRequest := do
  let a ← Arguments.read transcodeOptions args
  let variant ← optionValue a "variant" fun text => (Config.readVariant text).toOption
  let shape ← optionValue a "optional-shape" fun text => (Config.readShape text).toOption
  let format ← optionValue a "format" Format.ofName?
  match a.files with
  | [file] =>
      if file.isEmpty then none
      else some {
        file, variant, shape
        name := a.value? "name"
        format := format.getD .literal
        fingerprint := a.flags.contains "fingerprint" }
  | _ => none

/-! ### All commands -/

/-- A comparison of two files. -/
def compareRequest (args : List String) : Option Invocation := do
  let a ← Arguments.read ⟨[], []⟩ args
  match a.files with
  | [witness, reference] =>
      if witness.isEmpty || reference.isEmpty then none else some (.compare witness reference)
  | _ => none

/-- An argument that asks for the version: the long option, or a short one that starts so. -/
def asksVersion (arg : String) : Bool :=
  match arg.toList with
  | '-' :: 'V' :: _ => true
  | _ => arg = "--version"

/-- The use of the program that its arguments ask for; nothing if they are no use of it. The
requests for a help text (`help`, and `-h` or `--help` before or after a command) are left out: they
end with exit code 0, and here they are no use of the program. -/
def Invocation.read : List String → Option Invocation
  | [] => none
  | command :: args =>
      if asksVersion command then some .version
      else if command = "transcode" then (transcodeRequest args).map .transcode
      else if command = "compare" then compareRequest args
      else none

/-- The files that a use reads. -/
def Invocation.files : Invocation → List String
  | .version => []
  | .transcode request => [request.file]
  | .compare witness reference => [witness, reference]

end ZkCommand.CommandLine
