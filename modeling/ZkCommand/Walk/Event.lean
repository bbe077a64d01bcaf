import ZkCommand.Config
import ZkCommand.Path

/-!
# ZkCommand.Walk.Event

**What a walk notices.** A label that is not recognised is settled by a fallback, which is never
an error: it is a warning among the events and is handed back with the record as a diagnostic.
The other events only inform.
-/

namespace ZkCommand

/-- The rule that settled an unrecognised label. -/
inductive Fallback
  | auth
  | sign
  deriving DecidableEq, Repr

/-- A label that was settled by a fallback, and where it stands. -/
structure Diagnostic where
  path : Path
  fallback : Fallback
  label : String
  deriving DecidableEq, Repr

/-- The text of a diagnostic. -/
def Diagnostic.message (d : Diagnostic) : String :=
  match d.fallback with
  | .auth =>
      d.path.display ++ ": auth requirement '" ++ d.label ++ "' not recognised, using None"
  | .sign => d.path.display ++ ": sign label '" ++ d.label ++ "' not recognised, using -1"

/-- Something that a walk through a document notices. -/
inductive Event
  | unknownKey (path : Path) (key : String)
  | permissionMissing (path : Path) (key : String)
  | fallback (diagnostic : Diagnostic)
  | transcoded (name : String) (variant : Variant) (updates : Nat)
  deriving DecidableEq, Repr

namespace Event

/-- The line of an event in a log. -/
def line : Event → String
  | .unknownKey path key =>
      "DEBUG ignoring unknown key path=" ++ path.display ++ " key=" ++ key
  | .permissionMissing path key =>
      "DEBUG permission not given, using None path=" ++ path.display ++ " key=" ++ key
  | .fallback ⟨path, .auth, label⟩ =>
      "WARN unrecognised auth requirement, using None path=" ++ path.display
        ++ " label=" ++ label
  | .fallback ⟨path, .sign, label⟩ =>
      "WARN unrecognised sign label, using -1 path=" ++ path.display ++ " label=" ++ label
  | .transcoded name variant updates =>
      "INFO transcoded zkApp command name=" ++ name ++ " variant=" ++ variant.name
        ++ " updates=" ++ Decimal.text updates

/-- The diagnostic of an event that is a warning. -/
def diagnostic? : Event → Option Diagnostic
  | .fallback d => some d
  | _ => none

end Event

end ZkCommand
