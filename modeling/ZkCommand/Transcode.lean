import ZkCommand.Relaxed.Read
import ZkCommand.Schema.Command

/-!
# ZkCommand.Transcode

**Transcoding**: from a document to its canonical record and the diagnostics of the labels that
were settled by a fallback. `walk` also keeps what was noticed on the way when it fails.
-/

namespace ZkCommand.Transcode

/-- Why a text has no record. -/
inductive Fault
  | unreadable (fault : Relaxed.Fault)
  | document (fault : Walk.Fault)
  deriving DecidableEq, Repr

/-- The wording of a failure. -/
def Fault.message : Fault → String
  | .unreadable fault => fault.message
  | .document fault => fault.message

/-- A record and the diagnostics found while it was built, in the order of the walk. -/
structure Outcome where
  record : Record
  diagnostics : List Diagnostic
  deriving DecidableEq, Repr

/-- The walk through a document. -/
def walk (config : Config) (t : Tree) : Walk Record := Schema.record config (Node.root t)

/-- The record of a document. -/
def ofTree (config : Config) (t : Tree) : Except Walk.Fault Outcome := do
  let record ← (walk config t).outcome
  .ok ⟨record, (walk config t).diagnostics⟩

/-- The record of a relaxed text. -/
def ofText (config : Config) (text : String) : Except Fault Outcome := do
  let t ← (Relaxed.readTree text).mapError .unreadable
  (ofTree config t).mapError .document

end ZkCommand.Transcode
