import ZkCommand.Command.ToTree
import ZkCommand.Hash.Sha256
import ZkCommand.Json.Printer
import ZkCommand.Text.Utf8

/-!
# ZkCommand.Fingerprint

**Fingerprints.** The SHA-256 of a value's compact text after a tag that keeps these digests
apart from all others.
-/

namespace ZkCommand

/-- The tag in front of every text that is fingerprinted. -/
def fingerprintTag : String := "ZKAPP_TRANSCODER_RECORD_V1"

/-- The lowercase hexadecimal digest of a value. -/
def Tree.fingerprint (t : Tree) : String :=
  String.ofList (Text.Hex.ofBytes (Hash.Sha256.digest (Text.Utf8.bytes
    (fingerprintTag.toList ++ t.chars))))

/-- The fingerprint of a record. -/
def Record.fingerprint (r : Record) : String := (toTree r).fingerprint

end ZkCommand
