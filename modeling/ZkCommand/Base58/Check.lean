import ZkCommand.Base58.Basic
import ZkCommand.Decimal
import ZkCommand.Hash.Sha256

/-!
# ZkCommand.Base58.Check

**Base58 with a version byte and a checksum.** The version tells what kind of value the payload
is; four bytes that guard version and payload follow it. Writing and reading need of this checksum
only that it has four bytes, and the program's own is taken from a double SHA-256. A reader names
the version it expects, and each way in which a text can fail it is a cause of its own.
-/

namespace ZkCommand.Base58

/-! ### Kinds of payload -/

/-- The version byte of ledger hashes. -/
def ledgerHashVersion : UInt8 := 5

/-- The version byte of receipt chain hashes. -/
def receiptChainHashVersion : UInt8 := 12

/-- The version byte of epoch seeds. -/
def epochSeedVersion : UInt8 := 13

/-- The version byte of protocol state hashes. -/
def stateHashVersion : UInt8 := 16

/-- The version byte of memos. -/
def memoVersion : UInt8 := 20

/-- The version byte of token identifiers. -/
def tokenIdVersion : UInt8 := 28

/-! ### Failures -/

/-- Why a text holds no payload of the expected version. -/
inductive CheckFault
  | invalidBase58
  | tooShort
  | versionMismatch (expected found : UInt8)
  | checksumMismatch
  deriving DecidableEq, Repr

/-- The wording of a failure. -/
def CheckFault.message : CheckFault → String
  | .invalidBase58 => "invalid base58 encoding"
  | .tooShort => "input too short for base58check"
  | .versionMismatch expected found =>
      "version byte mismatch: expected " ++ Decimal.text expected.toNat ++ ", found "
        ++ Decimal.text found.toNat
  | .checksumMismatch => "base58check checksum mismatch"

/-! ### Checksums -/

/-- A checksum: the four bytes that guard a version and its payload. -/
class Checksum where
  checksum : List UInt8 → List UInt8
  length_checksum : ∀ body, (checksum body).length = 4

export Checksum (checksum length_checksum)

/-- The first four bytes of a double SHA-256. -/
instance : Checksum where
  checksum body := (Hash.Sha256.digest (Hash.Sha256.digest body)).take 4
  length_checksum body := by
    rw [List.length_take, Hash.Sha256.length_digest]
    rfl

/-! ### Writing and reading -/

section
variable [Checksum]

/-- The text of a payload under a version. -/
def encodeCheck (version : UInt8) (payload : List UInt8) : String :=
  let body := version :: payload
  String.ofList (encode (body ++ checksum body))

/-- The payload of a text under the expected version. The version is compared before the
checksum. -/
def decodeCheck (version : UInt8) (text : String) : Except CheckFault (List UInt8) :=
  match decode? text.toList with
  | none => .error .invalidBase58
  | some [] => .error .tooShort
  | some (found :: rest) =>
      if rest.length < 4 then .error .tooShort
      else if found ≠ version then .error (.versionMismatch version found)
      else
        let payload := rest.take (rest.length - 4)
        if checksum (found :: payload) = rest.drop (rest.length - 4) then .ok payload
        else .error .checksumMismatch

end

end ZkCommand.Base58
