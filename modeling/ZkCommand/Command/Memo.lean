import ZkCommand.Base58.Check

/-!
# ZkCommand.Command.Memo

**Memos.** A command carries its memo in base58; the bytes behind it are thirty-four.
-/

namespace ZkCommand.Memo

/-- The number of bytes of a memo. -/
def size : Nat := 34

/-- Why a text is no memo. -/
inductive Fault
  | base58 (fault : Base58.CheckFault)
  | badLength (length : Nat)
  deriving DecidableEq, Repr

/-- The wording of a failure. -/
def Fault.message : Fault → String
  | .base58 fault => "memo is not valid base58check: " ++ fault.message
  | .badLength length => "memo decoded to " ++ Decimal.text length ++ " bytes, expected 34"

/-- The bytes of a memo. -/
def decode [Base58.Checksum] (text : String) : Except Fault (List UInt8) :=
  match Base58.decodeCheck Base58.memoVersion text with
  | .error fault => .error (.base58 fault)
  | .ok payload => if payload.length = size then .ok payload else .error (.badLength payload.length)

end ZkCommand.Memo
