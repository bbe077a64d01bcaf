import ZkCommand.Command.Preconditions

/-!
# ZkCommand.Command.Record

**Canonical records.** A command, with the name of the test vector that it belongs to and the
hashes that are expected of it.
-/

namespace ZkCommand

/-! ### Fee payer -/

/-- Who pays the fee, how much, and until when. -/
structure FeePayerBody where
  publicKey : PublicKey
  fee : BitVec 64
  validUntil : Optional (BitVec 32)
  nonce : BitVec 32
  deriving DecidableEq, Repr

/-- The fee payer and its signature. -/
structure FeePayer where
  body : FeePayerBody
  authorization : String
  deriving DecidableEq, Repr

/-! ### Account updates -/

/-- Whose token an update may use. -/
structure MayUseToken where
  parentsOwnToken : Bool
  inheritFromParent : Bool
  deriving DecidableEq, Repr

/-- How an update is authorized. -/
structure AuthorizationKind where
  isSigned : Bool
  isProved : Bool
  verificationKeyHash : Fp
  deriving DecidableEq, Repr

/-- The proof and the signature of an update. -/
structure Authorization where
  proof : Option String
  signature : Option String
  deriving DecidableEq, Repr

/-- An update without either. -/
def Authorization.absent : Authorization := ⟨none, none⟩

/-- The body of an account update. -/
structure AccountUpdateBody where
  publicKey : PublicKey
  tokenId : Fp
  update : Update
  balanceChange : BalanceChange
  incrementNonce : Bool
  events : List (List Fp)
  actions : List (List Fp)
  callData : Fp
  callDepth : BitVec 32
  preconditions : Preconditions
  useFullCommitment : Bool
  implicitAccountCreationFee : Bool
  mayUseToken : MayUseToken
  authorizationKind : AuthorizationKind
  deriving DecidableEq, Repr

/-- An account update. -/
structure AccountUpdate where
  body : AccountUpdateBody
  authorization : Authorization
  deriving DecidableEq, Repr

/-! ### Command and record -/

/-- A command: a fee payer, the updates in their order of execution, a memo and a network. -/
structure Command where
  feePayer : FeePayer
  accountUpdates : List AccountUpdate
  memo : String
  network : Network
  deriving DecidableEq, Repr

/-- The hashes expected of a command. -/
structure ExpectedHashes where
  memoHash : Fp
  feePayerHash : Fp
  accountUpdatesCommitment : Fp
  fullCommitment : Fp
  deriving DecidableEq, Repr

/-- No expectation. -/
def ExpectedHashes.zero : ExpectedHashes := ⟨Fp.zero, Fp.zero, Fp.zero, Fp.zero⟩

/-- A named command with its expected hashes. -/
structure Record where
  name : String
  command : Command
  expected : ExpectedHashes
  deriving DecidableEq, Repr

end ZkCommand
