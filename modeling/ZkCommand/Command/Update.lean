import ZkCommand.Command.Leaves

/-!
# ZkCommand.Command.Update

**What an update may change** on an account: eight state slots and seven further values, each of
which may be left alone.
-/

namespace ZkCommand

/-- The number of state slots of an account. -/
def slotCount : Nat := 8

/-- The state slots of an account; a slot that is left alone keeps its place. -/
abbrev Slots := Vector (Optional Fp) slotCount

/-- A verification key and its hash. -/
structure VerificationKey where
  data : String
  hash : Fp
  deriving DecidableEq, Repr

/-- Who may replace the verification key, and the transaction version this holds for. -/
structure SetVerificationKey where
  auth : Auth
  txnVersion : BitVec 32
  deriving DecidableEq, Repr

/-- The levels of the thirteen actions on an account. -/
structure Permissions where
  editState : Auth
  access : Auth
  send : Auth
  receive : Auth
  setDelegate : Auth
  setPermissions : Auth
  setVerificationKey : SetVerificationKey
  setZkappUri : Auth
  editActionState : Auth
  setTokenSymbol : Auth
  incrementNonce : Auth
  setVotingFor : Auth
  setTiming : Auth
  deriving DecidableEq, Repr

/-- A vesting schedule. -/
structure Timing where
  initialMinimumBalance : BitVec 64
  cliffTime : BitVec 32
  cliffAmount : BitVec 64
  vestingPeriod : BitVec 32
  vestingIncrement : BitVec 64
  deriving DecidableEq, Repr

/-- The changes that one account update makes. -/
structure Update where
  appState : Slots
  delegate : Optional PublicKey
  verificationKey : Optional VerificationKey
  permissions : Optional Permissions
  zkappUri : Optional Uri
  tokenSymbol : Optional TokenSymbol
  timing : Optional Timing
  votingFor : Optional Fp
  deriving DecidableEq, Repr

/-! ### Payloads of absent blocks -/

/-- The transaction version of permissions that are absent. -/
def defaultTxnVersion : BitVec 32 := 3

instance : Vacant VerificationKey := ⟨⟨"", Fp.zero⟩⟩

instance : Vacant Permissions :=
  ⟨⟨.none, .none, .none, .none, .none, .none, ⟨.none, defaultTxnVersion⟩, .none, .none, .none,
    .none, .none, .none⟩⟩

instance : Vacant Timing := ⟨⟨0, 0, 0, 0, 0⟩⟩

end ZkCommand
