import ZkCommand.Command.Update

/-!
# ZkCommand.Command.Preconditions

**What must hold** of the network and of the account for an update to apply. Every condition may
be absent.
-/

namespace ZkCommand

/-- Conditions on the ledger of an epoch. -/
structure EpochLedger where
  hash : Optional Fp
  totalCurrency : Optional (Range 64)
  deriving DecidableEq, Repr

/-- Conditions on an epoch. -/
structure EpochData where
  ledger : EpochLedger
  seed : Optional Fp
  startCheckpoint : Optional Fp
  lockCheckpoint : Optional Fp
  epochLength : Optional (Range 32)
  deriving DecidableEq, Repr

/-- Conditions on the network. -/
structure NetworkPreconditions where
  snarkedLedgerHash : Optional Fp
  blockchainLength : Optional (Range 32)
  minWindowDensity : Optional (Range 32)
  totalCurrency : Optional (Range 64)
  globalSlotSinceGenesis : Optional (Range 32)
  stakingEpochData : EpochData
  nextEpochData : EpochData
  deriving DecidableEq, Repr

/-- Conditions on the account. -/
structure AccountPreconditions where
  balance : Optional (Range 64)
  nonce : Optional (Range 32)
  receiptChainHash : Optional Fp
  delegate : Optional PublicKey
  state : Slots
  actionState : Optional ActionState
  provedState : Optional Bool
  isNew : Optional Bool
  deriving DecidableEq, Repr

/-- All conditions of an update. -/
structure Preconditions where
  network : NetworkPreconditions
  account : AccountPreconditions
  validWhile : Optional (Range 32)
  deriving DecidableEq, Repr

end ZkCommand
