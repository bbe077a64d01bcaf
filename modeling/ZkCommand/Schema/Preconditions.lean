import ZkCommand.Command.Preconditions
import ZkCommand.Walk.Node

/-!
# ZkCommand.Schema.Preconditions

**The preconditions block**: conditions on the network with two epochs, on the account, and on
the slots for which an update is valid.
-/

namespace ZkCommand.Schema

open Node

/-! ### Epochs -/

/-- The keys of an epoch's ledger. -/
def epochLedgerKeys : List String := ["hash", "totalCurrency"]

/-- The ledger of an epoch. -/
def epochLedger (shape : Shape) (n : Node) : Walk EpochLedger := do
  n.noteUnknown epochLedgerKeys
  let hash ← n.optionalLeaf shape "hash" (Leaf.hash Base58.ledgerHashVersion)
  let totalCurrency ← n.optionalRange shape 64 "totalCurrency"
  pure { hash, totalCurrency }

/-- The keys of an epoch. -/
def epochKeys : List String :=
  ["ledger", "seed", "startCheckpoint", "lockCheckpoint", "epochLength"]

/-- An epoch. A ledger that is not given has no conditions. -/
def epoch (shape : Shape) (n : Node) : Walk EpochData := do
  n.noteUnknown epochKeys
  let ledgerNode ← n.child? "ledger"
  let ledger ← match ledgerNode with
    | some child => epochLedger shape child
    | none => pure ⟨shape.absent, shape.absent⟩
  let seed ← n.optionalLeaf shape "seed" (Leaf.hash Base58.epochSeedVersion)
  let startCheckpoint ← n.optionalLeaf shape "startCheckpoint" (Leaf.hash Base58.stateHashVersion)
  let lockCheckpoint ← n.optionalLeaf shape "lockCheckpoint" (Leaf.hash Base58.stateHashVersion)
  let epochLength ← n.optionalRange shape 32 "epochLength"
  pure { ledger, seed, startCheckpoint, lockCheckpoint, epochLength }

/-! ### Network and account -/

/-- The keys of the network's conditions. -/
def networkKeys : List String :=
  ["snarkedLedgerHash", "blockchainLength", "minWindowDensity", "totalCurrency",
   "globalSlotSinceGenesis", "stakingEpochData", "nextEpochData"]

/-- Conditions on the network. -/
def network (shape : Shape) (n : Node) : Walk NetworkPreconditions := do
  n.noteUnknown networkKeys
  let snarkedLedgerHash ←
    n.optionalLeaf shape "snarkedLedgerHash" (Leaf.hash Base58.ledgerHashVersion)
  let blockchainLength ← n.optionalRange shape 32 "blockchainLength"
  let minWindowDensity ← n.optionalRange shape 32 "minWindowDensity"
  let totalCurrency ← n.optionalRange shape 64 "totalCurrency"
  let globalSlotSinceGenesis ← n.optionalRange shape 32 "globalSlotSinceGenesis"
  let stakingEpochData ← n.within "stakingEpochData" (epoch shape)
  let nextEpochData ← n.within "nextEpochData" (epoch shape)
  pure { snarkedLedgerHash, blockchainLength, minWindowDensity, totalCurrency,
         globalSlotSinceGenesis, stakingEpochData, nextEpochData }

/-- The keys of the account's conditions. -/
def accountKeys : List String :=
  ["balance", "nonce", "receiptChainHash", "delegate", "state", "actionState", "provedState",
   "isNew"]

/-- Conditions on the account. -/
def account (shape : Shape) (n : Node) : Walk AccountPreconditions := do
  n.noteUnknown accountKeys
  let balance ← n.optionalRange shape 64 "balance"
  let nonce ← n.optionalRange shape 32 "nonce"
  let receiptChainHash ←
    n.optionalLeaf shape "receiptChainHash" (Leaf.hash Base58.receiptChainHashVersion)
  let delegate ← n.optionalLeaf shape "delegate" Leaf.publicKey
  let state ← n.within "state" (slots shape)
  let actionState ← n.optionalLeaf shape "actionState" Leaf.actionState
  let provedState ← n.optionalLeaf shape "provedState" Leaf.bool
  let isNew ← n.optionalLeaf shape "isNew" Leaf.bool
  pure { balance, nonce, receiptChainHash, delegate, state, actionState, provedState, isNew }

/-! ### The block -/

/-- The keys of preconditions. -/
def preconditionKeys : List String := ["network", "account", "validWhile"]

/-- Preconditions. -/
def preconditions (shape : Shape) (n : Node) : Walk Preconditions := do
  n.noteUnknown preconditionKeys
  let network ← n.within "network" (network shape)
  let account ← n.within "account" (account shape)
  let validWhile ← n.optionalRange shape 32 "validWhile"
  pure { network, account, validWhile }

end ZkCommand.Schema
