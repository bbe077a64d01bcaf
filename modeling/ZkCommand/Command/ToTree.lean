import ZkCommand.Command.Record
import ZkCommand.Tree

/-!
# ZkCommand.Command.ToTree

**Records as documents.** The tree of a record has the keys of the input schema, in the order in
which the structures declare them. Field elements are strings of digits, words are numbers, and
the shape of an optional value shows.
-/

namespace ZkCommand

/-- Values that can be written as a document. -/
class ToTree (α : Type) where
  toTree : α → Tree

export ToTree (toTree)

/-! ### Leaves -/

instance : ToTree Fp := ⟨fun x => .str x.decimal⟩
instance : ToTree Bool := ⟨.bool⟩
instance : ToTree String := ⟨.str⟩
instance {width : Nat} : ToTree (BitVec width) := ⟨fun w => .num (Decimal.text w.toNat)⟩
instance : ToTree Network := ⟨fun n => .str n.name⟩
instance : ToTree ActionState := ⟨fun s => toTree s.hash⟩
instance : ToTree Auth := ⟨fun a => .str a.label⟩
instance : ToTree Sign := ⟨fun s => .str s.label⟩
instance : ToTree TokenSymbol := ⟨fun s => .str s.text⟩
instance : ToTree Uri := ⟨fun u => .str u.text⟩

instance : ToTree PublicKey where
  toTree
    | .address text => .str text
    | .point x isOdd => .map [("x", toTree x), ("isOdd", toTree isOdd)]

instance {width : Nat} : ToTree (Range width) :=
  ⟨fun r => .map [("lower", toTree r.lower), ("upper", toTree r.upper)]⟩

instance : ToTree BalanceChange :=
  ⟨fun b => .map [("magnitude", toTree b.magnitude), ("sgn", toTree b.sgn)]⟩

/-! ### Containers -/

variable {α : Type} [ToTree α]

instance : ToTree (Option α) where
  toTree
    | none => .null
    | some value => toTree value

instance : ToTree (List α) := ⟨fun items => .list (items.map toTree)⟩

instance : ToTree (Optional α) where
  toTree
    | .tagged value => toTree value
    | .flagged present payload => .map [("isSome", toTree present), ("value", toTree payload)]

instance {n : Nat} : ToTree (Vector α n) := ⟨fun items => toTree items.toList⟩

/-! ### Updates -/

instance : ToTree VerificationKey :=
  ⟨fun k => .map [("data", toTree k.data), ("hash", toTree k.hash)]⟩

instance : ToTree SetVerificationKey :=
  ⟨fun s => .map [("auth", toTree s.auth), ("txnVersion", toTree s.txnVersion)]⟩

instance : ToTree Permissions :=
  ⟨fun p => .map
    [("editState", toTree p.editState), ("access", toTree p.access), ("send", toTree p.send),
     ("receive", toTree p.receive), ("setDelegate", toTree p.setDelegate),
     ("setPermissions", toTree p.setPermissions),
     ("setVerificationKey", toTree p.setVerificationKey),
     ("setZkappUri", toTree p.setZkappUri), ("editActionState", toTree p.editActionState),
     ("setTokenSymbol", toTree p.setTokenSymbol), ("incrementNonce", toTree p.incrementNonce),
     ("setVotingFor", toTree p.setVotingFor), ("setTiming", toTree p.setTiming)]⟩

instance : ToTree Timing :=
  ⟨fun t => .map
    [("initialMinimumBalance", toTree t.initialMinimumBalance), ("cliffTime", toTree t.cliffTime),
     ("cliffAmount", toTree t.cliffAmount), ("vestingPeriod", toTree t.vestingPeriod),
     ("vestingIncrement", toTree t.vestingIncrement)]⟩

instance : ToTree Update :=
  ⟨fun u => .map
    [("appState", toTree u.appState), ("delegate", toTree u.delegate),
     ("verificationKey", toTree u.verificationKey), ("permissions", toTree u.permissions),
     ("zkappUri", toTree u.zkappUri), ("tokenSymbol", toTree u.tokenSymbol),
     ("timing", toTree u.timing), ("votingFor", toTree u.votingFor)]⟩

/-! ### Preconditions -/

instance : ToTree EpochLedger :=
  ⟨fun l => .map [("hash", toTree l.hash), ("totalCurrency", toTree l.totalCurrency)]⟩

instance : ToTree EpochData :=
  ⟨fun e => .map
    [("ledger", toTree e.ledger), ("seed", toTree e.seed),
     ("startCheckpoint", toTree e.startCheckpoint), ("lockCheckpoint", toTree e.lockCheckpoint),
     ("epochLength", toTree e.epochLength)]⟩

instance : ToTree NetworkPreconditions :=
  ⟨fun n => .map
    [("snarkedLedgerHash", toTree n.snarkedLedgerHash),
     ("blockchainLength", toTree n.blockchainLength),
     ("minWindowDensity", toTree n.minWindowDensity), ("totalCurrency", toTree n.totalCurrency),
     ("globalSlotSinceGenesis", toTree n.globalSlotSinceGenesis),
     ("stakingEpochData", toTree n.stakingEpochData), ("nextEpochData", toTree n.nextEpochData)]⟩

instance : ToTree AccountPreconditions :=
  ⟨fun a => .map
    [("balance", toTree a.balance), ("nonce", toTree a.nonce),
     ("receiptChainHash", toTree a.receiptChainHash), ("delegate", toTree a.delegate),
     ("state", toTree a.state), ("actionState", toTree a.actionState),
     ("provedState", toTree a.provedState), ("isNew", toTree a.isNew)]⟩

instance : ToTree Preconditions :=
  ⟨fun p => .map
    [("network", toTree p.network), ("account", toTree p.account),
     ("validWhile", toTree p.validWhile)]⟩

/-! ### Commands and records -/

instance : ToTree FeePayerBody :=
  ⟨fun b => .map
    [("publicKey", toTree b.publicKey), ("fee", toTree b.fee),
     ("validUntil", toTree b.validUntil), ("nonce", toTree b.nonce)]⟩

instance : ToTree FeePayer :=
  ⟨fun p => .map [("body", toTree p.body), ("authorization", toTree p.authorization)]⟩

instance : ToTree MayUseToken :=
  ⟨fun m => .map
    [("parentsOwnToken", toTree m.parentsOwnToken),
     ("inheritFromParent", toTree m.inheritFromParent)]⟩

instance : ToTree AuthorizationKind :=
  ⟨fun k => .map
    [("isSigned", toTree k.isSigned), ("isProved", toTree k.isProved),
     ("verificationKeyHash", toTree k.verificationKeyHash)]⟩

instance : ToTree Authorization :=
  ⟨fun a => .map [("proof", toTree a.proof), ("signature", toTree a.signature)]⟩

instance : ToTree AccountUpdateBody :=
  ⟨fun b => .map
    [("publicKey", toTree b.publicKey), ("tokenId", toTree b.tokenId),
     ("update", toTree b.update), ("balanceChange", toTree b.balanceChange),
     ("incrementNonce", toTree b.incrementNonce), ("events", toTree b.events),
     ("actions", toTree b.actions), ("callData", toTree b.callData),
     ("callDepth", toTree b.callDepth), ("preconditions", toTree b.preconditions),
     ("useFullCommitment", toTree b.useFullCommitment),
     ("implicitAccountCreationFee", toTree b.implicitAccountCreationFee),
     ("mayUseToken", toTree b.mayUseToken), ("authorizationKind", toTree b.authorizationKind)]⟩

instance : ToTree AccountUpdate :=
  ⟨fun u => .map [("body", toTree u.body), ("authorization", toTree u.authorization)]⟩

instance : ToTree Command :=
  ⟨fun c => .map
    [("feePayer", toTree c.feePayer), ("accountUpdates", toTree c.accountUpdates),
     ("memo", toTree c.memo), ("network", toTree c.network)]⟩

instance : ToTree ExpectedHashes :=
  ⟨fun e => .map
    [("memoHash", toTree e.memoHash), ("feePayerHash", toTree e.feePayerHash),
     ("accountUpdatesCommitment", toTree e.accountUpdatesCommitment),
     ("fullCommitment", toTree e.fullCommitment)]⟩

instance : ToTree Record :=
  ⟨fun r => .map
    [("name", toTree r.name), ("zkappCommand", toTree r.command),
     ("expected", toTree r.expected)]⟩

end ZkCommand
