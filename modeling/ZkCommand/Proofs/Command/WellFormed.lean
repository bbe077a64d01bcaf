import ZkCommand.Command.Record

/-!
# ZkCommand.Proofs.Command.WellFormed

**Well-formed records.** A record is well formed in a shape if each of its optional values has that
shape, be it given or absent, and everything that stands in the record keeps its bounds: field
elements the modulus, token symbols their size, state arrays their length, and authorizations hold
nothing. The payload beside a cleared flag is no exception.

`Formed` says this for each type of a record by its parts. A type without optional values is
`Shapeless`: its own invariants already say that its values are well formed, so that only the shape
is left to follow through a record.
-/

namespace ZkCommand

/-- Values that are parts of records. -/
class Formed (α : Type) where
  /-- The value is well formed in a shape. -/
  WellFormed : Shape → α → Prop

/-- Values that are well formed in either shape. -/
class Shapeless (α : Type) [Formed α] : Prop where
  wellFormed : ∀ (shape : Shape) (a : α), Formed.WellFormed shape a

open Formed (WellFormed)

variable {α : Type}

/-! ### Leaves -/

/-- A field element is below the modulus. -/
instance : Formed Fp := ⟨fun _ x => x.val < Fp.modulus⟩
instance : Shapeless Fp := ⟨fun _ x => x.val_lt⟩

/-- A token symbol has at most six bytes. -/
instance : Formed TokenSymbol := ⟨fun _ symbol => symbol.text.utf8ByteSize ≤ 6⟩
instance : Shapeless TokenSymbol := ⟨fun _ symbol => symbol.fits⟩

/-- Both parts of an authorization are absent. -/
instance : Formed Authorization := ⟨fun _ a => a.proof = none ∧ a.signature = none⟩

instance : Formed Bool := ⟨fun _ _ => True⟩
instance : Formed String := ⟨fun _ _ => True⟩
instance : Formed Network := ⟨fun _ _ => True⟩
instance : Formed Auth := ⟨fun _ _ => True⟩
instance : Formed Sign := ⟨fun _ _ => True⟩
instance {width : Nat} : Formed (BitVec width) := ⟨fun _ _ => True⟩

instance : Shapeless Bool := ⟨fun _ _ => trivial⟩
instance : Shapeless String := ⟨fun _ _ => trivial⟩
instance : Shapeless Auth := ⟨fun _ _ => trivial⟩
instance : Shapeless Sign := ⟨fun _ _ => trivial⟩
instance {width : Nat} : Shapeless (BitVec width) := ⟨fun _ _ => trivial⟩

/-! ### Blocks without optional values -/

instance : Formed PublicKey where
  WellFormed shape
    | .address text => WellFormed shape text
    | .point x isOdd => WellFormed shape x ∧ WellFormed shape isOdd

instance : Formed ActionState := ⟨fun shape s => WellFormed shape s.hash⟩

instance : Formed Uri := ⟨fun shape u => WellFormed shape u.text⟩

instance {width : Nat} : Formed (Range width) :=
  ⟨fun shape r => WellFormed shape r.lower ∧ WellFormed shape r.upper⟩

instance : Formed BalanceChange :=
  ⟨fun shape c => WellFormed shape c.magnitude ∧ WellFormed shape c.sgn⟩

instance : Formed VerificationKey :=
  ⟨fun shape k => WellFormed shape k.data ∧ WellFormed shape k.hash⟩

instance : Formed SetVerificationKey :=
  ⟨fun shape p => WellFormed shape p.auth ∧ WellFormed shape p.txnVersion⟩

instance : Formed Permissions where
  WellFormed shape p :=
    WellFormed shape p.editState ∧ WellFormed shape p.access ∧ WellFormed shape p.send
      ∧ WellFormed shape p.receive ∧ WellFormed shape p.setDelegate
      ∧ WellFormed shape p.setPermissions ∧ WellFormed shape p.setVerificationKey
      ∧ WellFormed shape p.setZkappUri ∧ WellFormed shape p.editActionState
      ∧ WellFormed shape p.setTokenSymbol ∧ WellFormed shape p.incrementNonce
      ∧ WellFormed shape p.setVotingFor ∧ WellFormed shape p.setTiming

instance : Formed Timing where
  WellFormed shape t :=
    WellFormed shape t.initialMinimumBalance ∧ WellFormed shape t.cliffTime
      ∧ WellFormed shape t.cliffAmount ∧ WellFormed shape t.vestingPeriod
      ∧ WellFormed shape t.vestingIncrement

instance : Formed MayUseToken :=
  ⟨fun shape u => WellFormed shape u.parentsOwnToken ∧ WellFormed shape u.inheritFromParent⟩

instance : Formed AuthorizationKind where
  WellFormed shape k :=
    WellFormed shape k.isSigned ∧ WellFormed shape k.isProved
      ∧ WellFormed shape k.verificationKeyHash

instance : Formed ExpectedHashes where
  WellFormed shape e :=
    WellFormed shape e.memoHash ∧ WellFormed shape e.feePayerHash
      ∧ WellFormed shape e.accountUpdatesCommitment ∧ WellFormed shape e.fullCommitment

instance : Shapeless PublicKey where
  wellFormed shape
    | .address text => Shapeless.wellFormed shape text
    | .point x isOdd => ⟨Shapeless.wellFormed shape x, Shapeless.wellFormed shape isOdd⟩

instance : Shapeless ActionState := ⟨fun shape s => Shapeless.wellFormed shape s.hash⟩

instance : Shapeless Uri := ⟨fun shape u => Shapeless.wellFormed shape u.text⟩

instance {width : Nat} : Shapeless (Range width) :=
  ⟨fun shape r => ⟨Shapeless.wellFormed shape r.lower, Shapeless.wellFormed shape r.upper⟩⟩

instance : Shapeless BalanceChange :=
  ⟨fun shape c => ⟨Shapeless.wellFormed shape c.magnitude, Shapeless.wellFormed shape c.sgn⟩⟩

instance : Shapeless VerificationKey :=
  ⟨fun shape k => ⟨Shapeless.wellFormed shape k.data, Shapeless.wellFormed shape k.hash⟩⟩

instance : Shapeless SetVerificationKey :=
  ⟨fun shape p => ⟨Shapeless.wellFormed shape p.auth, Shapeless.wellFormed shape p.txnVersion⟩⟩

instance : Shapeless Permissions where
  wellFormed shape p := by
    refine ⟨?_, ?_, ?_, ?_, ?_, ?_, ?_, ?_, ?_, ?_, ?_, ?_, ?_⟩
      <;> exact Shapeless.wellFormed shape _

instance : Shapeless Timing where
  wellFormed shape t := by
    refine ⟨?_, ?_, ?_, ?_, ?_⟩ <;> exact Shapeless.wellFormed shape _

instance : Shapeless MayUseToken where
  wellFormed shape u := ⟨Shapeless.wellFormed shape u.parentsOwnToken,
    Shapeless.wellFormed shape u.inheritFromParent⟩

instance : Shapeless AuthorizationKind where
  wellFormed shape k := ⟨Shapeless.wellFormed shape k.isSigned,
    Shapeless.wellFormed shape k.isProved, Shapeless.wellFormed shape k.verificationKeyHash⟩

instance : Shapeless ExpectedHashes where
  wellFormed shape e := by
    refine ⟨?_, ?_, ?_, ?_⟩ <;> exact Shapeless.wellFormed shape _

/-! ### Optional values and lists -/

namespace Optional

/-- The shape that a value has. -/
def shape : Optional α → Shape
  | .tagged _ => .tagged
  | .flagged _ _ => .flagged

/-- What is written for a value. Beside a flag there is a payload even if the flag is cleared. -/
def payload? : Optional α → Option α
  | .tagged value => value
  | .flagged _ payload => some payload

end Optional

/-- An optional value has the shape of its record, and its payload is well formed. -/
instance [Formed α] : Formed (Optional α) :=
  ⟨fun shape o => o.shape = shape ∧ ∀ payload, o.payload? = some payload → WellFormed shape payload⟩

instance [Formed α] : Formed (List α) := ⟨fun shape items => ∀ item ∈ items, WellFormed shape item⟩

instance [Formed α] [Shapeless α] : Shapeless (List α) :=
  ⟨fun shape _ item _ => Shapeless.wellFormed shape item⟩

/-- There are eight state slots. -/
instance : Formed Slots :=
  ⟨fun shape slots => slots.toList.length = 8 ∧ WellFormed shape slots.toList⟩

theorem wellFormed_present [Formed α] [Shapeless α] (shape : Shape) (a : α) :
    WellFormed shape (shape.present a) := by
  cases shape <;> exact ⟨rfl, fun payload _ => Shapeless.wellFormed _ payload⟩

theorem wellFormed_absent [Vacant α] [Formed α] [Shapeless α] (shape : Shape) :
    WellFormed shape (shape.absent : Optional α) := by
  cases shape <;> exact ⟨rfl, fun payload _ => Shapeless.wellFormed _ payload⟩

/-! ### Updates and preconditions -/

instance : Formed Update where
  WellFormed shape u :=
    WellFormed shape u.appState ∧ WellFormed shape u.delegate ∧ WellFormed shape u.verificationKey
      ∧ WellFormed shape u.permissions ∧ WellFormed shape u.zkappUri
      ∧ WellFormed shape u.tokenSymbol ∧ WellFormed shape u.timing ∧ WellFormed shape u.votingFor

instance : Formed EpochLedger :=
  ⟨fun shape l => WellFormed shape l.hash ∧ WellFormed shape l.totalCurrency⟩

instance : Formed EpochData where
  WellFormed shape e :=
    WellFormed shape e.ledger ∧ WellFormed shape e.seed ∧ WellFormed shape e.startCheckpoint
      ∧ WellFormed shape e.lockCheckpoint ∧ WellFormed shape e.epochLength

instance : Formed NetworkPreconditions where
  WellFormed shape n :=
    WellFormed shape n.snarkedLedgerHash ∧ WellFormed shape n.blockchainLength
      ∧ WellFormed shape n.minWindowDensity ∧ WellFormed shape n.totalCurrency
      ∧ WellFormed shape n.globalSlotSinceGenesis ∧ WellFormed shape n.stakingEpochData
      ∧ WellFormed shape n.nextEpochData

instance : Formed AccountPreconditions where
  WellFormed shape a :=
    WellFormed shape a.balance ∧ WellFormed shape a.nonce ∧ WellFormed shape a.receiptChainHash
      ∧ WellFormed shape a.delegate ∧ WellFormed shape a.state ∧ WellFormed shape a.actionState
      ∧ WellFormed shape a.provedState ∧ WellFormed shape a.isNew

instance : Formed Preconditions where
  WellFormed shape p :=
    WellFormed shape p.network ∧ WellFormed shape p.account ∧ WellFormed shape p.validWhile

/-! ### Commands and records -/

instance : Formed FeePayerBody where
  WellFormed shape b :=
    WellFormed shape b.publicKey ∧ WellFormed shape b.fee ∧ WellFormed shape b.validUntil
      ∧ WellFormed shape b.nonce

instance : Formed FeePayer :=
  ⟨fun shape p => WellFormed shape p.body ∧ WellFormed shape p.authorization⟩

instance : Formed AccountUpdateBody where
  WellFormed shape b :=
    WellFormed shape b.publicKey ∧ WellFormed shape b.tokenId ∧ WellFormed shape b.update
      ∧ WellFormed shape b.balanceChange ∧ WellFormed shape b.incrementNonce
      ∧ WellFormed shape b.events ∧ WellFormed shape b.actions ∧ WellFormed shape b.callData
      ∧ WellFormed shape b.callDepth ∧ WellFormed shape b.preconditions
      ∧ WellFormed shape b.useFullCommitment ∧ WellFormed shape b.implicitAccountCreationFee
      ∧ WellFormed shape b.mayUseToken ∧ WellFormed shape b.authorizationKind

instance : Formed AccountUpdate :=
  ⟨fun shape u => WellFormed shape u.body ∧ WellFormed shape u.authorization⟩

instance : Formed Command where
  WellFormed shape c :=
    WellFormed shape c.feePayer ∧ WellFormed shape c.accountUpdates ∧ WellFormed shape c.memo
      ∧ WellFormed shape c.network

instance : Formed Record where
  WellFormed shape r :=
    WellFormed shape r.name ∧ WellFormed shape r.command ∧ WellFormed shape r.expected

end ZkCommand
