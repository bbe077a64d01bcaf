import ZkCommand.Proofs.Reading.Meaning
import ZkCommand.Proofs.Reading.Tables

/-!
# ZkCommand.Proofs.Reading.Record

**Where every part of a record comes from.** For each type of the record there is one structure with
one field for each part: the key under which the part stands, the rule for a value that is not
given, and the reader of its leaf. A structure says nothing about paths, events or the order of
steps; `reads_record` says that it is what the readings of the schema read.
-/

namespace ZkCommand

variable {α β : Type}

/-! ### Values -/

/-- A reader takes a document value to a value. -/
def Leaf.Gives (read : Leaf.Reader α) (t : Tree) (a : α) : Prop := read t = .ok a

/-- A label reader takes a document value to a value, be the label recognised or not. -/
def Leaf.Settles (read : Leaf.Reader (Leaf.Labelled α)) (t : Tree) (a : α) : Prop :=
  ∃ result, read t = .ok result ∧ result.value = a

/-- A list holds what its elements hold, in order. -/
def ListRead (relation : Tree → α → Prop) (t : Tree) (as : List α) : Prop :=
  ∃ items, t = .list items ∧ List.Forall₂ relation items as

/-- A value that is there, in a shape. -/
def PresentRead (shape : Shape) (relation : Tree → α → Prop) (t : Tree) (o : Optional α) : Prop :=
  ∃ a, relation t a ∧ shape.present a = o

/-! ### Values under keys -/

namespace Entry

/-- The key has to be there. -/
def required (key : String) (relation : Tree → α → Prop) : Tree → α → Prop :=
  Access.required.Reads key relation

/-- A default stands for null and for a missing key. -/
def given (default : α) (key : String) (relation : Tree → α → Prop) : Tree → α → Prop :=
  (Access.given default).Reads key relation

/-- Null and a missing key are absent values. -/
def optional [Vacant α] (shape : Shape) (key : String) (relation : Tree → α → Prop) :
    Tree → Optional α → Prop :=
  (Access.given shape.absent).Reads key (PresentRead shape relation)

/-- Null, the empty mapping and a missing key are absent values. -/
def block [Vacant α] (shape : Shape) (key : String) (relation : Tree → α → Prop) :
    Tree → Optional α → Prop :=
  (Access.block shape.absent).Reads key (PresentRead shape relation)

/-- A missing key is no requirement. -/
def level (key : String) : Tree → Auth → Prop :=
  (Access.level .none).Reads key (Leaf.Settles Leaf.auth)

variable {key : String} {relation : Tree → α → Prop} {t : Tree} {a : α}

theorem kind_of_found {v : Tree} (found : t.get? key = some v) : t.kind = .mapping := by
  cases t with
  | map entries => rfl
  | _ => cases found

theorem required_iff : required key relation t a ↔ ∃ v, t.get? key = some v ∧ relation v a := by
  constructor
  · intro h
    obtain ⟨-, h⟩ := h
    rw [Access.child?_required] at h
    cases found : t.get? key with
    | none =>
        rw [found] at h
        cases h
    | some v =>
        rw [found] at h
        exact ⟨v, rfl, h⟩
  · intro h
    obtain ⟨v, found, h⟩ := h
    refine ⟨kind_of_found found, ?_⟩
    rw [Access.child?_required, found]
    exact h

/-- The value of a block that is present is read from one that is there, and not empty. -/
theorem block_present [Vacant α] {shape : Shape} {o : Optional α}
    (h : block shape key relation t o) (present : o.value? = some a) :
    ∃ v, t.get? key = some v ∧ v.isNull = false ∧ v ≠ .map [] ∧ relation v a := by
  obtain ⟨-, h⟩ := h
  cases found : (Access.block (shape.absent : Optional α)).child? key t with
  | none =>
      rw [found] at h
      obtain rfl := Option.some.inj h
      cases shape <;> cases present
  | some v =>
      rw [found] at h
      obtain ⟨b, read, rfl⟩ := h
      obtain rfl : b = a := by cases shape <;> exact Option.some.inj present
      obtain ⟨there, counts⟩ := Option.filter_eq_some_iff.mp found
      obtain ⟨null, empty⟩ := (Bool.and_eq_true _ _).mp counts
      refine ⟨v, there, by simpa using null, ?_, read⟩
      intro same
      subst same
      cases empty

end Entry

open Entry
open Leaf (Gives Settles)

/-! ### Ranges and the update block -/

/-- The bounds of a range. -/
structure Range.ReadFrom {width : Nat} (t : Tree) (range : Range width) : Prop where
  lower : required "lower" (Gives (Leaf.word width)) t range.lower
  upper : required "upper" (Gives (Leaf.word width)) t range.upper

/-- The parts of a verification key. -/
structure VerificationKey.ReadFrom (t : Tree) (key : VerificationKey) : Prop where
  data : given "" "data" (Gives Leaf.string) t key.data
  hash : given Fp.zero "hash" (Gives Leaf.field) t key.hash

/-- The parts of a policy on the verification key. -/
structure SetVerificationKey.ReadFrom (t : Tree) (policy : SetVerificationKey) : Prop where
  auth : level "auth" t policy.auth
  txnVersion : given 0 "txnVersion" (Gives (Leaf.word 32)) t policy.txnVersion

/-- The levels of permissions. -/
structure Permissions.ReadFrom (t : Tree) (permissions : Permissions) : Prop where
  editState : level "editState" t permissions.editState
  access : level "access" t permissions.access
  send : level "send" t permissions.send
  receive : level "receive" t permissions.receive
  setDelegate : level "setDelegate" t permissions.setDelegate
  setPermissions : level "setPermissions" t permissions.setPermissions
  setVerificationKey : given ⟨.none, 0⟩ "setVerificationKey" SetVerificationKey.ReadFrom t
    permissions.setVerificationKey
  setZkappUri : level "setZkappUri" t permissions.setZkappUri
  editActionState : level "editActionState" t permissions.editActionState
  setTokenSymbol : level "setTokenSymbol" t permissions.setTokenSymbol
  incrementNonce : level "incrementNonce" t permissions.incrementNonce
  setVotingFor : level "setVotingFor" t permissions.setVotingFor
  setTiming : level "setTiming" t permissions.setTiming

/-- The parts of a vesting schedule. -/
structure Timing.ReadFrom (t : Tree) (timing : Timing) : Prop where
  initialMinimumBalance : required "initialMinimumBalance" (Gives (Leaf.word 64)) t
    timing.initialMinimumBalance
  cliffTime : required "cliffTime" (Gives (Leaf.word 32)) t timing.cliffTime
  cliffAmount : required "cliffAmount" (Gives (Leaf.word 64)) t timing.cliffAmount
  vestingPeriod : required "vestingPeriod" (Gives (Leaf.word 32)) t timing.vestingPeriod
  vestingIncrement : required "vestingIncrement" (Gives (Leaf.word 64)) t timing.vestingIncrement

/-- The parts of an update. -/
structure Update.ReadFrom (shape : Shape) (t : Tree) (update : Update) : Prop where
  appState : required "appState" (SlotsRead shape) t update.appState
  delegate : optional shape "delegate" (Gives Leaf.publicKey) t update.delegate
  verificationKey : block shape "verificationKey" VerificationKey.ReadFrom t
    update.verificationKey
  permissions : block shape "permissions" Permissions.ReadFrom t update.permissions
  zkappUri : optional shape "zkappUri" (Gives Leaf.uri) t update.zkappUri
  tokenSymbol : optional shape "tokenSymbol" (Gives Leaf.tokenSymbol) t update.tokenSymbol
  timing : block shape "timing" Timing.ReadFrom t update.timing
  votingFor : optional shape "votingFor" (Gives (Leaf.hash Base58.stateHashVersion)) t
    update.votingFor

/-! ### Preconditions -/

/-- The parts of the ledger of an epoch. -/
structure EpochLedger.ReadFrom (shape : Shape) (t : Tree) (ledger : EpochLedger) : Prop where
  hash : optional shape "hash" (Gives (Leaf.hash Base58.ledgerHashVersion)) t ledger.hash
  totalCurrency : optional shape "totalCurrency" Range.ReadFrom t ledger.totalCurrency

/-- The parts of an epoch. -/
structure EpochData.ReadFrom (shape : Shape) (t : Tree) (epoch : EpochData) : Prop where
  ledger : given ⟨shape.absent, shape.absent⟩ "ledger" (EpochLedger.ReadFrom shape) t
    epoch.ledger
  seed : optional shape "seed" (Gives (Leaf.hash Base58.epochSeedVersion)) t epoch.seed
  startCheckpoint : optional shape "startCheckpoint" (Gives (Leaf.hash Base58.stateHashVersion)) t
    epoch.startCheckpoint
  lockCheckpoint : optional shape "lockCheckpoint" (Gives (Leaf.hash Base58.stateHashVersion)) t
    epoch.lockCheckpoint
  epochLength : optional shape "epochLength" Range.ReadFrom t epoch.epochLength

/-- The parts of conditions on the network. -/
structure NetworkPreconditions.ReadFrom (shape : Shape) (t : Tree)
    (network : NetworkPreconditions) : Prop where
  snarkedLedgerHash : optional shape "snarkedLedgerHash"
    (Gives (Leaf.hash Base58.ledgerHashVersion)) t network.snarkedLedgerHash
  blockchainLength : optional shape "blockchainLength" Range.ReadFrom t network.blockchainLength
  minWindowDensity : optional shape "minWindowDensity" Range.ReadFrom t network.minWindowDensity
  totalCurrency : optional shape "totalCurrency" Range.ReadFrom t network.totalCurrency
  globalSlotSinceGenesis : optional shape "globalSlotSinceGenesis" Range.ReadFrom t
    network.globalSlotSinceGenesis
  stakingEpochData : required "stakingEpochData" (EpochData.ReadFrom shape) t
    network.stakingEpochData
  nextEpochData : required "nextEpochData" (EpochData.ReadFrom shape) t network.nextEpochData

/-- The parts of conditions on the account. -/
structure AccountPreconditions.ReadFrom (shape : Shape) (t : Tree)
    (account : AccountPreconditions) : Prop where
  balance : optional shape "balance" Range.ReadFrom t account.balance
  nonce : optional shape "nonce" Range.ReadFrom t account.nonce
  receiptChainHash : optional shape "receiptChainHash"
    (Gives (Leaf.hash Base58.receiptChainHashVersion)) t account.receiptChainHash
  delegate : optional shape "delegate" (Gives Leaf.publicKey) t account.delegate
  state : required "state" (SlotsRead shape) t account.state
  actionState : optional shape "actionState" (Gives Leaf.actionState) t account.actionState
  provedState : optional shape "provedState" (Gives Leaf.bool) t account.provedState
  isNew : optional shape "isNew" (Gives Leaf.bool) t account.isNew

/-- The parts of preconditions. -/
structure Preconditions.ReadFrom (shape : Shape) (t : Tree) (conditions : Preconditions) :
    Prop where
  network : required "network" (NetworkPreconditions.ReadFrom shape) t conditions.network
  account : required "account" (AccountPreconditions.ReadFrom shape) t conditions.account
  validWhile : optional shape "validWhile" Range.ReadFrom t conditions.validWhile

/-! ### Fee payer and account updates -/

/-- The parts of the body of a fee payer. -/
structure FeePayerBody.ReadFrom (shape : Shape) (t : Tree) (body : FeePayerBody) : Prop where
  publicKey : required "publicKey" (Gives Leaf.publicKey) t body.publicKey
  fee : required "fee" (Gives (Leaf.word 64)) t body.fee
  validUntil : optional shape "validUntil" (Gives (Leaf.word 32)) t body.validUntil
  nonce : required "nonce" (Gives (Leaf.word 32)) t body.nonce

/-- The parts of a fee payer. -/
structure FeePayer.ReadFrom (shape : Shape) (t : Tree) (feePayer : FeePayer) : Prop where
  body : required "body" (FeePayerBody.ReadFrom shape) t feePayer.body
  authorization : required "authorization" (Gives Leaf.string) t feePayer.authorization

/-- The parts of a balance change. -/
structure BalanceChange.ReadFrom (t : Tree) (change : BalanceChange) : Prop where
  magnitude : required "magnitude" (Gives (Leaf.word 64)) t change.magnitude
  sgn : required "sgn" (Settles Leaf.sign) t change.sgn

/-- The parts of a token's use. -/
structure MayUseToken.ReadFrom (t : Tree) (tokenUse : MayUseToken) : Prop where
  parentsOwnToken : required "parentsOwnToken" (Gives Leaf.bool) t tokenUse.parentsOwnToken
  inheritFromParent : required "inheritFromParent" (Gives Leaf.bool) t tokenUse.inheritFromParent

/-- The parts of an authorization's kind. -/
structure AuthorizationKind.ReadFrom (t : Tree) (kind : AuthorizationKind) : Prop where
  isSigned : required "isSigned" (Gives Leaf.bool) t kind.isSigned
  isProved : required "isProved" (Gives Leaf.bool) t kind.isProved
  verificationKeyHash : required "verificationKeyHash" (Gives Leaf.field) t
    kind.verificationKeyHash

/-- The parts of the body of an account update. -/
structure AccountUpdateBody.ReadFrom (shape : Shape) (t : Tree) (body : AccountUpdateBody) :
    Prop where
  publicKey : required "publicKey" (Gives Leaf.publicKey) t body.publicKey
  tokenId : required "tokenId" (Gives Leaf.tokenId) t body.tokenId
  update : required "update" (Update.ReadFrom shape) t body.update
  balanceChange : required "balanceChange" BalanceChange.ReadFrom t body.balanceChange
  incrementNonce : required "incrementNonce" (Gives Leaf.bool) t body.incrementNonce
  events : required "events" (ListRead (ListRead (Gives Leaf.field))) t body.events
  actions : required "actions" (ListRead (ListRead (Gives Leaf.field))) t body.actions
  callData : required "callData" (Gives Leaf.field) t body.callData
  callDepth : required "callDepth" (Gives (Leaf.word 32)) t body.callDepth
  preconditions : required "preconditions" (Preconditions.ReadFrom shape) t body.preconditions
  useFullCommitment : required "useFullCommitment" (Gives Leaf.bool) t body.useFullCommitment
  implicitAccountCreationFee : required "implicitAccountCreationFee" (Gives Leaf.bool) t
    body.implicitAccountCreationFee
  mayUseToken : required "mayUseToken" MayUseToken.ReadFrom t body.mayUseToken
  authorizationKind : required "authorizationKind" AuthorizationKind.ReadFrom t
    body.authorizationKind

/-- The parts of an account update. Its proof and signature are not read. -/
structure AccountUpdate.ReadFrom (shape : Shape) (t : Tree) (update : AccountUpdate) : Prop where
  body : required "body" (AccountUpdateBody.ReadFrom shape) t update.body
  authorization : update.authorization = .absent

/-! ### Records -/

/-- The expected hashes of a document. -/
structure ExpectedHashes.ReadFrom (t : Tree) (expected : ExpectedHashes) : Prop where
  memoHash : given Fp.zero "expectedMemoHash" (Gives Leaf.field) t expected.memoHash
  feePayerHash : given Fp.zero "expectedFeePayerHash" (Gives Leaf.field) t expected.feePayerHash
  accountUpdatesCommitment : given Fp.zero "expectedAccountUpdatesCommitment" (Gives Leaf.field) t
    expected.accountUpdatesCommitment
  fullCommitment : given Fp.zero "expectedFullCommitment" (Gives Leaf.field) t
    expected.fullCommitment

/-- The expected hashes of a document in a variant: only the proper one reads them. -/
def ExpectedHashes.ReadBy : Variant → Tree → ExpectedHashes → Prop
  | .proper => ExpectedHashes.ReadFrom
  | .simple => fun _ expected => expected = .zero

/-- The parts of a record. -/
structure Record.ReadFrom (config : Config) (t : Tree) (record : Record) : Prop where
  name : record.name = config.name
  feePayer : required "feePayer" (FeePayer.ReadFrom config.shape) t record.command.feePayer
  accountUpdates : required "accountUpdates" (ListRead (AccountUpdate.ReadFrom config.shape)) t
    record.command.accountUpdates
  memo : required "memo" (Gives Leaf.string) t record.command.memo
  network : record.command.network = config.network
  expected : ExpectedHashes.ReadBy config.variant t record.expected

/-! ### Readings in sequence -/

namespace Reading

variable {γ δ : Type}

theorem reads_eq {r : Reading α} {relation : Tree → α → Prop}
    (h : ∀ t a, r.Reads t a ↔ relation t a) : r.Reads = relation :=
  funext fun t => funext fun a => propext (h t a)

theorem reads_iff {r : Reading α} {t : Tree} {a : α} : r.Reads t a ↔ ∃ b, r.Reads t b ∧ a = b := by
  rw [exists_eq_right']

theorem reads_table {known : List String} {next : Reading α} :
    (table known next).Reads = next.Reads := by
  refine reads_eq fun t a => ?_
  constructor
  · intro h
    obtain ⟨_, _, -, ⟨b, _, h, rfl, rfl⟩, rfl⟩ := h
    exact h
  · intro h
    exact ⟨(), _, trivial, ⟨a, _, h, rfl, rfl⟩, rfl⟩

/-- What is done with the value of a sequence is done with those of its parts. -/
theorem reads_seq {first : Reading β} {next : Reading (β → γ)} {t : Tree} {d : δ} {k : γ → δ} :
    (∃ c, (seq first next).Reads t c ∧ d = k c) ↔
      ∃ b, first.Reads t b ∧ ∃ f, next.Reads t f ∧ d = k (f b) := by
  constructor
  · intro h
    obtain ⟨_, ⟨b, f, hb, hf, rfl⟩, rfl⟩ := h
    exact ⟨b, hb, f, hf, rfl⟩
  · intro h
    obtain ⟨b, hb, f, hf, rfl⟩ := h
    exact ⟨_, ⟨b, f, hb, hf, rfl⟩, rfl⟩

theorem reads_done {a : α} {t : Tree} {d : δ} {k : α → δ} :
    (∃ b, (done a).Reads t b ∧ d = k b) ↔ d = k a := by
  simp only [Reads, exists_eq_left]

theorem reads_field {access : Access β} {key : String} {inner : Reading β} :
    (field access key inner).Reads = access.Reads key inner.Reads := rfl

theorem reads_leaf {read : Leaf.Reader α} : (leaf read).Reads = Gives read := rfl

theorem reads_label {fallback : Fallback} {read : Leaf.Reader (Leaf.Labelled α)} :
    (label fallback read).Reads = Settles read := rfl

theorem reads_slots {shape : Shape} : (slots shape).Reads = SlotsRead shape := rfl

theorem reads_list {item : Reading α} : (list item).Reads = ListRead item.Reads := rfl

theorem reads_present {shape : Shape} {inner : Reading α} :
    (map shape.present inner).Reads = PresentRead shape inner.Reads := by
  refine reads_eq fun t o => ?_
  constructor
  · intro h
    obtain ⟨a, _, h, rfl, rfl⟩ := h
    exact ⟨a, h, rfl⟩
  · intro h
    obtain ⟨a, h, rfl⟩ := h
    exact ⟨a, _, h, rfl, rfl⟩

/-! ### The readings of the schema -/

section Types

variable (shape : Shape)

theorem reads_range (width : Nat) : (range width).Reads = Range.ReadFrom := by
  refine reads_eq fun t value => ?_
  rw [range, reads_table, reads_iff]
  simp only [reads_seq, reads_done, reads_field, reads_leaf]
  constructor
  · intro h
    obtain ⟨_, h₁, _, h₂, rfl⟩ := h
    exact ⟨h₁, h₂⟩
  · intro h
    obtain ⟨h₁, h₂⟩ := h
    exact ⟨_, h₁, _, h₂, rfl⟩

theorem reads_verificationKey : verificationKey.Reads = VerificationKey.ReadFrom := by
  refine reads_eq fun t value => ?_
  rw [verificationKey, reads_table, reads_iff]
  simp only [reads_seq, reads_done, reads_field, reads_leaf]
  constructor
  · intro h
    obtain ⟨_, h₁, _, h₂, rfl⟩ := h
    exact ⟨h₁, h₂⟩
  · intro h
    obtain ⟨h₁, h₂⟩ := h
    exact ⟨_, h₁, _, h₂, rfl⟩

theorem reads_setVerificationKey : setVerificationKey.Reads = SetVerificationKey.ReadFrom := by
  refine reads_eq fun t value => ?_
  rw [setVerificationKey, reads_table, reads_iff]
  simp only [reads_seq, reads_done, reads_field, reads_leaf, reads_label]
  constructor
  · intro h
    obtain ⟨_, h₁, _, h₂, rfl⟩ := h
    exact ⟨h₁, h₂⟩
  · intro h
    obtain ⟨h₁, h₂⟩ := h
    exact ⟨_, h₁, _, h₂, rfl⟩

theorem reads_permissions : permissions.Reads = Permissions.ReadFrom := by
  refine reads_eq fun t value => ?_
  rw [permissions, reads_table, reads_iff]
  simp only [reads_seq, reads_done, reads_field, reads_label, reads_setVerificationKey]
  constructor
  · intro h
    obtain ⟨_, policy, _, editState, _, access, _, send, _, receive, _, delegate, _, levels, _,
      uri, _, actions, _, symbol, _, nonce, _, voting, _, timing, rfl⟩ := h
    exact ⟨editState, access, send, receive, delegate, levels, policy, uri, actions, symbol, nonce,
      voting, timing⟩
  · intro h
    obtain ⟨editState, access, send, receive, delegate, levels, policy, uri, actions, symbol, nonce,
      voting, timing⟩ := h
    exact ⟨_, policy, _, editState, _, access, _, send, _, receive, _, delegate, _, levels, _,
      uri, _, actions, _, symbol, _, nonce, _, voting, _, timing, rfl⟩

theorem reads_timing : timing.Reads = Timing.ReadFrom := by
  refine reads_eq fun t value => ?_
  rw [timing, reads_table, reads_iff]
  simp only [reads_seq, reads_done, reads_field, reads_leaf]
  constructor
  · intro h
    obtain ⟨_, h₁, _, h₂, _, h₃, _, h₄, _, h₅, rfl⟩ := h
    exact ⟨h₁, h₂, h₃, h₄, h₅⟩
  · intro h
    obtain ⟨h₁, h₂, h₃, h₄, h₅⟩ := h
    exact ⟨_, h₁, _, h₂, _, h₃, _, h₄, _, h₅, rfl⟩

theorem reads_update : (update shape).Reads = Update.ReadFrom shape := by
  refine reads_eq fun t value => ?_
  rw [update, reads_table, reads_iff]
  simp only [reads_seq, reads_done, reads_field, reads_leaf, reads_slots, reads_present,
    reads_verificationKey, reads_permissions, reads_timing]
  constructor
  · intro h
    obtain ⟨_, state, _, delegate, _, key, _, levels, _, uri, _, symbol, _, timing, _, voting,
      rfl⟩ := h
    exact ⟨state, delegate, key, levels, uri, symbol, timing, voting⟩
  · intro h
    obtain ⟨state, delegate, key, levels, uri, symbol, timing, voting⟩ := h
    exact ⟨_, state, _, delegate, _, key, _, levels, _, uri, _, symbol, _, timing, _, voting, rfl⟩

theorem reads_epochLedger : (epochLedger shape).Reads = EpochLedger.ReadFrom shape := by
  refine reads_eq fun t value => ?_
  rw [epochLedger, reads_table, reads_iff]
  simp only [reads_seq, reads_done, reads_field, reads_leaf, reads_present, reads_range]
  constructor
  · intro h
    obtain ⟨_, h₁, _, h₂, rfl⟩ := h
    exact ⟨h₁, h₂⟩
  · intro h
    obtain ⟨h₁, h₂⟩ := h
    exact ⟨_, h₁, _, h₂, rfl⟩

theorem reads_epoch : (epoch shape).Reads = EpochData.ReadFrom shape := by
  refine reads_eq fun t value => ?_
  rw [epoch, reads_table, reads_iff]
  simp only [reads_seq, reads_done, reads_field, reads_leaf, reads_present, reads_range,
    reads_epochLedger]
  constructor
  · intro h
    obtain ⟨_, ledger, _, seed, _, start, _, lock, _, length, rfl⟩ := h
    exact ⟨ledger, seed, start, lock, length⟩
  · intro h
    obtain ⟨ledger, seed, start, lock, length⟩ := h
    exact ⟨_, ledger, _, seed, _, start, _, lock, _, length, rfl⟩

theorem reads_network : (network shape).Reads = NetworkPreconditions.ReadFrom shape := by
  refine reads_eq fun t value => ?_
  rw [network, reads_table, reads_iff]
  simp only [reads_seq, reads_done, reads_field, reads_leaf, reads_present, reads_range,
    reads_epoch]
  constructor
  · intro h
    obtain ⟨_, ledger, _, length, _, density, _, currency, _, slot, _, staking, _, next, rfl⟩ := h
    exact ⟨ledger, length, density, currency, slot, staking, next⟩
  · intro h
    obtain ⟨ledger, length, density, currency, slot, staking, next⟩ := h
    exact ⟨_, ledger, _, length, _, density, _, currency, _, slot, _, staking, _, next, rfl⟩

theorem reads_account : (account shape).Reads = AccountPreconditions.ReadFrom shape := by
  refine reads_eq fun t value => ?_
  rw [account, reads_table, reads_iff]
  simp only [reads_seq, reads_done, reads_field, reads_leaf, reads_slots, reads_present,
    reads_range]
  constructor
  · intro h
    obtain ⟨_, balance, _, nonce, _, receipt, _, delegate, _, state, _, actions, _, proved, _,
      fresh, rfl⟩ := h
    exact ⟨balance, nonce, receipt, delegate, state, actions, proved, fresh⟩
  · intro h
    obtain ⟨balance, nonce, receipt, delegate, state, actions, proved, fresh⟩ := h
    exact ⟨_, balance, _, nonce, _, receipt, _, delegate, _, state, _, actions, _, proved, _,
      fresh, rfl⟩

theorem reads_preconditions : (preconditions shape).Reads = Preconditions.ReadFrom shape := by
  refine reads_eq fun t value => ?_
  rw [preconditions, reads_table, reads_iff]
  simp only [reads_seq, reads_done, reads_field, reads_present, reads_range, reads_network,
    reads_account]
  constructor
  · intro h
    obtain ⟨_, h₁, _, h₂, _, h₃, rfl⟩ := h
    exact ⟨h₁, h₂, h₃⟩
  · intro h
    obtain ⟨h₁, h₂, h₃⟩ := h
    exact ⟨_, h₁, _, h₂, _, h₃, rfl⟩

theorem reads_feePayerBody : (feePayerBody shape).Reads = FeePayerBody.ReadFrom shape := by
  refine reads_eq fun t value => ?_
  rw [feePayerBody, reads_table, reads_iff]
  simp only [reads_seq, reads_done, reads_field, reads_leaf, reads_present]
  constructor
  · intro h
    obtain ⟨_, h₁, _, h₂, _, h₃, _, h₄, rfl⟩ := h
    exact ⟨h₁, h₂, h₃, h₄⟩
  · intro h
    obtain ⟨h₁, h₂, h₃, h₄⟩ := h
    exact ⟨_, h₁, _, h₂, _, h₃, _, h₄, rfl⟩

theorem reads_feePayer : (feePayer shape).Reads = FeePayer.ReadFrom shape := by
  refine reads_eq fun t value => ?_
  rw [feePayer, reads_table, reads_iff]
  simp only [reads_seq, reads_done, reads_field, reads_leaf, reads_feePayerBody]
  constructor
  · intro h
    obtain ⟨_, h₁, _, h₂, rfl⟩ := h
    exact ⟨h₁, h₂⟩
  · intro h
    obtain ⟨h₁, h₂⟩ := h
    exact ⟨_, h₁, _, h₂, rfl⟩

theorem reads_balanceChange : balanceChange.Reads = BalanceChange.ReadFrom := by
  refine reads_eq fun t value => ?_
  rw [balanceChange, reads_table, reads_iff]
  simp only [reads_seq, reads_done, reads_field, reads_leaf, reads_label]
  constructor
  · intro h
    obtain ⟨_, h₁, _, h₂, rfl⟩ := h
    exact ⟨h₁, h₂⟩
  · intro h
    obtain ⟨h₁, h₂⟩ := h
    exact ⟨_, h₁, _, h₂, rfl⟩

theorem reads_mayUseToken : mayUseToken.Reads = MayUseToken.ReadFrom := by
  refine reads_eq fun t value => ?_
  rw [mayUseToken, reads_iff]
  simp only [reads_seq, reads_done, reads_field, reads_leaf]
  constructor
  · intro h
    obtain ⟨_, h₁, _, h₂, rfl⟩ := h
    exact ⟨h₁, h₂⟩
  · intro h
    obtain ⟨h₁, h₂⟩ := h
    exact ⟨_, h₁, _, h₂, rfl⟩

theorem reads_authorizationKind : authorizationKind.Reads = AuthorizationKind.ReadFrom := by
  refine reads_eq fun t value => ?_
  rw [authorizationKind, reads_iff]
  simp only [reads_seq, reads_done, reads_field, reads_leaf]
  constructor
  · intro h
    obtain ⟨_, h₁, _, h₂, _, h₃, rfl⟩ := h
    exact ⟨h₁, h₂, h₃⟩
  · intro h
    obtain ⟨h₁, h₂, h₃⟩ := h
    exact ⟨_, h₁, _, h₂, _, h₃, rfl⟩

/-- The keys of a required block can be noted if the block can be read. -/
theorem reads_note {known : List String} {key : String} {relation : Tree → α → Prop} {t : Tree}
    {a : α} (h : Entry.required key relation t a) :
    Access.required.Reads key (note known).Reads t () := by
  obtain ⟨mapping, h⟩ := h
  refine ⟨mapping, ?_⟩
  cases hc : (Access.required : Access α).child? key t with
  | none =>
      rw [hc] at h
      cases h
  | some v =>
      rw [Access.child?_required] at hc ⊢
      rw [hc]
      exact trivial

theorem reads_accountUpdateBody :
    (accountUpdateBody shape).Reads = AccountUpdateBody.ReadFrom shape := by
  refine reads_eq fun t value => ?_
  rw [accountUpdateBody, reads_table, reads_iff]
  simp only [reads_seq, reads_done, reads_field, reads_leaf, fieldLists, reads_list,
    reads_balanceChange, reads_update, reads_preconditions, reads_mayUseToken,
    reads_authorizationKind]
  constructor
  · intro h
    obtain ⟨_, change, _, -, _, -, _, key, _, token, _, update, _, nonce, _, events, _, actions, _,
      data, _, depth, _, conditions, _, commitment, _, fee, _, tokenUse, _, kind, rfl⟩ := h
    exact ⟨key, token, update, change, nonce, events, actions, data, depth, conditions, commitment,
      fee, tokenUse, kind⟩
  · intro h
    obtain ⟨key, token, update, change, nonce, events, actions, data, depth, conditions, commitment,
      fee, tokenUse, kind⟩ := h
    exact ⟨_, change, _, reads_note tokenUse, _, reads_note kind, _, key, _, token, _, update, _,
      nonce, _, events, _, actions, _, data, _, depth, _, conditions, _, commitment, _, fee, _,
      tokenUse, _, kind, rfl⟩

theorem reads_accountUpdate : (accountUpdate shape).Reads = AccountUpdate.ReadFrom shape := by
  refine reads_eq fun t value => ?_
  rw [accountUpdate, reads_table, reads_iff]
  simp only [reads_seq, reads_done, reads_field, reads_accountUpdateBody]
  constructor
  · intro h
    obtain ⟨_, h, rfl⟩ := h
    exact ⟨h, rfl⟩
  · intro h
    obtain ⟨h, authorization⟩ := h
    refine ⟨_, h, ?_⟩
    rw [← authorization]

theorem reads_expectedHashes : expectedHashes.Reads = ExpectedHashes.ReadFrom := by
  refine reads_eq fun t value => ?_
  rw [expectedHashes, reads_iff]
  simp only [reads_seq, reads_done, reads_field, reads_leaf]
  constructor
  · intro h
    obtain ⟨_, h₁, _, h₂, _, h₃, _, h₄, rfl⟩ := h
    exact ⟨h₁, h₂, h₃, h₄⟩
  · intro h
    obtain ⟨h₁, h₂, h₃, h₄⟩ := h
    exact ⟨_, h₁, _, h₂, _, h₃, _, h₄, rfl⟩

theorem reads_expected (variant : Variant) :
    (expected variant).Reads = ExpectedHashes.ReadBy variant := by
  cases variant with
  | proper => exact reads_expectedHashes
  | simple => rfl

/-- **The reading of a document reads every part of a record from its own place.** -/
theorem reads_record (config : Config) : (document config).Reads = Record.ReadFrom config := by
  refine reads_eq fun t record => ?_
  rw [document, reads_table, reads_iff]
  simp only [reads_seq, reads_done, reads_field, reads_leaf, reads_list, reads_feePayer,
    reads_accountUpdate, reads_expected]
  constructor
  · intro h
    obtain ⟨_, feePayer, _, updates, _, memo, _, expected, rfl⟩ := h
    exact ⟨rfl, feePayer, updates, memo, rfl, expected⟩
  · intro h
    obtain ⟨name, feePayer, updates, memo, network, expected⟩ := h
    refine ⟨_, feePayer, _, updates, _, memo, _, expected, ?_⟩
    rw [← name, ← network]

end Types

end Reading

end ZkCommand
