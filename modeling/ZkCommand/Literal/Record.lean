import ZkCommand.Literal.Inline
import ZkCommand.Literal.Layout

/-!
# ZkCommand.Literal.Record

**Records as struct literals**, to be pasted into a table of test vectors. Every part of a record
is a field or a block of its own, in the order of the structures that the literal builds.
-/

namespace ZkCommand.Literal

open Layout (field struct structWith vector)

/-- The field of a block that may be absent. -/
def optionalBlock {α : Type} (key type : String) (body : α → List Layout) :
    Optional α → Layout
  | .tagged none => field key "None"
  | .tagged (some value) => structWith (key ++ ": Some(" ++ type) (body value) "),"
  | .flagged present payload =>
      struct (key ++ ": Flagged")
        [field "is_some" (bool present), struct ("value: " ++ type) (body payload)]

/-! ### Update -/

/-- The fields of a verification key. -/
def verificationKey (k : VerificationKey) : List Layout :=
  [field "data" (ownedText k.data), field "hash" (element k.hash)]

/-- The fields of permissions. -/
def permissions (p : Permissions) : List Layout :=
  [field "edit_state" (auth p.editState),
   field "access" (auth p.access),
   field "send" (auth p.send),
   field "receive" (auth p.receive),
   field "set_delegate" (auth p.setDelegate),
   field "set_permissions" (auth p.setPermissions),
   struct "set_verification_key: SetVerificationKey"
     [field "auth" (auth p.setVerificationKey.auth),
      field "txn_version" (word p.setVerificationKey.txnVersion)],
   field "set_zkapp_uri" (auth p.setZkappUri),
   field "edit_action_state" (auth p.editActionState),
   field "set_token_symbol" (auth p.setTokenSymbol),
   field "increment_nonce" (auth p.incrementNonce),
   field "set_voting_for" (auth p.setVotingFor),
   field "set_timing" (auth p.setTiming)]

/-- The fields of a vesting schedule. -/
def timing (t : Timing) : List Layout :=
  [field "initial_minimum_balance" (word t.initialMinimumBalance),
   field "cliff_time" (word t.cliffTime),
   field "cliff_amount" (word t.cliffAmount),
   field "vesting_period" (word t.vestingPeriod),
   field "vesting_increment" (word t.vestingIncrement)]

/-- The update block. -/
def update (u : Update) : Layout :=
  struct "update: Update"
    [field "app_state" (slots u.appState),
     field "delegate" (optional publicKey u.delegate),
     optionalBlock "verification_key" "VerificationKeyData" verificationKey u.verificationKey,
     optionalBlock "permissions" "Permissions" permissions u.permissions,
     field "zkapp_uri" (optional uri u.zkappUri),
     field "token_symbol" (optional tokenSymbol u.tokenSymbol),
     optionalBlock "timing" "TimingData" timing u.timing,
     field "voting_for" (optional element u.votingFor)]

/-! ### Preconditions -/

/-- An epoch. -/
def epoch (key : String) (e : EpochData) : Layout :=
  struct (key ++ ": EpochData")
    [struct "ledger: EpochLedger"
       [field "hash" (optional element e.ledger.hash),
        field "total_currency" (optional range e.ledger.totalCurrency)],
     field "seed" (optional element e.seed),
     field "start_checkpoint" (optional element e.startCheckpoint),
     field "lock_checkpoint" (optional element e.lockCheckpoint),
     field "epoch_length" (optional range e.epochLength)]

/-- Conditions on the network. -/
def networkPreconditions (n : NetworkPreconditions) : Layout :=
  struct "network: NetworkPreconditions"
    [field "snarked_ledger_hash" (optional element n.snarkedLedgerHash),
     field "blockchain_length" (optional range n.blockchainLength),
     field "min_window_density" (optional range n.minWindowDensity),
     field "total_currency" (optional range n.totalCurrency),
     field "global_slot_since_genesis" (optional range n.globalSlotSinceGenesis),
     epoch "staking_epoch_data" n.stakingEpochData,
     epoch "next_epoch_data" n.nextEpochData]

/-- Conditions on the account. -/
def accountPreconditions (a : AccountPreconditions) : Layout :=
  struct "account: AccountPreconditions"
    [field "balance" (optional range a.balance),
     field "nonce" (optional range a.nonce),
     field "receipt_chain_hash" (optional element a.receiptChainHash),
     field "delegate" (optional publicKey a.delegate),
     field "state" (slots a.state),
     field "action_state" (optional actionState a.actionState),
     field "proved_state" (optional bool a.provedState),
     field "is_new" (optional bool a.isNew)]

/-- All preconditions. -/
def preconditions (p : Preconditions) : Layout :=
  struct "preconditions: Preconditions"
    [networkPreconditions p.network,
     accountPreconditions p.account,
     field "valid_while" (optional range p.validWhile)]

/-! ### Account updates -/

/-- Lists of field elements, one inner list a line. -/
def fieldLists (head : String) (lists : List (List Fp)) : Layout :=
  struct head
    [if lists.isEmpty then field "data" "vec![]"
     else vector "data" (lists.map fun xs => .line (inlineVector (xs.map element) ++ ","))]

/-- The body of an account update. -/
def accountUpdateBody (b : AccountUpdateBody) : Layout :=
  struct "body: AccountUpdateBody"
    [field "public_key" (publicKey b.publicKey),
     field "token_id" ("TokenId(" ++ element b.tokenId ++ ")"),
     update b.update,
     struct "balance_change: BalanceChange"
       [field "magnitude" (word b.balanceChange.magnitude),
        field "sgn" (sign b.balanceChange.sgn)],
     field "increment_nonce" (bool b.incrementNonce),
     fieldLists "events: Events" b.events,
     fieldLists "actions: Actions" b.actions,
     field "call_data" (element b.callData),
     field "call_depth" (word b.callDepth),
     preconditions b.preconditions,
     field "use_full_commitment" (bool b.useFullCommitment),
     field "implicit_account_creation_fee" (bool b.implicitAccountCreationFee),
     struct "may_use_token: MayUseToken"
       [field "parents_own_token" (bool b.mayUseToken.parentsOwnToken),
        field "inherit_from_parent" (bool b.mayUseToken.inheritFromParent)],
     struct "authorization_kind: AuthorizationKind"
       [field "is_signed" (bool b.authorizationKind.isSigned),
        field "is_proved" (bool b.authorizationKind.isProved),
        field "verification_key_hash" (element b.authorizationKind.verificationKeyHash)]]

/-- An account update under a comment with its number. The literal has no place for a proof or a
signature. -/
def accountUpdate (number : Nat) (u : AccountUpdate) : List Layout :=
  [.line ("// Account update " ++ Decimal.text number),
   struct "AccountUpdate"
     [accountUpdateBody u.body,
      struct "authorization: Authorization" [field "proof" "None", field "signature" "None"]]]

/-! ### Records -/

/-- The fee payer. -/
def feePayer (p : FeePayer) : Layout :=
  struct "fee_payer: FeePayer"
    [struct "body: FeePayerBody"
       [field "public_key" (publicKey p.body.publicKey),
        field "fee" (word p.body.fee),
        field "valid_until" (optional word p.body.validUntil),
        field "nonce" (word p.body.nonce)],
     field "authorization" (ownedText p.authorization)]

/-- The command without its network, which the literal has beside it. -/
def command (c : Command) : Layout :=
  struct "zkapp_command: ZKAppCommand"
    [feePayer c.feePayer,
     vector "account_updates" (c.accountUpdates.mapIdx fun i u => accountUpdate (i + 1) u).flatten,
     field "memo" ("decode_memo_from_base58(" ++ quoted c.memo ++ ")")]

/-- The digits of an expected hash between quotes. -/
def expectedHash (x : Fp) : String := "\"" ++ x.decimal ++ "\""

/-- The layout of a record. -/
def record (r : Record) : Layout :=
  structWith "ZkAppTestVector"
    [field "name" (quoted r.name),
     command r.command,
     field "network" (network r.command.network),
     field "expected_memo_hash" (expectedHash r.expected.memoHash),
     field "expected_fee_payer_hash" (expectedHash r.expected.feePayerHash),
     field "expected_account_updates_commitment"
       (expectedHash r.expected.accountUpdatesCommitment),
     field "expected_full_commitment" (expectedHash r.expected.fullCommitment)]
    ""

end ZkCommand.Literal

/-- The struct literal of a record. -/
def ZkCommand.Record.literal (r : ZkCommand.Record) : String :=
  ZkCommand.Literal.Layout.render 0 (ZkCommand.Literal.record r)
