import ZkCommand.Proofs.Reading.Basic

/-!
# ZkCommand.Proofs.Reading.Tables

**The schema as readings**: one table for every node, with its keys in the order in which they are
read, the rule of each key, and the reader of each leaf. `walk_document` says that the walk through
a document is the walk of `Reading.document`, so whatever holds of this table holds of the program.

The blocks `mayUseToken` and `authorizationKind` stand twice in the body of an account update: both
have to be there before the other keys are read, and what is in them is read last.
-/

namespace ZkCommand.Reading

open Schema

/-! ### Ranges and the update block -/

/-- A range of a width. -/
def range (width : Nat) : Reading (Range width) :=
  table Node.rangeKeys <|
  required "lower" (.leaf (Leaf.word width)) <|
  required "upper" (.leaf (Leaf.word width)) <|
  .done fun upper lower => { lower, upper }

/-- The range under a key, absent if it is not given. -/
abbrev optionalRange {γ : Type} (shape : Shape) (width : Nat) (key : String)
    (next : Reading (Optional (Range width) → γ)) : Reading γ :=
  optional shape key (range width) next

/-- A verification key. -/
def verificationKey : Reading VerificationKey :=
  table verificationKeyKeys <|
  leafOr "data" "" Leaf.string <|
  leafOr "hash" Fp.zero Leaf.field <|
  .done fun hash data => { data, hash }

/-- A policy on the verification key. -/
def setVerificationKey : Reading SetVerificationKey :=
  table setVerificationKeyKeys <|
  level "auth" <|
  leafOr "txnVersion" 0 (Leaf.word 32) <|
  .done fun txnVersion auth => { auth, txnVersion }

/-- Permissions. -/
def permissions : Reading Permissions :=
  table permissionKeys <|
  .seq (.field (.given noPolicy) "setVerificationKey" setVerificationKey) <|
  level "editState" <|
  level "access" <|
  level "send" <|
  level "receive" <|
  level "setDelegate" <|
  level "setPermissions" <|
  level "setZkappUri" <|
  level "editActionState" <|
  level "setTokenSymbol" <|
  level "incrementNonce" <|
  level "setVotingFor" <|
  level "setTiming" <|
  .done fun setTiming setVotingFor incrementNonce setTokenSymbol editActionState setZkappUri
      setPermissions setDelegate receive send access editState setVerificationKey =>
    { editState, access, send, receive, setDelegate, setPermissions, setVerificationKey,
      setZkappUri, editActionState, setTokenSymbol, incrementNonce, setVotingFor, setTiming }

/-- A vesting schedule. -/
def timing : Reading Timing :=
  table timingKeys <|
  required "initialMinimumBalance" (.leaf (Leaf.word 64)) <|
  required "cliffTime" (.leaf (Leaf.word 32)) <|
  required "cliffAmount" (.leaf (Leaf.word 64)) <|
  required "vestingPeriod" (.leaf (Leaf.word 32)) <|
  required "vestingIncrement" (.leaf (Leaf.word 64)) <|
  .done fun vestingIncrement vestingPeriod cliffAmount cliffTime initialMinimumBalance =>
    { initialMinimumBalance, cliffTime, cliffAmount, vestingPeriod, vestingIncrement }

/-- An update. -/
def update (shape : Shape) : Reading Update :=
  table updateKeys <|
  required "appState" (.slots shape) <|
  optional shape "delegate" (.leaf Leaf.publicKey) <|
  optionalBlock shape "verificationKey" verificationKey <|
  optionalBlock shape "permissions" permissions <|
  optional shape "zkappUri" (.leaf Leaf.uri) <|
  optional shape "tokenSymbol" (.leaf Leaf.tokenSymbol) <|
  optionalBlock shape "timing" timing <|
  optional shape "votingFor" (.leaf (Leaf.hash Base58.stateHashVersion)) <|
  .done fun votingFor timing tokenSymbol zkappUri permissions verificationKey delegate appState =>
    { appState, delegate, verificationKey, permissions, zkappUri, tokenSymbol, timing, votingFor }

/-! ### Preconditions -/

/-- The ledger of an epoch. -/
def epochLedger (shape : Shape) : Reading EpochLedger :=
  table epochLedgerKeys <|
  optional shape "hash" (.leaf (Leaf.hash Base58.ledgerHashVersion)) <|
  optionalRange shape 64 "totalCurrency" <|
  .done fun totalCurrency hash => { hash, totalCurrency }

/-- An epoch. -/
def epoch (shape : Shape) : Reading EpochData :=
  table epochKeys <|
  .seq (.field (.given ⟨shape.absent, shape.absent⟩) "ledger" (epochLedger shape)) <|
  optional shape "seed" (.leaf (Leaf.hash Base58.epochSeedVersion)) <|
  optional shape "startCheckpoint" (.leaf (Leaf.hash Base58.stateHashVersion)) <|
  optional shape "lockCheckpoint" (.leaf (Leaf.hash Base58.stateHashVersion)) <|
  optionalRange shape 32 "epochLength" <|
  .done fun epochLength lockCheckpoint startCheckpoint seed ledger =>
    { ledger, seed, startCheckpoint, lockCheckpoint, epochLength }

/-- Conditions on the network. -/
def network (shape : Shape) : Reading NetworkPreconditions :=
  table networkKeys <|
  optional shape "snarkedLedgerHash" (.leaf (Leaf.hash Base58.ledgerHashVersion)) <|
  optionalRange shape 32 "blockchainLength" <|
  optionalRange shape 32 "minWindowDensity" <|
  optionalRange shape 64 "totalCurrency" <|
  optionalRange shape 32 "globalSlotSinceGenesis" <|
  required "stakingEpochData" (epoch shape) <|
  required "nextEpochData" (epoch shape) <|
  .done fun nextEpochData stakingEpochData globalSlotSinceGenesis totalCurrency minWindowDensity
      blockchainLength snarkedLedgerHash =>
    { snarkedLedgerHash, blockchainLength, minWindowDensity, totalCurrency,
      globalSlotSinceGenesis, stakingEpochData, nextEpochData }

/-- Conditions on the account. -/
def account (shape : Shape) : Reading AccountPreconditions :=
  table accountKeys <|
  optionalRange shape 64 "balance" <|
  optionalRange shape 32 "nonce" <|
  optional shape "receiptChainHash" (.leaf (Leaf.hash Base58.receiptChainHashVersion)) <|
  optional shape "delegate" (.leaf Leaf.publicKey) <|
  required "state" (.slots shape) <|
  optional shape "actionState" (.leaf Leaf.actionState) <|
  optional shape "provedState" (.leaf Leaf.bool) <|
  optional shape "isNew" (.leaf Leaf.bool) <|
  .done fun isNew provedState actionState state delegate receiptChainHash nonce balance =>
    { balance, nonce, receiptChainHash, delegate, state, actionState, provedState, isNew }

/-- Preconditions. -/
def preconditions (shape : Shape) : Reading Preconditions :=
  table preconditionKeys <|
  required "network" (network shape) <|
  required "account" (account shape) <|
  optionalRange shape 32 "validWhile" <|
  .done fun validWhile account network => { network, account, validWhile }

/-! ### Fee payer and account updates -/

/-- The body of a fee payer. -/
def feePayerBody (shape : Shape) : Reading FeePayerBody :=
  table feePayerBodyKeys <|
  required "publicKey" (.leaf Leaf.publicKey) <|
  required "fee" (.leaf (Leaf.word 64)) <|
  optional shape "validUntil" (.leaf (Leaf.word 32)) <|
  required "nonce" (.leaf (Leaf.word 32)) <|
  .done fun nonce validUntil fee publicKey => { publicKey, fee, validUntil, nonce }

/-- A fee payer. -/
def feePayer (shape : Shape) : Reading FeePayer :=
  table signedKeys <|
  required "body" (feePayerBody shape) <|
  required "authorization" (.leaf Leaf.string) <|
  .done fun authorization body => { body, authorization }

/-- A balance change. -/
def balanceChange : Reading BalanceChange :=
  table balanceChangeKeys <|
  required "magnitude" (.leaf (Leaf.word 64)) <|
  required "sgn" (.label .sign Leaf.sign) <|
  .done fun sgn magnitude => { magnitude, sgn }

/-- Lists of field elements. -/
def fieldLists : Reading (List (List Fp)) := .list (.list (.leaf Leaf.field))

/-- What is in a token's use, its keys having been noted. -/
def mayUseToken : Reading MayUseToken :=
  required "parentsOwnToken" (.leaf Leaf.bool) <|
  required "inheritFromParent" (.leaf Leaf.bool) <|
  .done fun inheritFromParent parentsOwnToken => { parentsOwnToken, inheritFromParent }

/-- What is in an authorization's kind, its keys having been noted. -/
def authorizationKind : Reading AuthorizationKind :=
  required "isSigned" (.leaf Leaf.bool) <|
  required "isProved" (.leaf Leaf.bool) <|
  required "verificationKeyHash" (.leaf Leaf.field) <|
  .done fun verificationKeyHash isProved isSigned => { isSigned, isProved, verificationKeyHash }

/-- The body of an account update. -/
def accountUpdateBody (shape : Shape) : Reading AccountUpdateBody :=
  table accountUpdateBodyKeys <|
  required "balanceChange" balanceChange <|
  required "mayUseToken" (.note mayUseTokenKeys) <|
  required "authorizationKind" (.note authorizationKindKeys) <|
  required "publicKey" (.leaf Leaf.publicKey) <|
  required "tokenId" (.leaf Leaf.tokenId) <|
  required "update" (update shape) <|
  required "incrementNonce" (.leaf Leaf.bool) <|
  required "events" fieldLists <|
  required "actions" fieldLists <|
  required "callData" (.leaf Leaf.field) <|
  required "callDepth" (.leaf (Leaf.word 32)) <|
  required "preconditions" (preconditions shape) <|
  required "useFullCommitment" (.leaf Leaf.bool) <|
  required "implicitAccountCreationFee" (.leaf Leaf.bool) <|
  required "mayUseToken" mayUseToken <|
  required "authorizationKind" authorizationKind <|
  .done fun authorizationKind mayUseToken implicitAccountCreationFee useFullCommitment
      preconditions callDepth callData actions events incrementNonce update tokenId publicKey
      _ _ balanceChange =>
    { publicKey, tokenId, update, balanceChange, incrementNonce, events, actions, callData,
      callDepth, preconditions, useFullCommitment, implicitAccountCreationFee, mayUseToken,
      authorizationKind }

/-- An account update. -/
def accountUpdate (shape : Shape) : Reading AccountUpdate :=
  table signedKeys <|
  required "body" (accountUpdateBody shape) <|
  .done fun body => { body, authorization := .absent }

/-! ### Documents -/

/-- The expected hashes of a document. -/
def expectedHashes : Reading ExpectedHashes :=
  leafOr "expectedMemoHash" Fp.zero Leaf.field <|
  leafOr "expectedFeePayerHash" Fp.zero Leaf.field <|
  leafOr "expectedAccountUpdatesCommitment" Fp.zero Leaf.field <|
  leafOr "expectedFullCommitment" Fp.zero Leaf.field <|
  .done fun fullCommitment accountUpdatesCommitment feePayerHash memoHash =>
    { memoHash, feePayerHash, accountUpdatesCommitment, fullCommitment }

/-- The expected hashes that a variant reads. -/
def expected : Variant → Reading ExpectedHashes
  | .proper => expectedHashes
  | .simple => .done .zero

/-- A document. -/
def document (config : Config) : Reading Record :=
  table documentKeys <|
  required "feePayer" (feePayer config.shape) <|
  required "accountUpdates" (.list (accountUpdate config.shape)) <|
  required "memo" (.leaf Leaf.string) <|
  .seq (expected config.variant) <|
  .done fun expected memo accountUpdates feePayer =>
    { name := config.name
      command := { feePayer, accountUpdates, memo, network := config.network }
      expected }

/-! ### The walks of the schema are walks of these readings -/

section Walks

variable (shape : Shape) (n : Node)

theorem walk_range (width : Nat) :
    (range width).walk n = (do
      n.noteUnknown Node.rangeKeys
      let lower ← n.requiredLeaf "lower" (Leaf.word width)
      let upper ← n.requiredLeaf "upper" (Leaf.word width)
      pure ⟨lower, upper⟩) := by
  simp only [range, walk, Node.requiredLeaf, Node.within_eq_access, bind_assoc, pure_bind]

theorem optionalRange_eq_access (width : Nat) (key : String) :
    Node.optionalRange shape width n key
      = n.access (.given shape.absent) key fun c => shape.present <$> (range width).walk c := by
  simp only [Node.optionalRange, Node.optional_eq_access, walk_range]

theorem walk_verificationKey : verificationKey.walk n = Schema.verificationKey n := by
  simp only [verificationKey, walk, Schema.verificationKey, Node.leafOr_eq_access, bind_assoc,
    pure_bind]

theorem walk_setVerificationKey : setVerificationKey.walk n = Schema.setVerificationKey n := by
  simp only [setVerificationKey, walk, Schema.setVerificationKey, Node.leafOr_eq_access,
    Node.auth_eq_access, bind_assoc, pure_bind]

theorem walk_permissions : permissions.walk n = Schema.permissions n := by
  simp only [permissions, walk, Schema.permissions, Node.auth_eq_access, bind_assoc, pure_bind,
    funext walk_setVerificationKey]
  refine bind_congr fun _ => ?_
  exact Node.given_bind ..

theorem walk_timing : timing.walk n = Schema.timing n := by
  simp only [timing, walk, Schema.timing, Node.requiredLeaf, Node.within_eq_access, bind_assoc,
    pure_bind]

theorem walk_update : (update shape).walk n = Schema.update shape n := by
  simp only [update, walk, Schema.update, Node.optionalLeaf, Node.optional_eq_access,
    Node.optionalBlock_eq_access, Node.within_eq_access, funext walk_verificationKey,
    funext walk_permissions, funext walk_timing, map_eq_pure_bind, bind_assoc, pure_bind]

theorem walk_epochLedger : (epochLedger shape).walk n = Schema.epochLedger shape n := by
  simp only [epochLedger, walk, Schema.epochLedger, Node.optionalLeaf, Node.optional_eq_access,
    optionalRange_eq_access, map_eq_pure_bind, bind_assoc, pure_bind]

theorem walk_epoch : (epoch shape).walk n = Schema.epoch shape n := by
  simp only [epoch, walk, Schema.epoch, Node.optionalLeaf, Node.optional_eq_access,
    optionalRange_eq_access, map_eq_pure_bind, bind_assoc, pure_bind,
    funext (walk_epochLedger shape)]
  refine bind_congr fun _ => ?_
  exact Node.given_bind ..

theorem walk_network : (network shape).walk n = Schema.network shape n := by
  simp only [network, walk, Schema.network, Node.optionalLeaf, Node.optional_eq_access,
    Node.within_eq_access, optionalRange_eq_access, funext (walk_epoch shape), map_eq_pure_bind,
    bind_assoc, pure_bind]

theorem walk_account : (account shape).walk n = Schema.account shape n := by
  simp only [account, walk, Schema.account, Node.optionalLeaf, Node.optional_eq_access,
    Node.within_eq_access, optionalRange_eq_access, map_eq_pure_bind, bind_assoc, pure_bind]

theorem walk_preconditions : (preconditions shape).walk n = Schema.preconditions shape n := by
  simp only [preconditions, walk, Schema.preconditions, Node.within_eq_access,
    optionalRange_eq_access, funext (walk_network shape), funext (walk_account shape),
    map_eq_pure_bind, bind_assoc, pure_bind]

theorem walk_feePayerBody : (feePayerBody shape).walk n = Schema.feePayerBody shape n := by
  simp only [feePayerBody, walk, Schema.feePayerBody, Node.requiredLeaf, Node.optionalLeaf,
    Node.within_eq_access, Node.optional_eq_access, map_eq_pure_bind, bind_assoc, pure_bind]

theorem walk_feePayer : (feePayer shape).walk n = Schema.feePayer shape n := by
  simp only [feePayer, walk, Schema.feePayer, Node.requiredLeaf, Node.within_eq_access,
    funext (walk_feePayerBody shape), bind_assoc, pure_bind]

theorem walk_balanceChange : balanceChange.walk n = Schema.balanceChange n := by
  simp only [balanceChange, walk, Schema.balanceChange, Node.requiredLeaf, Node.within_eq_access,
    bind_assoc, pure_bind]
  rfl

theorem walk_fieldLists : fieldLists.walk n = Schema.fieldLists n := rfl

/-- The two blocks that are noted before the other keys are read are found again afterwards. -/
theorem walk_accountUpdateBody :
    (accountUpdateBody shape).walk n = Schema.accountUpdateBody shape n := by
  simp only [accountUpdateBody, walk, Schema.accountUpdateBody, Node.requiredLeaf,
    Node.within_eq_access, funext (walk_update shape), funext (walk_preconditions shape),
    funext walk_fieldLists, funext walk_balanceChange, bind_assoc, pure_bind]
  refine bind_congr fun _ => bind_congr fun _ => ?_
  obtain ⟨tokenUse, hu, hu'⟩ | ⟨cause, hu, hu'⟩ := Node.required_cases n "mayUseToken"
  · obtain ⟨kind, hk, hk'⟩ | ⟨cause, hk, hk'⟩ := Node.required_cases n "authorizationKind"
    · simp only [hu, hk, hu', hk', mayUseToken, authorizationKind, walk, bind_assoc, pure_bind]
    · simp only [hu, hk, hu', hk', pure_bind, Node.fail_bind]
  · simp only [hu, hu', Node.fail_bind]

theorem walk_accountUpdate : (accountUpdate shape).walk n = Schema.accountUpdate shape n := by
  simp only [accountUpdate, walk, Schema.accountUpdate, Node.within_eq_access,
    funext (walk_accountUpdateBody shape), bind_assoc, pure_bind]

theorem walk_expectedHashes : expectedHashes.walk n = Schema.expectedHashes n := by
  simp only [expectedHashes, walk, Schema.expectedHashes, Schema.expectedHash,
    Node.leafOr_eq_access, bind_assoc, pure_bind]

theorem walk_expected (variant : Variant) :
    (expected variant).walk n = match variant with
      | .proper => Schema.expectedHashes n
      | .simple => pure .zero := by
  cases variant with
  | proper => exact walk_expectedHashes n
  | simple => rfl

/-- The walk through a document reads it and tells the number of its updates. -/
theorem walk_document (config : Config) (t : Tree) :
    Transcode.walk config t = (do
      let record ← (document config).walk (.root t)
      Walk.emit (.transcoded config.name config.variant record.command.accountUpdates.length)
      pure record) := by
  simp only [Transcode.walk, Schema.record, document, walk, Node.requiredLeaf,
    Node.within_eq_access, funext (walk_feePayer config.shape),
    funext (walk_accountUpdate config.shape), walk_expected, bind_assoc, pure_bind]
  refine bind_congr fun _ => bind_congr fun _ => bind_congr fun _ => bind_congr fun _ => ?_
  cases config.variant <;> rfl

end Walks

end ZkCommand.Reading
