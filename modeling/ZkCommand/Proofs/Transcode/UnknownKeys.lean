import ZkCommand.Proofs.Reading.Tables
import ZkCommand.Proofs.Reading.UnknownKeys

/-!
# ZkCommand.Proofs.Transcode.UnknownKeys

**Unknown keys.** A key that is not in the table of its node has no influence on the record, the
diagnostics or the failure of a document, whether it is added, changed or removed. There is one
exception, which is what an empty block is for: an update whose verification key, permissions or
timing is the empty mapping leaves them alone, and any key at all makes that mapping a block that is
given.
-/

namespace ZkCommand

namespace Reading

/-! ### Every key that is read is in its table -/

section Tables

variable (shape : Shape)

theorem heeds_range (width : Nat) : (range width).Heeds (range width).tableAt := by
  simp [range, Node.rangeKeys]

theorem heeds_verificationKey : verificationKey.Heeds verificationKey.tableAt := by
  simp [verificationKey, Schema.verificationKeyKeys]

theorem heeds_setVerificationKey : setVerificationKey.Heeds setVerificationKey.tableAt := by
  simp [setVerificationKey, Schema.setVerificationKeyKeys]

theorem heeds_permissions : permissions.Heeds permissions.tableAt := by
  simp [permissions, Schema.permissionKeys, heeds_setVerificationKey]

theorem heeds_timing : timing.Heeds timing.tableAt := by
  simp [timing, Schema.timingKeys]

theorem heeds_update : (update shape).Heeds (update shape).tableAt := by
  simp [update, Schema.updateKeys, heeds_verificationKey, heeds_permissions,
    heeds_timing]

theorem heeds_epochLedger : (epochLedger shape).Heeds (epochLedger shape).tableAt := by
  simp [epochLedger, Schema.epochLedgerKeys, heeds_range]

theorem heeds_epoch : (epoch shape).Heeds (epoch shape).tableAt := by
  simp [epoch, Schema.epochKeys, heeds_epochLedger, heeds_range]

theorem heeds_network : (network shape).Heeds (network shape).tableAt := by
  simp [network, Schema.networkKeys, heeds_epoch, heeds_range]

theorem heeds_account : (account shape).Heeds (account shape).tableAt := by
  simp [account, Schema.accountKeys, heeds_range]

theorem heeds_preconditions : (preconditions shape).Heeds (preconditions shape).tableAt := by
  simp [preconditions, Schema.preconditionKeys, heeds_network, heeds_account,
    heeds_range]

theorem heeds_feePayerBody : (feePayerBody shape).Heeds (feePayerBody shape).tableAt := by
  simp [feePayerBody, Schema.feePayerBodyKeys]

theorem heeds_feePayer : (feePayer shape).Heeds (feePayer shape).tableAt := by
  simp [feePayer, Schema.signedKeys, heeds_feePayerBody]

theorem heeds_balanceChange : balanceChange.Heeds balanceChange.tableAt := by
  simp [balanceChange, Schema.balanceChangeKeys]

theorem heeds_accountUpdateBody :
    (accountUpdateBody shape).Heeds (accountUpdateBody shape).tableAt := by
  simp [accountUpdateBody, mayUseToken, authorizationKind, fieldLists,
    Schema.accountUpdateBodyKeys, Schema.mayUseTokenKeys, Schema.authorizationKindKeys,
    heeds_balanceChange, heeds_update, heeds_preconditions]

theorem heeds_accountUpdate : (accountUpdate shape).Heeds (accountUpdate shape).tableAt := by
  simp [accountUpdate, Schema.signedKeys, heeds_accountUpdateBody]

theorem heeds_document (config : Config) :
    (document config).Heeds (document config).tableAt := by
  cases hv : config.variant <;>
    simp [document, hv, expected, expectedHashes, Schema.documentKeys,
      heeds_feePayer, heeds_accountUpdate]

end Tables

/-! ### The blocks of a document -/

/-- The blocks of an update. -/
def blockKeys : List String := ["verificationKey", "permissions", "timing"]

/-- A place in a document is one of the blocks of an update. -/
def isBlockPlace : List Segment → Bool
  | [.key "accountUpdates", .index _, .key "body", .key "update", .key name] =>
      blockKeys.contains name
  | _ => false

section Blocks

variable {shape : Shape} {p : List Segment}

/-- Blocks hold no blocks. -/
theorem unblocked_blocks :
    verificationKey.Unblocked ∧ permissions.Unblocked ∧ timing.Unblocked := by
  simp [verificationKey, permissions, setVerificationKey, timing, Access.isBlock]

theorem unblocked_preconditions (shape : Shape) : (preconditions shape).Unblocked := by
  simp [preconditions, network, epoch, epochLedger, account, range, Access.isBlock]

theorem unblocked_feePayer (shape : Shape) : (feePayer shape).Unblocked := by
  simp [feePayer, feePayerBody, Access.isBlock]

theorem unblocked_expected (variant : Variant) : (expected variant).Unblocked := by
  cases variant <;> simp [expected, expectedHashes, Access.isBlock]

/-- The other parts of the body of an account update hold no blocks. -/
theorem unblocked_body : balanceChange.Unblocked ∧ fieldLists.Unblocked ∧
    mayUseToken.Unblocked ∧ authorizationKind.Unblocked := by
  simp [balanceChange, fieldLists, mayUseToken, authorizationKind, Access.isBlock]

theorem blockAt_update (h : (update shape).blockAt p = true) :
    ∃ name ∈ blockKeys, p = [.key name] := by
  obtain ⟨hkey, hpermissions, htiming⟩ := unblocked_blocks
  rcases p with _ | ⟨name | i, p⟩
  · simp [update] at h
  · simp only [update, blockAt, Access.isBlock, blockAt_of_unblocked hkey,
      blockAt_of_unblocked hpermissions, blockAt_of_unblocked htiming] at h
    simp at h
    refine ⟨name, ?_, ?_⟩
    · rcases h with ⟨rfl, -⟩ | ⟨rfl, -⟩ | ⟨rfl, -⟩ <;> decide
    · rcases h with ⟨-, rfl⟩ | ⟨-, rfl⟩ | ⟨-, rfl⟩ <;> rfl
  · simp [update] at h

theorem blockAt_accountUpdateBody (h : (accountUpdateBody shape).blockAt p = true) :
    ∃ q, (update shape).blockAt q = true ∧ p = .key "update" :: q := by
  obtain ⟨hchange, hlists, htoken, hkind⟩ := unblocked_body
  rcases p with _ | ⟨name | i, p⟩
  · simp [accountUpdateBody] at h
  · simp only [accountUpdateBody, blockAt, Access.isBlock, blockAt_of_unblocked hchange,
      blockAt_of_unblocked hlists, blockAt_of_unblocked htoken, blockAt_of_unblocked hkind,
      blockAt_of_unblocked (unblocked_preconditions shape)] at h
    simp at h
    exact ⟨p, h.2, by rw [h.1]⟩
  · simp [accountUpdateBody] at h

theorem blockAt_accountUpdate (h : (accountUpdate shape).blockAt p = true) :
    ∃ q, (accountUpdateBody shape).blockAt q = true ∧ p = .key "body" :: q := by
  rcases p with _ | ⟨name | i, p⟩
  · simp [accountUpdate] at h
  · simp [accountUpdate, Access.isBlock] at h
    exact ⟨p, h.2, by rw [h.1]⟩
  · simp [accountUpdate] at h

/-- The only blocks of a document are those of its updates. -/
theorem isBlockPlace_of_blockAt {config : Config} (h : (document config).blockAt p = true) :
    isBlockPlace p = true := by
  -- Down the only path that is left at each level: the list, an update in it, its body.
  obtain ⟨i, q, hq, rfl⟩ : ∃ i q, (accountUpdate config.shape).blockAt q = true ∧
      p = .key "accountUpdates" :: .index i :: q := by
    rcases p with _ | ⟨name | i, p⟩
    · simp [document, blockAt_of_unblocked (unblocked_expected _)] at h
    · simp only [document, blockAt, Access.isBlock,
        blockAt_of_unblocked (unblocked_feePayer config.shape),
        blockAt_of_unblocked (unblocked_expected config.variant)] at h
      simp at h
      obtain ⟨rfl, h⟩ := h
      rcases p with _ | ⟨name | i, p⟩
      · cases h
      · cases h
      · exact ⟨i, p, h, rfl⟩
    · simp [document, blockAt_of_unblocked (unblocked_expected _)] at h
  obtain ⟨body, hbody, rfl⟩ := blockAt_accountUpdate hq
  obtain ⟨update, hupdate, rfl⟩ := blockAt_accountUpdateBody hbody
  obtain ⟨name, hname, rfl⟩ := blockAt_update hupdate
  exact List.contains_iff_mem.mpr hname

end Blocks

end Reading

/-! ### Unknown keys have no influence -/

namespace Transcode

open Reading

/-- What transcoding hands back does not depend on what a walk tells of unknown keys. -/
theorem ofTree_eq_of_quiet {config : Config} {t t' : Tree}
    (agree : (walk config t).quiet = (walk config t').quiet) :
    ofTree config t = ofTree config t' := by
  have outcome : (walk config t).outcome = (walk config t').outcome :=
    congrArg (fun w => w.outcome) agree
  have diagnostics : (walk config t).diagnostics = (walk config t').diagnostics := by
    rw [← Walk.diagnostics_quiet, agree, Walk.diagnostics_quiet]
  rw [ofTree, ofTree, outcome, diagnostics]

/-- **Unknown keys have no influence.** Of two documents that differ in the entries of a key that is
not in the table of its node, either both are transcoded to the same record with the same
diagnostics, or both fail in the same way, and nothing else but unknown keys is told differently.
If the node is a block, it has to be empty in both or in neither. -/
theorem ofTree_of_unknown_key {config : Config} {t t' : Tree} {p : List Segment} {key : String}
    {known : List String} (table : (document config).tableAt p = some known)
    (unknown : key ∉ known) (edit : Tree.EditedAt key p t t')
    (blocks : isBlockPlace p = true → (t.at? p = some (.map []) ↔ t'.at? p = some (.map []))) :
    ofTree config t = ofTree config t' ∧ (walk config t).quiet = (walk config t').quiet := by
  have agree : (walk config t).quiet = (walk config t').quiet := by
    rw [walk_document, walk_document]
    refine Walk.quiet_bind_congr ?_ fun record => rfl
    exact quiet_walk_of_edit _ Path.root (heeds_document config) table unknown edit
      fun h => blocks (isBlockPlace_of_blockAt h)
  exact ⟨ofTree_eq_of_quiet agree, agree⟩

/-- A document with one account update, which gives a verification key. -/
def withVerificationKey (verificationKey : Tree) : Tree :=
  .map [
    ("feePayer", .map [
      ("body", .map [("publicKey", .str "payer"), ("fee", .num "1"), ("nonce", .num "0")]),
      ("authorization", .str "")]),
    ("accountUpdates", .list [.map [("body", .map [
      ("balanceChange", .map [("magnitude", .num "0"), ("sgn", .str "Positive")]),
      ("mayUseToken", .map [("parentsOwnToken", .bool false), ("inheritFromParent", .bool false)]),
      ("authorizationKind", .map [("isSigned", .bool false), ("isProved", .bool false),
        ("verificationKeyHash", .num "0")]),
      ("publicKey", .str "account"),
      ("tokenId", .num "1"),
      ("update", .map [("appState", .list []), ("verificationKey", verificationKey)]),
      ("incrementNonce", .bool false),
      ("events", .list []),
      ("actions", .list []),
      ("callData", .num "0"),
      ("callDepth", .num "0"),
      ("preconditions", .map [
        ("network", .map [("stakingEpochData", .map []), ("nextEpochData", .map [])]),
        ("account", .map [("state", .list [])])]),
      ("useFullCommitment", .bool false),
      ("implicitAccountCreationFee", .bool false)])]]),
    ("memo", .str "")]

/-- The place of the verification key in such a document. -/
def verificationKeyPlace : List Segment :=
  [.key "accountUpdates", .index 0, .key "body", .key "update", .key "verificationKey"]

/-- Removing a key that is not known from a verification key that gives its data. -/
theorem ofTree_verificationKey_without_note :
    ofTree ⟨.tagged, .simple, ""⟩
        (withVerificationKey (.map [("data", .str "AAAA"), ("note", .num "1")]))
      = ofTree ⟨.tagged, .simple, ""⟩ (withVerificationKey (.map [("data", .str "AAAA")])) := by
  have table : (document ⟨.tagged, .simple, ""⟩).tableAt verificationKeyPlace
      = some Schema.verificationKeyKeys := rfl
  have edit : Tree.EditedAt "note" verificationKeyPlace
      (withVerificationKey (.map [("data", .str "AAAA"), ("note", .num "1")]))
      (withVerificationKey (.map [("data", .str "AAAA")])) :=
    .under rfl (.inside rfl (.under rfl (.under rfl (.under rfl (.here rfl)))))
  refine (ofTree_of_unknown_key table (by decide) edit fun _ => ?_).1
  simp [verificationKeyPlace, withVerificationKey, Tree.at?, Tree.get?, Tree.find?]

/-- Removing the only key of a verification key makes the update leave the key alone, even if that
key is not known. -/
theorem unknown_key_fills_block :
    ¬ ∀ (config : Config) (t t' : Tree) (p : List Segment) (key : String) (known : List String),
      (document config).tableAt p = some known → key ∉ known → Tree.EditedAt key p t t' →
        ofTree config t = ofTree config t' := by
  intro h
  have same := h ⟨.tagged, .simple, ""⟩ (withVerificationKey (.map [("note", .num "1")]))
    (withVerificationKey (.map [])) verificationKeyPlace "note" _ rfl (by decide)
    (.under rfl (.inside rfl (.under rfl (.under rfl (.under rfl (.here rfl))))))
  revert same
  decide +kernel

end Transcode

end ZkCommand
