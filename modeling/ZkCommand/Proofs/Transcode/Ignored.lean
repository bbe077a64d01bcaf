import ZkCommand.Proofs.Reading.Ignored
import ZkCommand.Proofs.Transcode.Exact
import ZkCommand.Proofs.Transcode.UnknownKeys

/-!
# ZkCommand.Proofs.Transcode.Ignored

**Keys that are ignored** in a document are those outside the table of their node
(`documentTables`), which is the schema's own (`nodes_document`). Transcoding tells of each of them
once, in the order of the document, and of nothing else as unknown; and since none of them is read,
a document with another value under one of them has the same record, diagnostics and events
(`ofTree_ignored_keys`). Almost every key that is in a table is read; the others are listed
(`stepsAt_document_eq_nil_iff`), and no event tells of them.
-/

namespace ZkCommand

/-! ### The tables of a document -/

/-- The tables of the nodes in the body of an account update, by the keys that lead there. -/
def bodyTables : List (List String × List String) :=
  [([], Schema.accountUpdateBodyKeys),
   (["balanceChange"], Schema.balanceChangeKeys),
   (["mayUseToken"], Schema.mayUseTokenKeys),
   (["authorizationKind"], Schema.authorizationKindKeys),
   (["update"], Schema.updateKeys),
   (["update", "verificationKey"], Schema.verificationKeyKeys),
   (["update", "permissions"], Schema.permissionKeys),
   (["update", "permissions", "setVerificationKey"], Schema.setVerificationKeyKeys),
   (["update", "timing"], Schema.timingKeys),
   (["preconditions"], Schema.preconditionKeys),
   (["preconditions", "network"], Schema.networkKeys),
   (["preconditions", "network", "blockchainLength"], Node.rangeKeys),
   (["preconditions", "network", "minWindowDensity"], Node.rangeKeys),
   (["preconditions", "network", "totalCurrency"], Node.rangeKeys),
   (["preconditions", "network", "globalSlotSinceGenesis"], Node.rangeKeys),
   (["preconditions", "network", "stakingEpochData"], Schema.epochKeys),
   (["preconditions", "network", "stakingEpochData", "ledger"], Schema.epochLedgerKeys),
   (["preconditions", "network", "stakingEpochData", "ledger", "totalCurrency"], Node.rangeKeys),
   (["preconditions", "network", "stakingEpochData", "epochLength"], Node.rangeKeys),
   (["preconditions", "network", "nextEpochData"], Schema.epochKeys),
   (["preconditions", "network", "nextEpochData", "ledger"], Schema.epochLedgerKeys),
   (["preconditions", "network", "nextEpochData", "ledger", "totalCurrency"], Node.rangeKeys),
   (["preconditions", "network", "nextEpochData", "epochLength"], Node.rangeKeys),
   (["preconditions", "account"], Schema.accountKeys),
   (["preconditions", "account", "balance"], Node.rangeKeys),
   (["preconditions", "account", "nonce"], Node.rangeKeys),
   (["preconditions", "validWhile"], Node.rangeKeys)]

/-- The tables of the nodes of a document, by their places. -/
def documentTables : List (List Part × List String) :=
  [([], Schema.documentKeys),
   ([.key "feePayer"], Schema.signedKeys),
   ([.key "feePayer", .key "body"], Schema.feePayerBodyKeys),
   ([.key "accountUpdates", .element], Schema.signedKeys)] ++
  bodyTables.map fun row =>
    (.key "accountUpdates" :: .element :: .key "body" :: row.1.map Part.key, row.2)

/-- The table of the node at a place in a document. -/
def keyTable (p : List Segment) : Option (List String) :=
  documentTables.lookup (p.map Segment.part)

/-- The keys of the node at a place in a document that are not in its table, in order. -/
def Tree.ignoredKeys (t : Tree) (p : List Segment) : List String :=
  (keyTable p).elim [] fun known => t.keysOutside known p

/-- The unknown keys of a document are noted by these tables and by no others. -/
theorem Reading.nodes_document (config : Config) : (document config).nodes = documentTables := by
  have expected : (expected config.variant).nodes = [] := by
    cases config.variant <;> simp [Reading.expected, expectedHashes, nodes]
  simp [document, feePayer, feePayerBody, accountUpdate, accountUpdateBody, balanceChange, update,
    verificationKey, permissions, setVerificationKey, timing, fieldLists, preconditions, network,
    epoch, epochLedger, account, range, mayUseToken, authorizationKind, expected, nodes,
    documentTables, bodyTables]

theorem filter_eq_lookup {α β : Type} [DecidableEq α] [BEq α] [LawfulBEq α]
    {rows : List (α × β)}
    (distinct : (rows.map Prod.fst).Nodup) (a : α) :
    (rows.filter fun row => row.1 = a).map Prod.snd = (rows.lookup a).toList := by
  induction rows with
  | nil => rfl
  | cons row rows ih =>
      obtain ⟨b, value⟩ := row
      obtain ⟨fresh, distinct⟩ := List.nodup_cons.mp distinct
      by_cases same : b = a
      · obtain rfl := same
        have none : (rows.filter fun row => row.1 = b) = [] := by
          refine List.filter_eq_nil_iff.mpr fun row member other => fresh ?_
          exact List.mem_map.mpr ⟨row, member, of_decide_eq_true other⟩
        rw [List.filter_cons_of_pos (by simp), none, List.lookup_cons_self]
        rfl
      · have other : (a == b) = false := by simpa using Ne.symm same
        rw [List.filter_cons_of_neg (by simpa using same), ih distinct, List.lookup_cons, other]

theorem Reading.tablesAt_document (config : Config) (p : List Segment) :
    (document config).tablesAt p = (keyTable p).toList := by
  have distinct : (documentTables.map Prod.fst).Nodup := by decide
  rw [tablesAt, nodes_document, filter_eq_lookup distinct]
  rfl

theorem Reading.tableAt_document (config : Config) (p : List Segment) :
    (document config).tableAt p = keyTable p := by
  rw [tableAt_eq_head?, tablesAt_document]
  cases keyTable p <;> rfl

/-! ### Keys that are known and not read -/

/-- The keys of the tables that are not read: the authorization of an account update and, in the
simple variant, the expected hashes. -/
def unreadKeys : Variant → List (List Part × String)
  | .proper => [([.key "accountUpdates", .element], "authorization")]
  | .simple =>
      [([.key "accountUpdates", .element], "authorization"), ([], "expectedMemoHash"),
       ([], "expectedFeePayerHash"), ([], "expectedAccountUpdatesCommitment"),
       ([], "expectedFullCommitment")]

theorem mem_documentTables {p : List Segment} {known : List String}
    (table : keyTable p = some known) : (p.map Segment.part, known) ∈ documentTables := by
  obtain ⟨before, after, rows, -⟩ := List.lookup_eq_some_iff.mp table
  rw [rows]
  exact List.mem_append_right _ List.mem_cons_self

theorem Reading.not_mem_reads_document_iff (config : Config) {row : List Part × List String}
    (mem : row ∈ documentTables) {key : String} (known : key ∈ row.2) :
    (row.1, key) ∉ (document config).reads ↔ (row.1, key) ∈ unreadKeys config.variant := by
  -- Neither the shape nor the name has a part in what is read.
  have reads : (document config).reads = (document ⟨.tagged, config.variant, ""⟩).reads := rfl
  have all : ∀ row ∈ documentTables, ∀ key ∈ row.2,
      (row.1, key) ∉ (document ⟨.tagged, config.variant, ""⟩).reads ↔
        (row.1, key) ∈ unreadKeys config.variant := by
    cases config.variant <;> decide +kernel
  rw [reads]
  exact all row mem key known

/-- **Which keys are not read.** In a mapping that has a table there is no step to a key if and only
if the key is not in the table, or is one of those that are known and not read. -/
theorem Reading.stepsAt_document_eq_nil_iff (config : Config) {p : List Segment}
    {known : List String} (table : keyTable p = some known) (key : String) :
    (document config).stepsAt key p = some [] ↔
      key ∉ known ∨ (p.map Segment.part, key) ∈ unreadKeys config.variant := by
  have here : (document config).tableAt p = some known := (tableAt_document config p).trans table
  by_cases mem : key ∈ known
  · rw [stepsAt_eq_nil_iff (heeds_document config) here, or_iff_right (not_not.mpr mem)]
    exact not_mem_reads_document_iff config (mem_documentTables table) mem
  · exact iff_of_true (stepsAt_of_heeds (heeds_document config) here mem) (.inl mem)

/-! ### What is told of them -/

theorem Event.count_unknownKey (events : List Event) (p : List Segment) (key : String) :
    events.count (.unknownKey ⟨p⟩ key) = (events.filterMap (ignored? p)).count key := by
  rw [List.count_filterMap, List.count]
  refine List.countP_congr fun event _ => ?_
  cases event with
  | unknownKey path name =>
      obtain ⟨segments⟩ := path
      by_cases same : segments = p <;> simp [ignored?, same]
  | _ => simp [ignored?]

namespace Transcode

open Reading

variable {config : Config} {t : Tree}

/-- What a walk tells of the node at a place is which of its keys are not in its table. -/
theorem ignored_events_walk {record : Record} (h : (walk config t).outcome = .ok record)
    (p : List Segment) : (walk config t).events.filterMap (Event.ignored? p) = t.ignoredKeys p := by
  have read : ((document config).eventsOf .root t).filterMap (Event.ignored? p)
      = ((document config).tablesAt p).flatMap fun known => t.keysOutside known p :=
    ignored_eventsOf (document config) .root t p
  rw [events_walk_of_ok h, List.filterMap_append, read, tablesAt_document, Tree.ignoredKeys]
  cases keyTable p with
  | none => rfl
  | some known =>
      show ([known].flatMap fun known => t.keysOutside known p) ++ [] = t.keysOutside known p
      rw [List.append_nil, List.flatMap_singleton]

/-- The value under an ignored key is not read. -/
theorem exists_of_mem_ignoredKeys (config : Config) {p : List Segment} {key : String}
    (h : key ∈ t.ignoredKeys p) :
    (document config).stepsAt key p = some [] ∧
      ∃ es old, t.at? p = some (.map es) ∧ Tree.find? key es = some old := by
  rw [Tree.ignoredKeys] at h
  cases table : keyTable p with
  | none =>
      rw [table] at h
      cases h
  | some known =>
      rw [table] at h
      obtain ⟨es, old, place, found, unknown⟩ := Tree.mem_keysOutside.mp h
      exact ⟨(stepsAt_document_eq_nil_iff config table key).mpr (.inl unknown), es, old, place,
        found⟩

theorem walk_setAt_of_stepsAt {p : List Segment} {key : String} {entries : List (String × Tree)}
    {old : Tree} (unread : (document config).stepsAt key p = some [])
    (place : t.at? p = some (.map entries)) (found : Tree.find? key entries = some old)
    (value : Tree) : walk config (t.setAt (p ++ [.key key]) value) = walk config t := by
  rw [walk_document, walk_document, Node.root, Node.root, walk_setAt unread place found]

/-- The walk through a document does not depend on the value under a key that it ignores. -/
theorem walk_setAt_of_ignored {p : List Segment} {key : String} (h : key ∈ t.ignoredKeys p)
    (value : Tree) : walk config (t.setAt (p ++ [.key key]) value) = walk config t := by
  obtain ⟨unread, es, old, place, found⟩ := exists_of_mem_ignoredKeys config h
  exact walk_setAt_of_stepsAt unread place found value

/-- Nor does it depend on the value under a key that is known and not read. -/
theorem walk_setAt_of_unread {p : List Segment} {known : List String} {key : String}
    {entries : List (String × Tree)} {old : Tree} (table : keyTable p = some known)
    (unread : (p.map Segment.part, key) ∈ unreadKeys config.variant)
    (place : t.at? p = some (.map entries)) (found : Tree.find? key entries = some old)
    (value : Tree) : walk config (t.setAt (p ++ [.key key]) value) = walk config t :=
  walk_setAt_of_stepsAt ((stepsAt_document_eq_nil_iff config table key).mpr (.inr unread)) place
    found value

/-- **Ignored keys are told of once, and are ignored.** The events of a document that tell of
unknown keys are one for each key of each of its nodes that is not in the table of the node, with
the path of the node and in the order of its keys. The value under such a key may be replaced by any
other: the record, the diagnostics and the events stay the same. -/
theorem ofTree_ignored_keys {out : Outcome} (h : ofTree config t = .ok out) :
    (∀ p, (walk config t).events.filterMap (Event.ignored? p) = t.ignoredKeys p) ∧
    (∀ p, (∀ entries, t.at? p = some (.map entries) → (entries.map Prod.fst).Nodup) →
      ∀ key, (walk config t).events.count (.unknownKey ⟨p⟩ key)
        = if key ∈ t.ignoredKeys p then 1 else 0) ∧
    ∀ p key, key ∈ t.ignoredKeys p → ∀ value,
      ofTree config (t.setAt (p ++ [.key key]) value) = .ok out ∧
        (walk config (t.setAt (p ++ [.key key]) value)).events = (walk config t).events := by
  have ended := outcome_walk_iff.mpr (ofTree_eq_ok_iff.mp h).1
  refine ⟨ignored_events_walk ended, fun p distinct key => ?_, fun p key ignored value => ?_⟩
  · have once : (t.ignoredKeys p).Nodup := by
      rw [Tree.ignoredKeys]
      cases keyTable p with
      | none => exact List.nodup_nil
      | some known => exact Tree.nodup_keysOutside distinct
    rw [Event.count_unknownKey, ignored_events_walk ended, once.count]
  · have same : walk config (t.setAt (p ++ [.key key]) value) = walk config t :=
      walk_setAt_of_ignored ignored value
    rw [ofTree, same]
    exact ⟨h, rfl⟩

/-- A note next to the data of a verification key is told of once, and may say anything. -/
theorem ofTree_ignored_note :
    ∃ out, ofTree ⟨.tagged, .simple, ""⟩
        (withVerificationKey (.map [("data", .str "AAAA"), ("note", .num "1")])) = .ok out ∧
      (walk ⟨.tagged, .simple, ""⟩
          (withVerificationKey (.map [("data", .str "AAAA"), ("note", .num "1")]))).events.count
        (.unknownKey ⟨verificationKeyPlace⟩ "note") = 1 ∧
      ofTree ⟨.tagged, .simple, ""⟩
        ((withVerificationKey (.map [("data", .str "AAAA"), ("note", .num "1")])).setAt
          (verificationKeyPlace ++ [.key "note"]) (.list [.null])) = .ok out := by
  obtain ⟨out, h⟩ := exists_outcome ⟨.tagged, .simple, ""⟩
    (withVerificationKey (.map [("data", .str "AAAA"), ("note", .num "1")])) (by decide +kernel)
  obtain ⟨-, once, kept⟩ := ofTree_ignored_keys h
  have ignored : "note" ∈ (withVerificationKey
      (.map [("data", .str "AAAA"), ("note", .num "1")])).ignoredKeys verificationKeyPlace := by
    decide +kernel
  refine ⟨out, h, ?_, (kept _ _ ignored _).1⟩
  rw [once verificationKeyPlace _ "note", if_pos ignored]
  rintro entries ⟨⟩
  decide

end Transcode

end ZkCommand
