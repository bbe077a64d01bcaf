import ZkCommand.Proofs.Edit
import ZkCommand.Proofs.Transcode.Diagnostics
import ZkCommand.Proofs.Transcode.UnknownKeys

/-!
# ZkCommand.Proofs.Transcode.Absent

**Values that are absent.** What a document may leave out, it may also set to null, and a block to
the empty mapping: the record, the diagnostics and the failure are the same. A missing level and one
that is null give the same record too, but the null is reported, as the empty label. Setting and
removing a key are edits of a document that nothing but that key can tell apart
(`altered_of_edits`), so what has to be checked is what the steps to the key do with either value.
The keys in question are in tables by their place, which miss none (`listed_of_stepsAt`).
-/

namespace ZkCommand

/-! ### Keys that may be absent -/

/-- The keys that are optional at a place in the body of an account update. -/
def optionalBodyKeys : List Segment → List String
  | [.key "update"] =>
      ["delegate", "verificationKey", "permissions", "zkappUri", "tokenSymbol", "timing",
       "votingFor"]
  | [.key "update", .key "verificationKey"] => ["data", "hash"]
  | [.key "update", .key "permissions"] => ["setVerificationKey"]
  | [.key "update", .key "permissions", .key "setVerificationKey"] => ["txnVersion"]
  | [.key "preconditions"] => ["validWhile"]
  | [.key "preconditions", .key "network"] =>
      ["snarkedLedgerHash", "blockchainLength", "minWindowDensity", "totalCurrency",
       "globalSlotSinceGenesis"]
  | [.key "preconditions", .key "network", .key "stakingEpochData"] =>
      ["ledger", "seed", "startCheckpoint", "lockCheckpoint", "epochLength"]
  | [.key "preconditions", .key "network", .key "nextEpochData"] =>
      ["ledger", "seed", "startCheckpoint", "lockCheckpoint", "epochLength"]
  | [.key "preconditions", .key "network", .key "stakingEpochData", .key "ledger"] =>
      ["hash", "totalCurrency"]
  | [.key "preconditions", .key "network", .key "nextEpochData", .key "ledger"] =>
      ["hash", "totalCurrency"]
  | [.key "preconditions", .key "account"] =>
      ["balance", "nonce", "receiptChainHash", "delegate", "actionState", "provedState", "isNew"]
  | _ => []

/-- The keys of blocks that may be empty, at a place in the body of an account update. -/
def emptyBodyKeys : List Segment → List String
  | [.key "update"] => ["verificationKey", "permissions", "timing"]
  | [.key "preconditions", .key "network", .key "stakingEpochData"] => ["ledger"]
  | [.key "preconditions", .key "network", .key "nextEpochData"] => ["ledger"]
  | _ => []

/-- The keys of levels at a place in the body of an account update. -/
def levelBodyKeys : List Segment → List String
  | [.key "update", .key "permissions"] =>
      ["editState", "access", "send", "receive", "setDelegate", "setPermissions", "setZkappUri",
       "editActionState", "setTokenSymbol", "incrementNonce", "setVotingFor", "setTiming"]
  | [.key "update", .key "permissions", .key "setVerificationKey"] => ["auth"]
  | _ => []

/-- The keys at a place in a document, given those in the body of an account update. -/
def inBody (keys : List Segment → List String) : List Segment → List String
  | .key "accountUpdates" :: .index _ :: .key "body" :: place => keys place
  | _ => []

/-- The keys that are optional at a place in a document. -/
def optionalKeys : List Segment → List String
  | [] =>
      ["expectedMemoHash", "expectedFeePayerHash", "expectedAccountUpdatesCommitment",
       "expectedFullCommitment"]
  | [.key "feePayer", .key "body"] => ["validUntil"]
  | place => inBody optionalBodyKeys place

/-- The keys of blocks that may be empty, at a place in a document. -/
def emptyKeys : List Segment → List String := inBody emptyBodyKeys

/-- The keys of levels at a place in a document. -/
def levelKeys : List Segment → List String := inBody levelBodyKeys

theorem exists_of_mem_inBody {keys : List Segment → List String} {key : String} {p : List Segment}
    (h : key ∈ inBody keys p) : ∃ i place, key ∈ keys place ∧
      p = .key "accountUpdates" :: .index i :: .key "body" :: place := by
  unfold inBody at h
  split at h
  · exact ⟨_, _, h, rfl⟩
  · cases h

/-! ### The steps to these keys -/

namespace Step

/-- A step to a key does the same with a value as without one. -/
def Ignores (value : Tree) (key : String) (step : Step) : Prop :=
  ∀ p, step.arrive p key (some value) = step.arrive p key none

@[simp] theorem ignores_null_given {β : Type} (default : β) (inner : Reading β) (key : String) :
    Ignores .null key ⟨.given default, inner⟩ := fun _ => rfl

@[simp] theorem ignores_null_block {β : Type} (default : β) (inner : Reading β) (key : String) :
    Ignores .null key ⟨.block default, inner⟩ := fun _ => rfl

@[simp] theorem ignores_empty_block {β : Type} (default : β) (inner : Reading β) (key : String) :
    Ignores (.map []) key ⟨.block default, inner⟩ := fun _ => rfl

/-- A ledger without conditions is what stands for a missing one. -/
@[simp] theorem ignores_empty_ledger (shape : Shape) (key : String) :
    Ignores (.map []) key ⟨.given ⟨shape.absent, shape.absent⟩, Reading.epochLedger shape⟩ :=
  fun _ => rfl

end Step

namespace Reading

/-- No leaf is read above a key at a place, and all steps to it have a property. -/
def AllStepsAt {α : Type} (r : Reading α) (key : String) (p : List Segment) (P : Step → Prop) :
    Prop :=
  ∃ steps, r.stepsAt key p = some steps ∧ ∀ step ∈ steps, P step

/-- The step to the key of a level. -/
def levelStep : Step := ⟨.level .none, .label .auth Leaf.auth⟩

section Places
variable {shape : Shape} {key : String} {p : List Segment}

@[simp] theorem stepsAt_feePayerBody (config : Config) :
    (document config).stepsAt key (.key "feePayer" :: .key "body" :: p)
      = (feePayerBody config.shape).stepsAt key p := by
  cases hv : config.variant <;> simp [document, feePayer, expected, expectedHashes, hv]

@[simp] theorem stepsAt_accountUpdateBody (config : Config) (i : Nat) :
    (document config).stepsAt key (.key "accountUpdates" :: .index i :: .key "body" :: p)
      = (accountUpdateBody config.shape).stepsAt key p := by
  cases hv : config.variant <;> simp [document, accountUpdate, expected, expectedHashes, hv]

@[simp] theorem stepsAt_update :
    (accountUpdateBody shape).stepsAt key (.key "update" :: p) = (update shape).stepsAt key p := by
  simp [accountUpdateBody]

@[simp] theorem stepsAt_preconditions :
    (accountUpdateBody shape).stepsAt key (.key "preconditions" :: p)
      = (preconditions shape).stepsAt key p := by
  simp [accountUpdateBody]

@[simp] theorem stepsAt_verificationKey :
    (update shape).stepsAt key (.key "verificationKey" :: p) = verificationKey.stepsAt key p := by
  simp [update]

@[simp] theorem stepsAt_permissions :
    (update shape).stepsAt key (.key "permissions" :: p) = permissions.stepsAt key p := by
  simp [update]

@[simp] theorem stepsAt_policy :
    permissions.stepsAt key (.key "setVerificationKey" :: p)
      = setVerificationKey.stepsAt key p := by
  simp [permissions]

@[simp] theorem stepsAt_network :
    (preconditions shape).stepsAt key (.key "network" :: p) = (network shape).stepsAt key p := by
  simp [preconditions]

@[simp] theorem stepsAt_account :
    (preconditions shape).stepsAt key (.key "account" :: p) = (account shape).stepsAt key p := by
  simp [preconditions]

@[simp] theorem stepsAt_stakingEpoch :
    (network shape).stepsAt key (.key "stakingEpochData" :: p) = (epoch shape).stepsAt key p := by
  simp [network]

@[simp] theorem stepsAt_nextEpoch :
    (network shape).stepsAt key (.key "nextEpochData" :: p) = (epoch shape).stepsAt key p := by
  simp [network]

@[simp] theorem stepsAt_ledger :
    (epoch shape).stepsAt key (.key "ledger" :: p) = (epochLedger shape).stepsAt key p := by
  simp [epoch]

theorem ignores_null_body (h : key ∈ optionalBodyKeys p) :
    (accountUpdateBody shape).AllStepsAt key p (Step.Ignores .null key) := by
  revert key
  unfold optionalBodyKeys
  split
  · simp [AllStepsAt, update]
  · simp [AllStepsAt, verificationKey]
  · simp [AllStepsAt, permissions]
  · simp [AllStepsAt, setVerificationKey]
  · simp [AllStepsAt, preconditions]
  · simp [AllStepsAt, network]
  · simp [AllStepsAt, epoch]
  · simp [AllStepsAt, epoch]
  · simp [AllStepsAt, epochLedger]
  · simp [AllStepsAt, epochLedger]
  · simp [AllStepsAt, account]
  · exact fun none => absurd none List.not_mem_nil

theorem ignores_null (config : Config) (h : key ∈ optionalKeys p) :
    (document config).AllStepsAt key p (Step.Ignores .null key) := by
  unfold optionalKeys at h
  split at h
  · revert key
    cases hv : config.variant <;> simp [AllStepsAt, document, expected, expectedHashes, hv]
  · revert key
    simp [AllStepsAt, feePayerBody]
  · obtain ⟨i, place, mem, rfl⟩ := exists_of_mem_inBody h
    rw [AllStepsAt, stepsAt_accountUpdateBody]
    exact ignores_null_body mem

theorem ignores_empty (config : Config) (h : key ∈ emptyKeys p) :
    (document config).AllStepsAt key p (Step.Ignores (.map []) key) ∧ isBlockPlace p = false := by
  obtain ⟨i, place, mem, rfl⟩ := exists_of_mem_inBody h
  rw [AllStepsAt, stepsAt_accountUpdateBody]
  clear h
  revert key
  unfold emptyBodyKeys
  split
  · simp [update, isBlockPlace]
  · simp [epoch, isBlockPlace]
  · simp [epoch, isBlockPlace]
  · exact fun none => absurd none List.not_mem_nil

theorem stepsAt_level (config : Config) (h : key ∈ levelKeys p) :
    (document config).stepsAt key p = some [levelStep] := by
  obtain ⟨i, place, mem, rfl⟩ := exists_of_mem_inBody h
  rw [stepsAt_accountUpdateBody]
  clear h
  revert key
  unfold levelBodyKeys
  split
  · simp [permissions, levelStep]
  · simp [setVerificationKey, levelStep]
  · exact fun none => absurd none List.not_mem_nil

end Places

end Reading

/-! ### No other key may be absent -/

/-- A key that may be absent is in the table of its rule. -/
def Step.Listed (step : Step) (p : List Segment) (key : String) : Prop :=
  match step.access with
  | .required => True
  | .given _ => key ∈ optionalKeys p
  | .block _ => key ∈ optionalKeys p ∧ key ∈ emptyKeys p
  | .level _ => key ∈ levelKeys p

namespace Step

variable {β : Type} {default : β} {inner : Reading β} {p : List Segment} {key : String}

@[simp] theorem listed_required : Listed ⟨.required, inner⟩ p key := trivial

@[simp] theorem listed_given : Listed ⟨.given default, inner⟩ p key ↔ key ∈ optionalKeys p := .rfl

@[simp] theorem listed_block : Listed ⟨.block default, inner⟩ p key ↔
    key ∈ optionalKeys p ∧ key ∈ emptyKeys p := .rfl

@[simp] theorem listed_level : Listed ⟨.level default, inner⟩ p key ↔ key ∈ levelKeys p := .rfl

end Step

namespace Reading

/-- All steps to the keys at the places below a node have a property. -/
@[simp] def Everywhere {α : Type} : Reading α → (List Segment → String → Step → Prop) → Prop
  | .list item, P => ∀ i, item.Everywhere fun p => P (.index i :: p)
  | .field access key inner, P =>
      P [] key ⟨access, inner⟩ ∧ inner.Everywhere fun p => P (.key key :: p)
  | .seq first next, P => first.Everywhere P ∧ next.Everywhere P
  | _, _ => True

theorem Everywhere.of_stepsAt {α : Type} {r : Reading α} {P : List Segment → String → Step → Prop}
    {key : String} {p : List Segment} {steps : List Step} {step : Step} (all : r.Everywhere P)
    (stepsAt : r.stepsAt key p = some steps) (mem : step ∈ steps) : P p key step := by
  induction r generalizing P p steps with
  | list item ih =>
      rcases p with _ | ⟨name | i, p⟩
      · cases stepsAt
        cases mem
      · cases stepsAt
        cases mem
      · exact @ih (fun p => P (.index i :: p)) p steps (all i) stepsAt mem
  | field access name inner ih =>
      rcases p with _ | ⟨k | i, p⟩
      · cases stepsAt
        split at mem
        · rename_i same
          obtain rfl := same
          obtain rfl := List.mem_singleton.mp mem
          exact all.1
        · cases mem
      · rw [Reading.stepsAt] at stepsAt
        split at stepsAt
        · rename_i same
          obtain rfl := same
          exact @ih (fun p => P (.key k :: p)) p steps all.2 stepsAt mem
        · cases stepsAt
          cases mem
      · cases stepsAt
        cases mem
  | seq first next ihf ihn =>
      obtain ⟨before, after, atFirst, atNext, rfl⟩ := joined_eq_some stepsAt
      rcases List.mem_append.mp mem with inFirst | inNext
      · exact ihf all.1 atFirst inFirst
      · exact ihn all.2 atNext inNext
  | leaf | label | slots => cases stepsAt
  | done | note =>
      cases stepsAt
      cases mem

theorem listed_update (shape : Shape) (i : Nat) :
    (update shape).Everywhere fun p key step => step.Listed
      (.key "accountUpdates" :: .index i :: .key "body" :: .key "update" :: p) key := by
  simp [update, verificationKey, permissions, setVerificationKey, timing, optionalKeys, emptyKeys,
    levelKeys, inBody, optionalBodyKeys, emptyBodyKeys, levelBodyKeys]

theorem listed_preconditions (shape : Shape) (i : Nat) :
    (preconditions shape).Everywhere fun p key step => step.Listed
      (.key "accountUpdates" :: .index i :: .key "body" :: .key "preconditions" :: p) key := by
  simp [preconditions, network, account, epoch, epochLedger, range, optionalKeys, inBody,
    optionalBodyKeys]

theorem listed_document (config : Config) :
    (document config).Everywhere fun p key step => step.Listed p key := by
  cases hv : config.variant <;>
    simp [document, hv, feePayer, feePayerBody, accountUpdate, accountUpdateBody, balanceChange,
      mayUseToken, authorizationKind, fieldLists, expected, expectedHashes, optionalKeys,
      listed_update, listed_preconditions]

/-- Every key that a document may lack is in the tables, and every block is among those that may be
empty. -/
theorem listed_of_stepsAt {config : Config} {p : List Segment} {key : String} {steps : List Step}
    (stepsAt : (document config).stepsAt key p = some steps) :
    ∀ step ∈ steps, step.Listed p key :=
  fun _ mem => (listed_document config).of_stepsAt stepsAt mem

end Reading

/-! ### Absent values -/

namespace Transcode

open Reading

variable {config : Config} {t : Tree} {p : List Segment} {entries : List (String × Tree)}
  {key : String}

/-- Setting a key of a mapping and removing it. The walks differ as the steps to the key do. -/
theorem swaps_walk_of_edits {told told' : Event} {n : Nat} {steps : List Step} {value : Tree}
    (found : t.at? p = some (.map entries))
    (kept : isBlockPlace p = true → ∃ e ∈ entries, e.1 ≠ key)
    (stepsAt : (document config).stepsAt key p = some steps)
    (each : ∀ step ∈ steps, Walk.Swaps told told' n (step.arrive ⟨p⟩ key none)
      (step.arrive ⟨p⟩ key (some value))) :
    Walk.Swaps told told' (n * steps.length) (walk config (t.removeAt (p ++ [.key key])))
      (walk config (t.setAt (p ++ [.key key]) value)) := by
  obtain ⟨altered, removed, set⟩ := Tree.altered_of_edits key found value
  have filled (block : (document config).blockAt p = true) :
      entries.filter (fun e => e.1 ≠ key) ≠ [] := by
    obtain ⟨e, mem, other⟩ := kept (isBlockPlace_of_blockAt block)
    exact List.ne_nil_of_mem (List.mem_filter.mpr ⟨mem, by simpa using other⟩)
  have missing : (t.removeAt (p ++ [.key key])).at? (p ++ [.key key]) = none := by
    rw [Tree.at?_append, removed, Option.bind_some, Tree.at?_singleton]
    exact Tree.find?_filter_self key entries
  have given : (t.setAt (p ++ [.key key]) value).at? (p ++ [.key key]) = some value := by
    rw [Tree.at?_append, set, Option.bind_some, Tree.at?_singleton]
    exact Tree.find?_insert_self key value entries
  rw [walk_document, walk_document]
  refine (swaps_walk_of_altered _ Path.root stepsAt altered ?_ ?_ ?_).bind fun record => .same _
  · intro block
    rw [removed, set]
    simp only [Option.some.injEq, Tree.map.injEq]
    exact iff_of_false (filled block) (Tree.insert_ne_nil key value entries)
  · intro block empty
    rw [removed] at empty
    exact absurd (Tree.map.inj (Option.some.inj empty)) (filled block)
  · rw [missing, given]
    exact each

/-- A value that is ignored. -/
theorem ofTree_setAt_eq {value : Tree} (found : t.at? p = some (.map entries))
    (kept : isBlockPlace p = true → ∃ e ∈ entries, e.1 ≠ key)
    (ignored : (document config).AllStepsAt key p (Step.Ignores value key)) :
    ofTree config (t.setAt (p ++ [.key key]) value)
      = ofTree config (t.removeAt (p ++ [.key key])) := by
  obtain ⟨steps, stepsAt, ignores⟩ := ignored
  -- No event is replaced, whatever is told for one that is.
  have each (step : Step) (mem : step ∈ steps) :
      Walk.Swaps (.unknownKey ⟨p⟩ key) (.unknownKey ⟨p⟩ key) 0 (step.arrive ⟨p⟩ key none)
        (step.arrive ⟨p⟩ key (some value)) := by
    rw [ignores step mem]
    exact .same _
  have swaps := swaps_walk_of_edits found kept stepsAt each
  rw [Nat.zero_mul] at swaps
  exact (ofTree_eq_of_quiet swaps.quiet_eq).symm

/-- Transcoding two documents whose walks differ in an event. The second one tells of a label. -/
theorem ofTree_of_swaps {t t' : Tree} {told : Event} {d : Diagnostic}
    (silent : told.diagnostic? = none)
    (h : Walk.Swaps told (.fallback d) 1 (walk config t) (walk config t')) :
    (∃ fault, ofTree config t = .error fault ∧ ofTree config t' = .error fault) ∨
      ∃ record before after, ofTree config t = .ok ⟨record, before ++ after⟩ ∧
        ofTree config t' = .ok ⟨record, before ++ d :: after⟩ := by
  obtain ⟨m, -, replaced, all⟩ := h.events
  have outcome := h.outcome
  rw [ofTree, ofTree, ← outcome, ← Walk.diagnostics_quiet,
    ← Walk.diagnostics_quiet (walk config t')]
  cases ends : (walk config t).outcome with
  | error fault => exact .inl ⟨fault, rfl, rfl⟩
  | ok record =>
      obtain rfl := all record ends
      obtain ⟨before, after, events, events'⟩ := replaced.split
      refine .inr ⟨record, before.filterMap Event.diagnostic?, after.filterMap Event.diagnostic?,
        ?_, ?_⟩
      · simp [Walk.diagnostics, events, silent, bind, Except.bind]
      · simp [Walk.diagnostics, events', Event.diagnostic?, bind, Except.bind]

/-- **Null, an empty block and a missing key are the same.** In a document with a mapping at a
place, an optional key is set to null, a block to the empty mapping, or the key is removed: the
record, the diagnostics and the failure are the same. For a level, null adds its diagnostic, the
empty label, to an otherwise equal list. If the mapping is itself a block, it has to keep another
key. And the tables name every key that the schema lets a document lack: what is read under any
other key is required. -/
theorem ofTree_absent (found : t.at? p = some (.map entries)) :
    (key ∈ optionalKeys p → (isBlockPlace p = true → ∃ e ∈ entries, e.1 ≠ key) →
      ofTree config (t.setAt (p ++ [.key key]) .null)
        = ofTree config (t.removeAt (p ++ [.key key]))) ∧
    (key ∈ emptyKeys p →
      ofTree config (t.setAt (p ++ [.key key]) (.map []))
        = ofTree config (t.removeAt (p ++ [.key key]))) ∧
    (key ∈ levelKeys p → (isBlockPlace p = true → ∃ e ∈ entries, e.1 ≠ key) →
      (∃ fault, ofTree config (t.removeAt (p ++ [.key key])) = .error fault ∧
        ofTree config (t.setAt (p ++ [.key key]) .null) = .error fault) ∨
      ∃ record before after,
        ofTree config (t.removeAt (p ++ [.key key])) = .ok ⟨record, before ++ after⟩ ∧
        ofTree config (t.setAt (p ++ [.key key]) .null)
          = .ok ⟨record, before ++ ⟨⟨p ++ [.key key]⟩, .auth, ""⟩ :: after⟩) ∧
    ∀ steps, (document config).stepsAt key p = some steps → ∀ step ∈ steps, step.Listed p key := by
  refine ⟨fun mem kept => ofTree_setAt_eq found kept (ignores_null config mem), fun mem => ?_,
    fun mem kept => ?_, fun steps => listed_of_stepsAt⟩
  · obtain ⟨ignored, noBlock⟩ := ignores_empty config mem
    exact ofTree_setAt_eq found (fun block => by rw [noBlock] at block; cases block) ignored
  · have told : Walk.Swaps (.permissionMissing ⟨p⟩ key) (.fallback ⟨⟨p ++ [.key key]⟩, .auth, ""⟩) 1
        (levelStep.arrive ⟨p⟩ key none) (levelStep.arrive ⟨p⟩ key (some .null)) :=
      ⟨rfl, 1, Nat.le_refl 1, .swap .nil, fun _ _ => rfl⟩
    have swaps := swaps_walk_of_edits found kept (stepsAt_level config mem) fun step only => by
      obtain rfl := List.mem_singleton.mp only
      exact told
    exact ofTree_of_swaps rfl swaps

/-- The place of the permissions in the second account update of a document. -/
def secondPermissions : List Segment :=
  [.key "accountUpdates", .index 1, .key "body", .key "update", .key "permissions"]

/-- In permissions, a policy and a level that are removed and null. -/
theorem ofTree_absent_permissions :
    ofTree ⟨.tagged, .simple, ""⟩
        (labelledDocument.setAt (secondPermissions ++ [.key "setVerificationKey"]) .null)
      = ofTree ⟨.tagged, .simple, ""⟩
        (labelledDocument.removeAt (secondPermissions ++ [.key "setVerificationKey"])) ∧
    ∃ record before after,
      ofTree ⟨.tagged, .simple, ""⟩
          (labelledDocument.removeAt (secondPermissions ++ [.key "send"]))
        = .ok ⟨record, before ++ after⟩ ∧
      ofTree ⟨.tagged, .simple, ""⟩
          (labelledDocument.setAt (secondPermissions ++ [.key "send"]) .null)
        = .ok ⟨record, before ++ ⟨⟨secondPermissions ++ [.key "send"]⟩, .auth, ""⟩ :: after⟩ := by
  have policy := @ofTree_absent ⟨.tagged, .simple, ""⟩ labelledDocument secondPermissions _
    "setVerificationKey" rfl
  have level := @ofTree_absent ⟨.tagged, .simple, ""⟩ labelledDocument secondPermissions _
    "send" rfl
  have kept : ∃ e ∈ [("send", Tree.str "Proof"), ("access", .null),
      ("setVerificationKey", .map [("auth", .str "Never")]), ("editState", .str "none")],
      e.1 ≠ "send" ∧ e.1 ≠ "setVerificationKey" := ⟨("access", .null), by simp⟩
  obtain ⟨e, mem, other, other'⟩ := kept
  refine ⟨policy.1 (by decide) fun _ => ⟨e, mem, other'⟩, ?_⟩
  obtain ⟨out, read⟩ := exists_outcome ⟨.tagged, .simple, ""⟩
    (labelledDocument.removeAt (secondPermissions ++ [.key "send"])) (by decide +kernel)
  refine (level.2.2.1 (by decide) fun _ => ⟨e, mem, other⟩).resolve_left ?_
  intro failed
  obtain ⟨fault, failed, -⟩ := failed
  rw [read] at failed
  cases failed

end Transcode

end ZkCommand
