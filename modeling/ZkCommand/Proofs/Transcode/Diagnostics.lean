import ZkCommand.Proofs.Reading.Labels
import ZkCommand.Proofs.Reading.UnknownKeys
import ZkCommand.Proofs.Transcode.Exact

/-!
# ZkCommand.Proofs.Transcode.Diagnostics

**Diagnostics are complete, exact and in order.** `fallbacks` lists the labels of a document that no
level and no sign has, update by update: first the sign of the change of the balance, then the
levels of the permissions. It looks up each label at its place and knows nothing of walks or
settings. What transcoding reports is this list, whatever the settings are, and so is what it logs
as warnings.
-/

namespace ZkCommand

/-! ### Labels that nothing has -/

/-- The fallback of a value that should be the label of a level. Null counts as the empty label. -/
def authFallback (p : Path) : Tree → List Diagnostic
  | .null => [⟨p, .auth, ""⟩]
  | .str label =>
      if label ∈ ["None", "Either", "Proof", "Signature", "Impossible", "Both"] then []
      else [⟨p, .auth, label⟩]
  | _ => []

/-- The fallback of a value that should be the label of a sign. -/
def signFallback (p : Path) : Tree → List Diagnostic
  | .str label => if label ∈ ["Positive", "Negative"] then [] else [⟨p, .sign, label⟩]
  | _ => []

/-- What is found at a place below a node, if there is anything at that place. -/
def foundAt (found : Path → Tree → List Diagnostic) (p : Path) (place : List Segment) (t : Tree) :
    List Diagnostic :=
  match t.at? place with
  | some v => found ⟨p.segments ++ place⟩ v
  | none => []

/-! ### The fallbacks of a document -/

/-- The places of the thirteen levels of permissions, in the order in which they are read. -/
def levelPlaces : List (List Segment) :=
  [[.key "setVerificationKey", .key "auth"], [.key "editState"], [.key "access"], [.key "send"],
   [.key "receive"], [.key "setDelegate"], [.key "setPermissions"], [.key "setZkappUri"],
   [.key "editActionState"], [.key "setTokenSymbol"], [.key "incrementNonce"],
   [.key "setVotingFor"], [.key "setTiming"]]

/-- The fallbacks of permissions. The ones that are null or empty have none. -/
def permissionFallbacks (p : Path) : Tree → List Diagnostic
  | .null => []
  | .map [] => []
  | permissions => levelPlaces.flatMap fun place => foundAt authFallback p place permissions

/-- The place of the sign in an account update. -/
def signPlace : List Segment := [.key "body", .key "balanceChange", .key "sgn"]

/-- The place of the permissions in an account update. -/
def permissionsPlace : List Segment := [.key "body", .key "update", .key "permissions"]

/-- The fallbacks of an account update. -/
def updateFallbacks (p : Path) (update : Tree) : List Diagnostic :=
  foundAt signFallback p signPlace update ++
    foundAt permissionFallbacks p permissionsPlace update

/-- The fallbacks of a document, in the order of its account updates. -/
def fallbacks (t : Tree) : List Diagnostic :=
  match t.get? "accountUpdates" with
  | some (.list updates) =>
      (updates.mapIdx fun i update =>
        updateFallbacks ⟨[.key "accountUpdates", .index i]⟩ update).flatten
  | _ => []

/-! ### Places -/

theorem foundAt_nil (found : Path → Tree → List Diagnostic) (p : Path) (t : Tree) :
    foundAt found p [] t = found p t := by
  rw [foundAt, Tree.at?, List.append_nil]

theorem foundAt_key (found : Path → Tree → List Diagnostic) (p : Path) (key : String)
    (place : List Segment) (t : Tree) :
    foundAt found p (.key key :: place) t =
      match t.get? key with
      | some v => foundAt found (p.key key) place v
      | none => [] := by
  rw [foundAt, Tree.at?]
  cases t.get? key with
  | none => rfl
  | some v =>
      simp only [Option.bind_some, foundAt, Path.key, List.append_assoc, List.singleton_append]

/-! ### The labels that the schema reads -/

namespace Reading

variable {α β γ : Type} {p : Path} {t : Tree}

theorem diagnosticsOf_table (known : List String) (next : Reading α) :
    (table known next).diagnosticsOf p t = next.diagnosticsOf p t := by
  simp only [diagnosticsOf, List.nil_append, List.append_nil]

theorem diagnosticsOf_seq_of_first {first : Reading β} {next : Reading (β → γ)}
    (h : first.labelFree = true) :
    (seq first next).diagnosticsOf p t = next.diagnosticsOf p t := by
  rw [diagnosticsOf, recognised_of_labelFree h, List.nil_append]

theorem diagnosticsOf_seq_of_next {first : Reading β} {next : Reading (β → γ)}
    (h : next.labelFree = true) :
    (seq first next).diagnosticsOf p t = first.diagnosticsOf p t := by
  rw [diagnosticsOf, recognised_of_labelFree h, List.append_nil]

/-- What is found at a place below the value under a key is found one step further down. -/
theorem diagnosticsOf_field {access : Access β} {inner : Reading β}
    {found : Path → Tree → List Diagnostic} {place : List Segment} (key : String)
    (h : ∀ p v, inner.diagnosticsOf p v = foundAt found p place v)
    (silent : ∀ p v, access.counts v = false → foundAt found p place v = []) :
    (field access key inner).diagnosticsOf p t = foundAt found p (.key key :: place) t := by
  rw [diagnosticsOf, foundAt_key, Access.child?]
  cases t.get? key with
  | none => rfl
  | some v =>
      rw [Option.filter_some]
      cases hv : access.counts v with
      | true => exact h _ _
      | false => exact (silent _ _ hv).symm

theorem diagnosticsOf_required {inner : Reading β} {found : Path → Tree → List Diagnostic}
    {place : List Segment} (key : String)
    (h : ∀ p v, inner.diagnosticsOf p v = foundAt found p place v) :
    (field .required key inner).diagnosticsOf p t = foundAt found p (.key key :: place) t :=
  diagnosticsOf_field key h fun _ _ hv => by cases hv

/-! ### Levels and signs -/

/-- The six labels are those of the levels. -/
theorem ofLabel?_eq_none_iff {label : String} :
    Auth.ofLabel? label = none ↔
      label ∉ ["None", "Either", "Proof", "Signature", "Impossible", "Both"] := by
  have labels : ["None", "Either", "Proof", "Signature", "Impossible", "Both"]
      = Auth.all.map Auth.label := rfl
  rw [labels, Auth.ofLabel?, List.find?_eq_none, List.mem_map]
  simp only [decide_eq_true_eq, not_exists, not_and]

theorem diagnosticsOf_auth (p : Path) (t : Tree) :
    (label .auth Leaf.auth).diagnosticsOf p t = foundAt authFallback p [] t := by
  rw [foundAt_nil]
  cases t with
  | str label =>
      rw [diagnosticsOf, Leaf.auth, authFallback]
      cases known : Auth.ofLabel? label with
      | some level =>
          have named := mt ofLabel?_eq_none_iff.mpr (by rw [known]; exact Option.some_ne_none _)
          rw [if_pos (not_not.mp named)]
          rfl
      | none =>
          rw [if_neg (ofLabel?_eq_none_iff.mp known)]
          rfl
  | _ => rfl

theorem diagnosticsOf_sign (p : Path) (t : Tree) :
    (label .sign Leaf.sign).diagnosticsOf p t = foundAt signFallback p [] t := by
  rw [foundAt_nil]
  cases t with
  | str label =>
      rw [diagnosticsOf, Leaf.sign, signFallback, Sign.label, Sign.label]
      by_cases positive : label = "Positive"
      · rw [if_pos positive, if_pos (by simp [positive])]
        rfl
      · by_cases negative : label = "Negative"
        · rw [if_neg positive, if_pos negative, if_pos (by simp [negative])]
          rfl
        · rw [if_neg positive, if_neg negative, if_neg (by simp [positive, negative])]
          rfl
  | _ => rfl

theorem diagnosticsOf_level (key : String) (p : Path) (t : Tree) :
    (field (.level .none) key (label .auth Leaf.auth)).diagnosticsOf p t
      = foundAt authFallback p [.key key] t :=
  diagnosticsOf_field key diagnosticsOf_auth fun _ _ hv => by cases hv

theorem diagnosticsOf_policy (p : Path) (t : Tree) :
    (field (.given Schema.noPolicy) "setVerificationKey" setVerificationKey).diagnosticsOf p t
      = foundAt authFallback p [.key "setVerificationKey", .key "auth"] t := by
  refine diagnosticsOf_field _ (fun p v => ?_) fun p v hv => ?_
  · rw [setVerificationKey, diagnosticsOf_table, diagnosticsOf_seq_of_next rfl]
    exact diagnosticsOf_level "auth" p v
  · cases v with
    | null => rfl
    | _ => cases hv

theorem diagnosticsOf_permissions (p : Path) (t : Tree) :
    permissions.diagnosticsOf p t
      = levelPlaces.flatMap fun place => foundAt authFallback p place t := by
  rw [permissions, diagnosticsOf_table, diagnosticsOf, diagnosticsOf_policy]
  iterate 12 rw [diagnosticsOf, diagnosticsOf_level]
  rfl

/-! ### Account updates and documents -/

section
variable (shape : Shape)

theorem diagnosticsOf_balanceChange (p : Path) (t : Tree) :
    balanceChange.diagnosticsOf p t = foundAt signFallback p [.key "sgn"] t := by
  rw [balanceChange, diagnosticsOf_table, diagnosticsOf_seq_of_first rfl,
    diagnosticsOf_seq_of_next rfl]
  exact diagnosticsOf_required "sgn" diagnosticsOf_sign

theorem permissionFallbacks_eq (p : Path) (t : Tree) :
    permissionFallbacks p t = permissions.diagnosticsOf p t := by
  rw [diagnosticsOf_permissions]
  cases t with
  | map entries => cases entries <;> rfl
  | _ => rfl

theorem diagnosticsOf_update (p : Path) (t : Tree) :
    (update shape).diagnosticsOf p t = foundAt permissionFallbacks p [.key "permissions"] t := by
  rw [update, diagnosticsOf_table]
  -- Before the permissions stand the state, the delegate and the verification key.
  iterate 3 rw [diagnosticsOf_seq_of_first rfl]
  rw [diagnosticsOf_seq_of_next rfl]
  refine diagnosticsOf_field _ (fun p v => ?_) fun p v hv => ?_
  · rw [diagnosticsOf_seq_of_next rfl, foundAt_nil, permissionFallbacks_eq]
  · cases v with
    | null => rfl
    | map entries =>
        cases entries with
        | nil => rfl
        | cons entry rest => cases hv
    | _ => cases hv

theorem diagnosticsOf_accountUpdateBody (p : Path) (t : Tree) :
    (accountUpdateBody shape).diagnosticsOf p t
      = foundAt signFallback p [.key "balanceChange", .key "sgn"] t ++
        foundAt permissionFallbacks p [.key "update", .key "permissions"] t := by
  rw [accountUpdateBody, diagnosticsOf_table, diagnosticsOf,
    diagnosticsOf_required _ diagnosticsOf_balanceChange]
  -- Between the change of the balance and the update stand parts without labels.
  iterate 4 rw [diagnosticsOf_seq_of_first rfl]
  rw [diagnosticsOf_seq_of_next rfl, diagnosticsOf_required _ (diagnosticsOf_update shape)]

theorem diagnosticsOf_accountUpdate (p : Path) (t : Tree) :
    (accountUpdate shape).diagnosticsOf p t = updateFallbacks p t := by
  rw [accountUpdate, diagnosticsOf_table, diagnosticsOf_seq_of_next rfl, diagnosticsOf,
    updateFallbacks, signPlace, permissionsPlace, foundAt_key, foundAt_key,
    Access.child?_required]
  cases t.get? "body" with
  | none => rfl
  | some body => exact diagnosticsOf_accountUpdateBody shape _ body

/-- The labels that are settled by a fallback are found by looking up their places. -/
theorem diagnosticsOf_document (config : Config) (t : Tree) :
    (document config).diagnosticsOf Path.root t = fallbacks t := by
  have expected : (Reading.expected config.variant).labelFree = true := by
    cases config.variant <;> rfl
  rw [document, diagnosticsOf_table, diagnosticsOf_seq_of_first rfl,
    diagnosticsOf_seq_of_next (by simp [expected]), diagnosticsOf, fallbacks,
    Access.child?_required]
  cases t.get? "accountUpdates" with
  | none => rfl
  | some updates =>
      cases updates with
      | list items =>
          simp only [diagnosticsOf, diagnosticsOf_accountUpdate]
          rfl
      | _ => rfl

end

end Reading

/-! ### Warnings -/

namespace Event

/-- The line of an event in a log is a warning. -/
def isWarning (event : Event) : Bool := "WARN ".toList.isPrefixOf event.line.toList

/-- Only fallbacks are warnings. -/
theorem isWarning_eq (event : Event) : event.isWarning = event.diagnostic?.isSome := by
  unfold isWarning line
  -- A line starts with the word of its level.
  split
  all_goals
    simp only [String.toList_append, String.reduceToList, List.cons_append]
    rfl

/-- The warnings of a walk are its diagnostics, in order. -/
theorem warnings_eq {α : Type} (walk : Walk α) :
    walk.events.filter isWarning = walk.diagnostics.map fallback := by
  rw [Walk.diagnostics]
  induction walk.events with
  | nil => rfl
  | cons event rest ih =>
      have warned := isWarning_eq event
      cases event with
      | fallback d => rw [List.filter_cons_of_pos warned, ih]; rfl
      | _ => rw [List.filter_cons_of_neg (by rw [warned]; exact Bool.false_ne_true), ih]; rfl

end Event

/-! ### The diagnostics of a document -/

namespace Transcode

/-- **Diagnostics are complete, exact and in order.** They are the labels that no level and no sign
has, at their places, update by update; they are what is logged as warnings; and no setting has a
say in them. -/
theorem ofTree_diagnostics {config : Config} {t : Tree} {out : Outcome}
    (h : ofTree config t = .ok out) :
    out.diagnostics = fallbacks t ∧
      (walk config t).events.filter Event.isWarning = (fallbacks t).map .fallback ∧
      ∀ config' out', ofTree config' t = .ok out' → out'.diagnostics = out.diagnostics := by
  have listed : ∀ config out, ofTree config t = .ok out → out.diagnostics = fallbacks t := by
    intro config out h
    rw [(ofTree_eq_ok_iff.mp h).2, Reading.diagnosticsOf_document]
  refine ⟨listed config out h, ?_, fun config' out' h' => ?_⟩
  · rw [Event.warnings_eq, diagnostics_walk_of_ok (outcome_walk_iff.mpr (ofTree_eq_ok_iff.mp h).1),
      Reading.diagnosticsOf_document]
  · rw [listed config' out' h', listed config out h]

/-- An account update with the label of its sign and its permissions. -/
def withLabels (sgn : String) (permissions : Tree) : Tree :=
  .map [("body", .map [
    ("balanceChange", .map [("magnitude", .num "0"), ("sgn", .str sgn)]),
    ("mayUseToken", .map [("parentsOwnToken", .bool false), ("inheritFromParent", .bool false)]),
    ("authorizationKind", .map [("isSigned", .bool false), ("isProved", .bool false),
      ("verificationKeyHash", .num "0")]),
    ("publicKey", .str "account"),
    ("tokenId", .num "1"),
    ("update", .map [("appState", .list []), ("permissions", permissions)]),
    ("incrementNonce", .bool false),
    ("events", .list []),
    ("actions", .list []),
    ("callData", .num "0"),
    ("callDepth", .num "0"),
    ("preconditions", .map [
      ("network", .map [("stakingEpochData", .map []), ("nextEpochData", .map [])]),
      ("account", .map [("state", .list [])])]),
    ("useFullCommitment", .bool false),
    ("implicitAccountCreationFee", .bool false)])]

/-- A document with some account updates. -/
def withUpdates (updates : List Tree) : Tree :=
  .map [
    ("feePayer", .map [
      ("body", .map [("publicKey", .str "payer"), ("fee", .num "1"), ("nonce", .num "0")]),
      ("authorization", .str "")]),
    ("accountUpdates", .list updates),
    ("memo", .str "")]

/-- A document with three account updates: labels that are known, in another order and not known,
null levels, and permissions that are empty. -/
def labelledDocument : Tree :=
  withUpdates [
    withLabels "Minus" (.map []),
    withLabels "Negative" (.map [("send", .str "Proof"), ("access", .null),
      ("setVerificationKey", .map [("auth", .str "Never")]), ("editState", .str "none")]),
    withLabels "positive" (.map [("setTiming", .str "")])]

/-- The fallbacks of such a document, and its warnings. -/
theorem ofTree_diagnostics_labelledDocument :
    ∃ out, ofTree ⟨.tagged, .simple, ""⟩ labelledDocument = .ok out ∧
      out.diagnostics.map (fun d => (d.path.display, d.fallback, d.label)) =
        [("accountUpdates[0].body.balanceChange.sgn", .sign, "Minus"),
         ("accountUpdates[1].body.update.permissions.setVerificationKey.auth", .auth, "Never"),
         ("accountUpdates[1].body.update.permissions.editState", .auth, "none"),
         ("accountUpdates[1].body.update.permissions.access", .auth, ""),
         ("accountUpdates[2].body.balanceChange.sgn", .sign, "positive"),
         ("accountUpdates[2].body.update.permissions.setTiming", .auth, "")] ∧
      ((walk ⟨.tagged, .simple, ""⟩ labelledDocument).events.filter Event.isWarning).length
        = 6 := by
  obtain ⟨out, h⟩ := exists_outcome ⟨.tagged, .simple, ""⟩ labelledDocument (by decide +kernel)
  obtain ⟨listed, warned, -⟩ := ofTree_diagnostics h
  refine ⟨out, h, ?_, ?_⟩
  · rw [listed]
    decide +kernel
  · rw [warned]
    decide +kernel

end Transcode

end ZkCommand
