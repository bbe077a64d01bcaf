import ZkCommand.Proofs.Literal.Lines

/-!
# ZkCommand.Proofs.Literal.Writer

**A literal by calls on a writer.** The writer keeps a depth, which calls raise and lower one by
one, and every line is indented by the depth of its moment. Which call closes what another has
opened is nowhere written down. The calls for a record write the literal of the record and end at
the depth at which they began, and no call lowers a depth of zero (`run_recordCalls`): the calls for
each part write a layout from every depth (`Writes`), and the layout is closed by its form.
-/

namespace ZkCommand.Literal

open Layout (indented renderAll)

/-! ### The writer -/

/-- A text that is being written, and how deep the next line stands. -/
structure Writer where
  depth : Nat
  out : String

/-- A call on a writer. A struct is opened and closed by one call each, the depth of a vector is
raised and lowered by calls of their own. -/
inductive Call
  | line (text : String)
  | enter (head : String)
  | leave (tail : String)
  | raise
  | lower

/-- The call lowers the depth. -/
def Call.lowers : Call → Bool
  | .leave _ | .lower => true
  | .line _ | .enter _ | .raise => false

namespace Writer

/-- Nothing is written. -/
def start : Writer := ⟨0, ""⟩

/-- A line at the depth of the writer. -/
def line (w : Writer) (text : String) : Writer := ⟨w.depth, w.out ++ indented w.depth text⟩

/-- What a call does. A struct may be closed at depth zero, where the depth stays as it is; lowering
the depth by itself fails there. -/
def call (w : Writer) : Call → Option Writer
  | .line text => some (w.line text)
  | .enter head => some ⟨w.depth + 1, (w.line (head ++ " \x7b")).out⟩
  | .leave tail => some (line ⟨w.depth - 1, w.out⟩ ("\x7d" ++ tail))
  | .raise => some ⟨w.depth + 1, w.out⟩
  | .lower => if w.depth = 0 then none else some ⟨w.depth - 1, w.out⟩

/-- What calls do one behind the other. -/
def run (w : Writer) (calls : List Call) : Option Writer := calls.foldlM call w

end Writer

/-! ### The calls for a record -/

namespace Call

/-- A field on a line of its own. -/
def field (key value : String) : Call := .line (key ++ ": " ++ value ++ ",")

/-- The calls for the field of a block that may be absent. -/
def optionalBlock {α : Type} (key type : String) (body : α → List Call) : Optional α → List Call
  | .tagged none => [field key "None"]
  | .tagged (some value) => enter (key ++ ": Some(" ++ type) :: body value ++ [leave "),"]
  | .flagged present payload =>
      [enter (key ++ ": Flagged"), field "is_some" (bool present), enter ("value: " ++ type)]
        ++ body payload ++ [leave ",", leave ","]

/-- The calls for a verification key. -/
def verificationKey (k : VerificationKey) : List Call :=
  [field "data" (ownedText k.data), field "hash" (element k.hash)]

/-- The calls for permissions. -/
def permissions (p : Permissions) : List Call :=
  [field "edit_state" (auth p.editState),
   field "access" (auth p.access),
   field "send" (auth p.send),
   field "receive" (auth p.receive),
   field "set_delegate" (auth p.setDelegate),
   field "set_permissions" (auth p.setPermissions),
   enter "set_verification_key: SetVerificationKey",
   field "auth" (auth p.setVerificationKey.auth),
   field "txn_version" (word p.setVerificationKey.txnVersion),
   leave ",",
   field "set_zkapp_uri" (auth p.setZkappUri),
   field "edit_action_state" (auth p.editActionState),
   field "set_token_symbol" (auth p.setTokenSymbol),
   field "increment_nonce" (auth p.incrementNonce),
   field "set_voting_for" (auth p.setVotingFor),
   field "set_timing" (auth p.setTiming)]

/-- The calls for a vesting schedule. -/
def timing (t : Timing) : List Call :=
  [field "initial_minimum_balance" (word t.initialMinimumBalance),
   field "cliff_time" (word t.cliffTime),
   field "cliff_amount" (word t.cliffAmount),
   field "vesting_period" (word t.vestingPeriod),
   field "vesting_increment" (word t.vestingIncrement)]

/-- The calls for the update block. -/
def update (u : Update) : List Call :=
  [enter "update: Update",
   field "app_state" (slots u.appState),
   field "delegate" (optional publicKey u.delegate)]
  ++ optionalBlock "verification_key" "VerificationKeyData" verificationKey u.verificationKey
  ++ optionalBlock "permissions" "Permissions" permissions u.permissions
  ++ [field "zkapp_uri" (optional uri u.zkappUri),
      field "token_symbol" (optional tokenSymbol u.tokenSymbol)]
  ++ optionalBlock "timing" "TimingData" timing u.timing
  ++ [field "voting_for" (optional element u.votingFor),
      leave ","]

/-- The calls for an epoch. -/
def epoch (key : String) (e : EpochData) : List Call :=
  [enter (key ++ ": EpochData"),
   enter "ledger: EpochLedger",
   field "hash" (optional element e.ledger.hash),
   field "total_currency" (optional range e.ledger.totalCurrency),
   leave ",",
   field "seed" (optional element e.seed),
   field "start_checkpoint" (optional element e.startCheckpoint),
   field "lock_checkpoint" (optional element e.lockCheckpoint),
   field "epoch_length" (optional range e.epochLength),
   leave ","]

/-- The calls for conditions on the network. -/
def networkPreconditions (n : NetworkPreconditions) : List Call :=
  [enter "network: NetworkPreconditions",
   field "snarked_ledger_hash" (optional element n.snarkedLedgerHash),
   field "blockchain_length" (optional range n.blockchainLength),
   field "min_window_density" (optional range n.minWindowDensity),
   field "total_currency" (optional range n.totalCurrency),
   field "global_slot_since_genesis" (optional range n.globalSlotSinceGenesis)]
  ++ epoch "staking_epoch_data" n.stakingEpochData
  ++ epoch "next_epoch_data" n.nextEpochData
  ++ [leave ","]

/-- The calls for conditions on the account. -/
def accountPreconditions (a : AccountPreconditions) : List Call :=
  [enter "account: AccountPreconditions",
   field "balance" (optional range a.balance),
   field "nonce" (optional range a.nonce),
   field "receipt_chain_hash" (optional element a.receiptChainHash),
   field "delegate" (optional publicKey a.delegate),
   field "state" (slots a.state),
   field "action_state" (optional actionState a.actionState),
   field "proved_state" (optional bool a.provedState),
   field "is_new" (optional bool a.isNew),
   leave ","]

/-- The calls for lists of field elements. -/
def fieldLists (head : String) (lists : List (List Fp)) : List Call :=
  enter head ::
    (if lists.isEmpty then [field "data" "vec![]"]
     else [line "data: vec![", raise]
       ++ lists.map (fun xs => line (inlineVector (xs.map element) ++ ","))
       ++ [lower, line "],"])
  ++ [leave ","]

/-- The calls for an account update. -/
def accountUpdate (u : AccountUpdate) : List Call :=
  [enter "AccountUpdate",
   enter "body: AccountUpdateBody",
   field "public_key" (publicKey u.body.publicKey),
   field "token_id" ("TokenId(" ++ element u.body.tokenId ++ ")")]
  ++ update u.body.update
  ++ [enter "balance_change: BalanceChange",
      field "magnitude" (word u.body.balanceChange.magnitude),
      field "sgn" (sign u.body.balanceChange.sgn),
      leave ",",
      field "increment_nonce" (bool u.body.incrementNonce)]
  ++ fieldLists "events: Events" u.body.events
  ++ fieldLists "actions: Actions" u.body.actions
  ++ [field "call_data" (element u.body.callData),
      field "call_depth" (word u.body.callDepth),
      enter "preconditions: Preconditions"]
  ++ networkPreconditions u.body.preconditions.network
  ++ accountPreconditions u.body.preconditions.account
  ++ [field "valid_while" (optional range u.body.preconditions.validWhile),
      leave ",",
      field "use_full_commitment" (bool u.body.useFullCommitment),
      field "implicit_account_creation_fee" (bool u.body.implicitAccountCreationFee),
      enter "may_use_token: MayUseToken",
      field "parents_own_token" (bool u.body.mayUseToken.parentsOwnToken),
      field "inherit_from_parent" (bool u.body.mayUseToken.inheritFromParent),
      leave ",",
      enter "authorization_kind: AuthorizationKind",
      field "is_signed" (bool u.body.authorizationKind.isSigned),
      field "is_proved" (bool u.body.authorizationKind.isProved),
      field "verification_key_hash" (element u.body.authorizationKind.verificationKeyHash),
      leave ",",
      leave ",",
      enter "authorization: Authorization",
      field "proof" "None",
      field "signature" "None",
      leave ",",
      leave ","]

/-- The calls for the fee payer. -/
def feePayer (p : FeePayer) : List Call :=
  [enter "fee_payer: FeePayer",
   enter "body: FeePayerBody",
   field "public_key" (publicKey p.body.publicKey),
   field "fee" (word p.body.fee),
   field "valid_until" (optional word p.body.validUntil),
   field "nonce" (word p.body.nonce),
   leave ",",
   field "authorization" (ownedText p.authorization),
   leave ","]

/-- The calls for a numbered account update. -/
def numberedUpdate (number : Nat) (u : AccountUpdate) : List Call :=
  line ("// Account update " ++ Decimal.text number) :: accountUpdate u

/-- The calls for a record. -/
def record (r : Record) : List Call :=
  [enter "ZkAppTestVector",
   field "name" (quoted r.name),
   enter "zkapp_command: ZKAppCommand"]
  ++ feePayer r.command.feePayer
  ++ [line "account_updates: vec![", raise]
  ++ (r.command.accountUpdates.mapIdx fun i u => numberedUpdate (i + 1) u).flatten
  ++ [lower,
      line "],",
      field "memo" ("decode_memo_from_base58(" ++ quoted r.command.memo ++ ")"),
      leave ",",
      field "network" (network r.command.network),
      field "expected_memo_hash" (expectedHash r.expected.memoHash),
      field "expected_fee_payer_hash" (expectedHash r.expected.feePayerHash),
      field "expected_account_updates_commitment"
        (expectedHash r.expected.accountUpdatesCommitment),
      field "expected_full_commitment" (expectedHash r.expected.fullCommitment),
      leave ""]

end Call

/-! ### Calls that write layouts -/

namespace Writer

/-- A call, unless it lowers a depth of zero. -/
def guarded (w : Writer) (c : Call) : Option Writer :=
  if c.lowers && w.depth == 0 then none else w.call c

/-- Layouts at the depth of the writer. -/
def put (w : Writer) (ls : List Layout) : Writer := ⟨w.depth, w.out ++ renderAll w.depth ls⟩

/-- What calls do, unless one of them lowers a depth of zero. -/
def runGuarded (w : Writer) (calls : List Call) : Option Writer := calls.foldlM guarded w

end Writer

/-- From every writer the calls write the layouts, and lower no depth of zero. -/
def Writes (calls : List Call) (ls : List Layout) : Prop :=
  ∀ w rest, Writer.runGuarded w (calls ++ rest) = (w.put ls).runGuarded rest

section
variable {depth : Nat} {out text : String} {rest : List Call}

theorem runGuarded_cons {w w' : Writer} {c : Call} (h : w.guarded c = some w') :
    w.runGuarded (c :: rest) = w'.runGuarded rest := by
  rw [Writer.runGuarded, List.foldlM_cons, h]
  rfl

@[simp] theorem runGuarded_line :
    Writer.runGuarded ⟨depth, out⟩ (.line text :: rest)
      = Writer.runGuarded ⟨depth, out ++ indented depth text⟩ rest := runGuarded_cons rfl

@[simp] theorem runGuarded_enter :
    Writer.runGuarded ⟨depth, out⟩ (.enter text :: rest)
      = Writer.runGuarded ⟨depth + 1, out ++ indented depth (text ++ " \x7b")⟩ rest :=
  runGuarded_cons rfl

@[simp] theorem runGuarded_leave :
    Writer.runGuarded ⟨depth + 1, out⟩ (.leave text :: rest)
      = Writer.runGuarded ⟨depth, out ++ indented depth ("\x7d" ++ text)⟩ rest :=
  runGuarded_cons rfl

@[simp] theorem runGuarded_raise :
    Writer.runGuarded ⟨depth, out⟩ (.raise :: rest)
      = Writer.runGuarded ⟨depth + 1, out⟩ rest := runGuarded_cons rfl

@[simp] theorem runGuarded_lower :
    Writer.runGuarded ⟨depth + 1, out⟩ (.lower :: rest)
      = Writer.runGuarded ⟨depth, out⟩ rest := runGuarded_cons rfl

theorem Writes.run {calls : List Call} {ls : List Layout} (h : Writes calls ls) :
    Writer.runGuarded ⟨depth, out⟩ (calls ++ rest)
      = Writer.runGuarded ⟨depth, out ++ renderAll depth ls⟩ rest := h ⟨depth, out⟩ rest

end

theorem renderAll_append (level : Nat) (ls ls' : List Layout) :
    renderAll level (ls ++ ls') = renderAll level ls ++ renderAll level ls' := by
  induction ls with
  | nil => rw [List.nil_append, renderAll, String.empty_append]
  | cons l ls ih => rw [List.cons_append, renderAll, renderAll, ih, String.append_assoc]

/-- Layouts of a loop, one for each item with its number. -/
theorem writes_mapIdx {α : Type} {calls : Nat → α → List Call} {layouts : Nat → α → List Layout}
    (h : ∀ i a, Writes (calls i a) (layouts i a)) (as : List α) :
    Writes (as.mapIdx calls).flatten (as.mapIdx layouts).flatten := by
  rintro ⟨depth, out⟩ rest
  induction as generalizing calls layouts out with
  | nil => simp [Writer.put, renderAll]
  | cons a as ih =>
      rw [List.mapIdx_cons, List.mapIdx_cons, List.flatten_cons, List.flatten_cons,
        List.append_assoc, (h 0 a).run, ih fun i => h (i + 1)]
      simp only [Writer.put, renderAll_append, String.append_assoc]

theorem writes_map {α : Type} {call : α → Call} {layout : α → Layout}
    (h : ∀ a, Writes [call a] [layout a]) (as : List α) :
    Writes (as.map call) (as.map layout) := by
  rintro ⟨depth, out⟩ rest
  induction as generalizing out with
  | nil => simp [Writer.put, renderAll]
  | cons a as ih =>
      rw [List.map_cons, List.cons_append, ← List.singleton_append, (h a).run, ih]
      simp only [Writer.put, List.map_cons, renderAll, String.append_assoc, String.append_empty]

/-! ### The parts of a record -/

-- The calls of a part are run one by one, which leaves texts that are equal up to grouping.
attribute [local simp] Writer.put Call.field Layout.struct Layout.structWith Layout.field
  Layout.vector renderAll Layout.render String.append_assoc

theorem writes_optionalBlock {α : Type} {key type : String} {calls : α → List Call}
    {body : α → List Layout} (h : ∀ a, Writes (calls a) (body a)) (value : Optional α) :
    Writes (Call.optionalBlock key type calls value) [optionalBlock key type body value] := by
  rintro ⟨depth, out⟩ rest
  rcases value with (_ | value) | ⟨present, payload⟩
  · simp [Call.optionalBlock, optionalBlock]
  · simp [Call.optionalBlock, optionalBlock, (h value).run]
  · simp [Call.optionalBlock, optionalBlock, (h payload).run]

theorem writes_verificationKey (k : VerificationKey) :
    Writes (Call.verificationKey k) (verificationKey k) := by
  rintro ⟨depth, out⟩ rest
  simp [Call.verificationKey, verificationKey]

theorem writes_permissions (p : Permissions) :
    Writes (Call.permissions p) (permissions p) := by
  rintro ⟨depth, out⟩ rest
  simp [Call.permissions, permissions]

theorem writes_timing (t : Timing) : Writes (Call.timing t) (timing t) := by
  rintro ⟨depth, out⟩ rest
  simp [Call.timing, timing]

theorem writes_update (u : Update) : Writes (Call.update u) [update u] := by
  rintro ⟨depth, out⟩ rest
  simp [Call.update, update, (writes_optionalBlock writes_verificationKey _).run,
    (writes_optionalBlock writes_permissions _).run, (writes_optionalBlock writes_timing _).run]

theorem writes_epoch (key : String) (e : EpochData) :
    Writes (Call.epoch key e) [epoch key e] := by
  rintro ⟨depth, out⟩ rest
  simp [Call.epoch, epoch]

theorem writes_networkPreconditions (n : NetworkPreconditions) :
    Writes (Call.networkPreconditions n) [networkPreconditions n] := by
  rintro ⟨depth, out⟩ rest
  simp [Call.networkPreconditions, networkPreconditions, (writes_epoch _ _).run]

theorem writes_accountPreconditions (a : AccountPreconditions) :
    Writes (Call.accountPreconditions a) [accountPreconditions a] := by
  rintro ⟨depth, out⟩ rest
  simp [Call.accountPreconditions, accountPreconditions]

theorem writes_fieldLists (head : String) (lists : List (List Fp)) :
    Writes (Call.fieldLists head lists) [fieldLists head lists] := by
  have items : Writes (lists.map fun xs => .line (inlineVector (xs.map element) ++ ","))
      (lists.map fun xs => .line (inlineVector (xs.map element) ++ ",")) :=
    writes_map (fun xs => by rintro ⟨depth, out⟩ rest; simp) lists
  rintro ⟨depth, out⟩ rest
  by_cases empty : lists.isEmpty = true
  · simp [Call.fieldLists, fieldLists, empty]
  · simp [Call.fieldLists, fieldLists, empty, items.run]

theorem writes_numberedUpdate (number : Nat) (u : AccountUpdate) :
    Writes (Call.numberedUpdate number u) (accountUpdate number u) := by
  rintro ⟨depth, out⟩ rest
  simp [Call.numberedUpdate, Call.accountUpdate, accountUpdate, accountUpdateBody, preconditions,
    (writes_update _).run, (writes_fieldLists _ _).run, (writes_networkPreconditions _).run,
    (writes_accountPreconditions _).run]

theorem writes_feePayer (p : FeePayer) : Writes (Call.feePayer p) [feePayer p] := by
  rintro ⟨depth, out⟩ rest
  simp [Call.feePayer, feePayer]

theorem writes_record (r : Record) : Writes (Call.record r) [record r] := by
  have updates := writes_mapIdx (fun i => writes_numberedUpdate (i + 1)) r.command.accountUpdates
  rintro ⟨depth, out⟩ rest
  simp [Call.record, record, command, (writes_feePayer _).run, updates.run]

/-! ### No depth of zero is lowered -/

theorem guarded_eq_some {w w' : Writer} {c : Call} (h : w.guarded c = some w') :
    w.call c = some w' ∧ (c.lowers = true → 0 < w.depth) := by
  rw [Writer.guarded] at h
  split_ifs at h with zero
  refine ⟨h, fun lowers => ?_⟩
  rw [lowers, Bool.true_and, beq_iff_eq] at zero
  exact Nat.pos_of_ne_zero zero

/-- Guarded calls that succeed do what calls do. -/
theorem run_of_runGuarded {w w' : Writer} {calls : List Call}
    (h : w.runGuarded calls = some w') : w.run calls = some w' := by
  induction calls generalizing w with
  | nil => exact h
  | cons c calls ih =>
      rw [Writer.runGuarded, List.foldlM_cons] at h
      obtain ⟨next, first, others⟩ := Option.bind_eq_some_iff.mp h
      rw [Writer.run, List.foldlM_cons, (guarded_eq_some first).1]
      exact ih others

theorem exists_of_runGuarded {w w' : Writer} {before after : List Call} {c : Call}
    (h : w.runGuarded (before ++ c :: after) = some w') :
    ∃ v, w.run before = some v ∧ (c.lowers = true → 0 < v.depth) := by
  rw [Writer.runGuarded, List.foldlM_append] at h
  obtain ⟨v, front, h⟩ := Option.bind_eq_some_iff.mp h
  rw [List.foldlM_cons] at h
  obtain ⟨next, step, -⟩ := Option.bind_eq_some_iff.mp h
  exact ⟨v, run_of_runGuarded front, (guarded_eq_some step).2⟩

/-! ### The literal -/

theorem runGuarded_record (r : Record) :
    Writer.start.runGuarded (Call.record r) = some ⟨0, r.literal⟩ := by
  have whole := writes_record r .start []
  rw [List.append_nil] at whole
  rw [whole, Writer.put, renderAll, renderAll, String.append_empty, Writer.start,
    String.empty_append]
  rfl

theorem lines_literal (r : Record) : Lines [] (recordLines r) r.literal.toList [] := by
  rw [← height_record]
  exact (sound_record r).lines []

/-- **The literal of a record is well structured**, whatever its texts contain. Outside texts and
comments its brackets are nested and all of them are closed. Every line ends with a line break and
is indented by four spaces for each block around it. The writer ends at the depth zero at which it
begins, and no call lowers a depth of zero. No text brings a line break with it, so that the number
of lines depends on the numbers of account updates and of their events and actions, and on which
blocks are there and in which form. -/
theorem literal_structured (r : Record) :
    Scan.start.through r.literal.toList = some .start ∧
    (StartsLine r.literal.toList ∧
      ∀ before after, r.literal.toList = before ++ after → StartsLine before → after ≠ [] →
        IndentedLine [] before after) ∧
    (Writer.start.run (Call.record r) = some ⟨0, r.literal⟩ ∧
      ∀ before call after, Call.record r = before ++ call :: after → call.lowers = true →
        ∃ w, Writer.start.run before = some w ∧ 0 < w.depth) ∧
    ((∀ text, '\n' ∉ (quoted text).toList) ∧ r.literal.toList.count '\n' = recordLines r) := by
  have lines := lines_literal r
  have written := runGuarded_record r
  refine ⟨lines.scans, ⟨lines.ends, lines.indented⟩, ⟨run_of_runGuarded written, ?_⟩,
    fun text => (closed text : Closed (quoted text)).oneLine, lines.breaks⟩
  intro before call after cut lowers
  rw [cut] at written
  obtain ⟨w, run, positive⟩ := exists_of_runGuarded written
  exact ⟨w, run, positive lowers⟩

/-- A record without account updates, in whose name a line breaks and a brace closes. -/
def brokenName : Record where
  name := "\"\n\x7d"
  command := ⟨⟨⟨.point .zero false, 0, .tagged none, 0⟩, ""⟩, [], "", .testnet⟩
  expected := ⟨.zero, .zero, .zero, .zero⟩

theorem literal_structured_brokenName :
    IndentedLine [] [] brokenName.literal.toList ∧
    (∃ w, Writer.start.run (Call.record brokenName).dropLast = some w ∧ 0 < w.depth) ∧
    brokenName.literal.toList.count '\n' = 22 := by
  obtain ⟨-, ⟨-, indented⟩, ⟨-, deep⟩, -, lines⟩ := literal_structured brokenName
  refine ⟨indented [] _ (List.nil_append _).symm (.inl rfl) ?_, deep _ (.leave "") [] rfl rfl,
    lines⟩
  intro nothing
  rw [nothing] at lines
  cases lines

end ZkCommand.Literal
