import ZkCommand.Proofs.Command.WellFormed
import ZkCommand.Proofs.Transcode.Diagnostics

/-!
# ZkCommand.Proofs.Transcode.WellFormed

**Every record is well formed** in the shape of its run. The shape enters a record only where a
value that may be absent is read, so the rules for those values are the whole of the argument, and
each type of the record follows them through its parts.
-/

namespace ZkCommand

open Formed (WellFormed)

variable {α : Type} {shape : Shape} {key : String} {relation : Tree → α → Prop} {t : Tree}

/-! ### Values under keys -/

/-- What holds of a default and of all that is read under a key holds of what a rule makes of it. -/
theorem Access.Reads.holds {access : Access α} {a : α} {P : α → Prop}
    (h : access.Reads key relation t a) (default : access.default? = some a → P a)
    (child : ∀ v, relation v a → P a) : P a := by
  obtain ⟨-, h⟩ := h
  split at h
  · exact child _ h
  · exact default h

namespace Entry

theorem required_wellFormed [Formed α] {a : α} (h : required key relation t a)
    (child : ∀ v, relation v a → WellFormed shape a) : WellFormed shape a :=
  h.holds (fun default => by cases default) child

theorem given_wellFormed [Formed α] {a default : α} (h : given default key relation t a)
    (hdefault : WellFormed shape default) (child : ∀ v, relation v a → WellFormed shape a) :
    WellFormed shape a := by
  refine h.holds (fun same => ?_) child
  obtain rfl := Option.some.inj same
  exact hdefault

theorem present_wellFormed [Formed α] [Shapeless α] {o : Optional α}
    (h : PresentRead shape relation t o) : WellFormed shape o := by
  obtain ⟨a, -, rfl⟩ := h
  exact wellFormed_present shape a

variable [Vacant α] [Formed α] [Shapeless α] {o : Optional α}

theorem optional_wellFormed (h : optional shape key relation t o) : WellFormed shape o :=
  given_wellFormed h (wellFormed_absent shape) fun _ => present_wellFormed

theorem block_wellFormed (h : block shape key relation t o) : WellFormed shape o := by
  refine h.holds (fun same => ?_) fun _ => present_wellFormed
  obtain rfl := Option.some.inj same
  exact wellFormed_absent shape

end Entry

open Entry

/-- A slot that is read, or that is beyond the end of the list, has the shape of the run. -/
theorem Leaf.optional_wellFormed [Vacant α] [Formed α] [Shapeless α] {read : Leaf.Reader α}
    {given : Option Tree} {o : Optional α} (h : Leaf.optional shape read given = .ok o) :
    WellFormed shape o := by
  cases given with
  | none =>
      obtain rfl := Except.ok.inj h
      exact wellFormed_absent shape
  | some v =>
      cases hv : v.isNull with
      | true =>
          rw [optional_of_isNull hv] at h
          obtain rfl := Except.ok.inj h
          exact wellFormed_absent shape
      | false =>
          obtain ⟨a, -, rfl⟩ := (optional_eq_ok_iff hv).mp h
          exact wellFormed_present shape a

theorem SlotsRead.wellFormed {slots : Slots} (h : SlotsRead shape t slots) :
    WellFormed shape slots := by
  obtain ⟨items, -, -, each⟩ := h
  refine ⟨slots.length_toList, fun slot hslot => ?_⟩
  obtain ⟨i, hi, rfl⟩ := List.mem_iff_getElem.mp hslot
  rw [Vector.length_toList] at hi
  rw [Vector.getElem_toList]
  exact Leaf.optional_wellFormed (each ⟨i, hi⟩)

theorem ListRead.wellFormed [Formed α] {as : List α} (h : ListRead relation t as)
    (child : ∀ v a, relation v a → WellFormed shape a) : WellFormed shape as := by
  obtain ⟨items, -, each⟩ := h
  intro a ha
  obtain ⟨i, hi, rfl⟩ := List.mem_iff_getElem.mp ha
  obtain ⟨length, get⟩ := List.forall₂_iff_get.mp each
  exact child _ _ (get i (length ▸ hi) hi)

/-! ### Parts of a record -/

theorem Update.ReadFrom.wellFormed {update : Update} (h : update.ReadFrom shape t) :
    WellFormed shape update :=
  ⟨required_wellFormed h.appState fun _ => SlotsRead.wellFormed, optional_wellFormed h.delegate,
    block_wellFormed h.verificationKey, block_wellFormed h.permissions,
    optional_wellFormed h.zkappUri, optional_wellFormed h.tokenSymbol, block_wellFormed h.timing,
    optional_wellFormed h.votingFor⟩

theorem EpochLedger.ReadFrom.wellFormed {ledger : EpochLedger} (h : ledger.ReadFrom shape t) :
    WellFormed shape ledger :=
  ⟨optional_wellFormed h.hash, optional_wellFormed h.totalCurrency⟩

/-- A ledger that is not given is made of absent values of the same shape. -/
theorem EpochData.ReadFrom.wellFormed {epoch : EpochData} (h : epoch.ReadFrom shape t) :
    WellFormed shape epoch := by
  have absent : WellFormed shape (⟨shape.absent, shape.absent⟩ : EpochLedger) :=
    ⟨wellFormed_absent shape, wellFormed_absent shape⟩
  have ledger := given_wellFormed h.ledger absent fun _ => EpochLedger.ReadFrom.wellFormed
  exact ⟨ledger, optional_wellFormed h.seed, optional_wellFormed h.startCheckpoint,
    optional_wellFormed h.lockCheckpoint, optional_wellFormed h.epochLength⟩

theorem NetworkPreconditions.ReadFrom.wellFormed {network : NetworkPreconditions}
    (h : network.ReadFrom shape t) : WellFormed shape network :=
  ⟨optional_wellFormed h.snarkedLedgerHash, optional_wellFormed h.blockchainLength,
    optional_wellFormed h.minWindowDensity, optional_wellFormed h.totalCurrency,
    optional_wellFormed h.globalSlotSinceGenesis,
    required_wellFormed h.stakingEpochData fun _ => EpochData.ReadFrom.wellFormed,
    required_wellFormed h.nextEpochData fun _ => EpochData.ReadFrom.wellFormed⟩

theorem AccountPreconditions.ReadFrom.wellFormed {account : AccountPreconditions}
    (h : account.ReadFrom shape t) : WellFormed shape account :=
  ⟨optional_wellFormed h.balance, optional_wellFormed h.nonce,
    optional_wellFormed h.receiptChainHash, optional_wellFormed h.delegate,
    required_wellFormed h.state fun _ => SlotsRead.wellFormed, optional_wellFormed h.actionState,
    optional_wellFormed h.provedState, optional_wellFormed h.isNew⟩

theorem Preconditions.ReadFrom.wellFormed {conditions : Preconditions}
    (h : conditions.ReadFrom shape t) : WellFormed shape conditions :=
  ⟨required_wellFormed h.network fun _ => NetworkPreconditions.ReadFrom.wellFormed,
    required_wellFormed h.account fun _ => AccountPreconditions.ReadFrom.wellFormed,
    optional_wellFormed h.validWhile⟩

theorem FeePayer.ReadFrom.wellFormed {feePayer : FeePayer} (h : feePayer.ReadFrom shape t) :
    WellFormed shape feePayer := by
  refine ⟨required_wellFormed h.body fun v body => ?_, Shapeless.wellFormed _ _⟩
  exact ⟨Shapeless.wellFormed _ _, Shapeless.wellFormed _ _, optional_wellFormed body.validUntil,
    Shapeless.wellFormed _ _⟩

theorem AccountUpdateBody.ReadFrom.wellFormed {body : AccountUpdateBody}
    (h : body.ReadFrom shape t) : WellFormed shape body := by
  have update := required_wellFormed h.update fun _ => Update.ReadFrom.wellFormed
  have conditions := required_wellFormed h.preconditions fun _ => Preconditions.ReadFrom.wellFormed
  exact ⟨Shapeless.wellFormed _ _, Shapeless.wellFormed _ _, update, Shapeless.wellFormed _ _,
    Shapeless.wellFormed _ _, Shapeless.wellFormed _ _, Shapeless.wellFormed _ _,
    Shapeless.wellFormed _ _, Shapeless.wellFormed _ _, conditions, Shapeless.wellFormed _ _,
    Shapeless.wellFormed _ _, Shapeless.wellFormed _ _, Shapeless.wellFormed _ _⟩

theorem AccountUpdate.ReadFrom.wellFormed {update : AccountUpdate}
    (h : update.ReadFrom shape t) : WellFormed shape update := by
  refine ⟨required_wellFormed h.body fun _ => AccountUpdateBody.ReadFrom.wellFormed, ?_⟩
  rw [h.authorization]
  exact ⟨rfl, rfl⟩

theorem Record.ReadFrom.wellFormed {config : Config} {record : Record}
    (h : record.ReadFrom config t) : WellFormed config.shape record := by
  have feePayer := required_wellFormed h.feePayer fun _ => FeePayer.ReadFrom.wellFormed
  have updates := required_wellFormed h.accountUpdates fun _ read =>
    ListRead.wellFormed read fun _ _ => AccountUpdate.ReadFrom.wellFormed
  exact ⟨trivial, ⟨feePayer, updates, trivial, trivial⟩, Shapeless.wellFormed _ _⟩

/-! ### Records of documents -/

namespace Transcode

/-- **Every record is well formed.** Its optional values have the shape of the run and no other, its
field elements, token symbols and state arrays keep their bounds, nothing authorizes its updates,
and its name and its network are those of the run. -/
theorem ofTree_wellFormed {config : Config} {t : Tree} {out : Outcome}
    (h : ofTree config t = .ok out) :
    WellFormed config.shape out.record ∧ out.record.name = config.name ∧
      out.record.command.network = config.network := by
  obtain ⟨read, -⟩ := ofTree_eq_ok_iff.mp h
  exact ⟨read.wellFormed, read.name, read.network⟩

/-- The record of a document with flags, of which most are cleared. -/
theorem ofTree_wellFormed_labelled :
    ∃ out, ofTree ⟨.flagged, .proper, "vector"⟩ labelledDocument = .ok out ∧
      WellFormed .flagged out.record ∧ out.record.name = "vector" ∧
      out.record.command.network = .testnet := by
  obtain ⟨out, h⟩ := exists_outcome ⟨.flagged, .proper, "vector"⟩ labelledDocument
    (by decide +kernel)
  exact ⟨out, h, ofTree_wellFormed h⟩

end Transcode

end ZkCommand
