import ZkCommand.Proofs.Leaf.Printed
import ZkCommand.Proofs.Reading.Record

/-!
# ZkCommand.Proofs.Reading.Reread

**What has been read is read again from its own tree.** The tagged shape writes an absent value as
null, which stands for absent wherever it may, and no value that is there has a tree that could be
taken for an absent one (`Solid`). So each structure of parts holds of the tree of the value itself
(`Rereads`), part by part, under the same keys.
-/

namespace ZkCommand

variable {α β : Type} [ToTree α]

/-- What is read from a document value is also read from its own tree. -/
def Rereads (relation : Tree → α → Prop) : Prop := ∀ t a, relation t a → relation (toTree a) a

/-- Values whose trees are neither null nor the empty mapping. -/
class Solid (α : Type) [ToTree α] : Prop where
  solid : ∀ a : α, (toTree a).isNull = false ∧ Node.isEmptyMapping (toTree a) = false

/-! ### Values under keys -/

namespace Entry

variable {relation : Tree → α → Prop} {key : String} {t t' : Tree} {a : α}

theorem required_again (again : Rereads relation) (h : required key relation t a)
    (found : t'.get? key = some (toTree a)) : required key relation t' a := by
  obtain ⟨v, -, read⟩ := required_iff.mp h
  exact required_iff.mpr ⟨_, found, again v a read⟩

/-- A default has to be a value that could have been read. -/
theorem given_again [Solid α] (again : Rereads relation) {default : α}
    (readable : ∃ v, relation v default) (h : given default key relation t a)
    (found : t'.get? key = some (toTree a)) : given default key relation t' a := by
  obtain ⟨-, h⟩ := h
  have there : (Access.given default).child? key t' = some (toTree a) := by
    rw [Access.child?_given, found, Option.filter_some, (Solid.solid a).1]
    rfl
  refine ⟨kind_of_found found, ?_⟩
  rw [there]
  cases hc : (Access.given default).child? key t with
  | none =>
      rw [hc] at h
      obtain rfl : default = a := Option.some.inj h
      obtain ⟨v, read⟩ := readable
      exact again v _ read
  | some v =>
      rw [hc] at h
      exact again v a h

/-- In the tagged shape an optional value is written as null or as the value itself. -/
theorem present_again {access : Access (Optional α)}
    (absent : access.default? = some (.tagged none))
    (null : access.counts .null = false) (counts : ∀ b : α, access.counts (toTree b) = true)
    (again : Rereads relation) {o : Optional α}
    (h : access.Reads key (PresentRead .tagged relation) t o)
    (found : t'.get? key = some (toTree o)) :
    access.Reads key (PresentRead .tagged relation) t' o := by
  obtain ⟨-, h⟩ := h
  refine ⟨kind_of_found found, ?_⟩
  rw [Access.child?, found]
  cases hc : access.child? key t with
  | none =>
      rw [hc] at h
      -- Nothing was given, so null is written, which does not count.
      obtain rfl : .tagged none = o := Option.some.inj (absent.symm.trans h)
      have hidden : (some (toTree (.tagged none : Optional α))).filter access.counts = none := by
        rw [Option.filter_some, if_neg]
        exact fun there => Bool.false_ne_true (null.symm.trans there)
      rw [hidden]
      exact absent
  | some v =>
      rw [hc] at h
      -- The value that was given is written as itself, and that counts.
      obtain ⟨b, read, rfl⟩ := h
      have shown : (some (toTree (Shape.tagged.present b))).filter access.counts
          = some (toTree b) := by
        rw [Option.filter_some, if_pos]
        · rfl
        · exact counts b
      rw [shown]
      exact ⟨b, again v b read, rfl⟩

variable [Vacant α] [Solid α]

theorem optional_again {o : Optional α} (again : Rereads relation)
    (h : optional .tagged key relation t o) (found : t'.get? key = some (toTree o)) :
    optional .tagged key relation t' o := by
  refine present_again rfl rfl (fun b => ?_) again h found
  rw [Access.counts, (Solid.solid b).1]
  rfl

theorem block_again {o : Optional α} (again : Rereads relation)
    (h : block .tagged key relation t o) (found : t'.get? key = some (toTree o)) :
    block .tagged key relation t' o := by
  refine present_again rfl rfl (fun b => ?_) again h found
  rw [Access.counts, (Solid.solid b).1, (Solid.solid b).2]
  rfl

theorem level_of_found {level : Auth} (found : t'.get? key = some (toTree level)) :
    Entry.level key t' level := by
  refine ⟨kind_of_found found, ?_⟩
  rw [Access.child?_level, found]
  exact ⟨_, Leaf.auth_toTree level, rfl⟩

end Entry

/-! ### Leaves, lists and slots -/

instance : Solid Fp := ⟨fun _ => ⟨rfl, rfl⟩⟩
instance : Solid Bool := ⟨fun _ => ⟨rfl, rfl⟩⟩
instance : Solid String := ⟨fun _ => ⟨rfl, rfl⟩⟩
instance {width : Nat} : Solid (BitVec width) := ⟨fun _ => ⟨rfl, rfl⟩⟩
instance : Solid ActionState := ⟨fun _ => ⟨rfl, rfl⟩⟩
instance : Solid TokenSymbol := ⟨fun _ => ⟨rfl, rfl⟩⟩
instance : Solid Uri := ⟨fun _ => ⟨rfl, rfl⟩⟩
instance : Solid PublicKey := ⟨fun key => by cases key <;> exact ⟨rfl, rfl⟩⟩
instance {width : Nat} : Solid (Range width) := ⟨fun _ => ⟨rfl, rfl⟩⟩
instance : Solid VerificationKey := ⟨fun _ => ⟨rfl, rfl⟩⟩
instance : Solid SetVerificationKey := ⟨fun _ => ⟨rfl, rfl⟩⟩
instance : Solid Permissions := ⟨fun _ => ⟨rfl, rfl⟩⟩
instance : Solid Timing := ⟨fun _ => ⟨rfl, rfl⟩⟩
instance : Solid EpochLedger := ⟨fun _ => ⟨rfl, rfl⟩⟩

open Leaf (Gives Settles)

/-- A leaf whose reader takes every printed value is read again. -/
theorem rereads_gives {read : Leaf.Reader α} (printed : ∀ a, read (toTree a) = .ok a) :
    Rereads (Gives read) :=
  fun _ a _ => printed a

theorem rereads_word (width : Nat) : Rereads (Gives (Leaf.word width)) :=
  rereads_gives Leaf.word_toTree

theorem rereads_field : Rereads (Gives Leaf.field) := rereads_gives Leaf.field_toTree

theorem rereads_hash (version : UInt8) : Rereads (Gives (Leaf.hash version)) :=
  rereads_gives (Leaf.hash_toTree version)

theorem rereads_actionState : Rereads (Gives Leaf.actionState) :=
  rereads_gives Leaf.actionState_toTree

theorem rereads_publicKey : Rereads (Gives Leaf.publicKey) := rereads_gives Leaf.publicKey_toTree

theorem rereads_tokenSymbol : Rereads (Gives Leaf.tokenSymbol) :=
  rereads_gives Leaf.tokenSymbol_toTree

theorem rereads_uri : Rereads (Gives Leaf.uri) := rereads_gives fun _ => rfl

theorem rereads_string : Rereads (Gives Leaf.string) := rereads_gives fun _ => rfl

theorem rereads_bool : Rereads (Gives Leaf.bool) := rereads_gives fun _ => rfl

theorem rereads_sign : Rereads (Settles Leaf.sign) := fun _ s _ => ⟨_, Leaf.sign_toTree s, rfl⟩

theorem rereads_list {relation : Tree → α → Prop} (again : Rereads relation) :
    Rereads (ListRead relation) := by
  intro t as h
  obtain ⟨items, -, each⟩ := h
  refine ⟨as.map toTree, rfl, ?_⟩
  induction each with
  | nil => exact .nil
  | cons read _ ih => exact .cons (again _ _ read) ih

theorem optional_toTree {t : Option Tree} {o : Optional Fp}
    (h : Leaf.optional .tagged Leaf.field t = .ok o) :
    Leaf.optional .tagged Leaf.field (some (toTree o)) = .ok o := by
  have tagged : ∃ value, o = .tagged value := by
    cases t with
    | none => exact ⟨none, (Except.ok.inj h).symm⟩
    | some v =>
        cases hv : v.isNull with
        | true =>
            rw [Leaf.optional_of_isNull hv] at h
            exact ⟨none, (Except.ok.inj h).symm⟩
        | false =>
            obtain ⟨x, -, same⟩ := (Leaf.optional_eq_ok_iff hv).mp h
            exact ⟨some x, same.symm⟩
  obtain ⟨value, rfl⟩ := tagged
  cases value with
  | none => rfl
  | some x => exact (Leaf.optional_eq_ok_iff (Solid.solid x).1).mpr ⟨x, Leaf.field_toTree x, rfl⟩

theorem rereads_slots : Rereads (SlotsRead .tagged) := by
  intro t slots h
  obtain ⟨items, -, -, each⟩ := h
  -- Eight slots are written, so nothing stands after them.
  refine ⟨slots.toList.map toTree, rfl, ?_, fun i => ?_⟩
  · intro v hv
    rw [List.drop_eq_nil_of_le (by rw [List.length_map, Vector.length_toList])] at hv
    cases hv
  · have slot := optional_toTree (each i)
    rw [List.getElem?_map, Vector.getElem?_toList, Vector.getElem?_eq_getElem i.isLt]
    exact slot

/-! ### Records -/

open Entry

theorem rereads_range (width : Nat) : Rereads (α := Range width) Range.ReadFrom := by
  intro t range h
  exact ⟨required_again (rereads_word width) h.lower rfl,
    required_again (rereads_word width) h.upper rfl⟩

theorem rereads_verificationKey : Rereads VerificationKey.ReadFrom := by
  intro t verificationKey h
  exact ⟨given_again rereads_string ⟨.str "", rfl⟩ h.data rfl,
    given_again rereads_field ⟨.null, rfl⟩ h.hash rfl⟩

theorem rereads_setVerificationKey : Rereads SetVerificationKey.ReadFrom := by
  intro t policy h
  exact ⟨level_of_found rfl,
    given_again (rereads_word 32) ⟨toTree (0 : BitVec 32), Leaf.word_toTree 0⟩ h.txnVersion rfl⟩

theorem rereads_permissions : Rereads Permissions.ReadFrom := by
  intro t permissions h
  have noPolicy : SetVerificationKey.ReadFrom (.map []) ⟨.none, 0⟩ := ⟨⟨rfl, rfl⟩, ⟨rfl, rfl⟩⟩
  have policy : given ⟨.none, 0⟩ "setVerificationKey" SetVerificationKey.ReadFrom
      (toTree permissions) permissions.setVerificationKey :=
    given_again rereads_setVerificationKey ⟨_, noPolicy⟩ h.setVerificationKey rfl
  exact ⟨level_of_found rfl, level_of_found rfl, level_of_found rfl, level_of_found rfl,
    level_of_found rfl, level_of_found rfl, policy, level_of_found rfl, level_of_found rfl,
    level_of_found rfl, level_of_found rfl, level_of_found rfl, level_of_found rfl⟩

theorem rereads_timing : Rereads Timing.ReadFrom := by
  intro t timing h
  exact ⟨required_again (rereads_word 64) h.initialMinimumBalance rfl,
    required_again (rereads_word 32) h.cliffTime rfl,
    required_again (rereads_word 64) h.cliffAmount rfl,
    required_again (rereads_word 32) h.vestingPeriod rfl,
    required_again (rereads_word 64) h.vestingIncrement rfl⟩

theorem rereads_update : Rereads (Update.ReadFrom .tagged) := by
  intro t update h
  exact ⟨required_again rereads_slots h.appState rfl,
    optional_again rereads_publicKey h.delegate rfl,
    block_again rereads_verificationKey h.verificationKey rfl,
    block_again rereads_permissions h.permissions rfl,
    optional_again rereads_uri h.zkappUri rfl,
    optional_again rereads_tokenSymbol h.tokenSymbol rfl,
    block_again rereads_timing h.timing rfl,
    optional_again (rereads_hash _) h.votingFor rfl⟩

theorem rereads_epochLedger : Rereads (EpochLedger.ReadFrom .tagged) := by
  intro t ledger h
  exact ⟨optional_again (rereads_hash _) h.hash rfl,
    optional_again (rereads_range 64) h.totalCurrency rfl⟩

theorem rereads_epoch : Rereads (EpochData.ReadFrom .tagged) := by
  intro t epoch h
  have noConditions : EpochLedger.ReadFrom .tagged (.map [])
      ⟨Shape.tagged.absent, Shape.tagged.absent⟩ := ⟨⟨rfl, rfl⟩, ⟨rfl, rfl⟩⟩
  exact ⟨given_again rereads_epochLedger ⟨_, noConditions⟩ h.ledger rfl,
    optional_again (rereads_hash _) h.seed rfl,
    optional_again (rereads_hash _) h.startCheckpoint rfl,
    optional_again (rereads_hash _) h.lockCheckpoint rfl,
    optional_again (rereads_range 32) h.epochLength rfl⟩

theorem rereads_network : Rereads (NetworkPreconditions.ReadFrom .tagged) := by
  intro t network h
  exact ⟨optional_again (rereads_hash _) h.snarkedLedgerHash rfl,
    optional_again (rereads_range 32) h.blockchainLength rfl,
    optional_again (rereads_range 32) h.minWindowDensity rfl,
    optional_again (rereads_range 64) h.totalCurrency rfl,
    optional_again (rereads_range 32) h.globalSlotSinceGenesis rfl,
    required_again rereads_epoch h.stakingEpochData rfl,
    required_again rereads_epoch h.nextEpochData rfl⟩

theorem rereads_account : Rereads (AccountPreconditions.ReadFrom .tagged) := by
  intro t account h
  exact ⟨optional_again (rereads_range 64) h.balance rfl,
    optional_again (rereads_range 32) h.nonce rfl,
    optional_again (rereads_hash _) h.receiptChainHash rfl,
    optional_again rereads_publicKey h.delegate rfl,
    required_again rereads_slots h.state rfl,
    optional_again rereads_actionState h.actionState rfl,
    optional_again rereads_bool h.provedState rfl,
    optional_again rereads_bool h.isNew rfl⟩

theorem rereads_preconditions : Rereads (Preconditions.ReadFrom .tagged) := by
  intro t conditions h
  exact ⟨required_again rereads_network h.network rfl,
    required_again rereads_account h.account rfl,
    optional_again (rereads_range 32) h.validWhile rfl⟩

theorem rereads_feePayerBody : Rereads (FeePayerBody.ReadFrom .tagged) := by
  intro t body h
  exact ⟨required_again rereads_publicKey h.publicKey rfl,
    required_again (rereads_word 64) h.fee rfl,
    optional_again (rereads_word 32) h.validUntil rfl,
    required_again (rereads_word 32) h.nonce rfl⟩

theorem rereads_feePayer : Rereads (FeePayer.ReadFrom .tagged) := by
  intro t feePayer h
  exact ⟨required_again rereads_feePayerBody h.body rfl,
    required_again rereads_string h.authorization rfl⟩

theorem rereads_balanceChange : Rereads BalanceChange.ReadFrom := by
  intro t change h
  exact ⟨required_again (rereads_word 64) h.magnitude rfl, required_again rereads_sign h.sgn rfl⟩

theorem rereads_mayUseToken : Rereads MayUseToken.ReadFrom := by
  intro t tokenUse h
  exact ⟨required_again rereads_bool h.parentsOwnToken rfl,
    required_again rereads_bool h.inheritFromParent rfl⟩

theorem rereads_authorizationKind : Rereads AuthorizationKind.ReadFrom := by
  intro t kind h
  exact ⟨required_again rereads_bool h.isSigned rfl,
    required_again rereads_bool h.isProved rfl,
    required_again rereads_field h.verificationKeyHash rfl⟩

theorem rereads_accountUpdateBody : Rereads (AccountUpdateBody.ReadFrom .tagged) := by
  intro t body h
  have fieldLists : Rereads (ListRead (ListRead (Gives Leaf.field))) :=
    rereads_list (rereads_list rereads_field)
  exact ⟨required_again rereads_publicKey h.publicKey rfl,
    required_again (rereads_hash _) h.tokenId rfl,
    required_again rereads_update h.update rfl,
    required_again rereads_balanceChange h.balanceChange rfl,
    required_again rereads_bool h.incrementNonce rfl,
    required_again fieldLists h.events rfl,
    required_again fieldLists h.actions rfl,
    required_again rereads_field h.callData rfl,
    required_again (rereads_word 32) h.callDepth rfl,
    required_again rereads_preconditions h.preconditions rfl,
    required_again rereads_bool h.useFullCommitment rfl,
    required_again rereads_bool h.implicitAccountCreationFee rfl,
    required_again rereads_mayUseToken h.mayUseToken rfl,
    required_again rereads_authorizationKind h.authorizationKind rfl⟩

theorem rereads_accountUpdate : Rereads (AccountUpdate.ReadFrom .tagged) := by
  intro t update h
  exact ⟨required_again rereads_accountUpdateBody h.body rfl, h.authorization⟩

end ZkCommand
