import Mathlib.Data.List.Forall2
import ZkCommand.Command.Record

/-!
# ZkCommand.Proofs.Command.Shaped

**Records in the two shapes.** A record in which every optional value has a flag holds the same
command as a record without flags: `tagged` puts a value for a set flag and nothing for a cleared
one, wherever in the record the flag stands. What stands beside a cleared flag says nothing, and
`Flagged` asks that it is the vacant payload of its type, so that no record has two flagged forms.
-/

namespace ZkCommand

/-- Values that hold optional values. -/
class Shaped (α : Type) where
  /-- The value without flags. -/
  tagged : α → α
  /-- Every optional value has a flag, and a vacant payload beside a cleared one. -/
  Flagged : α → Prop

namespace Optional

variable {α : Type}

/-- An optional value without a flag. -/
def withoutFlag : Optional α → Optional α
  | .tagged value => .tagged value
  | .flagged true payload => .tagged (some payload)
  | .flagged false _ => .tagged none

/-- An optional value has a flag, and a vacant payload beside a cleared one. -/
def HasFlag [Vacant α] : Optional α → Prop
  | .tagged _ => False
  | .flagged true _ => True
  | .flagged false payload => payload = Vacant.vacant

end Optional

/-! ### Containers -/

section Containers

variable {α : Type}

instance [Vacant α] : Shaped (Optional α) := ⟨Optional.withoutFlag, Optional.HasFlag⟩

instance [Shaped α] : Shaped (List α) :=
  ⟨fun items => items.map Shaped.tagged, fun items => ∀ item ∈ items, Shaped.Flagged item⟩

instance [Shaped α] {n : Nat} : Shaped (Vector α n) :=
  ⟨fun items => items.map Shaped.tagged, fun items => ∀ i : Fin n, Shaped.Flagged items[i]⟩

end Containers

/-! ### Updates -/

open Shaped (tagged Flagged)

instance : Shaped Update where
  tagged u :=
    { appState := tagged u.appState, delegate := tagged u.delegate
      verificationKey := tagged u.verificationKey, permissions := tagged u.permissions
      zkappUri := tagged u.zkappUri, tokenSymbol := tagged u.tokenSymbol
      timing := tagged u.timing, votingFor := tagged u.votingFor }
  Flagged u :=
    Flagged u.appState ∧ Flagged u.delegate ∧ Flagged u.verificationKey ∧ Flagged u.permissions
      ∧ Flagged u.zkappUri ∧ Flagged u.tokenSymbol ∧ Flagged u.timing ∧ Flagged u.votingFor

/-! ### Preconditions -/

instance : Shaped EpochLedger where
  tagged l := { hash := tagged l.hash, totalCurrency := tagged l.totalCurrency }
  Flagged l := Flagged l.hash ∧ Flagged l.totalCurrency

instance : Shaped EpochData where
  tagged e :=
    { ledger := tagged e.ledger, seed := tagged e.seed
      startCheckpoint := tagged e.startCheckpoint, lockCheckpoint := tagged e.lockCheckpoint
      epochLength := tagged e.epochLength }
  Flagged e :=
    Flagged e.ledger ∧ Flagged e.seed ∧ Flagged e.startCheckpoint ∧ Flagged e.lockCheckpoint
      ∧ Flagged e.epochLength

instance : Shaped NetworkPreconditions where
  tagged n :=
    { snarkedLedgerHash := tagged n.snarkedLedgerHash
      blockchainLength := tagged n.blockchainLength
      minWindowDensity := tagged n.minWindowDensity, totalCurrency := tagged n.totalCurrency
      globalSlotSinceGenesis := tagged n.globalSlotSinceGenesis
      stakingEpochData := tagged n.stakingEpochData, nextEpochData := tagged n.nextEpochData }
  Flagged n :=
    Flagged n.snarkedLedgerHash ∧ Flagged n.blockchainLength ∧ Flagged n.minWindowDensity
      ∧ Flagged n.totalCurrency ∧ Flagged n.globalSlotSinceGenesis ∧ Flagged n.stakingEpochData
      ∧ Flagged n.nextEpochData

instance : Shaped AccountPreconditions where
  tagged a :=
    { balance := tagged a.balance, nonce := tagged a.nonce
      receiptChainHash := tagged a.receiptChainHash, delegate := tagged a.delegate
      state := tagged a.state, actionState := tagged a.actionState
      provedState := tagged a.provedState, isNew := tagged a.isNew }
  Flagged a :=
    Flagged a.balance ∧ Flagged a.nonce ∧ Flagged a.receiptChainHash ∧ Flagged a.delegate
      ∧ Flagged a.state ∧ Flagged a.actionState ∧ Flagged a.provedState ∧ Flagged a.isNew

instance : Shaped Preconditions where
  tagged p :=
    { network := tagged p.network, account := tagged p.account
      validWhile := tagged p.validWhile }
  Flagged p := Flagged p.network ∧ Flagged p.account ∧ Flagged p.validWhile

/-! ### Commands and records -/

instance : Shaped FeePayerBody where
  tagged b := { b with validUntil := tagged b.validUntil }
  Flagged b := Flagged b.validUntil

instance : Shaped FeePayer where
  tagged p := { p with body := tagged p.body }
  Flagged p := Flagged p.body

instance : Shaped AccountUpdateBody where
  tagged b := { b with update := tagged b.update, preconditions := tagged b.preconditions }
  Flagged b := Flagged b.update ∧ Flagged b.preconditions

instance : Shaped AccountUpdate where
  tagged u := { u with body := tagged u.body }
  Flagged u := Flagged u.body

instance : Shaped Command where
  tagged c :=
    { c with feePayer := tagged c.feePayer, accountUpdates := tagged c.accountUpdates }
  Flagged c := Flagged c.feePayer ∧ Flagged c.accountUpdates

instance : Shaped Record where
  tagged r := { r with command := tagged r.command }
  Flagged r := Flagged r.command

/-! ### One value in both shapes -/

variable {α : Type}

/-- A flagged value and the same value without flags. -/
def Views [Shaped α] (flagged plain : α) : Prop := Flagged flagged ∧ tagged flagged = plain

theorem views_absent [Vacant α] :
    Views (Shape.flagged.absent : Optional α) Shape.tagged.absent := ⟨rfl, rfl⟩

theorem views_present [Vacant α] (value : α) :
    Views (Shape.flagged.present value) (Shape.tagged.present value) := ⟨trivial, rfl⟩

theorem views_list [Shaped α] {flagged plain : List α} (h : List.Forall₂ Views flagged plain) :
    Views flagged plain := by
  induction h with
  | nil => exact ⟨fun _ hi => absurd hi List.not_mem_nil, rfl⟩
  | cons head _ ih =>
      obtain ⟨headFlagged, rfl⟩ := head
      obtain ⟨restFlagged, rfl⟩ := ih
      exact ⟨List.forall_mem_cons.mpr ⟨headFlagged, restFlagged⟩, rfl⟩

theorem views_vector [Shaped α] {n : Nat} {flagged plain : Vector α n}
    (h : ∀ i : Fin n, Views flagged[i] plain[i]) : Views flagged plain := by
  refine ⟨fun i => (h i).1, Vector.ext fun i hi => ?_⟩
  exact (Vector.getElem_map _ hi).trans (h ⟨i, hi⟩).2

end ZkCommand
