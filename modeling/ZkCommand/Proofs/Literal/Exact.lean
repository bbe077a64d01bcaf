import ZkCommand.Proofs.Fingerprint
import ZkCommand.Proofs.Literal.Laid
import ZkCommand.Proofs.Transcode.Exact
import ZkCommand.Proofs.Transcode.UnknownKeys

/-!
# ZkCommand.Proofs.Literal.Exact

**The struct literal of a record tells the record**, except for the proofs and signatures of its
account updates, for which the literal has no place. A record that is read from a document has none,
so the literal and the text of such records distinguish the same records, namely all of them.
-/

namespace ZkCommand

namespace Literal

open ZkCommand.Literal.Layout

/-! ### Account updates -/

/-- The body of an account update, under its number. -/
def numbered (number : Nat) (body : AccountUpdateBody) : List Layout :=
  accountUpdate number ⟨body, .absent⟩

instance {number : Nat} : ToldAll (numbered number) where
  told level a b s t h := by
    simpa [numbered, accountUpdate, struct, field, put_told] using h

/-- The bodies of account updates, each under its number. -/
def bodies (bodies : List AccountUpdateBody) : Layout :=
  vector "account_updates" (bodies.mapIdx fun i body => numbered (i + 1) body).flatten

instance : Told bodies where
  told level a b s t h := by
    have nonempty (i : Nat) (body : AccountUpdateBody) : numbered (i + 1) body ≠ [] :=
      List.cons_ne_nil _ _
    obtain ⟨same, rest⟩ := told_items nonempty (put_vector_inj.mp h)
    exact ⟨same, rest⟩

/-- The literal has no place for the authorization of an account update. -/
theorem accountUpdates_eq (updates : List AccountUpdate) :
    vector "account_updates" (updates.mapIdx fun i u => accountUpdate (i + 1) u).flatten
      = bodies (updates.map AccountUpdate.body) := by
  have same : (updates.mapIdx fun i u => accountUpdate (i + 1) u)
      = (updates.map AccountUpdate.body).mapIdx fun i body => numbered (i + 1) body := by
    refine List.ext_getElem? fun i => ?_
    rw [List.getElem?_mapIdx, List.getElem?_mapIdx, List.getElem?_map, Option.map_map]
    rfl
  rw [bodies, same]

/-! ### Records -/

attribute [ext] ExpectedHashes

instance : Legible expectedHash := ⟨fun _ _ _ _ _ _ => told_between rfl⟩

theorem record_told {r r' : Record} {s t : List Char}
    (h : put 0 (record r) s = put 0 (record r') t) :
    r.name = r'.name ∧ r.command.feePayer = r'.command.feePayer ∧
      r.command.accountUpdates.map AccountUpdate.body
        = r'.command.accountUpdates.map AccountUpdate.body ∧
      r.command.memo = r'.command.memo ∧ r.command.network = r'.command.network ∧
      r.expected = r'.expected ∧ s = t := by
  simpa [record, command, struct, put_field_inj, put_field_between_inj ")" rfl, put_told,
    accountUpdates_eq, ExpectedHashes.ext_iff, and_assoc] using h

end Literal

/-- An account update without its authorization. -/
def AccountUpdate.unauthorized (u : AccountUpdate) : AccountUpdate := ⟨u.body, .absent⟩

namespace Record

/-- A record without the authorizations of its account updates. -/
def unauthorized (r : Record) : Record :=
  { r with command := { r.command with
      accountUpdates := r.command.accountUpdates.map AccountUpdate.unauthorized } }

theorem literal_unauthorized (r : Record) : r.unauthorized.literal = r.literal := by
  have bodies : r.unauthorized.command.accountUpdates.map AccountUpdate.body
      = r.command.accountUpdates.map AccountUpdate.body := by
    rw [unauthorized, List.map_map]
    rfl
  have layout : Literal.record r.unauthorized = Literal.record r := by
    simp only [Literal.record, Literal.command, Literal.accountUpdates_eq, bodies]
    rfl
  rw [literal, literal, layout]

/-- **The literal tells all of a record but the authorizations of its account updates.** -/
theorem literal_eq_iff {r r' : Record} :
    r.literal = r'.literal ↔ r.unauthorized = r'.unauthorized := by
  constructor
  · intro h
    rw [literal, literal] at h
    have laid : Literal.Layout.put 0 (Literal.record r) []
        = Literal.Layout.put 0 (Literal.record r') [] := by
      rw [Literal.Layout.put, Literal.Layout.put, h]
    obtain ⟨name, feePayer, bodies, memo, network, expected, -⟩ := Literal.record_told laid
    have updates : r.command.accountUpdates.map AccountUpdate.unauthorized
        = r'.command.accountUpdates.map AccountUpdate.unauthorized := by
      have mapped := congrArg (List.map fun body => AccountUpdate.mk body .absent) bodies
      rw [List.map_map, List.map_map] at mapped
      exact mapped
    simp only [unauthorized, name, feePayer, updates, memo, network, expected]
  · intro h
    rw [← literal_unauthorized r, h, literal_unauthorized]

theorem map_unauthorized {shape : Shape} {items : List Tree} {updates : List AccountUpdate}
    (h : List.Forall₂ (AccountUpdate.ReadFrom shape) items updates) :
    updates.map AccountUpdate.unauthorized = updates := by
  induction h with
  | nil => rfl
  | cons first _ ih =>
      rw [List.map_cons, ih, AccountUpdate.unauthorized, ← first.authorization]

/-- A record that is read from a document has no authorizations. -/
theorem unauthorized_of_readFrom {config : Config} {t : Tree} {r : Record}
    (h : r.ReadFrom config t) : r.unauthorized = r := by
  obtain ⟨-, updates⟩ := h.accountUpdates
  rw [Access.child?_required] at updates
  cases found : t.get? "accountUpdates" with
  | none =>
      rw [found] at updates
      cases updates
  | some v =>
      rw [found] at updates
      obtain ⟨items, -, all⟩ := updates
      rw [unauthorized, map_unauthorized all]

end Record

/-! ### Records of documents -/

namespace Transcode

/-- **The literal and the text of records distinguish the same records.** Two records that are
transcoded, from any documents and under any settings, have the same literal if and only if they are
the same, and so if and only if they have the same text in either layout. -/
theorem ofTree_literal_eq_iff {config config' : Config} {t t' : Tree} {out out' : Outcome}
    (h : ofTree config t = .ok out) (h' : ofTree config' t' = .ok out') :
    (out.record.literal = out'.record.literal ↔ out.record = out'.record) ∧
      (out.record.literal = out'.record.literal ↔
        (toTree out.record).compact = (toTree out'.record).compact) ∧
      (out.record.literal = out'.record.literal ↔
        (toTree out.record).pretty = (toTree out'.record).pretty) := by
  have told : out.record.literal = out'.record.literal ↔ out.record = out'.record := by
    rw [Record.literal_eq_iff, Record.unauthorized_of_readFrom (ofTree_eq_ok_iff.mp h).1,
      Record.unauthorized_of_readFrom (ofTree_eq_ok_iff.mp h').1]
  rw [told]
  exact ⟨Iff.rfl, Record.compact_inj.symm, Record.pretty_inj.symm⟩

/-- A document whose verification key is a text with an escaped quote. -/
def escapedQuote : Tree := withVerificationKey (.map [("data", .str "\\\"")])

/-- A quote is not written like an escaped quote. -/
theorem ofTree_literal_ne_escapedQuote :
    ∃ out out',
      ofTree ⟨.tagged, .simple, ""⟩ (withVerificationKey (.map [("data", .str "\"")])) = .ok out ∧
      ofTree ⟨.tagged, .simple, ""⟩ escapedQuote = .ok out' ∧
      out.record.literal ≠ out'.record.literal := by
  obtain ⟨out, h⟩ := exists_outcome ⟨.tagged, .simple, ""⟩
    (withVerificationKey (.map [("data", .str "\"")])) (by decide +kernel)
  obtain ⟨out', h'⟩ := exists_outcome ⟨.tagged, .simple, ""⟩ escapedQuote (by decide +kernel)
  have differ : (ofTree ⟨.tagged, .simple, ""⟩
        (withVerificationKey (.map [("data", .str "\"")]))).map Outcome.record
      ≠ (ofTree ⟨.tagged, .simple, ""⟩ escapedQuote).map Outcome.record := by
    decide +kernel
  rw [h, h'] at differ
  refine ⟨out, out', h, h', fun same => differ ?_⟩
  exact congrArg Except.ok ((ofTree_literal_eq_iff h h').1.mp same)

end Transcode

end ZkCommand
