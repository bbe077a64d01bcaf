import ZkCommand.Proofs.Transcode.Diagnostics
import ZkCommand.Proofs.Transcode.Faults

/-!
# ZkCommand.Proofs.Transcode.Variants

**The variant decides on the network and on the expected hashes, and on nothing else.** A run in the
proper variant is a run in the simple one that goes on to read the four hashes. It comes to them
last, so that what is wrong with them is fatal there and only there, and never hides a failure of
another part.
-/

namespace ZkCommand

/-! ### Expected hashes -/

/-- The keys of the expected hashes, in the order in which they are read. -/
def Schema.expectedKeys : List String :=
  ["expectedMemoHash", "expectedFeePayerHash", "expectedAccountUpdatesCommitment",
    "expectedFullCommitment"]

/-- The expected hashes in the order of their keys. -/
def ExpectedHashes.toList (hashes : ExpectedHashes) : List Fp :=
  [hashes.memoHash, hashes.feePayerHash, hashes.accountUpdatesCommitment, hashes.fullCommitment]

/-- The hash that a document expects under a key: zero if the key is missing or null. -/
def Tree.hashAt (t : Tree) (key : String) : Except Leaf.Fault Fp :=
  match t.get? key with
  | none => .ok Fp.zero
  | some .null => .ok Fp.zero
  | some v => Leaf.field v

/-- The failure of a document at a hash that cannot be read. -/
def Tree.hashFault? (t : Tree) (key : String) : Option Walk.Fault :=
  match t.hashAt key with
  | .ok _ => none
  | .error cause => some ⟨⟨[.key key]⟩, .leaf cause⟩

/-- A record on the test network, with expected hashes. -/
def Record.expecting (record : Record) (hashes : ExpectedHashes) : Record :=
  { record with
    command := { record.command with network := .testnet }
    expected := hashes }

section Hashes

variable {t : Tree} {key : String}

theorem Tree.hashAt_eq (t : Tree) (key : String) :
    t.hashAt key = match (Access.given Fp.zero).child? key t with
      | none => .ok Fp.zero
      | some v => Leaf.field v := by
  rw [hashAt, Access.child?_given]
  cases t.get? key with
  | none => rfl
  | some v => cases v <;> rfl

theorem Tree.given_iff_hashAt (mapping : t.kind = .mapping) {hash : Fp} :
    Entry.given Fp.zero key (Leaf.Gives Leaf.field) t hash ↔ t.hashAt key = .ok hash := by
  rw [Entry.given, Access.Reads, hashAt_eq, and_iff_right mapping]
  cases (Access.given Fp.zero).child? key t with
  | none => simp [Access.default?]
  | some v => exact Iff.rfl

theorem ExpectedHashes.readFrom_iff (mapping : t.kind = .mapping) {hashes : ExpectedHashes} :
    hashes.ReadFrom t ↔ Schema.expectedKeys.map t.hashAt = hashes.toList.map .ok := by
  simp only [Schema.expectedKeys, toList, List.map_cons, List.map_nil, List.cons.injEq, and_true,
    ← Tree.given_iff_hashAt mapping]
  constructor
  · intro h
    exact ⟨h.memoHash, h.feePayerHash, h.accountUpdatesCommitment, h.fullCommitment⟩
  · intro h
    obtain ⟨memoHash, feePayerHash, accountUpdatesCommitment, fullCommitment⟩ := h
    exact ⟨memoHash, feePayerHash, accountUpdatesCommitment, fullCommitment⟩

theorem Tree.hashFault?_eq_none_iff :
    t.hashFault? key = none ↔ ∃ hash, t.hashAt key = .ok hash := by
  unfold hashFault?
  cases t.hashAt key <;> simp

theorem Tree.hashFault?_eq_some_iff {fault : Walk.Fault} : t.hashFault? key = some fault ↔
    ∃ cause, t.hashAt key = .error cause ∧ fault = ⟨⟨[.key key]⟩, .leaf cause⟩ := by
  unfold hashFault?
  cases t.hashAt key <;> simp [eq_comm]

namespace Reading

theorem fault?_hash (mapping : t.kind = .mapping) :
    ((field (.given Fp.zero) key (leaf Leaf.field)).walk (.root t)).fault? = t.hashFault? key := by
  rw [walk, Node.fault?_access, Node.fault?_mapping_of_kind mapping, Option.none_or,
    Tree.hashFault?, Tree.hashAt_eq]
  simp only [Node.root]
  cases (Access.given Fp.zero).child? key t with
  | none => rfl
  | some v =>
      simp only [walk, Node.leaf]
      cases Leaf.field v <;> rfl

/-- The hashes of a document fail at the first one that cannot be read. -/
theorem fault?_expectedHashes (mapping : t.kind = .mapping) :
    (expectedHashes.walk (.root t)).fault? = Schema.expectedKeys.findSome? t.hashFault? := by
  have done : ∀ {α : Type} (a : α), ((done a).walk (.root t)).fault? = none := fun _ => rfl
  rw [expectedHashes]
  simp only [fault?_seq, fault?_hash mapping, done, Schema.expectedKeys, findSome?_cons_or,
    List.findSome?_nil]

end Reading

end Hashes

/-! ### The two variants -/

namespace Transcode

variable {shape : Shape} {name : String} {t : Tree}

/-- The proper variant fails where the simple one does, and else in its expected hashes. -/
theorem fault?_proper :
    (walk ⟨shape, .proper, name⟩ t).fault? = (walk ⟨shape, .simple, name⟩ t).fault?.or
      (Reading.expectedHashes.walk (.root t)).fault? := by
  have simple : ((Reading.expected .simple).walk (.root t)).fault? = none := rfl
  rw [fault?_walk, fault?_walk, Reading.fault?_document, Reading.fault?_document, simple]
  simp only [Option.or_none, Option.or_assoc]
  rfl

/-- The parts of a record in the proper variant are those in the simple one but for the network and
the expected hashes. -/
theorem readFrom_proper_iff {record : Record} (h : record.ReadFrom ⟨shape, .simple, name⟩ t)
    {found : Record} : found.ReadFrom ⟨shape, .proper, name⟩ t ↔
      ∃ hashes : ExpectedHashes, hashes.ReadFrom t ∧ found = record.expecting hashes := by
  have complete : ∀ hashes : ExpectedHashes, hashes.ReadFrom t →
      (record.expecting hashes).ReadFrom ⟨shape, .proper, name⟩ t := fun hashes read =>
    { name := h.name
      feePayer := h.feePayer
      accountUpdates := h.accountUpdates
      memo := h.memo
      network := rfl
      expected := read }
  constructor
  · intro hfound
    refine ⟨found.expected, hfound.expected, ?_⟩
    -- A document holds one record only.
    have same := outcome_walk_iff.mpr (complete _ hfound.expected)
    rw [outcome_walk_iff.mpr hfound] at same
    exact Except.ok.inj same
  · intro hfound
    obtain ⟨hashes, read, rfl⟩ := hfound
    exact complete hashes read

/-- **Choosing the variant changes only the network and the expected hashes.** What fails in the
simple variant fails in the same way in the proper one. What does not has its record there too if
and only if each of the four hashes is missing, null or a field element, and the record is then the
same but for the network and the hashes, with the same diagnostics. Otherwise the first hash that
cannot be read is the failure. -/
theorem ofTree_simple_proper (t : Tree) (shape : Shape) (name : String) :
    (∃ fault, ofTree ⟨shape, .simple, name⟩ t = .error fault ∧
      ofTree ⟨shape, .proper, name⟩ t = .error fault) ∨
    ∃ out, ofTree ⟨shape, .simple, name⟩ t = .ok out ∧
      out.record.command.network = .mainnet ∧ out.record.expected = .zero ∧
      ((∃ found, ofTree ⟨shape, .proper, name⟩ t = .ok found) ↔
        ∀ key ∈ Schema.expectedKeys, ∃ hash, t.hashAt key = .ok hash) ∧
      (∀ found, ofTree ⟨shape, .proper, name⟩ t = .ok found ↔
        ∃ hashes : ExpectedHashes, Schema.expectedKeys.map t.hashAt = hashes.toList.map .ok ∧
          found = ⟨out.record.expecting hashes, out.diagnostics⟩) ∧
      ∀ fault, ofTree ⟨shape, .proper, name⟩ t = .error fault ↔
        ∃ before key after cause, Schema.expectedKeys = before ++ key :: after ∧
          (∀ earlier ∈ before, ∃ hash, t.hashAt earlier = .ok hash) ∧
          t.hashAt key = .error cause ∧ fault = ⟨⟨[.key key]⟩, .leaf cause⟩ := by
  cases simple : ofTree ⟨shape, .simple, name⟩ t with
  | error fault =>
      refine Or.inl ⟨fault, rfl, ofTree_eq_error_iff.mpr ?_⟩
      rw [fault?_proper, ofTree_eq_error_iff.mp simple]
      rfl
  | ok out =>
      obtain ⟨reads, labels⟩ := ofTree_eq_ok_iff.mp simple
      have mapping : t.kind = .mapping := reads.feePayer.1
      have failure : (walk ⟨shape, .proper, name⟩ t).fault?
          = Schema.expectedKeys.findSome? t.hashFault? := by
        rw [fault?_proper, exists_ok_iff_fault?.mp ⟨out, simple⟩, Option.none_or,
          Reading.fault?_expectedHashes mapping]
      have success : ∀ found, ofTree ⟨shape, .proper, name⟩ t = .ok found ↔
          ∃ hashes : ExpectedHashes, Schema.expectedKeys.map t.hashAt = hashes.toList.map .ok ∧
            found = ⟨out.record.expecting hashes, out.diagnostics⟩ := by
        intro found
        obtain ⟨record, diagnostics⟩ := found
        rw [ofTree_eq_ok_iff, readFrom_proper_iff reads, labels, Reading.diagnosticsOf_document,
          Reading.diagnosticsOf_document]
        simp only [ExpectedHashes.readFrom_iff mapping, Outcome.mk.injEq]
        constructor
        · intro h
          obtain ⟨⟨hashes, read, same⟩, listed⟩ := h
          exact ⟨hashes, read, same, listed⟩
        · intro h
          obtain ⟨hashes, read, same, listed⟩ := h
          exact ⟨⟨hashes, read, same⟩, listed⟩
      refine Or.inr ⟨out, rfl, reads.network, reads.expected, ?_, success, ?_⟩
      · simp only [← Tree.hashFault?_eq_none_iff, ← List.findSome?_eq_none_iff, ← failure]
        exact exists_ok_iff_fault?
      · intro fault
        rw [ofTree_eq_error_iff, failure, List.findSome?_eq_some_iff]
        constructor
        · intro h
          obtain ⟨before, key, after, keys, failed, fine⟩ := h
          obtain ⟨cause, bad, rfl⟩ := Tree.hashFault?_eq_some_iff.mp failed
          exact ⟨before, key, after, cause, keys,
            fun earlier h => Tree.hashFault?_eq_none_iff.mp (fine earlier h), bad, rfl⟩
        · intro h
          obtain ⟨before, key, after, cause, keys, fine, bad, rfl⟩ := h
          exact ⟨before, key, after, keys, Tree.hashFault?_eq_some_iff.mpr ⟨cause, bad, rfl⟩,
            fun earlier h => Tree.hashFault?_eq_none_iff.mpr (fine earlier h)⟩

end Transcode

end ZkCommand
