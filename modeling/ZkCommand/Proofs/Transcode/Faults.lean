import ZkCommand.Proofs.Reading.Slots
import ZkCommand.Proofs.Transcode.UnknownKeys

/-!
# ZkCommand.Proofs.Transcode.Faults

**A failure tells the truth about the place it names.** The place of a failure exists in the
document, what the failure says of the value there is so, and the walk has come to no earlier place
where the document does not have the form of the schema.
-/

namespace ZkCommand

/-! ### What a failure says -/

/-- What a cause says of the value at a place of a document. -/
def Walk.Cause.HoldsAt {α : Type} (r : Reading α) (place : List Segment) (v : Tree) :
    Walk.Cause → Prop
  | .missingField key => v.kind = .mapping ∧ v.get? key = none
  | .wrongShape expected found =>
      v.kind = found ∧ found ≠ expected ∧ (expected = .mapping ∨ expected = .list)
  | .tooManySlots given limit =>
      limit = 8 ∧ ∃ items, v = .list items ∧ items.length = given ∧
        ∃ i item, limit ≤ i ∧ items[i]? = some item ∧ item.isNull = false
  | .leaf fault => ∃ (β : Type) (read : Leaf.Reader β), r.LeafAt place read ∧ read v = .error fault

/-- A failure is the first one of a reading of a document: it holds of the value at its place, and
every demand that is made before the one that is missed is met. -/
structure Reading.FirstFault {α : Type} (r : Reading α) (t : Tree) (fault : Walk.Fault) :
    Prop where
  holds : ∃ v, t.at? fault.path.segments = some v ∧
    fault.cause.HoldsAt r fault.path.segments v
  first : ∃ before missed after, r.visits (.root t) = before ++ missed :: after ∧
    missed.fault? = some fault ∧
    ∀ earlier ∈ before, t.at? earlier.node.path.segments = some earlier.node.tree ∧
      earlier.demand.cause? earlier.node.tree = none

/-! ### Demands that are missed -/

/-- What is said of a value that misses a demand is so. -/
theorem Demand.holdsAt_of_cause? {α : Type} {r : Reading α} {place : List Segment}
    {demand : Demand} {v : Tree} {cause : Walk.Cause} (missed : demand.cause? v = some cause)
    (leaf : ∀ {β : Type} (read : Leaf.Reader β), demand = .leaf read → r.LeafAt place read) :
    cause.HoldsAt r place v := by
  cases demand with
  | mapping =>
      by_cases h : v.kind = .mapping
      · simp [cause?, h] at missed
      · obtain rfl : _ = cause := by simpa [cause?, h] using missed
        exact ⟨rfl, h, Or.inl rfl⟩
  | list =>
      by_cases h : v.kind = .list
      · simp [cause?, h] at missed
      · obtain rfl : _ = cause := by simpa [cause?, h] using missed
        exact ⟨rfl, h, Or.inr rfl⟩
  | key name =>
      cases v with
      | map entries =>
          cases h : Tree.find? name entries with
          | some child => simp [cause?, h] at missed
          | none =>
              obtain rfl : _ = cause := by simpa [cause?, h] using missed
              exact ⟨rfl, h⟩
      | _ => cases missed
  | slots =>
      cases v with
      | list items =>
          rw [cause?] at missed
          split at missed
          · rename_i any
            obtain rfl := Option.some.inj missed
            obtain ⟨i, item, given, beyond⟩ := any_drop_iff.mp any
            exact ⟨rfl, items, rfl, rfl, i, item, beyond, givenAt?_eq_some_iff.mp given⟩
          · cases missed
      | _ => cases missed
  | leaf read =>
      cases h : read v with
      | ok a => simp [cause?, h] at missed
      | error fault =>
          obtain rfl : _ = cause := by simpa [cause?, h] using missed
          exact ⟨_, read, leaf read rfl, h⟩

/-! ### The first failure of a document -/

namespace Reading

/-- A document fails in its fee payer, or else in its updates, or else in its memo or in its
expected hashes. -/
theorem fault?_document (config : Config) (t : Tree) :
    ((document config).walk (.root t)).fault? =
      ((field .required "feePayer" (feePayer config.shape)).walk (.root t)).fault?.or
        (((field .required "accountUpdates" (list (accountUpdate config.shape))).walk
          (.root t)).fault?.or
        (((field .required "memo" (leaf Leaf.string)).walk (.root t)).fault?.or
          ((expected config.variant).walk (.root t)).fault?)) := by
  have note : ((note Schema.documentKeys).walk (.root t)).fault? = none :=
    (fault?_walk_eq_none_iff _ _).mpr trivial
  have done : ∀ {α : Type} (a : α), ((done a).walk (.root t)).fault? = none := fun _ => rfl
  rw [document]
  simp only [fault?_seq, note, done, Option.none_or, Option.or_none]

end Reading

namespace Transcode

variable {config : Config} {t : Tree} {fault : Walk.Fault}

theorem fault?_walk (config : Config) (t : Tree) :
    (walk config t).fault? = ((Reading.document config).walk (.root t)).fault? := by
  rw [Reading.walk_document, Walk.fault?_bind _ _ none fun _ => rfl, Option.or_none]

theorem ofTree_eq_error_iff :
    ofTree config t = .error fault ↔ (walk config t).fault? = some fault := by
  rw [Walk.fault?_eq_some_iff, ofTree]
  cases (walk config t).outcome with
  | error fault' => simp [bind, Except.bind]
  | ok record => simp [bind, Except.bind]

theorem exists_ok_iff_fault? :
    (∃ out, ofTree config t = .ok out) ↔ (walk config t).fault? = none := by
  rw [ofTree, Walk.fault?]
  cases (walk config t).outcome <;> simp [bind, Except.bind]

/-- **Every failure is true of the place that it names, and it is the first one**: no place that the
walk comes to before it lacks what the schema asks of it. -/
theorem ofTree_fault_first (h : ofTree config t = .error fault) :
    (Reading.document config).FirstFault t fault := by
  rw [ofTree_eq_error_iff, fault?_walk, Reading.fault?_walk, List.findSome?_eq_some_iff] at h
  obtain ⟨before, missed, after, visits, failed, met⟩ := h
  have located : ∀ visit ∈ (Reading.document config).visits (.root t),
      (Reading.document config).LocatedBy (.root t) visit := fun visit => Reading.located _ _
  rw [visits] at located
  refine ⟨?_, before, missed, after, visits, failed, fun earlier hearlier => ?_⟩
  · obtain ⟨place, path, found, leaf⟩ := located missed (by simp)
    obtain ⟨cause, missing, rfl⟩ := Option.map_eq_some_iff.mp failed
    dsimp only
    rw [path, Node.root, Path.root, List.nil_append]
    exact ⟨_, found, Demand.holdsAt_of_cause? missing leaf⟩
  · obtain ⟨place, path, found, -⟩ := located earlier (List.mem_append_left _ hearlier)
    rw [path, Node.root, Path.root, List.nil_append]
    exact ⟨found, Option.map_eq_none_iff.mp (met earlier hearlier)⟩

/-- The data of a verification key have to be a text. -/
theorem ofTree_fault_at_data :
    ofTree ⟨.tagged, .simple, ""⟩ (withVerificationKey (.map [("data", .num "1")]))
        = .error ⟨⟨verificationKeyPlace ++ [.key "data"]⟩, .leaf (.wrongShape .string .number)⟩ ∧
      (Reading.document ⟨.tagged, .simple, ""⟩).FirstFault
        (withVerificationKey (.map [("data", .num "1")]))
        ⟨⟨verificationKeyPlace ++ [.key "data"]⟩, .leaf (.wrongShape .string .number)⟩ := by
  have failed : ofTree ⟨.tagged, .simple, ""⟩ (withVerificationKey (.map [("data", .num "1")]))
      = .error ⟨⟨verificationKeyPlace ++ [.key "data"]⟩, .leaf (.wrongShape .string .number)⟩ := by
    decide +kernel
  exact ⟨failed, ofTree_fault_first failed⟩

end Transcode

end ZkCommand
