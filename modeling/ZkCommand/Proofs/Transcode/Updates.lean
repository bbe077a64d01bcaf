import ZkCommand.Edit
import ZkCommand.Proofs.Reading.Places
import ZkCommand.Proofs.Transcode.Faults
import ZkCommand.Proofs.Transcode.Diagnostics

/-!
# ZkCommand.Proofs.Transcode.Updates

**Account updates are mapped position by position and independently.** What becomes of an update is
what becomes of it in the document that has this update alone; where it stands shows in the paths of
its diagnostics and of its failure, and nowhere else. So a document may be taken apart into its
updates (`exists_alone`) and put together from them (`ofTree_of_alone`), in any order and number.
-/

namespace ZkCommand

/-! ### Other updates -/

/-- A document with other account updates. -/
def Tree.setUpdates (t : Tree) (updates : List Tree) : Tree :=
  t.setAt [.key "accountUpdates"] (.list updates)

/-- A record with other account updates. -/
def Record.setUpdates (record : Record) (updates : List AccountUpdate) : Record :=
  { record with command := { record.command with accountUpdates := updates } }

/-- The place of an account update. -/
def updateAt (i : Nat) : Path := ⟨[.key "accountUpdates", .index i]⟩

/-- A path into an account update as a path into the one that stands so many places behind it. -/
def Path.movedOn (n : Nat) (p : Path) : Path :=
  match p.segments with
  | top :: .index i :: rest => ⟨top :: .index (n + i) :: rest⟩
  | _ => p

/-- A diagnostic of an account update that stands so many places further behind. -/
def Diagnostic.movedOn (n : Nat) (d : Diagnostic) : Diagnostic :=
  { d with path := d.path.movedOn n }

/-- A failure of an account update that stands so many places further behind. -/
def Walk.Fault.movedOn (n : Nat) (fault : Walk.Fault) : Walk.Fault :=
  { fault with path := fault.path.movedOn n }

theorem Diagnostic.movedOn_under (n i : Nat) (d : Diagnostic) :
    (d.under (updateAt i)).movedOn n = d.under (updateAt (n + i)) := rfl

theorem Walk.Fault.movedOn_under (n i : Nat) (fault : Walk.Fault) :
    (fault.under (updateAt i)).movedOn n = fault.under (updateAt (n + i)) := rfl

theorem Path.movedOn_movedOn (m n : Nat) (p : Path) :
    (p.movedOn n).movedOn m = p.movedOn (m + n) := by
  obtain ⟨segments⟩ := p
  rcases segments with _ | ⟨top, _ | ⟨name | i, rest⟩⟩
  · rfl
  · rfl
  · rfl
  · simp [movedOn, Nat.add_assoc]

theorem Diagnostic.movedOn_movedOn (m n : Nat) (d : Diagnostic) :
    (d.movedOn n).movedOn m = d.movedOn (m + n) := by
  simp [movedOn, Path.movedOn_movedOn]

namespace Tree

variable {t : Tree} {us vs : List Tree} {key : String}

theorem setUpdates_self (list : t.get? "accountUpdates" = some (.list us)) :
    t.setUpdates us = t := by
  cases t with
  | map es => exact congrArg Tree.map (insert_of_find? list)
  | _ => cases list

theorem kind_setUpdates (t : Tree) (us : List Tree) : (t.setUpdates us).kind = t.kind := by
  cases t <;> rfl

theorem get?_setUpdates (mapping : t.kind = .mapping) (us : List Tree) :
    (t.setUpdates us).get? "accountUpdates" = some (.list us) := by
  cases t with
  | map es => exact find?_insert_self _ _ es
  | _ => cases mapping

theorem get?_setUpdates_ne (other : key ≠ "accountUpdates") (t : Tree) (us : List Tree) :
    (t.setUpdates us).get? key = t.get? key := by
  cases t with
  | map es => exact find?_insert_ne other _ es
  | _ => rfl

end Tree

/-! ### Records with other updates -/

section Records

variable {config : Config} {t : Tree} {us vs : List Tree} {record : Record}

theorem Access.Reads.setUpdates {α : Type} {access : Access α} {key : String}
    {relation : Tree → α → Prop} {a : α} (h : access.Reads key relation (t.setUpdates us) a)
    (other : key ≠ "accountUpdates") (vs : List Tree) :
    access.Reads key relation (t.setUpdates vs) a := by
  obtain ⟨mapping, h⟩ := h
  rw [Tree.kind_setUpdates] at mapping
  rw [child?, Tree.get?_setUpdates_ne other] at h
  refine ⟨by rw [Tree.kind_setUpdates, mapping], ?_⟩
  rw [child?, Tree.get?_setUpdates_ne other]
  exact h

theorem ExpectedHashes.ReadBy.setUpdates {variant : Variant} {expected : ExpectedHashes}
    (h : ExpectedHashes.ReadBy variant (t.setUpdates us) expected) (vs : List Tree) :
    ExpectedHashes.ReadBy variant (t.setUpdates vs) expected := by
  cases variant with
  | simple => exact h
  | proper =>
      exact ⟨h.memoHash.setUpdates (by decide) vs, h.feePayerHash.setUpdates (by decide) vs,
        h.accountUpdatesCommitment.setUpdates (by decide) vs,
        h.fullCommitment.setUpdates (by decide) vs⟩

namespace Record.ReadFrom

theorem mapping (h : record.ReadFrom config (t.setUpdates us)) : t.kind = .mapping := by
  rw [← Tree.kind_setUpdates t us]
  exact h.feePayer.1

theorem updates (h : record.ReadFrom config (t.setUpdates us)) :
    List.Forall₂ (AccountUpdate.ReadFrom config.shape) us record.command.accountUpdates := by
  obtain ⟨v, found, items, rfl, each⟩ := Entry.required_iff.mp h.accountUpdates
  rw [Tree.get?_setUpdates h.mapping] at found
  obtain rfl : us = items := Tree.list.inj (Option.some.inj found)
  exact each

/-- The updates of a document are read apart from all else in it. -/
theorem setUpdates (h : record.ReadFrom config (t.setUpdates us)) {updates : List AccountUpdate}
    (each : List.Forall₂ (AccountUpdate.ReadFrom config.shape) vs updates) :
    (record.setUpdates updates).ReadFrom config (t.setUpdates vs) where
  name := h.name
  feePayer := h.feePayer.setUpdates (by decide) vs
  accountUpdates :=
    Entry.required_iff.mpr ⟨_, Tree.get?_setUpdates h.mapping vs, vs, rfl, each⟩
  memo := h.memo.setUpdates (by decide) vs
  network := h.network
  expected := h.expected.setUpdates vs

end Record.ReadFrom

end Records

/-! ### Diagnostics of updates -/

theorem fallbacks_setUpdates {t : Tree} (mapping : t.kind = .mapping) (us : List Tree) :
    fallbacks (t.setUpdates us)
      = (us.mapIdx fun i u => updateFallbacks (updateAt i) u).flatten := by
  rw [fallbacks, Tree.get?_setUpdates mapping]
  rfl

theorem AccountUpdate.ReadFrom.fallbacks_movedOn {shape : Shape} {u : Tree}
    {update : AccountUpdate} (h : update.ReadFrom shape u) (n i : Nat) :
    updateFallbacks (updateAt (n + i)) u
      = (updateFallbacks (updateAt i) u).map (Diagnostic.movedOn n) := by
  rw [← Reading.reads_accountUpdate] at h
  rw [← Reading.diagnosticsOf_accountUpdate shape, ← Reading.diagnosticsOf_accountUpdate shape,
    Reading.diagnosticsOf_at h, Reading.diagnosticsOf_at h (updateAt i), List.map_map]
  rfl

/-! ### Lists in step -/

section Lists

variable {α β γ : Type} {R : α → β → Prop} {as : List α} {bs : List β}

/-- Values that are related through other values are related through a list of them. -/
theorem exists_between {P : α → γ → Prop} {Q : β → γ → Prop} (h : List.Forall₂ R as bs)
    (step : ∀ a b, R a b → ∃ c, P a c ∧ Q b c) :
    ∃ cs, List.Forall₂ P as cs ∧ List.Forall₂ Q bs cs := by
  induction h with
  | nil => exact ⟨[], .nil, .nil⟩
  | cons head _ ih =>
      obtain ⟨c, hp, hq⟩ := step _ _ head
      obtain ⟨cs, hps, hqs⟩ := ih
      exact ⟨c :: cs, .cons hp hps, .cons hq hqs⟩

/-- The elements that are picked from two lists in step are in step, in any order and number. -/
theorem forall₂_picked (h : List.Forall₂ R as bs) (picks : List Nat) :
    List.Forall₂ R (picks.filterMap (as[·]?)) (picks.filterMap (bs[·]?)) := by
  obtain ⟨length, get⟩ := List.forall₂_iff_get.mp h
  induction picks with
  | nil => exact .nil
  | cons i rest ih =>
      rw [List.filterMap_cons, List.filterMap_cons]
      by_cases inside : i < as.length
      · rw [List.getElem?_eq_getElem inside, List.getElem?_eq_getElem (length ▸ inside)]
        exact .cons (get i inside (length ▸ inside)) ih
      · rw [List.getElem?_eq_none (by omega), List.getElem?_eq_none (by omega)]
        exact ih

theorem flatMap_of_forall₂ {f : β → List α} (h : List.Forall₂ (fun a b => f b = [a]) as bs) :
    bs.flatMap f = as := by
  induction h with
  | nil => rfl
  | cons head _ ih => rw [List.flatMap_cons, head, ih, List.singleton_append]

/-- The first value that is found stands behind elements at which none is found. -/
theorem exists_first_of_mapIdx {f : Nat → α → Option β} {b : β}
    (h : (as.mapIdx f).findSome? id = some b) :
    ∃ before a after, as = before ++ a :: after ∧ f before.length a = some b ∧
      ∀ i x, before[i]? = some x → f i x = none := by
  induction as generalizing f with
  | nil => cases h
  | cons a rest ih =>
      rw [List.mapIdx_cons, List.findSome?_cons] at h
      cases here : f 0 a with
      | some found =>
          rw [id, here] at h
          exact ⟨[], a, rest, rfl, here.trans h, fun i x hx => by cases hx⟩
      | none =>
          rw [id, here] at h
          obtain ⟨before, u, after, rfl, found, none⟩ := ih h
          refine ⟨a :: before, u, after, rfl, found, fun i x hx => ?_⟩
          cases i with
          | zero =>
              obtain rfl : a = x := Option.some.inj hx
              exact here
          | succ i => exact none i x hx

end Lists

/-! ### Documents with one update -/

namespace Transcode

variable {config : Config} {t : Tree} {us vs : List Tree} {out : Outcome}

/-- The diagnostics of updates, each as those of a document that has it alone. -/
def diagnosticsInOrder (ones : List Outcome) : List Diagnostic :=
  (ones.mapIdx fun i one => one.diagnostics.map (Diagnostic.movedOn i)).flatten

theorem diagnosticsInOrder_append (ones ones' : List Outcome) :
    diagnosticsInOrder (ones ++ ones')
      = diagnosticsInOrder ones
        ++ (diagnosticsInOrder ones').map (Diagnostic.movedOn ones.length) := by
  rw [diagnosticsInOrder, List.mapIdx_append, List.flatten_append, diagnosticsInOrder,
    diagnosticsInOrder, List.map_flatten, map_mapIdx]
  simp only [List.map_map, Function.comp_def, Diagnostic.movedOn_movedOn, Nat.add_comm]

theorem ofTree_setUpdates_iff (mapping : t.kind = .mapping) :
    ofTree config (t.setUpdates us) = .ok out ↔
      out.record.ReadFrom config (t.setUpdates us) ∧
        out.diagnostics = (us.mapIdx fun i u => updateFallbacks (updateAt i) u).flatten := by
  rw [ofTree_eq_ok_iff, Reading.diagnosticsOf_document, fallbacks_setUpdates mapping]

theorem exists_update {u : Tree} {one : Outcome} (h : ofTree config (t.setUpdates [u]) = .ok one) :
    ∃ update, one.record.command.accountUpdates = [update] ∧
      update.ReadFrom config.shape u ∧ one.diagnostics = updateFallbacks (updateAt 0) u := by
  have mapping := (ofTree_eq_ok_iff.mp h).1.mapping
  obtain ⟨read, diagnostics⟩ := (ofTree_setUpdates_iff mapping).mp h
  obtain ⟨update, _, hu, rest, updates⟩ := List.forall₂_cons_left_iff.mp read.updates
  cases rest
  exact ⟨update, updates, hu, diagnostics.trans (List.append_nil _)⟩

theorem updates_of_alone {ones : List Outcome}
    (each : List.Forall₂ (fun v one => ofTree config (t.setUpdates [v]) = .ok one) vs ones) :
    List.Forall₂ (AccountUpdate.ReadFrom config.shape) vs
      (ones.flatMap fun one => one.record.command.accountUpdates) := by
  induction each with
  | nil => exact .nil
  | cons head _ ih =>
      obtain ⟨update, updates, read, -⟩ := exists_update head
      rw [List.flatMap_cons, updates]
      exact .cons read ih

theorem diagnosticsInOrder_of_alone {ones : List Outcome}
    (each : List.Forall₂ (fun v one => ofTree config (t.setUpdates [v]) = .ok one) vs ones) :
    diagnosticsInOrder ones = (vs.mapIdx fun i v => updateFallbacks (updateAt i) v).flatten := by
  refine congrArg List.flatten (Eq.symm ?_)
  rw [← List.forall₂_eq_eq_eq]
  refine forall₂_mapIdx each fun i v one h => ?_
  obtain ⟨update, -, read, diagnostics⟩ := exists_update h
  rw [diagnostics]
  exact read.fallbacks_movedOn i 0

/-- **Taken apart**: each update of a record is that of the document with this update alone, and the
diagnostics are those of these documents, in order. -/
theorem exists_alone (h : ofTree config (t.setUpdates us) = .ok out) :
    ∃ ones, List.Forall₂ (fun u one => ofTree config (t.setUpdates [u]) = .ok one) us ones ∧
      List.Forall₂ (fun update one => one.record = out.record.setUpdates [update])
        out.record.command.accountUpdates ones ∧
      out.diagnostics = diagnosticsInOrder ones := by
  have mapping := (ofTree_eq_ok_iff.mp h).1.mapping
  obtain ⟨read, diagnostics⟩ := (ofTree_setUpdates_iff mapping).mp h
  have alone : ∀ u update, AccountUpdate.ReadFrom config.shape u update →
      ∃ one, ofTree config (t.setUpdates [u]) = .ok one ∧
        one.record = out.record.setUpdates [update] := by
    intro u update each
    refine ⟨⟨out.record.setUpdates [update], _⟩, (ofTree_setUpdates_iff mapping).mpr ⟨?_, rfl⟩, rfl⟩
    exact read.setUpdates (.cons each .nil)
  obtain ⟨ones, each, same⟩ := exists_between read.updates alone
  exact ⟨ones, each, same, diagnostics.trans (diagnosticsInOrder_of_alone each).symm⟩

/-- **Put together**: updates that have a record alone have one together, in the place of any that
have one. -/
theorem ofTree_of_alone (h : ofTree config (t.setUpdates us) = .ok out) {ones : List Outcome}
    (each : List.Forall₂ (fun v one => ofTree config (t.setUpdates [v]) = .ok one) vs ones) :
    ofTree config (t.setUpdates vs) = .ok ⟨out.record.setUpdates
      (ones.flatMap fun one => one.record.command.accountUpdates), diagnosticsInOrder ones⟩ := by
  have read := (ofTree_eq_ok_iff.mp h).1
  rw [ofTree_setUpdates_iff read.mapping]
  exact ⟨read.setUpdates (updates_of_alone each), diagnosticsInOrder_of_alone each⟩

end Transcode

/-! ### Updates that fail -/

namespace Reading

variable {config : Config} {t : Tree}

theorem field_setUpdates {α : Type} (access : Access α) {key : String} (inner : Reading α)
    (other : key ≠ "accountUpdates") (t : Tree) (us vs : List Tree) :
    (field access key inner).walk (.root (t.setUpdates us))
      = (field access key inner).walk (.root (t.setUpdates vs)) := by
  cases t with
  | map es =>
      refine Node.access_congr ?_
      exact (Tree.find?_insert_ne other _ es).trans (Tree.find?_insert_ne other _ es).symm
  | _ => rfl

theorem seq_congr {β γ : Type} {first : Reading β} {next : Reading (β → γ)} {n n' : Node}
    (h : first.walk n = first.walk n') (hnext : next.walk n = next.walk n') :
    (seq first next).walk n = (seq first next).walk n' := by
  rw [walk, walk, h, hnext]

/-- The expected hashes are not among the updates. -/
theorem expected_setUpdates (variant : Variant) (t : Tree) (us vs : List Tree) :
    (expected variant).walk (.root (t.setUpdates us))
      = (expected variant).walk (.root (t.setUpdates vs)) := by
  cases variant with
  | simple => rfl
  | proper =>
      exact seq_congr (field_setUpdates _ _ (by decide) t us vs) <|
        seq_congr (field_setUpdates _ _ (by decide) t us vs) <|
        seq_congr (field_setUpdates _ _ (by decide) t us vs) <|
        seq_congr (field_setUpdates _ _ (by decide) t us vs) rfl

/-- The updates of a document fail at the first one that fails. -/
theorem fault?_updates {shape : Shape} (mapping : t.kind = .mapping) (us : List Tree) :
    ((field .required "accountUpdates" (list (accountUpdate shape))).walk
        (.root (t.setUpdates us))).fault?
      = (us.mapIdx fun i u =>
          ((accountUpdate shape).walk ⟨updateAt i, u⟩).fault?).findSome? id := by
  have kept : (t.setUpdates us).kind = .mapping := by rw [Tree.kind_setUpdates, mapping]
  rw [walk, Node.fault?_access, Node.fault?_mapping_of_kind kept, Option.none_or, Node.root,
    Access.child?_required, Tree.get?_setUpdates mapping]
  show ((list (accountUpdate shape)).walk ⟨_, .list us⟩).fault? = _
  rw [walk, Node.each, Node.items_list, pure_bind, Walk.fault?_mapM, ← map_mapIdx
    (fun n => ((accountUpdate shape).walk n).fault?) (fun i u => ⟨updateAt i, u⟩),
    List.findSome?_map]
  rfl

end Reading

namespace Transcode

variable {config : Config} {t : Tree} {us : List Tree}

/-- A document of which the rest has the form of the schema fails where its updates do. -/
theorem fault?_setUpdates (mapping : t.kind = .mapping)
    (rest : (Reading.document config).Conforms (t.setUpdates [])) (us : List Tree) :
    (walk config (t.setUpdates us)).fault? = (us.mapIdx fun i u =>
      ((Reading.accountUpdate config.shape).walk ⟨updateAt i, u⟩).fault?).findSome? id := by
  have met := (Reading.fault?_walk_eq_none_iff _ (.root (t.setUpdates []))).mpr rest
  rw [Reading.fault?_document, Option.or_eq_none_iff, Option.or_eq_none_iff,
    Option.or_eq_none_iff] at met
  obtain ⟨feePayer, -, memo, expected⟩ := met
  rw [fault?_walk, Reading.fault?_document, Reading.fault?_updates mapping,
    Reading.field_setUpdates _ _ (by decide) t us [], feePayer,
    Reading.field_setUpdates _ _ (by decide) t us [], memo,
    Reading.expected_setUpdates _ t us [], expected, Option.none_or]
  exact Option.or_none

/-- An update fails as it does alone, with its own index in the place. -/
theorem fault?_updateAt (mapping : t.kind = .mapping)
    (rest : (Reading.document config).Conforms (t.setUpdates [])) (i : Nat) (u : Tree) :
    ((Reading.accountUpdate config.shape).walk ⟨updateAt i, u⟩).fault?
      = (walk config (t.setUpdates [u])).fault?.map (Walk.Fault.movedOn i) := by
  have alone : (walk config (t.setUpdates [u])).fault?
      = ((Reading.accountUpdate config.shape).walk ⟨updateAt 0, u⟩).fault? := by
    rw [fault?_setUpdates mapping rest]
    show ([_] : List (Option Walk.Fault)).findSome? id = _
    rw [List.findSome?_singleton, id]
    rfl
  rw [alone, Reading.walk_at, Reading.walk_at _ (updateAt 0), Walk.fault?_under, Walk.fault?_under,
    Option.map_map]
  rfl

/-- **The first update that fails** is the one whose failure a document has. -/
theorem exists_first_failing (mapping : t.kind = .mapping)
    (rest : (Reading.document config).Conforms (t.setUpdates []))
    (fails : ∃ u ∈ us, ¬ (Reading.accountUpdate config.shape).Conforms u) :
    ∃ before u after fault, us = before ++ u :: after ∧
      (∀ u' ∈ before, ∃ one, ofTree config (t.setUpdates [u']) = .ok one) ∧
      ofTree config (t.setUpdates [u]) = .error fault ∧
      ofTree config (t.setUpdates us) = .error (fault.movedOn before.length) := by
  have failed : (walk config (t.setUpdates us)).fault? ≠ none := by
    rw [fault?_setUpdates mapping rest]
    intro none
    obtain ⟨u, hu, nonconforming⟩ := fails
    obtain ⟨i, hi, rfl⟩ := List.mem_iff_getElem.mp hu
    refine nonconforming ((Reading.fault?_walk_eq_none_iff _ ⟨updateAt i, us[i]⟩).mp ?_)
    exact List.findSome?_eq_none_iff.mp none _ (List.mem_mapIdx.mpr ⟨i, hi, rfl⟩)
  obtain ⟨found, first⟩ := Option.ne_none_iff_exists'.mp failed
  have located := first
  rw [fault?_setUpdates mapping rest] at located
  obtain ⟨before, u, after, rfl, here, met⟩ := exists_first_of_mapIdx located
  rw [fault?_updateAt mapping rest] at here
  obtain ⟨fault, alone, rfl⟩ := Option.map_eq_some_iff.mp here
  refine ⟨before, u, after, fault, rfl, fun u' hu' => ?_, ofTree_eq_error_iff.mpr alone,
    ofTree_eq_error_iff.mpr first⟩
  obtain ⟨i, hi⟩ := List.mem_iff_getElem?.mp hu'
  have quiet := met i u' hi
  rw [fault?_updateAt mapping rest, Option.map_eq_none_iff] at quiet
  exact exists_ok_iff_fault?.mpr quiet

/-! ### Position by position -/

/-- The outcome of a document with some updates, and those of the documents that have one of these
updates alone. -/
structure Positionwise (config : Config) (t : Tree) (us : List Tree) (out : Outcome)
    (ones : List Outcome) : Prop where
  length : out.record.command.accountUpdates.length = us.length
  alone : List.Forall₂ (fun u one => ofTree config (t.setUpdates [u]) = .ok one) us ones
  /-- Each update of the record is the only one of the record of its own document. -/
  updates : List.Forall₂ (fun update one => one.record = out.record.setUpdates [update])
    out.record.command.accountUpdates ones
  /-- The diagnostics are theirs, in order and with the index of each. -/
  diagnostics : out.diagnostics =
    (ones.mapIdx fun i one => one.diagnostics.map (Diagnostic.movedOn i)).flatten
  /-- Any updates that are picked by their indices, in any order and number, have the updates that
  are picked from the record, and the diagnostics of their own documents. -/
  picked : ∀ picks : List Nat,
    ofTree config (t.setUpdates (picks.filterMap (us[·]?))) = .ok
      ⟨out.record.setUpdates (picks.filterMap (out.record.command.accountUpdates[·]?)),
        ((picks.filterMap (ones[·]?)).mapIdx fun i one =>
          one.diagnostics.map (Diagnostic.movedOn i)).flatten⟩
  /-- With further updates behind them, the record has both lists of updates, and the diagnostics of
  both with the indices of the second list moved on. -/
  appended : ∀ vs out', ofTree config (t.setUpdates vs) = .ok out' →
    ofTree config (t.setUpdates (us ++ vs)) = .ok
      ⟨out.record.setUpdates
          (out.record.command.accountUpdates ++ out'.record.command.accountUpdates),
        out.diagnostics ++ out'.diagnostics.map (Diagnostic.movedOn us.length)⟩

theorem flatMap_updates {record : Record} {updates : List AccountUpdate} {ones : List Outcome}
    (h : List.Forall₂ (fun update one => one.record = record.setUpdates [update]) updates ones) :
    (ones.flatMap fun one => one.record.command.accountUpdates) = updates := by
  refine flatMap_of_forall₂ (h.imp fun update one same => ?_)
  rw [same]
  rfl

theorem exists_positionwise {out : Outcome} (h : ofTree config (t.setUpdates us) = .ok out) :
    ∃ ones, Positionwise config t us out ones := by
  obtain ⟨ones, alone, updates, diagnostics⟩ := exists_alone h
  refine ⟨ones, ?_, alone, updates, diagnostics, fun picks => ?_, fun vs out' h' => ?_⟩
  · rw [updates.length_eq, alone.length_eq]
  · have together := ofTree_of_alone h (forall₂_picked alone picks)
    rwa [flatMap_updates (forall₂_picked updates picks)] at together
  · obtain ⟨ones', alone', updates', diagnostics'⟩ := exists_alone h'
    have together := ofTree_of_alone h (List.rel_append alone alone')
    rwa [List.flatMap_append, flatMap_updates updates, flatMap_updates updates',
      diagnosticsInOrder_append, ← diagnostics, ← diagnostics', ← alone.length_eq] at together

/-- **Account updates are mapped position by position and independently.** The updates of a record,
and the diagnostics, are those of the documents that have one of the updates alone, in order, with
the index of each; so what is done to the list of updates of a document is done to that of its
record. Where the rest of a document has the form of the schema and an update has not, the failure
is that of the first such update alone, with its index. -/
theorem ofTree_updates (list : t.get? "accountUpdates" = some (.list us)) :
    (∀ out, ofTree config t = .ok out → ∃ ones, Positionwise config t us out ones) ∧
      ((Reading.document config).Conforms (t.setUpdates []) →
        (∃ u ∈ us, ¬ (Reading.accountUpdate config.shape).Conforms u) →
        ∃ before u after fault, us = before ++ u :: after ∧
          (∀ u' ∈ before, ∃ one, ofTree config (t.setUpdates [u']) = .ok one) ∧
          ofTree config (t.setUpdates [u]) = .error fault ∧
          ofTree config t = .error (fault.movedOn before.length)) := by
  have self := Tree.setUpdates_self list
  refine ⟨fun out h => exists_positionwise (by rwa [self]), fun rest fails => ?_⟩
  have first := exists_first_failing (Entry.kind_of_found list) rest fails
  rwa [self] at first

/-- The updates of a document, and the failure of one whose second update is null. -/
theorem ofTree_updates_labelledDocument :
    (∃ us out ones, labelledDocument = withUpdates us ∧ us.length = 3 ∧
      ofTree ⟨.tagged, .simple, ""⟩ labelledDocument = .ok out ∧
      Positionwise ⟨.tagged, .simple, ""⟩ labelledDocument us out ones) ∧
    ∃ before u after fault, [withLabels "Minus" (.map []), .null, .str ""] = before ++ u :: after ∧
      ofTree ⟨.tagged, .simple, ""⟩ (withUpdates [u]) = .error fault ∧
      ofTree ⟨.tagged, .simple, ""⟩
        (withUpdates [withLabels "Minus" (.map []), .null, .str ""])
          = .error (fault.movedOn before.length) := by
  constructor
  · obtain ⟨out, h⟩ := exists_outcome ⟨.tagged, .simple, ""⟩ labelledDocument (by decide +kernel)
    obtain ⟨ones, each⟩ := (ofTree_updates rfl).1 out h
    exact ⟨_, out, ones, rfl, rfl, h, each⟩
  · obtain ⟨out, h⟩ := exists_outcome ⟨.tagged, .simple, ""⟩ (withUpdates []) (by decide +kernel)
    have rest : (Reading.document ⟨.tagged, .simple, ""⟩).Conforms (withUpdates []) := by
      rw [← Reading.exists_reads_iff_conforms, Reading.reads_record]
      exact ⟨out.record, (ofTree_eq_ok_iff.mp h).1⟩
    have fails : ¬ (Reading.accountUpdate .tagged).Conforms .null := by
      intro conforms
      cases (Reading.fault?_walk_eq_none_iff _ (.root .null)).mpr conforms
    have list : (withUpdates [withLabels "Minus" (.map []), .null, .str ""]).get? "accountUpdates"
        = some (.list [withLabels "Minus" (.map []), .null, .str ""]) := rfl
    obtain ⟨before, u, after, fault, split, -, alone, failed⟩ :=
      (ofTree_updates list).2 rest ⟨.null, by simp, fails⟩
    exact ⟨before, u, after, fault, split, alone, failed⟩

end Transcode

end ZkCommand
