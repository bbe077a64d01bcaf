import ZkCommand.Proofs.Path
import ZkCommand.Proofs.Transcode.Exact
import ZkCommand.Proofs.Transcode.Faults

/-!
# ZkCommand.Proofs.Transcode.Paths

**What a text is about.** Failures and diagnostics start with the text of a path. The keys on their
paths are keys of the schema, which consist of letters (`Reading.isLettered_of_mem_keys`). So the
path is known by its text (`Path.display_inj`), and ends in front of the first colon
(`Path.display_append_inj`): two documents of which one text is told are told it of one place
(`display_determines`).
-/

namespace ZkCommand

/-- The keys on a path are among some given ones. -/
def Path.Within (known : List String) (p : Path) : Prop :=
  ∀ key, .key key ∈ p.segments → key ∈ known

theorem Path.within_root (known : List String) : root.Within known :=
  fun _ member => absurd member List.not_mem_nil

theorem Path.Within.key {known : List String} {p : Path} (h : p.Within known) {key : String}
    (member : key ∈ known) : (p.key key).Within known := by
  intro other step
  rcases List.mem_append.mp step with above | last
  · exact h other above
  · obtain rfl := Segment.key.inj (List.mem_singleton.mp last)
    exact member

theorem Path.Within.index {known : List String} {p : Path} (h : p.Within known) (i : Nat) :
    (p.index i).Within known := by
  intro other step
  rcases List.mem_append.mp step with above | last
  · exact h other above
  · cases List.mem_singleton.mp last

namespace Reading

variable {α : Type}

/-- The keys that a reading goes to. -/
def keys {α : Type} : Reading α → List String
  | .list item => item.keys
  | .field _ key inner => key :: inner.keys
  | .seq first next => first.keys ++ next.keys
  | _ => []

variable {known : List String}

theorem within_of_mem_elements {n child : Node} (above : n.path.Within known)
    (h : child ∈ n.elements) : child.path.Within known := by
  obtain ⟨i, element⟩ := List.mem_iff_getElem?.mp h
  obtain ⟨items, -, path, -⟩ := tree_of_element element
  rw [path]
  exact above.index i

/-- **The demands of a reading** are made at its keys. -/
theorem within_of_mem_visits (r : Reading α) {n : Node} (above : n.path.Within known)
    (listed : ∀ key ∈ r.keys, key ∈ known) {visit : Visit} (h : visit ∈ r.visits n) :
    visit.node.path.Within known := by
  induction r generalizing n visit with
  | leaf read =>
      obtain rfl := List.mem_singleton.mp h
      exact above
  | label fallback read =>
      obtain rfl := List.mem_singleton.mp h
      exact above
  | slots shape =>
      simp only [visits, List.mem_cons, List.mem_flatMap] at h
      obtain rfl | rfl | ⟨child, element, slot⟩ := h
      · exact above
      · exact above
      · unfold slotVisits at slot
        split at slot
        · cases slot
        · obtain rfl := List.mem_singleton.mp slot
          exact within_of_mem_elements above (List.mem_of_mem_take element)
  | list item ih =>
      simp only [visits, List.mem_cons, List.mem_flatMap] at h
      obtain rfl | ⟨child, element, below⟩ := h
      · exact above
      · exact ih (within_of_mem_elements above element) listed below
  | done value => cases h
  | note names => cases h
  | field access key inner ih =>
      obtain ⟨member, listed⟩ := List.forall_mem_cons.mp listed
      rcases List.mem_append.mp h with here | below
      · obtain rfl | rfl := mem_keyVisits here <;> exact above
      · cases child : access.child? key n.tree with
        | none =>
            rw [child] at below
            cases below
        | some v =>
            rw [child] at below
            exact ih (above.key member) listed below
  | seq first next ihf ihn =>
      obtain ⟨listed, listed'⟩ := List.forall_mem_append.mp listed
      rcases List.mem_append.mp h with before | after
      · exact ihf above listed before
      · exact ihn above listed' after

/-- **The labels that a reading settles** are at its keys. -/
theorem within_of_mem_diagnosticsOf (r : Reading α) {p : Path} {t : Tree} (above : p.Within known)
    (listed : ∀ key ∈ r.keys, key ∈ known) {d : Diagnostic} (h : d ∈ r.diagnosticsOf p t) :
    d.path.Within known := by
  induction r generalizing p t with
  | leaf read => cases h
  | label fallback read =>
      rw [diagnosticsOf] at h
      split at h
      · obtain ⟨text, -, rfl⟩ := Option.map_eq_some_iff.mp (Option.mem_toList.mp h)
        exact above
      · cases h
  | slots shape => cases h
  | list item ih =>
      cases t with
      | list items =>
          obtain ⟨labels, element, below⟩ := List.mem_flatten.mp h
          obtain ⟨i, bound, rfl⟩ := List.mem_mapIdx.mp element
          exact ih (above.index i) listed below
      | _ => cases h
  | done value => cases h
  | note names => cases h
  | field access key inner ih =>
      obtain ⟨member, listed⟩ := List.forall_mem_cons.mp listed
      rw [diagnosticsOf] at h
      split at h
      · exact ih (above.key member) listed h
      · cases h
  | seq first next ihf ihn =>
      obtain ⟨listed, listed'⟩ := List.forall_mem_append.mp listed
      rcases List.mem_append.mp h with before | after
      · exact ihf above listed before
      · exact ihn above listed' after

/-- The keys of a document do not depend on its shape, and only the expected hashes on its variant.
-/
theorem keys_document (config : Config) : (document config).keys
    = (document ⟨.tagged, .simple, ""⟩).keys ++ (expected config.variant).keys := by
  simp only [document, keys, expected, List.nil_append, List.append_nil, List.append_assoc,
    List.cons_append]
  rfl

/-- **The keys of the schema** consist of letters. -/
theorem isLettered_of_mem_keys {config : Config} :
    ∀ key ∈ (document config).keys, (Segment.key key).isLettered = true := by
  rw [keys_document]
  refine List.forall_mem_append.mpr ⟨by decide +kernel, ?_⟩
  cases config.variant <;> decide

end Reading

namespace Transcode

/-- What transcoding a document tells of a place in it: that it fails there, or that it settles a
label there by a fallback. -/
inductive Tells (config : Config) (t : Tree) : Path → String → Prop
  | fault {fault : Walk.Fault} (failed : ofTree config t = .error fault) :
      Tells config t fault.path fault.message
  | diagnostic {out : Outcome} {d : Diagnostic} (read : ofTree config t = .ok out)
      (noted : d ∈ out.diagnostics) : Tells config t d.path d.message

variable {config : Config} {t : Tree} {p : Path} {text : String}

theorem Tells.lettered (h : Tells config t p text) : p.Lettered := by
  have within : p.Within (Reading.document config).keys := by
    cases h with
    | @fault fault failed =>
        rw [ofTree_eq_error_iff, fault?_walk, Reading.fault?_walk] at failed
        obtain ⟨visit, member, missed⟩ := List.exists_of_findSome?_eq_some failed
        obtain ⟨cause, -, rfl⟩ := Option.map_eq_some_iff.mp missed
        exact Reading.within_of_mem_visits _ (Path.within_root _) (fun _ => id) member
    | diagnostic read noted =>
        rw [(ofTree_eq_ok_iff.mp read).2] at noted
        exact Reading.within_of_mem_diagnosticsOf _ (Path.within_root _) (fun _ => id) noted
  intro segment member
  cases segment with
  | key name => exact Reading.isLettered_of_mem_keys name (within name member)
  | index position => rfl

theorem Tells.text_eq (h : Tells config t p text) :
    ∃ rest, text.toList = p.display.toList ++ ':' :: rest := by
  cases h with
  | @fault fault failed =>
      refine ⟨' ' :: fault.cause.message.toList, ?_⟩
      rw [Walk.Fault.message, String.toList_append, String.toList_append, List.append_assoc]
      rfl
  | @diagnostic out d read noted =>
      obtain ⟨path, fallback, label⟩ := d
      cases fallback
      all_goals
        simp only [Diagnostic.message, String.toList_append, List.append_assoc]
        exact ⟨_, rfl⟩

/-- **A text determines what it is about.** Paths without marks in their keys are equal if their
texts are, the keys of the schema have no marks, and what is told of two documents in one text is
told of one place. -/
theorem display_determines :
    (∀ p q : Path, p.Plain → q.Plain → p.display = q.display → p = q) ∧
    (∀ config, ∀ key ∈ (Reading.document config).keys, (Segment.key key).Plain) ∧
    (∀ config t p text, Tells config t p text → p.Plain) ∧
    ∀ config t p config' t' p' text,
      Tells config t p text → Tells config' t' p' text → p = p' := by
  refine ⟨fun p q plain plain' => (Path.display_inj plain plain').mp, ?_, ?_, ?_⟩
  · exact fun config key member =>
      Segment.plain_of_isLettered (Reading.isLettered_of_mem_keys key member)
  · exact fun config t p text told => told.lettered.plain
  · intro config t p config' t' p' text told told'
    obtain ⟨rest, cut⟩ := told.text_eq
    obtain ⟨rest', cut'⟩ := told'.text_eq
    exact Path.display_append_inj told.lettered told'.lettered (cut.symm.trans cut')

/-- A path with a bracket in a key, and two documents of which the same is told. -/
theorem display_determines_data :
    (⟨[.key "a", .index 10, .key "b]"]⟩ : Path).Plain ∧
      (((Path.root.key "a").index 10).key "b]").Plain ∧
      (⟨[.key "a", .index 10, .key "b]"]⟩ : Path) = ((Path.root.key "a").index 10).key "b]" ∧
      Tells ⟨.tagged, .simple, ""⟩ (withVerificationKey (.map [("data", .num "1")]))
        ⟨verificationKeyPlace ++ [.key "data"]⟩
        "accountUpdates[0].body.update.verificationKey.data: expected string, found number" ∧
      Tells ⟨.flagged, .proper, "a"⟩ (withVerificationKey (.map [("data", .num "2")]))
        ((⟨verificationKeyPlace⟩ : Path).key "data")
        "accountUpdates[0].body.update.verificationKey.data: expected string, found number" ∧
      (⟨verificationKeyPlace ++ [.key "data"]⟩ : Path)
        = (⟨verificationKeyPlace⟩ : Path).key "data" := by
  have plain : (⟨[.key "a", .index 10, .key "b]"]⟩ : Path).Plain := by
    intro segment member
    simp only [List.mem_cons, List.not_mem_nil, or_false] at member
    rcases member with rfl | rfl | rfl
    · exact ⟨by decide, by decide, by decide, by decide⟩
    · trivial
    · exact ⟨by decide, by decide, by decide, by decide⟩
  have failed : ofTree ⟨.tagged, .simple, ""⟩ (withVerificationKey (.map [("data", .num "1")]))
      = .error ⟨⟨verificationKeyPlace ++ [.key "data"]⟩, .leaf (.wrongShape .string .number)⟩ := by
    decide +kernel
  have failed' : ofTree ⟨.flagged, .proper, "a"⟩ (withVerificationKey (.map [("data", .num "2")]))
      = .error ⟨⟨verificationKeyPlace ++ [.key "data"]⟩, .leaf (.wrongShape .string .number)⟩ := by
    decide +kernel
  have told := Tells.fault failed
  have told' := Tells.fault failed'
  obtain ⟨paths, -, -, places⟩ := display_determines
  exact ⟨plain, plain, paths _ _ plain plain rfl, told, told', places _ _ _ _ _ _ _ told told'⟩

end Transcode

end ZkCommand
