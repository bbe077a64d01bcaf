import ZkCommand.Proofs.Leaf.Printed
import ZkCommand.Proofs.Reading.Meaning
import ZkCommand.Proofs.Reading.Tables

/-!
# ZkCommand.Proofs.Reading.Labels

**The labels of a printed command are recognised.** Only permission levels and signs are labels, and
a command writes both by their own names. So reading a command back settles nothing by a fallback.
-/

namespace ZkCommand.Reading

variable {α β γ : Type}

/-- No part of a reading is a label. -/
@[simp] def labelFree {α : Type} : Reading α → Bool
  | .leaf _ => true
  | .label _ _ => false
  | .slots _ => true
  | .list item => item.labelFree
  | .done _ => true
  | .note _ => true
  | .field _ _ inner => inner.labelFree
  | .seq first next => first.labelFree && next.labelFree

/-- All labels that a reading finds in a document value are known ones. -/
def Recognised (r : Reading α) (t : Tree) : Prop := ∀ p, r.diagnosticsOf p t = []

/-! ### Parts of a reading -/

theorem recognised_seq {first : Reading β} {next : Reading (β → γ)} {t : Tree}
    (h : first.Recognised t) (h' : next.Recognised t) : (seq first next).Recognised t := by
  intro p
  rw [diagnosticsOf, h p, h' p]
  rfl

theorem recognised_field {access : Access β} {key : String} {inner : Reading β} {t v : Tree}
    (found : t.get? key = some v) (h : inner.Recognised v) :
    (field access key inner).Recognised t := by
  intro p
  rw [diagnosticsOf, Access.child?, found, Option.filter_some]
  cases access.counts v with
  | true => exact h _
  | false => rfl

theorem recognised_list {item : Reading α} {items : List Tree}
    (h : ∀ v ∈ items, item.Recognised v) : (list item).Recognised (.list items) := by
  intro p
  rw [diagnosticsOf, List.flatten_eq_nil_iff]
  intro labels hlabels
  obtain ⟨i, hi, rfl⟩ := List.mem_mapIdx.mp hlabels
  exact h _ (List.getElem_mem hi) _

/-- A reading without labels settles none. -/
theorem recognised_of_labelFree {r : Reading α} (h : r.labelFree = true) (t : Tree) :
    r.Recognised t := by
  intro p
  induction r generalizing p t with
  | leaf read => rfl
  | label fallback read => cases h
  | slots shape => rfl
  | list item ih =>
      cases t with
      | list items => exact recognised_list (fun v _ p => ih h v p) p
      | _ => rfl
  | done value => rfl
  | note known => rfl
  | field access key inner ih =>
      rw [diagnosticsOf]
      cases access.child? key t with
      | some v => exact ih h v _
      | none => rfl
  | seq first next ihf ihn =>
      obtain ⟨hf, hn⟩ := (Bool.and_eq_true _ _).mp h
      rw [diagnosticsOf, ihf hf t p, ihn hn t p]
      rfl

theorem recognised_table {known : List String} {next : Reading α} {t : Tree}
    (h : next.Recognised t) : (table known next).Recognised t :=
  recognised_seq (fun _ => rfl) (recognised_seq h fun _ => rfl)

/-! ### Levels and signs -/

theorem recognised_level {key : String} {level : Auth} {t : Tree}
    (found : t.get? key = some (toTree level)) :
    (field (.level .none) key (label .auth Leaf.auth)).Recognised t := by
  refine recognised_field found fun p => ?_
  rw [diagnosticsOf, Leaf.auth_toTree]
  rfl

theorem recognised_balanceChange (change : BalanceChange) :
    balanceChange.Recognised (toTree change) := by
  have sgn : (label .sign Leaf.sign).Recognised (toTree change.sgn) := by
    intro p
    rw [diagnosticsOf, Leaf.sign_toTree]
    rfl
  refine recognised_table (recognised_seq ?_ (recognised_seq ?_ ?_))
  · exact recognised_of_labelFree rfl _
  · exact recognised_field rfl sgn
  · exact recognised_of_labelFree rfl _

theorem recognised_setVerificationKey (policy : SetVerificationKey) :
    setVerificationKey.Recognised (toTree policy) := by
  refine recognised_table (recognised_seq (recognised_level rfl) ?_)
  exact recognised_of_labelFree rfl _

theorem recognised_permissions (permissions : Permissions) :
    Reading.permissions.Recognised (toTree permissions) := by
  have policy := recognised_setVerificationKey permissions.setVerificationKey
  refine recognised_table (recognised_seq (recognised_field rfl policy) ?_)
  -- The levels after the policy, then the step that puts the permissions together.
  iterate 12 refine recognised_seq (recognised_level rfl) ?_
  exact recognised_of_labelFree rfl _

/-- Absent permissions have no labels, in either shape. -/
theorem recognised_optionalPermissions (o : Optional Permissions) :
    permissions.Recognised (toTree o) := by
  cases o with
  | tagged value =>
      cases value with
      | none => exact fun p => rfl
      | some permissions => exact recognised_permissions permissions
  | flagged present payload => exact fun p => rfl

/-! ### Account updates and commands -/

section
variable (shape : Shape)

theorem recognised_update (update : Update) :
    (Reading.update shape).Recognised (toTree update) := by
  have levels := recognised_optionalPermissions update.permissions
  refine recognised_table (recognised_seq ?_ (recognised_seq ?_ (recognised_seq ?_
    (recognised_seq ?_ ?_))))
  · exact recognised_of_labelFree rfl _
  · exact recognised_of_labelFree rfl _
  · exact recognised_of_labelFree rfl _
  · exact recognised_field rfl (recognised_seq levels fun _ => rfl)
  · exact recognised_of_labelFree rfl _

theorem recognised_accountUpdate (update : AccountUpdate) :
    (accountUpdate shape).Recognised (toTree update) := by
  have change := recognised_balanceChange update.body.balanceChange
  have changes := recognised_update shape update.body.update
  have body : (accountUpdateBody shape).Recognised (toTree update.body) := by
    refine recognised_table (recognised_seq (recognised_field rfl change) ?_)
    -- Between the change of the balance and the update stand parts without labels.
    iterate 4 refine recognised_seq (recognised_of_labelFree rfl _) ?_
    refine recognised_seq (recognised_field rfl changes) ?_
    exact recognised_of_labelFree rfl _
  refine recognised_table (recognised_seq (recognised_field rfl body) ?_)
  exact recognised_of_labelFree rfl _

/-- **Reading a command back settles no label by a fallback.** -/
theorem recognised_command (config : Config) (command : Command) :
    (document config).Recognised (toTree command) := by
  have updates :
      (list (accountUpdate config.shape)).Recognised (toTree command.accountUpdates) := by
    refine recognised_list fun v hv => ?_
    obtain ⟨update, -, rfl⟩ := List.mem_map.mp hv
    exact recognised_accountUpdate config.shape update
  refine recognised_table (recognised_seq ?_ (recognised_seq (recognised_field rfl updates) ?_))
  · exact recognised_of_labelFree rfl _
  · obtain ⟨shape, variant, name⟩ := config
    cases variant <;> exact recognised_of_labelFree rfl _

end

end ZkCommand.Reading
