import Mathlib.Logic.Relator
import ZkCommand.Proofs.Command.Shaped
import ZkCommand.Proofs.Reading.Tables

/-!
# ZkCommand.Proofs.Reading.Shaped

**One reading in two shapes.** The shape of a run decides what stands for a value and what stands
for nothing, and it decides nothing else. `Reading.Similar` relates two readings that take the same
steps at the same keys and differ only in the values that they make; `similar_walk` says that their
walks notice the same things and end alike. The tables of the schema are related in this way by
`similar_document`.
-/

namespace ZkCommand

open Relator

/-! ### Walks that end alike -/

namespace Walk

variable {α β γ δ : Type}

/-- Two outcomes are the same failure, or values in a relation. -/
def Ends (relation : α → β → Prop) : Except Fault α → Except Fault β → Prop
  | .ok a, .ok b => relation a b
  | .error fault, .error fault' => fault = fault'
  | _, _ => False

/-- Two walks notice the same things and end alike. -/
structure Similar (relation : α → β → Prop) (walk : Walk α) (walk' : Walk β) : Prop where
  events : walk.events = walk'.events
  ends : Ends relation walk.outcome walk'.outcome

variable {R : α → β → Prop} {S : γ → δ → Prop}

theorem Similar.same (walk : Walk α) : Similar Eq walk walk := by
  refine ⟨rfl, ?_⟩
  cases walk.outcome <;> rfl

theorem Similar.pure {a : α} {b : β} (h : R a b) : Similar R (pure a) (pure b) := ⟨rfl, h⟩

theorem Similar.fail (fault : Fault) : Similar R (Walk.fail fault) (Walk.fail fault) := ⟨rfl, rfl⟩

/-- Walks in sequence end alike if the first ones do, and the next ones do on related values. -/
theorem Similar.bind {walk : Walk α} {walk' : Walk β} {next : α → Walk γ} {next' : β → Walk δ}
    (h : Similar R walk walk') (hnext : ∀ a b, R a b → Similar S (next a) (next' b)) :
    Similar S (walk >>= next) (walk' >>= next') := by
  obtain ⟨events, outcome⟩ := walk
  obtain ⟨events', outcome'⟩ := walk'
  obtain ⟨rfl, ends⟩ := h
  cases outcome with
  | error fault =>
      cases outcome' with
      | error fault' =>
          obtain rfl : fault = fault' := ends
          exact ⟨rfl, rfl⟩
      | ok b => exact ends.elim
  | ok a =>
      cases outcome' with
      | error fault' => exact ends.elim
      | ok b =>
          have after := hnext a b ends
          exact ⟨congrArg (events ++ ·) after.events, after.ends⟩

theorem Similar.mapM {ι : Type} {walk : ι → Walk α} {walk' : ι → Walk β}
    (h : ∀ i, Similar R (walk i) (walk' i)) (items : List ι) :
    Similar (List.Forall₂ R) (items.mapM walk) (items.mapM walk') := by
  induction items with
  | nil => exact .pure .nil
  | cons item rest ih =>
      rw [List.mapM_cons, List.mapM_cons]
      exact (h item).bind fun a b hab => ih.bind fun as bs hs => .pure (.cons hab hs)

end Walk

/-! ### Rules and slots -/

namespace Access

variable {β γ : Type}

/-- Two rules for the same values, whose defaults are in a relation. -/
def Similar (relation : β → γ → Prop) : Access β → Access γ → Prop
  | .required, .required => True
  | .given default, .given default' => relation default default'
  | .block default, .block default' => relation default default'
  | .level default, .level default' => relation default default'
  | _, _ => False

variable {R : β → γ → Prop} {access : Access β} {access' : Access γ}

theorem similar_given {default : β} {default' : γ} (h : R default default') :
    (given default).Similar R (given default') := h

theorem similar_block {default : β} {default' : γ} (h : R default default') :
    (block default).Similar R (block default') := h

theorem Similar.child?_eq (h : Similar R access access') (key : String) (t : Tree) :
    access.child? key t = access'.child? key t := by
  cases access <;> cases access' <;> first | rfl | exact h.elim

theorem Similar.missing (h : Similar R access access') (n : Node) (key : String) :
    Walk.Similar R (access.missing n key) (access'.missing n key) := by
  cases access <;> cases access' <;> first | exact h.elim | exact ⟨rfl, h⟩ | exact ⟨rfl, rfl⟩

end Access

namespace Node

variable {β γ : Type} {R : β → γ → Prop}

theorem similar_access {access : Access β} {access' : Access γ} (h : access.Similar R access')
    {walk : Node → Walk β} {walk' : Node → Walk γ} (hwalk : ∀ n, Walk.Similar R (walk n) (walk' n))
    (n : Node) (key : String) :
    Walk.Similar R (n.access access key walk) (n.access access' key walk') := by
  obtain ⟨p, t⟩ := n
  obtain ⟨entries, rfl⟩ | hkind := t.map_or_kind_ne
  · rw [access_map, access_map, h.child?_eq]
    cases access'.child? key (.map entries) with
    | some v => exact hwalk _
    | none => exact h.missing _ key
  · rw [access_fail hkind, access_fail hkind]
    exact .fail _

theorem similar_slot (n : Node) : Walk.Similar Views (slot .flagged n) (slot .tagged n) := by
  unfold slot
  split
  · exact .pure views_absent
  · refine Walk.Similar.bind (.same _) fun a b hab => ?_
    obtain rfl := hab
    exact .pure (views_present a)

theorem views_getD {given given' : List (Optional Fp)} (h : List.Forall₂ Views given given')
    (i : Nat) : Views (given.getD i Shape.flagged.absent) (given'.getD i Shape.tagged.absent) := by
  induction h generalizing i with
  | nil => exact views_absent
  | cons head _ ih =>
      cases i with
      | zero => exact head
      | succ i => exact ih i

theorem similar_slots (n : Node) : Walk.Similar Views (slots .flagged n) (slots .tagged n) := by
  refine Walk.Similar.bind (.same _) fun items items' same => ?_
  obtain rfl := same
  split
  · exact .fail _
  · refine (Walk.Similar.mapM similar_slot _).bind fun given given' h => .pure ?_
    refine views_vector fun i => ?_
    simp only [Fin.getElem_fin, Vector.getElem_ofFn]
    exact views_getD h i

end Node

/-! ### Readings that differ in their values alone -/

namespace Reading

variable {α β γ δ : Type}

/-- Two readings take the same steps, and the values that they make are in a relation. -/
inductive Similar : {α β : Type} → (α → β → Prop) → Reading α → Reading β → Prop
  | same {α : Type} (r : Reading α) : Similar Eq r r
  | slots : Similar Views (.slots .flagged) (.slots .tagged)
  | list {α β : Type} {R : α → β → Prop} {item : Reading α} {item' : Reading β} :
      Similar R item item' → Similar (List.Forall₂ R) (.list item) (.list item')
  | done {α β : Type} {R : α → β → Prop} {a : α} {b : β} : R a b → Similar R (.done a) (.done b)
  | field {α β : Type} {R : α → β → Prop} {access : Access α} {access' : Access β} {key : String}
      {inner : Reading α} {inner' : Reading β} :
      access.Similar R access' → Similar R inner inner' →
        Similar R (.field access key inner) (.field access' key inner')
  | seq {α β γ δ : Type} {R : α → β → Prop} {S : γ → δ → Prop} {first : Reading α}
      {first' : Reading β} {next : Reading (α → γ)} {next' : Reading (β → δ)} :
      Similar R first first' → Similar (R ⇒ S) next next' →
        Similar S (.seq first next) (.seq first' next')

/-- **Similar readings have similar walks**, by induction on what the two readings share. -/
theorem similar_walk {R : α → β → Prop} {r : Reading α} {r' : Reading β} (h : Similar R r r')
    (n : Node) : Walk.Similar R (r.walk n) (r'.walk n) := by
  induction h generalizing n with
  | same r => exact .same _
  | slots => exact Node.similar_slots n
  | list _ ih => exact Walk.Similar.bind (.same _) fun _ _ same => same ▸ .mapM ih _
  | done h => exact .pure h
  | field haccess _ ih => exact Node.similar_access haccess ih n _
  | seq _ _ ihf ihn =>
      exact (ihf n).bind fun a b hab => (ihn n).bind fun f g hfg => .pure (hfg hab)

/-! ### Steps of tables -/

section Steps

variable {R : α → β → Prop} {S : γ → δ → Prop} {known : List String} {key : String}

theorem Similar.map {f : α → γ} {g : β → δ} {r : Reading α} {r' : Reading β} (h : Similar R r r')
    (hf : (R ⇒ S) f g) : Similar S (.map f r) (.map g r') :=
  .seq h (.done hf)

theorem Similar.table {next : Reading α} {next' : Reading β} (h : Similar R next next') :
    Similar R (.table known next) (.table known next') :=
  .seq (.same _) (.map h fun _ _ hab _ _ _ => hab)

theorem Similar.required {inner : Reading α} {inner' : Reading β} {next : Reading (α → γ)}
    {next' : Reading (β → δ)} (h : Similar R inner inner') (hnext : Similar (R ⇒ S) next next') :
    Similar S (.required key inner next) (.required key inner' next') :=
  .seq (.field trivial h) hnext

theorem Similar.optional [Vacant α] {inner : Reading α} {next : Reading (Optional α → γ)}
    {next' : Reading (Optional α → δ)} (hnext : Similar (Views ⇒ S) next next') :
    Similar S (.optional .flagged key inner next) (.optional .tagged key inner next') := by
  refine .seq (.field (Access.similar_given views_absent)
    (.map (.same inner) fun a b hab => ?_)) hnext
  obtain rfl := hab
  exact views_present a

theorem Similar.optionalBlock [Vacant α] {inner : Reading α} {next : Reading (Optional α → γ)}
    {next' : Reading (Optional α → δ)} (hnext : Similar (Views ⇒ S) next next') :
    Similar S (.optionalBlock .flagged key inner next)
      (.optionalBlock .tagged key inner next') := by
  refine .seq (.field (Access.similar_block views_absent)
    (.map (.same inner) fun a b hab => ?_)) hnext
  obtain rfl := hab
  exact views_present a

end Steps

/-! ### The tables of the schema -/

theorem similar_update : Similar Views (update .flagged) (update .tagged) := by
  refine .table <| .required .slots <| .optional <| .optionalBlock <| .optionalBlock <|
    .optional <| .optional <| .optionalBlock <| .optional <| .done ?_
  rintro _ _ ⟨h₁, rfl⟩ _ _ ⟨h₂, rfl⟩ _ _ ⟨h₃, rfl⟩ _ _ ⟨h₄, rfl⟩ _ _ ⟨h₅, rfl⟩ _ _ ⟨h₆, rfl⟩
    _ _ ⟨h₇, rfl⟩ _ _ ⟨h₈, rfl⟩
  exact ⟨⟨h₈, h₇, h₆, h₅, h₄, h₃, h₂, h₁⟩, rfl⟩

theorem similar_epochLedger : Similar Views (epochLedger .flagged) (epochLedger .tagged) := by
  refine .table <| .optional <| .optional <| .done ?_
  rintro _ _ ⟨h₁, rfl⟩ _ _ ⟨h₂, rfl⟩
  exact ⟨⟨h₂, h₁⟩, rfl⟩

/-- A ledger that is not given is absent in both parts, in either shape. -/
theorem views_absentLedger :
    Views (⟨Shape.flagged.absent, Shape.flagged.absent⟩ : EpochLedger)
      ⟨Shape.tagged.absent, Shape.tagged.absent⟩ :=
  ⟨⟨rfl, rfl⟩, rfl⟩

theorem similar_epoch : Similar Views (epoch .flagged) (epoch .tagged) := by
  refine .table <| .seq (.field (Access.similar_given views_absentLedger) similar_epochLedger) <|
    .optional <| .optional <| .optional <| .optional <| .done ?_
  rintro _ _ ⟨h₁, rfl⟩ _ _ ⟨h₂, rfl⟩ _ _ ⟨h₃, rfl⟩ _ _ ⟨h₄, rfl⟩ _ _ ⟨h₅, rfl⟩
  exact ⟨⟨h₅, h₄, h₃, h₂, h₁⟩, rfl⟩

theorem similar_network : Similar Views (network .flagged) (network .tagged) := by
  refine .table <| .optional <| .optional <| .optional <| .optional <| .optional <|
    .required similar_epoch <| .required similar_epoch <| .done ?_
  rintro _ _ ⟨h₁, rfl⟩ _ _ ⟨h₂, rfl⟩ _ _ ⟨h₃, rfl⟩ _ _ ⟨h₄, rfl⟩ _ _ ⟨h₅, rfl⟩ _ _ ⟨h₆, rfl⟩
    _ _ ⟨h₇, rfl⟩
  exact ⟨⟨h₇, h₆, h₅, h₄, h₃, h₂, h₁⟩, rfl⟩

theorem similar_account : Similar Views (account .flagged) (account .tagged) := by
  refine .table <| .optional <| .optional <| .optional <| .optional <| .required .slots <|
    .optional <| .optional <| .optional <| .done ?_
  rintro _ _ ⟨h₁, rfl⟩ _ _ ⟨h₂, rfl⟩ _ _ ⟨h₃, rfl⟩ _ _ ⟨h₄, rfl⟩ _ _ ⟨h₅, rfl⟩ _ _ ⟨h₆, rfl⟩
    _ _ ⟨h₇, rfl⟩ _ _ ⟨h₈, rfl⟩
  exact ⟨⟨h₈, h₇, h₆, h₅, h₄, h₃, h₂, h₁⟩, rfl⟩

theorem similar_preconditions :
    Similar Views (preconditions .flagged) (preconditions .tagged) := by
  refine .table <| .required similar_network <| .required similar_account <| .optional <|
    .done ?_
  rintro _ _ ⟨h₁, rfl⟩ _ _ ⟨h₂, rfl⟩ _ _ ⟨h₃, rfl⟩
  exact ⟨⟨h₃, h₂, h₁⟩, rfl⟩

theorem similar_feePayerBody : Similar Views (feePayerBody .flagged) (feePayerBody .tagged) := by
  refine .table <| .required (.same _) <| .required (.same _) <| .optional <|
    .required (.same _) <| .done ?_
  rintro _ _ rfl _ _ ⟨h, rfl⟩ _ _ rfl _ _ rfl
  exact ⟨h, rfl⟩

theorem similar_feePayer : Similar Views (feePayer .flagged) (feePayer .tagged) := by
  refine .table <| .required similar_feePayerBody <| .required (.same _) <| .done ?_
  rintro _ _ rfl _ _ ⟨h, rfl⟩
  exact ⟨h, rfl⟩

theorem similar_accountUpdateBody :
    Similar Views (accountUpdateBody .flagged) (accountUpdateBody .tagged) := by
  refine .table <| .required (.same _) <| .required (.same _) <| .required (.same _) <|
    .required (.same _) <| .required (.same _) <| .required similar_update <|
    .required (.same _) <| .required (.same _) <| .required (.same _) <| .required (.same _) <|
    .required (.same _) <| .required similar_preconditions <| .required (.same _) <|
    .required (.same _) <| .required (.same _) <| .required (.same _) <| .done ?_
  rintro _ _ rfl _ _ rfl _ _ rfl _ _ rfl _ _ ⟨h₁, rfl⟩ _ _ rfl _ _ rfl _ _ rfl _ _ rfl _ _ rfl
    _ _ ⟨h₂, rfl⟩ _ _ rfl _ _ rfl _ _ rfl _ _ rfl _ _ rfl
  exact ⟨⟨h₂, h₁⟩, rfl⟩

theorem similar_accountUpdate :
    Similar Views (accountUpdate .flagged) (accountUpdate .tagged) := by
  refine .table <| .required similar_accountUpdateBody <| .done ?_
  rintro _ _ ⟨h, rfl⟩
  exact ⟨h, rfl⟩

/-- The readings of a document in the two shapes take the same steps. -/
theorem similar_document (variant : Variant) (name : String) :
    Similar Views (document ⟨.flagged, variant, name⟩) (document ⟨.tagged, variant, name⟩) := by
  refine .table <| .required similar_feePayer <| .required (.list similar_accountUpdate) <|
    .required (.same _) <| .seq (.same _) <| .done ?_
  rintro _ _ rfl _ _ rfl _ _ each _ _ ⟨payer, rfl⟩
  obtain ⟨updates, rfl⟩ := views_list each
  exact ⟨⟨payer, updates⟩, rfl⟩

end Reading

end ZkCommand
