import Mathlib.Data.List.Forall2
import ZkCommand.Proofs.Reading.Basic

/-!
# ZkCommand.Proofs.Reading.Meaning

**What a reading reads.** `Reads` relates a document value to what a reading makes of it, without
paths, events or an order of steps; `Conforms` says only that there is such a value; `eventsOf`
lists what is noticed on the way, and `diagnosticsOf` the labels that are settled by a fallback.
They describe the walk of every reading: `outcome_walk_eq_ok_iff`, `exists_reads_iff_conforms`,
`events_walk` and `diagnosticsOf_eq`.
-/

namespace ZkCommand

/-! ### Lists with indices -/

theorem map_mapIdx {α β γ : Type} (g : β → γ) (f : Nat → α → β) (items : List α) :
    (items.mapIdx f).map g = items.mapIdx fun i a => g (f i a) := by
  refine List.ext_getElem? fun i => ?_
  rw [List.getElem?_map, List.getElem?_mapIdx, List.getElem?_mapIdx, Option.map_map]
  rfl

theorem forall₂_mapIdx {α β γ δ : Type} {R : α → β → Prop} {S : γ → δ → Prop} {as : List α}
    {bs : List β} (h : List.Forall₂ R as bs) {f : Nat → α → γ} {g : Nat → β → δ}
    (step : ∀ i a b, R a b → S (f i a) (g i b)) :
    List.Forall₂ S (as.mapIdx f) (bs.mapIdx g) := by
  induction h generalizing f g with
  | nil => exact .nil
  | cons head _ ih =>
      rw [List.mapIdx_cons, List.mapIdx_cons]
      exact .cons (step 0 _ _ head) (ih fun i => step (i + 1))

/-! ### Walks in sequence -/

namespace Walk

variable {α β : Type}

@[simp] theorem outcome_pure (value : α) : (pure value : Walk α).outcome = .ok value := rfl

@[simp] theorem events_pure (value : α) : (pure value : Walk α).events = [] := rfl

/-- A sequence of two walks succeeds exactly if both do. -/
theorem outcome_bind_eq_ok_iff {walk : Walk α} {next : α → Walk β} {b : β} :
    (walk >>= next).outcome = .ok b ↔
      ∃ a, walk.outcome = .ok a ∧ (next a).outcome = .ok b := by
  obtain ⟨events, outcome⟩ := walk
  cases outcome with
  | error fault => simp [bind_eq, andThen]
  | ok a => simp [bind_eq, andThen]

theorem events_bind_of_ok {walk : Walk α} {a : α} (h : walk.outcome = .ok a)
    (next : α → Walk β) : (walk >>= next).events = walk.events ++ (next a).events := by
  obtain ⟨events, outcome⟩ := walk
  obtain rfl : outcome = .ok a := h
  rfl

theorem events_bind_eq_nil {walk : Walk α} {next : α → Walk β} (h : walk.events = [])
    (hnext : ∀ a, (next a).events = []) : (walk >>= next).events = [] := by
  obtain ⟨events, outcome⟩ := walk
  obtain rfl : events = [] := h
  cases outcome with
  | error fault => rfl
  | ok a => exact hnext a

theorem events_mapM_eq_nil {walk : α → Walk β} (h : ∀ a, (walk a).events = [])
    (items : List α) : (items.mapM walk).events = [] := by
  induction items with
  | nil => rfl
  | cons item rest ih =>
      rw [List.mapM_cons]
      exact events_bind_eq_nil (h item) fun _ => events_bind_eq_nil ih fun _ => rfl

/-- Walks over a list succeed exactly if each of them does. -/
theorem outcome_mapM_eq_ok_iff {walk : α → Walk β} {items : List α} {values : List β} :
    (items.mapM walk).outcome = .ok values ↔
      List.Forall₂ (fun item value => (walk item).outcome = .ok value) items values := by
  induction items generalizing values with
  | nil =>
      rw [List.mapM_nil, outcome_pure, List.forall₂_nil_left_iff, Except.ok.injEq, eq_comm]
  | cons item rest ih =>
      rw [List.mapM_cons, outcome_bind_eq_ok_iff, List.forall₂_cons_left_iff]
      refine exists_congr fun value => ?_
      rw [outcome_bind_eq_ok_iff]
      simp only [outcome_pure, Except.ok.injEq, ih]
      constructor
      · intro h
        obtain ⟨h, others, hs, rfl⟩ := h
        exact ⟨others, h, hs, rfl⟩
      · intro h
        obtain ⟨others, h, hs, rfl⟩ := h
        exact ⟨h, others, hs, rfl⟩

theorem exists_ok_of_mem {walk : α → Walk β} {items : List α} {values : List β}
    (h : (items.mapM walk).outcome = .ok values) {item : α} (hmem : item ∈ items) :
    ∃ a, (walk item).outcome = .ok a := by
  have all := outcome_mapM_eq_ok_iff.mp h
  obtain ⟨hlen, hget⟩ := List.forall₂_iff_get.mp all
  obtain ⟨i, hi, rfl⟩ := List.mem_iff_getElem.mp hmem
  exact ⟨_, hget i hi (hlen ▸ hi)⟩

/-- What walks over a list notice is what they notice at its elements, in order. -/
theorem events_mapM_of_ok {walk : α → Walk β} {items : List α} {values : List β}
    (h : (items.mapM walk).outcome = .ok values) :
    (items.mapM walk).events = (items.map fun item => (walk item).events).flatten := by
  induction items generalizing values with
  | nil => rfl
  | cons item rest ih =>
      rw [List.mapM_cons] at h ⊢
      obtain ⟨value, hv, h⟩ := outcome_bind_eq_ok_iff.mp h
      obtain ⟨others, hs, -⟩ := outcome_bind_eq_ok_iff.mp h
      rw [events_bind_of_ok hv, events_bind_of_ok hs, ih hs, events_pure, List.append_nil,
        List.map_cons, List.flatten_cons]

end Walk

/-! ### The relation of a reading -/

/-- What a rule makes of the value under a key. -/
def Access.Reads {β : Type} (access : Access β) (key : String) (relation : Tree → β → Prop)
    (t : Tree) (b : β) : Prop :=
  t.kind = .mapping ∧
    match access.child? key t with
    | some v => relation v b
    | none => access.default? = some b

/-- What is noticed when the value under a key is not given. -/
def Access.missingEvents {β : Type} (access : Access β) (p : Path) (key : String) : List Event :=
  match access with
  | .level _ => [.permissionMissing p key]
  | _ => []

/-- The keys of a mapping that are not in a table, in order. -/
def Tree.unknownKeys (known : List String) : Tree → List String
  | .map entries => (entries.map Prod.fst).filter fun key => !known.contains key
  | _ => []

/-- State slots of a list: a null or missing slot is absent, and beyond the last one there are
only nulls. -/
def SlotsRead (shape : Shape) (t : Tree) (slots : Slots) : Prop :=
  ∃ items, t = .list items ∧ (∀ v ∈ items.drop slotCount, v.isNull = true) ∧
    ∀ i : Fin slotCount, Leaf.optional shape Leaf.field items[i.val]? = .ok slots[i]

namespace Reading

variable {α : Type}

/-- A value is what a reading makes of a document value. -/
def Reads {α : Type} : Reading α → Tree → α → Prop
  | .leaf read, t, a => read t = .ok a
  | .label _ read, t, a => ∃ result, read t = .ok result ∧ result.value = a
  | .slots shape, t, a => SlotsRead shape t a
  | .list item, t, as => ∃ items, t = .list items ∧ List.Forall₂ item.Reads items as
  | .done value, _, a => a = value
  | .note _, _, _ => True
  | .field access key inner, t, b => access.Reads key inner.Reads t b
  | .seq first next, t, c => ∃ b f, first.Reads t b ∧ next.Reads t f ∧ c = f b

/-- A document value has the form that a reading needs. -/
def Conforms {α : Type} : Reading α → Tree → Prop
  | .leaf read, t => ∃ a, read t = .ok a
  | .label _ read, t => ∃ result, read t = .ok result
  | .slots _, t =>
      ∃ items, t = .list items ∧ (∀ v ∈ items.drop slotCount, v.isNull = true) ∧
        ∀ v ∈ items.take slotCount, v.isNull = false → ∃ x, Leaf.field v = .ok x
  | .list item, t => ∃ items, t = .list items ∧ ∀ v ∈ items, item.Conforms v
  | .done _, _ => True
  | .note _, _ => True
  | .field access key inner, t =>
      t.kind = .mapping ∧ (access.default? = none → (access.child? key t).isSome = true) ∧
        ∀ v, access.child? key t = some v → inner.Conforms v
  | .seq first next, t => first.Conforms t ∧ next.Conforms t

/-- What a reading notices in a document value that it reads. -/
def eventsOf {α : Type} : Reading α → Path → Tree → List Event
  | .leaf _, _, _ => []
  | .label fallback read, p, t =>
      match read t with
      | .ok result => (result.unrecognised.map fun text => .fallback ⟨p, fallback, text⟩).toList
      | .error _ => []
  | .slots _, _, _ => []
  | .list item, p, t =>
      match t with
      | .list items => (items.mapIdx fun i v => item.eventsOf (p.index i) v).flatten
      | _ => []
  | .done _, _, _ => []
  | .note known, p, t => (t.unknownKeys known).map (Event.unknownKey p)
  | .field access key inner, p, t =>
      match access.child? key t with
      | some v => inner.eventsOf (p.key key) v
      | none => access.missingEvents p key
  | .seq first next, p, t => first.eventsOf p t ++ next.eventsOf p t

/-- The labels in a document value that a reading settles by a fallback. -/
def diagnosticsOf {α : Type} : Reading α → Path → Tree → List Diagnostic
  | .leaf _, _, _ => []
  | .label fallback read, p, t =>
      match read t with
      | .ok result => (result.unrecognised.map fun text => ⟨p, fallback, text⟩).toList
      | .error _ => []
  | .slots _, _, _ => []
  | .list item, p, t =>
      match t with
      | .list items => (items.mapIdx fun i v => item.diagnosticsOf (p.index i) v).flatten
      | _ => []
  | .done _, _, _ => []
  | .note _, _, _ => []
  | .field access key inner, p, t =>
      match access.child? key t with
      | some v => inner.diagnosticsOf (p.key key) v
      | none => []
  | .seq first next, p, t => first.diagnosticsOf p t ++ next.diagnosticsOf p t

end Reading

/-! ### Values that are not given -/

namespace Access

variable {β : Type}

theorem outcome_missing_eq_ok_iff (access : Access β) {n : Node} {key : String} {b : β} :
    (access.missing n key).outcome = .ok b ↔ access.default? = some b := by
  cases access with
  | required => exact iff_of_false (fun h => by cases h) fun h => by cases h
  | given default => simp [missing, default?]
  | block default => simp [missing, default?]
  | level default =>
      rw [missing, Walk.outcome_bind_eq_ok_iff]
      simp [default?, Walk.emit]

theorem events_missing (access : Access β) (n : Node) (key : String) :
    (access.missing n key).events = access.missingEvents n.path key := by
  cases access <;> rfl

end Access

/-! ### Optional leaves -/

namespace Leaf

variable {α : Type} [Vacant α]

theorem optional_of_isNull {t : Tree} (h : t.isNull = true) (shape : Shape) (read : Reader α) :
    optional shape read (some t) = .ok shape.absent := by
  cases t <;> first | rfl | cases h

theorem optional_eq_ok_iff {t : Tree} (h : t.isNull = false) {shape : Shape} {read : Reader α}
    {o : Optional α} :
    optional shape read (some t) = .ok o ↔ ∃ a, read t = .ok a ∧ shape.present a = o := by
  have unfolded : optional shape read (some t) = (read t >>= fun a => .ok (shape.present a)) := by
    cases t <;> first | rfl | cases h
  rw [unfolded]
  cases read t with
  | ok a => simp [bind, Except.bind]
  | error fault => simp [bind, Except.bind]

end Leaf

/-! ### Leaves, lists and slots -/

namespace Node

variable {α : Type}

theorem outcome_leaf_eq_ok_iff {n : Node} {read : Leaf.Reader α} {a : α} :
    (n.leaf read).outcome = .ok a ↔ read n.tree = .ok a := by
  unfold leaf
  cases read n.tree with
  | ok value => simp
  | error fault => simp [fail, Walk.fail]

theorem events_leaf (n : Node) (read : Leaf.Reader α) : (n.leaf read).events = [] := by
  unfold leaf
  cases read n.tree <;> rfl

theorem labelled_of_ok {n : Node} {read : Leaf.Reader (Leaf.Labelled α)}
    {result : Leaf.Labelled α} (h : read n.tree = .ok result) (fallback : Fallback) :
    n.labelled fallback read =
      ⟨(result.unrecognised.map fun text => .fallback ⟨n.path, fallback, text⟩).toList,
        .ok result.value⟩ := by
  unfold labelled leaf
  rw [h, pure_bind]
  cases result.unrecognised <;> rfl

theorem outcome_labelled_eq_ok_iff {n : Node} {fallback : Fallback}
    {read : Leaf.Reader (Leaf.Labelled α)} {a : α} :
    (n.labelled fallback read).outcome = .ok a ↔
      ∃ result, read n.tree = .ok result ∧ result.value = a := by
  cases h : read n.tree with
  | ok result => simp [labelled_of_ok h]
  | error fault => simp [labelled, leaf, h]; simp [fail, Walk.fail]

/-- The nodes of a list hold its elements. -/
theorem items_list (p : Path) (items : List Tree) :
    (⟨p, .list items⟩ : Node).items = pure (items.mapIdx fun i t => ⟨p.index i, t⟩) := rfl

theorem map_tree_mapIdx (p : Path) (items : List Tree) :
    (items.mapIdx fun i t => (⟨p.index i, t⟩ : Node)).map Node.tree = items := by
  refine List.ext_getElem? fun i => ?_
  rw [List.getElem?_map, List.getElem?_mapIdx]
  cases items[i]? <;> rfl

/-- Whether all elements beyond an index are null is the same for the nodes of a list. -/
theorem any_drop_mapIdx (p : Path) (items : List Tree) (count : Nat) :
    ((items.mapIdx fun i t => (⟨p.index i, t⟩ : Node)).drop count).any
        (fun item => !item.tree.isNull) = (items.drop count).any fun v => !v.isNull := by
  conv_rhs => rw [← map_tree_mapIdx p items, ← List.map_drop, List.any_map]
  rfl

theorem outcome_each_eq_ok_iff {p : Path} {items : List Tree} {walk : Node → Walk α}
    {values : List α} {relation : Tree → α → Prop}
    (h : ∀ n a, (walk n).outcome = .ok a ↔ relation n.tree a) :
    ((⟨p, .list items⟩ : Node).each walk).outcome = .ok values ↔
      List.Forall₂ relation items values := by
  rw [each, items_list, pure_bind, Walk.outcome_mapM_eq_ok_iff]
  conv_rhs => rw [← map_tree_mapIdx p items]
  rw [List.forall₂_map_left_iff]
  simp only [h]

theorem outcome_slot_eq_ok_iff {shape : Shape} {n : Node} {o : Optional Fp} :
    (slot shape n).outcome = .ok o ↔ Leaf.optional shape Leaf.field (some n.tree) = .ok o := by
  unfold slot
  cases hn : n.tree.isNull with
  | true =>
      rw [if_pos rfl, Leaf.optional_of_isNull hn, Walk.outcome_pure]
      simp only [Except.ok.injEq]
  | false =>
      rw [if_neg (by decide), Leaf.optional_eq_ok_iff hn, Walk.outcome_bind_eq_ok_iff]
      simp only [outcome_leaf_eq_ok_iff, Walk.outcome_pure, Except.ok.injEq]

theorem events_slot (shape : Shape) (n : Node) : (slot shape n).events = [] := by
  unfold slot
  split
  · rfl
  · unfold leaf
    cases Leaf.field n.tree <;> rfl

/-- Eight slots are those of a list exactly if each of them is that of the element at its place. -/
theorem slots_of_given {shape : Shape} {items : List Tree} {slots : Slots} :
    (∃ given, List.Forall₂ (fun v o => Leaf.optional shape Leaf.field (some v) = .ok o)
        (items.take slotCount) given ∧
      Vector.ofFn (fun i : Fin slotCount => given.getD i shape.absent) = slots) ↔
    ∀ i : Fin slotCount, Leaf.optional shape Leaf.field items[i.val]? = .ok slots[i] := by
  constructor
  · rintro ⟨given, h, rfl⟩ i
    obtain ⟨hlen, hget⟩ := List.forall₂_iff_get.mp h
    have hi : i.val < slotCount := i.isLt
    rw [List.length_take] at hlen
    simp only [Fin.getElem_fin, Vector.getElem_ofFn]
    -- A slot beyond the end of the list is absent on both sides.
    by_cases hitem : i.val < items.length
    · have hgiven : i.val < given.length := by omega
      have slot := hget i.val (by rw [List.length_take]; omega) hgiven
      rw [List.get_eq_getElem, List.getElem_take] at slot
      rw [List.getD_eq_getElem?_getD, List.getElem?_eq_getElem hitem,
        List.getElem?_eq_getElem hgiven]
      exact slot
    · rw [List.getD_eq_getElem?_getD, List.getElem?_eq_none (by omega),
        List.getElem?_eq_none (by omega)]
      rfl
  · intro h
    refine ⟨slots.toList.take items.length, List.forall₂_iff_get.mpr ⟨?_, ?_⟩, ?_⟩
    · rw [List.length_take, List.length_take, Vector.length_toList, Nat.min_comm]
    · intro i hi hi'
      obtain ⟨hslot, hitem⟩ := Nat.lt_min.mp (List.length_take ▸ hi)
      have slot := h ⟨i, hslot⟩
      rw [List.getElem?_eq_getElem hitem] at slot
      simpa using slot
    · refine Vector.ext fun i hi => ?_
      rw [Vector.getElem_ofFn, List.getD_eq_getElem?_getD]
      by_cases hitem : i < items.length
      · rw [List.getElem?_take_of_lt hitem, Vector.getElem?_toList, Vector.getElem?_eq_getElem hi]
        rfl
      · have slot := h ⟨i, hi⟩
        rw [List.getElem?_eq_none (Nat.le_of_not_lt hitem)] at slot
        rw [List.getElem?_take_eq_none (Nat.le_of_not_lt hitem)]
        exact Except.ok.inj slot

theorem outcome_slots_eq_ok_iff {shape : Shape} {n : Node} {s : Slots} :
    (Node.slots shape n).outcome = .ok s ↔ SlotsRead shape n.tree s := by
  obtain ⟨p, t⟩ := n
  cases t with
  | list items =>
      have front : ∀ given,
          List.Forall₂ (fun item o => (slot shape item).outcome = .ok o)
            ((items.mapIdx fun i t => (⟨p.index i, t⟩ : Node)).take slotCount) given ↔
          List.Forall₂ (fun v o => Leaf.optional shape Leaf.field (some v) = .ok o)
            (items.take slotCount) given := by
        intro given
        conv_rhs => rw [← map_tree_mapIdx p items, ← List.map_take, List.forall₂_map_left_iff]
        simp only [outcome_slot_eq_ok_iff]
      rw [Node.slots, items_list, pure_bind]
      simp only [any_drop_mapIdx, SlotsRead, Tree.list.injEq, exists_eq_left']
      -- The walk fails on a value after the eighth before it reads any slot.
      cases hany : (items.drop slotCount).any fun v => !v.isNull with
      | true =>
          rw [if_pos rfl]
          obtain ⟨v, hv, hn⟩ := List.any_eq_true.mp hany
          refine iff_of_false (fun h => by cases h) fun h => ?_
          rw [h.1 v hv] at hn
          exact absurd hn (by decide)
      | false =>
          rw [if_neg (by decide), Walk.outcome_bind_eq_ok_iff]
          simp only [Walk.outcome_mapM_eq_ok_iff, Walk.outcome_pure, Except.ok.injEq, front]
          rw [slots_of_given, iff_and_self]
          intro _ v hv
          simpa using List.any_eq_false.mp hany v hv
  | _ =>
      refine iff_of_false (fun h => by cases h) ?_
      intro h
      obtain ⟨items, h, -⟩ := h
      cases h

theorem events_slots (shape : Shape) (n : Node) : (Node.slots shape n).events = [] := by
  refine Walk.events_bind_eq_nil ?_ fun items => ?_
  · unfold items
    split <;> rfl
  · split
    · rfl
    · exact Walk.events_bind_eq_nil (Walk.events_mapM_eq_nil (events_slot shape) _) fun _ => rfl

theorem events_noteUnknown (n : Node) (known : List String) :
    (n.noteUnknown known).events = (n.tree.unknownKeys known).map (Event.unknownKey n.path) := by
  obtain ⟨p, t⟩ := n
  cases t <;> rfl

theorem events_each {p : Path} {items : List Tree} {walk : Node → Walk α} {values : List α}
    {noticed : Path → Tree → List Event}
    (h : ((⟨p, .list items⟩ : Node).each walk).outcome = .ok values)
    (hnoticed : ∀ n a, (walk n).outcome = .ok a → (walk n).events = noticed n.path n.tree) :
    ((⟨p, .list items⟩ : Node).each walk).events
      = (items.mapIdx fun i v => noticed (p.index i) v).flatten := by
  rw [each, items_list, pure_bind] at h ⊢
  rw [Walk.events_mapM_of_ok h]
  congr 1
  refine List.ext_getElem? fun i => ?_
  rw [List.getElem?_map, List.getElem?_mapIdx, List.getElem?_mapIdx, Option.map_map]
  cases hi : items[i]? with
  | none => rfl
  | some v =>
      have hmem : (⟨p.index i, v⟩ : Node) ∈ items.mapIdx fun i t => ⟨p.index i, t⟩ := by
        refine List.mem_iff_getElem?.mpr ⟨i, ?_⟩
        rw [List.getElem?_mapIdx, hi]
        rfl
      obtain ⟨a, ha⟩ := Walk.exists_ok_of_mem h hmem
      exact congrArg some (hnoticed _ a ha)

end Node

/-! ### The three meanings of a reading -/

namespace Reading

variable {α : Type}

/-- **A walk returns what its reading reads.** -/
theorem outcome_walk_eq_ok_iff (r : Reading α) (n : Node) (a : α) :
    (r.walk n).outcome = .ok a ↔ r.Reads n.tree a := by
  induction r generalizing n with
  | leaf read => exact Node.outcome_leaf_eq_ok_iff
  | label fallback read => exact Node.outcome_labelled_eq_ok_iff
  | slots shape => exact Node.outcome_slots_eq_ok_iff
  | list item ih =>
      obtain ⟨p, t⟩ := n
      cases t with
      | list items =>
          simp only [Reads, Tree.list.injEq, exists_eq_left']
          exact Node.outcome_each_eq_ok_iff fun n a => ih n a
      | _ =>
          refine iff_of_false (fun h => by cases h) ?_
          intro h
          obtain ⟨items, h, -⟩ := h
          cases h
  | done value => simp only [walk, Reads, Walk.outcome_pure, Except.ok.injEq, eq_comm]
  | note known =>
      refine iff_of_true ?_ trivial
      obtain ⟨p, t⟩ := n
      cases t <;> rfl
  | field access key inner ih =>
      -- Every rule looks for its key in a mapping, and fails on any other node.
      obtain ⟨p, t⟩ := n
      obtain ⟨entries, rfl⟩ | h := t.map_or_kind_ne
      · have child := Node.access_map p entries access key inner.walk
        simp only [walk, Reads, Access.Reads, child, Tree.kind, true_and]
        cases access.child? key (.map entries) with
        | some v => exact ih ⟨p.key key, v⟩ _
        | none => exact access.outcome_missing_eq_ok_iff
      · refine iff_of_false (fun hok => ?_) fun hreads => h hreads.1
        rw [walk, Node.access_fail h] at hok
        cases hok
  | seq first next ihf ihn =>
      simp only [walk, Reads, Walk.outcome_bind_eq_ok_iff, Walk.outcome_pure, Except.ok.injEq, ihf,
        ihn]
      constructor
      · intro h
        obtain ⟨b, hb, f, hf, rfl⟩ := h
        exact ⟨b, f, hb, hf, rfl⟩
      · intro h
        obtain ⟨b, f, hb, hf, rfl⟩ := h
        exact ⟨b, hb, f, hf, rfl⟩

theorem exists_forall₂_iff {β : Type} {relation : Tree → β → Prop} {items : List Tree} :
    (∃ values, List.Forall₂ relation items values) ↔ ∀ v ∈ items, ∃ b, relation v b := by
  induction items with
  | nil => simp
  | cons item rest ih =>
      simp only [List.forall₂_cons_left_iff, List.forall_mem_cons, ← ih]
      constructor
      · intro h
        obtain ⟨_, b, values, h, hs, -⟩ := h
        exact ⟨⟨b, h⟩, values, hs⟩
      · intro h
        obtain ⟨⟨b, h⟩, values, hs⟩ := h
        exact ⟨_, b, values, h, hs, rfl⟩

theorem exists_optional_iff (shape : Shape) {t : Tree} :
    (∃ o, Leaf.optional shape Leaf.field (some t) = .ok o) ↔
      (t.isNull = false → ∃ x, Leaf.field t = .ok x) := by
  cases ht : t.isNull with
  | true =>
      refine iff_of_true ⟨_, Leaf.optional_of_isNull ht shape _⟩ fun h => by cases h
  | false =>
      simp only [Leaf.optional_eq_ok_iff ht, true_imp_iff]
      constructor
      · intro h
        obtain ⟨_, x, hx, -⟩ := h
        exact ⟨x, hx⟩
      · intro h
        obtain ⟨x, hx⟩ := h
        exact ⟨_, x, hx, rfl⟩

theorem exists_slotsRead_iff {shape : Shape} {t : Tree} :
    (∃ slots, SlotsRead shape t slots) ↔ (slots shape).Conforms t := by
  constructor
  · intro h
    obtain ⟨given, items, rfl, rest, each⟩ := h
    refine ⟨items, rfl, rest, fun v hv => (exists_optional_iff shape).mp ?_⟩
    obtain ⟨i, hi, rfl⟩ := List.mem_iff_getElem.mp hv
    obtain ⟨hslot, hitem⟩ := Nat.lt_min.mp (List.length_take ▸ hi)
    have slot := each ⟨i, hslot⟩
    rw [List.getElem?_eq_getElem hitem] at slot
    rw [List.getElem_take]
    exact ⟨_, slot⟩
  · intro h
    obtain ⟨items, rfl, rest, each⟩ := h
    have slot : ∀ i : Fin slotCount, ∃ o, Leaf.optional shape Leaf.field items[i.val]? = .ok o := by
      intro i
      by_cases hitem : i.val < items.length
      · rw [List.getElem?_eq_getElem hitem]
        refine (exists_optional_iff shape).mpr (each _ ?_)
        refine List.mem_iff_getElem.mpr ⟨i.val, ?_, List.getElem_take⟩
        rw [List.length_take]
        exact Nat.lt_min.mpr ⟨i.isLt, hitem⟩
      · rw [List.getElem?_eq_none (Nat.le_of_not_lt hitem)]
        exact ⟨_, rfl⟩
    choose given hgiven using slot
    refine ⟨Vector.ofFn given, items, rfl, rest, fun i => ?_⟩
    rw [Fin.getElem_fin, Vector.getElem_ofFn]
    exact hgiven i

/-- **A reading reads something exactly from the document values of its form.** -/
theorem exists_reads_iff_conforms (r : Reading α) (t : Tree) :
    (∃ a, r.Reads t a) ↔ r.Conforms t := by
  induction r generalizing t with
  | leaf read => exact Iff.rfl
  | label fallback read =>
      constructor
      · intro h
        obtain ⟨_, result, h, -⟩ := h
        exact ⟨result, h⟩
      · intro h
        obtain ⟨result, h⟩ := h
        exact ⟨_, result, h, rfl⟩
  | slots shape => exact exists_slotsRead_iff
  | list item ih =>
      simp only [Conforms, ← ih, ← exists_forall₂_iff]
      constructor
      · intro h
        obtain ⟨values, items, rfl, h⟩ := h
        exact ⟨items, rfl, values, h⟩
      · intro h
        obtain ⟨items, rfl, values, h⟩ := h
        exact ⟨values, items, rfl, h⟩
  | done value => exact iff_of_true ⟨value, rfl⟩ trivial
  | note known => exact iff_of_true ⟨(), trivial⟩ trivial
  | field access key inner ih =>
      simp only [Reads, Conforms, Access.Reads, exists_and_left, ← ih]
      refine and_congr_right fun _ => ?_
      cases access.child? key t with
      | some v => simp
      | none => simp [Option.ne_none_iff_exists', imp_false]
  | seq first next ihf ihn =>
      simp only [Reads, Conforms, ← ihf, ← ihn]
      constructor
      · intro h
        obtain ⟨_, b, f, hb, hf, -⟩ := h
        exact ⟨⟨b, hb⟩, f, hf⟩
      · intro h
        obtain ⟨⟨b, hb⟩, f, hf⟩ := h
        exact ⟨_, b, f, hb, hf, rfl⟩

/-- **The events of a walk** that returns something are what its reading notices. -/
theorem events_walk (r : Reading α) (n : Node) {a : α} (h : (r.walk n).outcome = .ok a) :
    (r.walk n).events = r.eventsOf n.path n.tree := by
  induction r generalizing n with
  | leaf read => exact Node.events_leaf n read
  | label fallback read =>
      obtain ⟨result, hr, -⟩ := Node.outcome_labelled_eq_ok_iff.mp h
      rw [walk, Node.labelled_of_ok hr, eventsOf, hr]
  | slots shape => exact Node.events_slots shape n
  | list item ih =>
      obtain ⟨p, t⟩ := n
      cases t with
      | list items => exact Node.events_each h fun n a => ih n
      | _ => cases h
  | done value => rfl
  | note known => exact Node.events_noteUnknown n known
  | field access key inner ih =>
      obtain ⟨p, t⟩ := n
      obtain ⟨entries, rfl⟩ | ht := t.map_or_kind_ne
      · rw [walk, Node.access_map] at h ⊢
        rw [eventsOf]
        cases hc : access.child? key (.map entries) with
        | some v =>
            rw [hc] at h
            exact ih _ h
        | none => exact access.events_missing _ key
      · rw [walk, Node.access_fail ht] at h
        cases h
  | seq first next ihf ihn =>
      obtain ⟨b, hb, h⟩ := Walk.outcome_bind_eq_ok_iff.mp h
      obtain ⟨f, hf, -⟩ := Walk.outcome_bind_eq_ok_iff.mp h
      rw [walk, Walk.events_bind_of_ok hb, Walk.events_bind_of_ok hf, ihf n hb, ihn n hf]
      exact congrArg _ (List.append_nil _)

/-- **The diagnostics** among what a reading notices are the labels that it settles. -/
theorem diagnosticsOf_eq (r : Reading α) (p : Path) (t : Tree) :
    r.diagnosticsOf p t = (r.eventsOf p t).filterMap Event.diagnostic? := by
  induction r generalizing p t with
  | leaf read => rfl
  | label fallback read =>
      rw [diagnosticsOf, eventsOf]
      cases read t with
      | ok result =>
          show Option.toList _ = List.filterMap _ (Option.toList _)
          cases result.unrecognised <;> rfl
      | error fault => rfl
  | slots shape => rfl
  | list item ih =>
      cases t with
      | list items =>
          rw [diagnosticsOf, eventsOf, List.filterMap_flatten, map_mapIdx]
          simp only [ih]
      | _ => rfl
  | done value => rfl
  | note known =>
      rw [diagnosticsOf, eventsOf, List.filterMap_map, eq_comm, List.filterMap_eq_nil_iff]
      exact fun _ _ => rfl
  | field access key inner ih =>
      rw [diagnosticsOf, eventsOf]
      cases access.child? key t with
      | some v => exact ih _ _
      | none => cases access <;> rfl
  | seq first next ihf ihn => rw [diagnosticsOf, eventsOf, List.filterMap_append, ihf, ihn]

end Reading

end ZkCommand
