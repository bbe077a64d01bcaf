import ZkCommand.Proofs.Reading.UnknownKeys

/-!
# ZkCommand.Proofs.Reading.Visits

**What a walk asks for, and where.** A walk comes to one node after another and asks something of
each: to be a mapping, to have a key, to be readable as a leaf. `Reading.visits` lists these demands
in the order of the walk, without regard to whether they are met. `fault?_walk` says that a walk
fails at the first demand that is not met, and `located` that every demand is made of the value at
the place that it names.
-/

namespace ZkCommand

/-! ### Demands -/

/-- What is asked of a value. -/
inductive Demand
  /-- To be a mapping. -/
  | mapping
  /-- To be a list. -/
  | list
  /-- To have a key, if it is a mapping. -/
  | key (name : String)
  /-- To hold only nulls beyond the last slot, if it is a list. -/
  | slots
  /-- To be readable as a leaf. -/
  | leaf {α : Type} (read : Leaf.Reader α)

/-- Why a value does not meet a demand. -/
def Demand.cause? : Demand → Tree → Option Walk.Cause
  | .mapping, t => if t.kind = .mapping then none else some (.wrongShape .mapping t.kind)
  | .list, t => if t.kind = .list then none else some (.wrongShape .list t.kind)
  | .key name, .map entries =>
      if (Tree.find? name entries).isSome then none else some (.missingField name)
  | .key _, _ => none
  | .slots, .list items =>
      if (items.drop slotCount).any fun v => !v.isNull then
        some (.tooManySlots items.length slotCount)
      else none
  | .slots, _ => none
  | .leaf read, t =>
      match read t with
      | .ok _ => none
      | .error fault => some (.leaf fault)

/-- A demand made of a node. -/
structure Visit where
  node : Node
  demand : Demand

/-- The failure of a node that does not meet a demand. -/
def Visit.fault? (visit : Visit) : Option Walk.Fault :=
  (visit.demand.cause? visit.node.tree).map fun cause => ⟨visit.node.path, cause⟩

/-! ### Visits -/

/-- The elements of a list, in order. Other nodes have none. -/
def Node.elements (n : Node) : List Node :=
  match n.tree with
  | .list items => items.mapIdx fun i t => ⟨n.path.index i, t⟩
  | _ => []

/-- The visit of a slot. Nothing is asked of null. -/
def slotVisits (n : Node) : List Visit := if n.tree.isNull then [] else [⟨n, .leaf Leaf.field⟩]

/-- The visit of a mapping for a key. The key is asked for if nothing stands for a missing one. -/
def Access.keyVisits {β : Type} (access : Access β) (n : Node) (key : String) : List Visit :=
  match access.default? with
  | none => [⟨n, .mapping⟩, ⟨n, .key key⟩]
  | some _ => [⟨n, .mapping⟩]

namespace Reading

variable {α : Type}

/-- The demands of a reading on a node and on the nodes below it, in the order in which they are
made. A demand that is not met does not end the list. -/
def visits {α : Type} : Reading α → Node → List Visit
  | .leaf read, n => [⟨n, .leaf read⟩]
  | .label _ read, n => [⟨n, .leaf read⟩]
  | .slots _, n => ⟨n, .list⟩ :: ⟨n, .slots⟩ :: (n.elements.take slotCount).flatMap slotVisits
  | .list item, n => ⟨n, .list⟩ :: n.elements.flatMap item.visits
  | .done _, _ => []
  | .note _, _ => []
  | .field access key inner, n =>
      access.keyVisits n key ++
        match access.child? key n.tree with
        | some v => inner.visits ⟨n.path.key key, v⟩
        | none => []
  | .seq first next, n => first.visits n ++ next.visits n

/-- The leaf that a reading expects at a place. -/
inductive LeafAt : {α β : Type} → Reading α → List Segment → Leaf.Reader β → Prop
  | leaf {α : Type} (read : Leaf.Reader α) : LeafAt (.leaf read) [] read
  | label {α : Type} (fallback : Fallback) (read : Leaf.Reader (Leaf.Labelled α)) :
      LeafAt (.label fallback read) [] read
  | slot (shape : Shape) {i : Nat} (inside : i < slotCount) :
      LeafAt (.slots shape) [.index i] Leaf.field
  | item {α β : Type} {item : Reading α} {p : List Segment} {read : Leaf.Reader β} (i : Nat) :
      LeafAt item p read → LeafAt (.list item) (.index i :: p) read
  | field {α β : Type} {access : Access α} {key : String} {inner : Reading α} {p : List Segment}
      {read : Leaf.Reader β} :
      LeafAt inner p read → LeafAt (.field access key inner) (.key key :: p) read
  | first {α β γ : Type} {first : Reading α} {next : Reading (α → γ)} {p : List Segment}
      {read : Leaf.Reader β} : LeafAt first p read → LeafAt (.seq first next) p read
  | next {α β γ : Type} {first : Reading α} {next : Reading (α → γ)} {p : List Segment}
      {read : Leaf.Reader β} : LeafAt next p read → LeafAt (.seq first next) p read

end Reading

/-! ### The failure of a walk -/

theorem findSome?_cons_or {α β : Type} (f : α → Option β) (a : α) (rest : List α) :
    (a :: rest).findSome? f = (f a).or (rest.findSome? f) := by
  rw [List.findSome?_cons]
  cases f a <;> rfl

namespace Walk

variable {α β : Type}

/-- The failure of a walk, if it fails. -/
def fault? (walk : Walk α) : Option Fault :=
  match walk.outcome with
  | .ok _ => none
  | .error fault => some fault

@[simp] theorem fault?_pure (a : α) : (pure a : Walk α).fault? = none := rfl

@[simp] theorem fault?_fail (fault : Fault) : (Walk.fail fault : Walk α).fault? = some fault := rfl

theorem fault?_eq_some_iff {walk : Walk α} {fault : Fault} :
    walk.fault? = some fault ↔ walk.outcome = .error fault := by
  unfold fault?
  cases walk.outcome <;> simp

/-- The failure of two walks in sequence is that of the first, or else that of the second, if this
one does not depend on the value in between. -/
theorem fault?_bind (walk : Walk α) (next : α → Walk β) (second : Option Fault)
    (h : ∀ a, (next a).fault? = second) :
    (walk >>= next).fault? = walk.fault?.or second := by
  obtain ⟨events, outcome⟩ := walk
  cases outcome with
  | error fault => rfl
  | ok a => exact h a

theorem fault?_bind_pure (walk : Walk α) (f : α → β) :
    (walk >>= fun a => pure (f a)).fault? = walk.fault? := by
  rw [fault?_bind walk _ _ fun _ => fault?_pure _, Option.or_none]

/-- Walks over a list fail at the first one that fails. -/
theorem fault?_mapM {ι : Type} (walk : ι → Walk α) (items : List ι) :
    (items.mapM walk).fault? = items.findSome? fun i => (walk i).fault? := by
  induction items with
  | nil => rfl
  | cons item rest ih =>
      rw [List.mapM_cons, fault?_bind _ _ _ fun _ => fault?_bind_pure _ _, ih, findSome?_cons_or]

end Walk

namespace Visit

theorem fault?_leaf {α : Type} (n : Node) (read : Leaf.Reader α) :
    Visit.fault? ⟨n, .leaf read⟩ = match read n.tree with
      | .ok _ => none
      | .error fault => some ⟨n.path, .leaf fault⟩ := by
  simp only [fault?, Demand.cause?]
  cases read n.tree <;> rfl

/-- The first demand that is not met among those made of the elements of a list. -/
theorem findSome?_flatMap {ι : Type} (visits : ι → List Visit) (items : List ι) :
    (items.flatMap visits).findSome? fault?
      = items.findSome? fun i => (visits i).findSome? fault? := by
  induction items with
  | nil => rfl
  | cons item rest ih =>
      rw [List.flatMap_cons, List.findSome?_append, ih, findSome?_cons_or]

end Visit

namespace Node

variable {α : Type}

theorem fault?_leaf (n : Node) (read : Leaf.Reader α) :
    (n.leaf read).fault? = Visit.fault? ⟨n, .leaf read⟩ := by
  rw [Visit.fault?_leaf, leaf]
  cases read n.tree <;> rfl

theorem fault?_labelled (n : Node) (fallback : Fallback) (read : Leaf.Reader (Leaf.Labelled α)) :
    (n.labelled fallback read).fault? = Visit.fault? ⟨n, .leaf read⟩ := by
  rw [labelled, Walk.fault?_bind _ _ none, fault?_leaf, Option.or_none]
  intro result
  cases result.unrecognised <;> rfl

theorem fault?_slot (shape : Shape) (n : Node) :
    (slot shape n).fault? = (slotVisits n).findSome? Visit.fault? := by
  unfold slot slotVisits
  split
  · rfl
  · rw [Walk.fault?_bind_pure, fault?_leaf, List.findSome?_singleton]

/-- A node has elements, or it is no list. -/
theorem items_eq (n : Node) :
    n.items = pure n.elements ∧ Visit.fault? ⟨n, .list⟩ = none ∨
      ∃ fault, n.items = Walk.fail fault ∧ Visit.fault? ⟨n, .list⟩ = some fault := by
  obtain ⟨p, t⟩ := n
  cases t with
  | list items => exact Or.inl ⟨rfl, rfl⟩
  | _ => exact Or.inr ⟨_, rfl, rfl⟩

theorem fault?_items_bind {β : Type} (n : Node) (next : List Node → Walk β) :
    (n.items >>= next).fault? = (Visit.fault? ⟨n, .list⟩).or (next n.elements).fault? := by
  obtain ⟨found, met⟩ | ⟨fault, found, missed⟩ := n.items_eq
  · rw [found, met, pure_bind, Option.none_or]
  · rw [found, missed]
    rfl

theorem fault?_slots (shape : Shape) (n : Node) :
    (slots shape n).fault? = ((Reading.slots shape).visits n).findSome? Visit.fault? := by
  have beyond : Visit.fault? ⟨n, .slots⟩ =
      if (n.elements.drop slotCount).any fun item => !item.tree.isNull then
        some ⟨n.path, .tooManySlots n.elements.length slotCount⟩
      else none := by
    obtain ⟨p, t⟩ := n
    cases t with
    | list items =>
        simp only [Visit.fault?, Demand.cause?, elements, any_drop_mapIdx, List.length_mapIdx]
        split <;> rfl
    | _ => rfl
  rw [slots, fault?_items_bind, Reading.visits, List.findSome?_cons, List.findSome?_cons, beyond]
  cases Visit.fault? ⟨n, .list⟩ with
  | some fault => rfl
  | none =>
      split
      · rfl
      · rw [Walk.fault?_bind_pure, Walk.fault?_mapM, Option.none_or, Visit.findSome?_flatMap]
        simp only [fault?_slot]

theorem fault?_mapping {p : Path} {t : Tree} (h : t.kind ≠ .mapping) :
    Visit.fault? ⟨⟨p, t⟩, .mapping⟩ = some ⟨p, .wrongShape .mapping t.kind⟩ := by
  rw [Visit.fault?, Demand.cause?, if_neg h]
  rfl

theorem fault?_mapping_of_kind {n : Node} (h : n.tree.kind = .mapping) :
    Visit.fault? ⟨n, .mapping⟩ = none := by
  rw [Visit.fault?, Demand.cause?, if_pos h]
  rfl

/-- A step to a key asks for a mapping, and for the key if nothing stands for a missing one. -/
theorem fault?_access {β : Type} (n : Node) (access : Access β) (key : String)
    (walk : Node → Walk β) :
    (n.access access key walk).fault? = (Visit.fault? ⟨n, .mapping⟩).or
      (match access.child? key n.tree with
        | some v => (walk ⟨n.path.key key, v⟩).fault?
        | none => (access.missing n key).fault?) := by
  obtain ⟨p, t⟩ := n
  obtain ⟨entries, rfl⟩ | h := t.map_or_kind_ne
  · rw [access_map]
    cases access.child? key (.map entries) <;> rfl
  · rw [access_fail h, fault?_mapping h]
    rfl

end Node

namespace Reading

variable {α : Type}

/-- A key is missed if it is asked for and its value is not given. -/
theorem findSome?_keyVisits {β : Type} (access : Access β) (n : Node) (key : String) :
    (access.keyVisits n key).findSome? Visit.fault? = (Visit.fault? ⟨n, .mapping⟩).or
      (match access.child? key n.tree with
        | some _ => none
        | none => (access.missing n key).fault?) := by
  unfold Access.keyVisits
  cases access with
  | required =>
      simp only [Access.default?, List.findSome?_cons, List.findSome?_nil, Access.child?_required]
      obtain ⟨p, t⟩ := n
      obtain ⟨entries, rfl⟩ | h := t.map_or_kind_ne
      · simp only [Visit.fault?, Demand.cause?, Tree.get?]
        cases Tree.find? key entries <;> rfl
      · rw [Node.fault?_mapping h]
        rfl
  | _ =>
      simp only [Access.default?, List.findSome?_singleton]
      split <;> exact (Option.or_none).symm

theorem fault?_seq {β γ : Type} (first : Reading β) (next : Reading (β → γ)) (n : Node) :
    ((seq first next).walk n).fault? = (first.walk n).fault?.or (next.walk n).fault? := by
  rw [walk, Walk.fault?_bind _ _ _ fun _ => Walk.fault?_bind_pure _ _]

/-- **A walk fails at the first demand that is not met**, and only then. -/
theorem fault?_walk (r : Reading α) (n : Node) :
    (r.walk n).fault? = (r.visits n).findSome? Visit.fault? := by
  induction r generalizing n with
  | leaf read =>
      rw [walk, Node.fault?_leaf, visits, List.findSome?_singleton]
  | label fallback read =>
      rw [walk, Node.fault?_labelled, visits, List.findSome?_singleton]
  | slots shape => exact Node.fault?_slots shape n
  | list item ih =>
      rw [walk, Node.each, Node.fault?_items_bind, visits, List.findSome?_cons, Walk.fault?_mapM,
        Visit.findSome?_flatMap]
      simp only [ih]
      cases Visit.fault? ⟨n, .list⟩ <;> rfl
  | done value => rfl
  | note known =>
      obtain ⟨p, t⟩ := n
      cases t <;> rfl
  | field access key inner ih =>
      rw [walk, Node.fault?_access, visits, List.findSome?_append, findSome?_keyVisits,
        Option.or_assoc]
      congr 1
      cases access.child? key n.tree with
      | some v => exact ih _
      | none => exact (Option.or_none).symm
  | seq first next ihf ihn =>
      rw [fault?_seq, ihf, ihn, visits, List.findSome?_append]

/-- A walk does not fail on a value of the form of its reading. -/
theorem fault?_walk_eq_none_iff (r : Reading α) (n : Node) :
    (r.walk n).fault? = none ↔ r.Conforms n.tree := by
  rw [← exists_reads_iff_conforms]
  simp only [← outcome_walk_eq_ok_iff r n, Walk.fault?]
  cases (r.walk n).outcome <;> simp

/-! ### The place of a demand -/

/-- A demand of a reading at a node is made of the value at some place below it, and a leaf is asked
for where the reading expects it. -/
def LocatedBy (r : Reading α) (n : Node) (visit : Visit) : Prop :=
  ∃ q, visit.node.path.segments = n.path.segments ++ q ∧
    n.tree.at? q = some visit.node.tree ∧
    ∀ {β : Type} (read : Leaf.Reader β), visit.demand = .leaf read → r.LeafAt q read

theorem locatedBy_here {r : Reading α} {n : Node} {demand : Demand}
    (h : ∀ {β : Type} (read : Leaf.Reader β), demand = .leaf read → r.LeafAt [] read) :
    r.LocatedBy n ⟨n, demand⟩ :=
  ⟨[], (List.append_nil _).symm, rfl, h⟩

theorem locatedBy_key {β : Type} {access : Access β} {key : String} {inner : Reading β} {n : Node}
    {v : Tree} {visit : Visit} (h : access.child? key n.tree = some v)
    (located : inner.LocatedBy ⟨n.path.key key, v⟩ visit) :
    (field access key inner).LocatedBy n visit := by
  obtain ⟨q, path, found, leaf⟩ := located
  have child : n.tree.get? key = some v := (Option.filter_eq_some_iff.mp h).1
  refine ⟨.key key :: q, ?_, ?_, fun read same => .field (leaf read same)⟩
  · rw [path, Path.key, List.append_assoc, List.singleton_append]
  · rw [Tree.at?, child]
    exact found

/-- An element stands at its index. -/
theorem tree_of_element {n child : Node} {i : Nat} (h : n.elements[i]? = some child) :
    ∃ items, n.tree = .list items ∧ child.path = n.path.index i ∧
      items[i]? = some child.tree := by
  obtain ⟨p, t⟩ := n
  cases t with
  | list items =>
      rw [Node.elements, List.getElem?_mapIdx, Option.map_eq_some_iff] at h
      obtain ⟨v, found, rfl⟩ := h
      exact ⟨items, rfl, rfl, found⟩
  | _ => cases h

theorem locatedBy_item {item : Reading α} {n child : Node} {visit : Visit}
    (h : child ∈ n.elements) (located : item.LocatedBy child visit) :
    (list item).LocatedBy n visit := by
  obtain ⟨i, element⟩ := List.mem_iff_getElem?.mp h
  obtain ⟨items, list, childPath, found⟩ := tree_of_element element
  obtain ⟨q, path, below, leaf⟩ := located
  refine ⟨.index i :: q, ?_, ?_, fun read same => .item i (leaf read same)⟩
  · rw [path, childPath, Path.index, List.append_assoc, List.singleton_append]
  · rw [list, Tree.at?_index found, below]

/-- Only the first slots of a list are leaves. -/
theorem locatedBy_slot {shape : Shape} {n child : Node} {visit : Visit}
    (h : child ∈ n.elements.take slotCount) (hv : visit ∈ slotVisits child) :
    (slots shape).LocatedBy n visit := by
  unfold slotVisits at hv
  split at hv
  · exact absurd hv List.not_mem_nil
  · obtain rfl := List.mem_singleton.mp hv
    obtain ⟨i, element⟩ := List.mem_iff_getElem?.mp h
    rw [List.getElem?_take] at element
    split at element
    · rename_i inside
      obtain ⟨items, list, childPath, found⟩ := tree_of_element element
      refine ⟨[.index i], by rw [childPath, Path.index], ?_, fun read same => ?_⟩
      · rw [list]
        exact Tree.at?_index found
      · cases same
        exact .slot shape inside
    · cases element

theorem mem_keyVisits {β : Type} {access : Access β} {n : Node} {key : String} {visit : Visit}
    (h : visit ∈ access.keyVisits n key) : visit = ⟨n, .mapping⟩ ∨ visit = ⟨n, .key key⟩ := by
  unfold Access.keyVisits at h
  split at h
  · simpa using h
  · exact Or.inl (List.mem_singleton.mp h)

/-- **Every demand is made of the value at its place.** -/
theorem located (r : Reading α) (n : Node) {visit : Visit} (h : visit ∈ r.visits n) :
    r.LocatedBy n visit := by
  induction r generalizing n visit with
  | leaf read =>
      obtain rfl := List.mem_singleton.mp h
      exact locatedBy_here fun _ same => by cases same; exact .leaf _
  | label fallback read =>
      obtain rfl := List.mem_singleton.mp h
      exact locatedBy_here fun _ same => by cases same; exact .label _ _
  | slots shape =>
      simp only [visits, List.mem_cons, List.mem_flatMap] at h
      obtain rfl | rfl | ⟨child, hchild, hv⟩ := h
      · exact locatedBy_here fun _ same => by cases same
      · exact locatedBy_here fun _ same => by cases same
      · exact locatedBy_slot hchild hv
  | list item ih =>
      simp only [visits, List.mem_cons, List.mem_flatMap] at h
      obtain rfl | ⟨child, hchild, hv⟩ := h
      · exact locatedBy_here fun _ same => by cases same
      · exact locatedBy_item hchild (ih child hv)
  | done value => exact absurd h List.not_mem_nil
  | note known => exact absurd h List.not_mem_nil
  | field access key inner ih =>
      obtain h | h := List.mem_append.mp h
      · obtain rfl | rfl := mem_keyVisits h <;> exact locatedBy_here fun _ same => by cases same
      · cases hc : access.child? key n.tree with
        | some v =>
            rw [hc] at h
            exact locatedBy_key hc (ih _ h)
        | none =>
            rw [hc] at h
            exact absurd h List.not_mem_nil
  | seq first next ihf ihn =>
      obtain h | h := List.mem_append.mp h
      · obtain ⟨q, path, found, leaf⟩ := ihf n h
        exact ⟨q, path, found, fun read same => .first (leaf read same)⟩
      · obtain ⟨q, path, found, leaf⟩ := ihn n h
        exact ⟨q, path, found, fun read same => .next (leaf read same)⟩

end Reading

end ZkCommand
