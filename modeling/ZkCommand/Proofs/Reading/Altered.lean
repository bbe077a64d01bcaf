import ZkCommand.Proofs.Reading.Meaning
import ZkCommand.Proofs.Tree

/-!
# ZkCommand.Proofs.Reading.Altered

**Documents that differ under one key.** `Tree.Altered` relates two documents of which nothing can
be looked up differently but the value under one key of the mapping at one place. What a reading
does with that value is settled by its steps there (`stepsAt`). If each of these steps ends in the
same way for both values and replaces the same number of events by others, then so does the whole
walk (`swaps_walk_of_altered`). The one thing a walk sees of a mapping besides the values under its
keys is whether it is empty, where it is a block (`blockAt`).
-/

namespace ZkCommand

/-! ### Places -/

/-- The value at a place of a document. -/
def Tree.at? : Tree → List Segment → Option Tree
  | t, [] => some t
  | t, .key k :: p => (t.get? k).bind fun v => v.at? p
  | .list items, .index i :: p => items[i]?.bind fun v => v.at? p
  | _, .index _ :: _ => none
termination_by structural _ p => p

namespace Tree

variable {key k : String} {p : List Segment} {t t' v : Tree}

theorem at?_key {es : List (String × Tree)} (child : find? k es = some v) :
    (Tree.map es).at? (.key k :: p) = v.at? p := by
  rw [at?, get?, child]
  rfl

theorem at?_index {items : List Tree} {i : Nat} (child : items[i]? = some v) :
    (Tree.list items).at? (.index i :: p) = v.at? p := by
  rw [at?, child]
  rfl

theorem at?_singleton (k : String) (t : Tree) : t.at? [.key k] = t.get? k := by
  simp [at?]

theorem at?_append (p q : List Segment) (t : Tree) :
    t.at? (p ++ q) = (t.at? p).bind fun v => v.at? q := by
  induction p generalizing t with
  | nil => rfl
  | cons segment p ih =>
      cases segment with
      | key k =>
          rw [List.cons_append, at?, at?, Option.bind_assoc]
          simp only [ih]
      | index i =>
          cases t with
          | list items =>
              rw [List.cons_append, at?, at?, Option.bind_assoc]
              simp only [ih]
          | _ => rfl

theorem getElem?_set_of_some {items : List Tree} {i : Nat} (child : items[i]? = some v)
    (v' : Tree) : (items.set i v')[i]? = some v' := by
  obtain ⟨bound, -⟩ := List.getElem?_eq_some_iff.mp child
  exact List.getElem?_set_self bound

theorem isEmptyMapping_map (es : List (String × Tree)) :
    Node.isEmptyMapping (.map es) = es.isEmpty := by
  cases es <;> rfl

/-! ### Documents that differ under one key -/

/-- Two documents that differ in the value under a key of the mapping at a place, and in nothing
else that can be looked up. Either of them may lack the key. -/
inductive Altered (key : String) : List Segment → Tree → Tree → Prop
  | here {es es' : List (String × Tree)} (others : ∀ k, k ≠ key → find? k es = find? k es') :
      Altered key [] (.map es) (.map es')
  | under {k : String} {p : List Segment} {es es' : List (String × Tree)} {v v' : Tree}
      (child : find? k es = some v) (child' : find? k es' = some v')
      (others : ∀ name, name ≠ k → find? name es = find? name es') (below : Altered key p v v') :
      Altered key (.key k :: p) (.map es) (.map es')
  | inside {i : Nat} {p : List Segment} {items : List Tree} {v v' : Tree}
      (child : items[i]? = some v) (below : Altered key p v v') :
      Altered key (.index i :: p) (.list items) (.list (items.set i v'))

theorem Altered.isNull_eq (h : Altered key p t t') : t.isNull = false ∧ t'.isNull = false := by
  cases h <;> exact ⟨rfl, rfl⟩

theorem Altered.eq_nil (h : Altered key p (.map []) t') : p = [] := by
  cases h with
  | here others => rfl
  | under child => cases child

/-- Only the mapping at the place itself can be emptied or filled. -/
theorem Altered.isEmptyMapping_eq (h : Altered key p t t')
    (empty : p = [] → (t = .map [] ↔ t' = .map [])) :
    Node.isEmptyMapping t = Node.isEmptyMapping t' := by
  have filled {k : String} {es : List (String × Tree)} {v : Tree} (child : find? k es = some v) :
      es.isEmpty = false := by
    rw [List.isEmpty_eq_false_iff]
    rintro rfl
    cases child
  cases h with
  | here others =>
      have both := empty rfl
      simp only [Tree.map.injEq] at both
      rw [isEmptyMapping_map, isEmptyMapping_map, Bool.eq_iff_iff, List.isEmpty_iff,
        List.isEmpty_iff, both]
  | under child child' =>
      rw [isEmptyMapping_map, isEmptyMapping_map, filled child, filled child']
  | inside => rfl

end Tree

/-! ### Rules for keys -/

/-- The rule does not count an empty mapping as given. -/
def Access.isBlock {β : Type} : Access β → Bool
  | .block _ => true
  | _ => false

theorem Access.counts_of_altered {β : Type} {access : Access β} {key : String} {p : List Segment}
    {v v' : Tree} (altered : Tree.Altered key p v v')
    (empty : access.isBlock = true → p = [] → (v = .map [] ↔ v' = .map [])) :
    access.counts v = access.counts v' := by
  obtain ⟨hv, hv'⟩ := altered.isNull_eq
  cases access with
  | required => rfl
  | given default => rw [counts, counts, hv, hv']
  | block default => rw [counts, counts, hv, hv', altered.isEmptyMapping_eq (empty rfl)]
  | level default => rfl

theorem Access.counts_eq_false {β : Type} (access : Access β) {v : Tree} (given : v.isNull = false)
    (h : access.counts v = false) : access.isBlock = true ∧ v = .map [] := by
  cases access with
  | required => cases h
  | given default => simp [counts, given] at h
  | block default =>
      refine ⟨rfl, ?_⟩
      cases v with
      | map es =>
          cases es with
          | nil => rfl
          | cons e rest => cases h
      | null => cases given
      | _ => cases h
  | level default => cases h

theorem Access.child?_of_find? {β : Type} {access : Access β} {key : String} {v : Tree}
    {es : List (String × Tree)} (child : Tree.find? key es = some v) :
    access.child? key (.map es) = if access.counts v then some v else none := by
  rw [child?, Tree.get?, child, Option.filter_some]

/-- What is done about a value that is not given depends on its place alone. -/
theorem Access.missing_congr {β : Type} (access : Access β) (p : Path) (t t' : Tree)
    (key : String) : access.missing ⟨p, t⟩ key = access.missing ⟨p, t'⟩ key := by
  cases access <;> rfl

theorem Node.access_congr {β : Type} {p : Path} {es es' : List (String × Tree)}
    {access : Access β} {key : String} {walk : Node → Walk β}
    (h : Tree.find? key es = Tree.find? key es') :
    (⟨p, .map es⟩ : Node).access access key walk
      = (⟨p, .map es'⟩ : Node).access access key walk := by
  rw [access_map, access_map, Access.child?, Access.child?, Tree.get?, Tree.get?, h,
    access.missing_congr p (.map es) (.map es')]

/-! ### Walks without their notes on unknown keys -/

/-- The event tells of an unknown key. -/
def Event.isUnknownKey : Event → Bool
  | .unknownKey _ _ => true
  | _ => false

namespace Walk

variable {α β γ : Type}

/-- A walk that does not tell of unknown keys. -/
def quiet (walk : Walk α) : Walk α :=
  ⟨walk.events.filter fun event => !event.isUnknownKey, walk.outcome⟩

theorem diagnostics_quiet (walk : Walk α) : walk.quiet.diagnostics = walk.diagnostics := by
  rw [diagnostics, quiet, List.filterMap_filter]
  refine congrArg (List.filterMap · walk.events) (funext fun event => ?_)
  cases event <;> rfl

theorem quiet_bind (walk : Walk α) (next : α → Walk β) :
    (walk >>= next).quiet = walk.quiet >>= fun a => (next a).quiet := by
  obtain ⟨events, outcome⟩ := walk
  cases outcome with
  | error fault => rfl
  | ok a =>
      show Walk.mk ((events ++ (next a).events).filter _) _ = Walk.mk (_ ++ _) _
      rw [List.filter_append]
      rfl

/-- Walks that agree, followed by walks that agree. -/
theorem quiet_bind_congr {walk walk' : Walk α} {next next' : α → Walk β}
    (h : walk.quiet = walk'.quiet) (hnext : ∀ a, (next a).quiet = (next' a).quiet) :
    (walk >>= next).quiet = (walk' >>= next').quiet := by
  rw [quiet_bind, quiet_bind, h, funext hnext]

theorem quiet_mapM_congr {walk : α → Walk β} {items items' : List α}
    (h : List.Forall₂ (fun a b => (walk a).quiet = (walk b).quiet) items items') :
    (items.mapM walk).quiet = (items'.mapM walk).quiet := by
  induction h with
  | nil => rfl
  | cons first rest ih =>
      rw [List.mapM_cons, List.mapM_cons]
      refine quiet_bind_congr first fun b => ?_
      exact quiet_bind_congr ih fun bs => rfl

end Walk

namespace Node

variable {α : Type}

theorem quiet_noteUnknown (n : Node) (known : List String) :
    (n.noteUnknown known).quiet = pure () := by
  obtain ⟨p, t⟩ := n
  obtain ⟨entries, rfl⟩ | h := t.map_or_kind_ne
  · have told : ∀ keys : List String,
        (keys.map (Event.unknownKey p)).filter (fun event => !event.isUnknownKey) = [] := by
      intro keys
      refine List.filter_eq_nil_iff.mpr fun event hevent => ?_
      obtain ⟨key, -, rfl⟩ := List.mem_map.mp hevent
      exact Bool.not_eq_true _ ▸ rfl
    show Walk.mk (List.filter _ (List.map _ _)) _ = _
    rw [told]
    rfl
  · cases t <;> first | rfl | exact absurd rfl h

end Node

/-! ### Walks that differ in some events -/

section Swaps
variable (told told' : Event)

/-- So many events of one kind are replaced by others in a list. -/
inductive Replaced : Nat → List Event → List Event → Prop
  | nil : Replaced 0 [] []
  | keep {n : Nat} {events events' : List Event} (event : Event)
      (more : Replaced n events events') : Replaced n (event :: events) (event :: events')
  | swap {n : Nat} {events events' : List Event} (more : Replaced n events events') :
      Replaced (n + 1) (told :: events) (told' :: events')

/-- Two walks end in the same way. Unknown keys aside, so many events of one are replaced in the
other, or fewer if the walks fail. -/
structure Walk.Swaps {α : Type} (n : Nat) (walk walk' : Walk α) : Prop where
  outcome : walk.outcome = walk'.outcome
  events : ∃ m ≤ n, Replaced told told' m walk.quiet.events walk'.quiet.events ∧
    ∀ value, walk.outcome = .ok value → m = n

variable {told told'}

theorem Replaced.same (events : List Event) : Replaced told told' 0 events events := by
  induction events with
  | nil => exact .nil
  | cons event rest ih => exact .keep event ih

theorem Replaced.eq {events events' : List Event} (h : Replaced told told' 0 events events') :
    events = events' := by
  generalize none : 0 = n at h
  induction h with
  | nil => rfl
  | keep event more ih => rw [ih none]
  | swap => cases none

theorem Replaced.append {m n : Nat} {events events' later later' : List Event}
    (h : Replaced told told' m events events') (h' : Replaced told told' n later later') :
    Replaced told told' (m + n) (events ++ later) (events' ++ later') := by
  induction h with
  | nil => rwa [Nat.zero_add]
  | keep event more ih => exact .keep event ih
  | @swap m events events' more ih =>
      rw [Nat.add_right_comm]
      exact .swap ih

/-- Where one event is replaced. -/
theorem Replaced.split {events events' : List Event} (h : Replaced told told' 1 events events') :
    ∃ before after, events = before ++ told :: after ∧ events' = before ++ told' :: after := by
  generalize one : 1 = n at h
  induction h with
  | nil => cases one
  | keep event more ih =>
      obtain ⟨before, after, rfl, rfl⟩ := ih one
      exact ⟨event :: before, after, rfl, rfl⟩
  | swap more =>
      cases one
      obtain rfl := more.eq
      exact ⟨[], _, rfl, rfl⟩

namespace Walk

variable {α β : Type}

theorem Swaps.of_quiet {walk walk' : Walk α} (h : walk.quiet = walk'.quiet) :
    Swaps told told' 0 walk walk' where
  outcome := congrArg (fun quiet => quiet.outcome) h
  events := ⟨0, Nat.le_refl 0, h ▸ .same _, fun _ _ => rfl⟩

theorem Swaps.same (walk : Walk α) : Swaps told told' 0 walk walk := .of_quiet rfl

theorem Swaps.quiet_eq {walk walk' : Walk α} (h : Swaps told told' 0 walk walk') :
    walk.quiet = walk'.quiet := by
  obtain ⟨m, none, replaced, -⟩ := h.events
  obtain rfl := Nat.le_zero.mp none
  have outcome := h.outcome
  have events := replaced.eq
  exact congrArg₂ Walk.mk events outcome

theorem Swaps.bind {m n : Nat} {walk walk' : Walk α} {next next' : α → Walk β}
    (h : Swaps told told' m walk walk') (hnext : ∀ a, Swaps told told' n (next a) (next' a)) :
    Swaps told told' (m + n) (walk >>= next) (walk' >>= next') := by
  obtain ⟨events, outcome⟩ := walk
  obtain ⟨events', outcome'⟩ := walk'
  obtain ⟨k, few, replaced, all⟩ := h.events
  obtain rfl : outcome = outcome' := h.outcome
  cases outcome with
  | error fault => exact ⟨rfl, k, Nat.le_add_right_of_le few, replaced, nofun⟩
  | ok a =>
      obtain ⟨j, fewNext, replacedNext, allNext⟩ := (hnext a).events
      obtain rfl := all a rfl
      refine ⟨(hnext a).outcome, k + j, Nat.add_le_add_left fewNext k, ?_, fun value ends => ?_⟩
      · rw [quiet_bind, quiet_bind]
        exact replaced.append replacedNext
      · rw [allNext value ends]

/-- Walks over two lists that differ in one element. -/
theorem Swaps.mapM {n : Nat} {walk : α → Walk β} {front back : List α} {a b : α}
    (h : Swaps told told' n (walk a) (walk b)) :
    Swaps told told' n ((front ++ a :: back).mapM walk) ((front ++ b :: back).mapM walk) := by
  rw [List.mapM_append, List.mapM_append, List.mapM_cons, List.mapM_cons]
  have later (value : β) : Swaps told told' 0
      (do let values ← back.mapM walk; pure (value :: values))
      (do let values ← back.mapM walk; pure (value :: values)) := .same _
  have both := (Swaps.same (front.mapM walk)).bind fun values =>
    (h.bind later).bind fun more => Swaps.same (pure (values ++ more))
  simpa using both

end Walk

/-- Walks over a list of which one element is replaced. -/
theorem Node.swaps_each_set {α : Type} {n : Nat} {p : Path} {items : List Tree} {i : Nat}
    {v v' : Tree} {walk : Node → Walk α} (child : items[i]? = some v)
    (h : Walk.Swaps told told' n (walk ⟨p.index i, v⟩) (walk ⟨p.index i, v'⟩)) :
    Walk.Swaps told told' n ((⟨p, .list items⟩ : Node).each walk)
      ((⟨p, .list (items.set i v')⟩ : Node).each walk) := by
  obtain ⟨bound, rfl⟩ := List.getElem?_eq_some_iff.mp child
  rw [each, each, items_list, items_list, pure_bind, pure_bind, List.mapIdx_set]
  generalize nodes : items.mapIdx (fun i t => (⟨p.index i, t⟩ : Node)) = all
  have inside : i < all.length := by simpa [← nodes] using bound
  have node : all[i] = ⟨p.index i, items[i]⟩ := by simp [← nodes]
  rw [List.set_eq_take_append_cons_drop, if_pos inside]
  nth_rewrite 1 [← List.take_append_drop i all]
  rw [List.drop_eq_getElem_cons inside, node]
  exact h.mapM

end Swaps

/-! ### Steps of a reading -/

/-- A step of a reading to a key. -/
structure Step where
  {β : Type}
  access : Access β
  inner : Reading β

/-- The walk of a step at a node, given what is there under the key. -/
def Step.arrive (step : Step) (p : Path) (key : String) (found : Option Tree) : Walk step.β :=
  match found.filter step.access.counts with
  | some v => step.inner.walk ⟨p.key key, v⟩
  | none => step.access.missing ⟨p, .null⟩ key

namespace Reading

theorem walk_field {β : Type} (access : Access β) (key : String) (inner : Reading β) (p : Path)
    (es : List (String × Tree)) :
    (field access key inner).walk ⟨p, .map es⟩
      = (Step.mk access inner).arrive p key (Tree.find? key es) := by
  rw [walk, Node.access_map, access.missing_congr p (.map es) .null]
  rfl

/-- The steps of one reading and of another one after it. -/
def joined : Option (List Step) → Option (List Step) → Option (List Step)
  | some steps, some later => some (steps ++ later)
  | _, _ => none

@[simp] theorem joined_nil_left (later : Option (List Step)) : joined (some []) later = later := by
  cases later <;> rfl

@[simp] theorem joined_nil_right (steps : Option (List Step)) : joined steps (some []) = steps := by
  cases steps with
  | none => rfl
  | some steps => exact congrArg some (List.append_nil steps)

theorem joined_eq_some {steps later : Option (List Step)} {all : List Step}
    (h : joined steps later = some all) :
    ∃ before after, steps = some before ∧ later = some after ∧ all = before ++ after := by
  cases steps with
  | none => cases h
  | some before =>
      cases later with
      | none => cases h
      | some after => exact ⟨before, after, rfl, rfl, (Option.some.inj h).symm⟩

/-- The steps to a key from a place below a node, if no leaf is read above it. -/
@[simp] def stepsAt {α : Type} (key : String) : Reading α → List Segment → Option (List Step)
  | .leaf _, _ => none
  | .label _ _, _ => none
  | .slots _, _ => none
  | .list item, .index _ :: p => item.stepsAt key p
  | .list _, _ => some []
  | .done _, _ => some []
  | .note _, _ => some []
  | .field access name inner, [] => some (if name = key then [⟨access, inner⟩] else [])
  | .field _ name inner, .key k :: p => if k = name then inner.stepsAt key p else some []
  | .field _ _ _, .index _ :: _ => some []
  | .seq first next, p => joined (first.stepsAt key p) (next.stepsAt key p)

/-- A place below a node is a block, where an empty mapping counts as missing. -/
@[simp] def blockAt {α : Type} : Reading α → List Segment → Bool
  | .list item, .index _ :: p => item.blockAt p
  | .field access key inner, .key k :: p =>
      k = key && (access.isBlock && p.isEmpty || inner.blockAt p)
  | .seq first next, p => first.blockAt p || next.blockAt p
  | _, _ => false

/-- No place below a node is a block. -/
@[simp] def Unblocked {α : Type} : Reading α → Prop
  | .list item => item.Unblocked
  | .field access _ inner => access.isBlock = false ∧ inner.Unblocked
  | .seq first next => first.Unblocked ∧ next.Unblocked
  | _ => True

theorem blockAt_of_unblocked {α : Type} {r : Reading α} (h : r.Unblocked) (p : List Segment) :
    r.blockAt p = false := by
  induction r generalizing p with
  | list item ih =>
      rcases p with _ | ⟨name | i, p⟩
      · rfl
      · rfl
      · exact ih h p
  | field access key inner ih =>
      rcases p with _ | ⟨name | i, p⟩
      · rfl
      · rw [blockAt, h.1, ih h.2, Bool.false_and, Bool.or_false, Bool.and_false]
      · rfl
  | seq first next ihf ihn => rw [blockAt, ihf h.1, ihn h.2, Bool.or_false]
  | _ => rfl

theorem blockAt_field {α : Type} {access : Access α} {key : String} {inner : Reading α}
    {p : List Segment} (h : inner.blockAt p = true) :
    (field access key inner).blockAt (.key key :: p) = true := by
  rw [blockAt, h, Bool.or_true, Bool.and_true]
  exact decide_eq_true rfl

theorem blockAt_block {α : Type} {access : Access α} {key : String} {inner : Reading α}
    (h : access.isBlock = true) : (field access key inner).blockAt [.key key] = true := by
  rw [blockAt, h]
  simp

/-- A field does with the value under its key what the reading of this value does. -/
theorem swaps_field_under {β : Type} {access : Access β} {inner : Reading β} {told told' : Event}
    {n : Nat} {k key : String} {p : List Segment} {es es' : List (String × Tree)} {v v' : Tree}
    {base : Path} (child : Tree.find? k es = some v) (child' : Tree.find? k es' = some v')
    (below : Tree.Altered key p v v')
    (blocks : access.isBlock = true → p = [] → (v = .map [] ↔ v' = .map []))
    (filled : access.isBlock = true → p = [] → v = .map [] → n = 0)
    (h : Walk.Swaps told told' n (inner.walk ⟨base.key k, v⟩) (inner.walk ⟨base.key k, v'⟩)) :
    Walk.Swaps told told' n ((field access k inner).walk ⟨base, .map es⟩)
      ((field access k inner).walk ⟨base, .map es'⟩) := by
  -- The value there is not replaced by null, nor a block emptied or filled.
  have counts : access.counts v = access.counts v' := Access.counts_of_altered below blocks
  rw [walk, walk, Node.access_map, Node.access_map, Access.child?_of_find? child,
    Access.child?_of_find? child', ← counts]
  cases given : access.counts v with
  | true => exact h
  | false =>
      -- It is an empty block in both documents.
      obtain ⟨hblock, rfl⟩ := access.counts_eq_false below.isNull_eq.1 given
      obtain rfl := filled hblock below.eq_nil rfl
      rw [access.missing_congr base (.map es) (.map es')]
      exact .same _

/-- **A walk does with the value under a key what its steps do with it.** -/
theorem swaps_walk_of_altered {α : Type} (r : Reading α) {told told' : Event} {n : Nat}
    {key : String} {p : List Segment} {t t' : Tree} {steps : List Step} (base : Path)
    (stepsAt : r.stepsAt key p = some steps) (altered : Tree.Altered key p t t')
    (blocks : r.blockAt p = true → (t.at? p = some (.map []) ↔ t'.at? p = some (.map [])))
    (filled : r.blockAt p = true → t.at? p = some (.map []) → n = 0)
    (each : ∀ step ∈ steps, Walk.Swaps told told' n
      (step.arrive ⟨base.segments ++ p⟩ key (t.at? (p ++ [.key key])))
      (step.arrive ⟨base.segments ++ p⟩ key (t'.at? (p ++ [.key key])))) :
    Walk.Swaps told told' (n * steps.length) (r.walk ⟨base, t⟩) (r.walk ⟨base, t'⟩) := by
  -- By the reading. Where a key is read, the documents differ under that key of this mapping, below
  -- the key that is read here, or below another one.
  induction r generalizing p t t' base steps with
  | leaf read => cases stepsAt
  | label fallback read => cases stepsAt
  | slots shape => cases stepsAt
  | list item ih =>
      cases altered with
      | here others =>
          cases stepsAt
          exact .same _
      | under child child' others below =>
          cases stepsAt
          exact .same _
      | @inside i p items v v' child below =>
          have found := Tree.getElem?_set_of_some child v'
          rw [Tree.at?_index child, Tree.at?_index found] at blocks
          rw [Tree.at?_index child] at filled
          rw [List.cons_append, Tree.at?_index child, Tree.at?_index found] at each
          have path : (⟨base.segments ++ .index i :: p⟩ : Path)
              = ⟨(base.index i).segments ++ p⟩ := by
            simp [Path.index]
          rw [path] at each
          exact Node.swaps_each_set child (ih _ stepsAt below blocks filled each)
  | done value =>
      cases stepsAt
      exact .same _
  | note known =>
      cases stepsAt
      refine .of_quiet ?_
      rw [walk, walk, Node.quiet_noteUnknown, Node.quiet_noteUnknown]
  | field access name inner ih =>
      cases altered with
      | @here es es' others =>
          rw [walk_field, walk_field]
          by_cases same : name = key
          · obtain rfl := same
            rw [Reading.stepsAt, if_pos rfl] at stepsAt
            cases stepsAt
            simpa [Tree.at?, Tree.get?] using each
          · rw [Reading.stepsAt, if_neg same] at stepsAt
            cases stepsAt
            rw [others name same]
            exact .same _
      | @under k p es es' v v' child child' others below =>
          by_cases same : k = name
          · obtain rfl := same
            rw [Reading.stepsAt, if_pos rfl] at stepsAt
            rw [Tree.at?_key child, Tree.at?_key child'] at blocks
            rw [Tree.at?_key child] at filled
            rw [List.cons_append, Tree.at?_key child, Tree.at?_key child'] at each
            have path : (⟨base.segments ++ .key k :: p⟩ : Path)
                = ⟨(base.key k).segments ++ p⟩ := by
              simp [Path.key]
            rw [path] at each
            refine swaps_field_under child child' below ?_ ?_ <|
              ih _ stepsAt below (fun h => blocks (blockAt_field h))
                (fun h => filled (blockAt_field h)) each
            · rintro hblock rfl
              simpa [Tree.at?] using blocks (blockAt_block hblock)
            · rintro hblock rfl rfl
              rw [filled (blockAt_block hblock) rfl, Nat.zero_mul]
          · rw [Reading.stepsAt, if_neg same] at stepsAt
            cases stepsAt
            rw [walk_field, walk_field, others name (Ne.symm same)]
            exact .same _
      | inside child below =>
          cases stepsAt
          exact .same _
  | seq first next ihf ihn =>
      obtain ⟨before, after, atFirst, atNext, rfl⟩ := joined_eq_some stepsAt
      rw [List.length_append, Nat.mul_add]
      have ofFirst (h : first.blockAt p = true) : (seq first next).blockAt p = true := by
        rw [blockAt, h, Bool.true_or]
      have ofNext (h : next.blockAt p = true) : (seq first next).blockAt p = true := by
        rw [blockAt, h, Bool.or_true]
      refine (ihf base atFirst altered (fun h => blocks (ofFirst h)) (fun h => filled (ofFirst h))
        fun step h => each step (List.mem_append_left _ h)).bind fun b => ?_
      exact (ihn base atNext altered (fun h => blocks (ofNext h)) (fun h => filled (ofNext h))
        fun step h => each step (List.mem_append_right _ h)).bind fun f => .same _

end Reading

end ZkCommand
