import ZkCommand.Transcode

/-!
# ZkCommand.Proofs.Reading.Basic

**Readings.** A walk of the schema is a fixed sequence of steps at a node: notice the unknown keys,
read the value under a key, read this node as a leaf. A `Reading` is such a sequence as data, and
`Reading.walk` runs it, so that what holds of every schema is proved once, by induction on
readings, and not once for every walk.

What stands for a value that is not given is the only way in which keys differ, and `Access` names
the four rules. `Node.access_map` is the one lemma that says what a step to a key can do.
-/

namespace ZkCommand

/-! ### Rules for keys -/

/-- When the value under a key counts as given, and what stands for one that does not. -/
inductive Access (β : Type)
  /-- The key has to be there; its value may be null. -/
  | required
  /-- Null counts as missing. -/
  | given (default : β)
  /-- Null and the empty mapping count as missing. -/
  | block (default : β)
  /-- Only a missing key counts as missing, and that is noticed. -/
  | level (default : β)

namespace Access

variable {β : Type}

/-- The value counts as given. -/
def counts : Access β → Tree → Bool
  | .required, _ => true
  | .given _, v => !v.isNull
  | .block _, v => !v.isNull && !Node.isEmptyMapping v
  | .level _, _ => true

/-- The value under a key, as far as it counts as given. -/
def child? (access : Access β) (key : String) (t : Tree) : Option Tree :=
  (t.get? key).filter access.counts

/-- What stands for a value that is not given. -/
def default? : Access β → Option β
  | .required => none
  | .given default => some default
  | .block default => some default
  | .level default => some default

/-- The walk at a node whose value under a key is not given. -/
def missing (access : Access β) (n : Node) (key : String) : Walk β :=
  match access with
  | .required => n.fail (.missingField key)
  | .given default => pure default
  | .block default => pure default
  | .level default => do
      Walk.emit (.permissionMissing n.path key)
      pure default

end Access

/-- The walk from the child under a key, or what the rule of the key puts in its place. -/
def Node.access {β : Type} (n : Node) (access : Access β) (key : String) (walk : Node → Walk β) :
    Walk β :=
  match n.tree with
  | .map _ =>
      match access.child? key n.tree with
      | some v => walk ⟨n.path.key key, v⟩
      | none => access.missing n key
  | t => n.fail (.wrongShape .mapping t.kind)

/-! ### Which values count as given -/

namespace Access

variable {β : Type}

@[simp] theorem child?_required (key : String) (t : Tree) :
    (required : Access β).child? key t = t.get? key := by
  unfold child?
  cases t.get? key <;> rfl

@[simp] theorem child?_level (default : β) (key : String) (t : Tree) :
    (level default).child? key t = t.get? key := by
  unfold child?
  cases t.get? key <;> rfl

theorem child?_given (default : β) (key : String) (t : Tree) :
    (given default).child? key t = (t.get? key).filter fun v => !v.isNull := rfl

theorem child?_block (default : β) (key : String) (t : Tree) :
    (block default).child? key t
      = (t.get? key).filter fun v => !v.isNull && !Node.isEmptyMapping v := rfl

end Access

/-! ### Steps to a key -/

theorem Tree.map_or_kind_ne (t : Tree) : (∃ entries, t = .map entries) ∨ t.kind ≠ .mapping := by
  cases t with
  | map entries => exact Or.inl ⟨entries, rfl⟩
  | _ => exact Or.inr (by simp [Tree.kind])

namespace Node

variable {α β : Type}

@[simp] theorem fail_bind (n : Node) (cause : Walk.Cause) (next : α → Walk β) :
    (n.fail cause >>= next) = n.fail cause := rfl

theorem lookup_map (p : Path) (entries : List (String × Tree)) (key : String) :
    (⟨p, .map entries⟩ : Node).lookup key
      = pure ((Tree.find? key entries).map fun t => ⟨p.key key, t⟩) := rfl

theorem lookup_fail {n : Node} (h : n.tree.kind ≠ .mapping) (key : String) :
    n.lookup key = n.fail (.wrongShape .mapping n.tree.kind) := by
  obtain ⟨p, t⟩ := n
  cases t with
  | map entries => exact absurd rfl h
  | _ => rfl

theorem child?_map (p : Path) (entries : List (String × Tree)) (key : String) :
    (⟨p, .map entries⟩ : Node).child? key
      = pure (((Tree.find? key entries).filter fun v => !v.isNull).map
          fun t => ⟨p.key key, t⟩) := by
  rw [child?, lookup_map, pure_bind, Option.filter_map]
  rfl

theorem child?_fail {n : Node} (h : n.tree.kind ≠ .mapping) (key : String) :
    n.child? key = n.fail (.wrongShape .mapping n.tree.kind) := by
  rw [child?, lookup_fail h, fail_bind]

theorem access_map (p : Path) (entries : List (String × Tree)) (access : Access β) (key : String)
    (walk : Node → Walk β) :
    (⟨p, .map entries⟩ : Node).access access key walk =
      match access.child? key (.map entries) with
      | some v => walk ⟨p.key key, v⟩
      | none => access.missing ⟨p, .map entries⟩ key := rfl

theorem access_fail {n : Node} (h : n.tree.kind ≠ .mapping) (access : Access β) (key : String)
    (walk : Node → Walk β) :
    n.access access key walk = n.fail (.wrongShape .mapping n.tree.kind) := by
  obtain ⟨p, t⟩ := n
  cases t with
  | map entries => exact absurd rfl h
  | _ => rfl

theorem within_eq_access (n : Node) (key : String) (walk : Node → Walk β) :
    n.within key walk = n.access .required key walk := by
  obtain ⟨p, t⟩ := n
  obtain ⟨entries, rfl⟩ | h := t.map_or_kind_ne
  · rw [access_map, within, required, lookup_map, pure_bind, Access.child?_required, Tree.get?]
    cases Tree.find? key entries <;> rfl
  · rw [access_fail h, within, required, lookup_fail h]
    rfl

theorem child?_bind_eq_access (n : Node) (key : String) (default : β) (walk : Node → Walk β) :
    (n.child? key >>= fun child => match child with
      | some c => walk c
      | none => pure default) = n.access (.given default) key walk := by
  obtain ⟨p, t⟩ := n
  obtain ⟨entries, rfl⟩ | h := t.map_or_kind_ne
  · rw [access_map, child?_map, pure_bind, Access.child?_given, Tree.get?]
    cases (Tree.find? key entries).filter fun v => !v.isNull <;> rfl
  · rw [access_fail h, child?_fail h]
    rfl

theorem given_bind {γ : Type} (n : Node) (key : String) (default : β) (walk : Node → Walk β)
    (rest : β → Walk γ) :
    (n.access (.given default) key walk >>= rest)
      = n.child? key >>= fun child => match child with
          | some c => walk c >>= rest
          | none => rest default := by
  rw [← child?_bind_eq_access, bind_assoc]
  refine bind_congr fun child => ?_
  cases child with
  | some c => rfl
  | none => exact pure_bind _ _

/-- A child that has to be there is the same one whenever it is looked up. -/
theorem required_cases (n : Node) (key : String) :
    (∃ child, n.required key = pure child ∧
      ∀ {β : Type} (walk : Node → Walk β), n.access .required key walk = walk child) ∨
    (∃ cause, n.required key = n.fail cause ∧
      ∀ {β : Type} (walk : Node → Walk β), n.access .required key walk = n.fail cause) := by
  obtain ⟨p, t⟩ := n
  obtain ⟨entries, rfl⟩ | h := t.map_or_kind_ne
  · simp only [access_map, Access.child?_required, Tree.get?]
    rw [required, lookup_map, pure_bind]
    cases Tree.find? key entries with
    | none => exact Or.inr ⟨_, rfl, fun _ => rfl⟩
    | some v => exact Or.inl ⟨_, rfl, fun _ => rfl⟩
  · refine Or.inr ⟨_, ?_, fun walk => access_fail h _ _ walk⟩
    rw [required, lookup_fail h, fail_bind]

theorem leafOr_eq_access (n : Node) (key : String) (default : α) (read : Leaf.Reader α) :
    n.leafOr key default read = n.access (.given default) key fun c => c.leaf read := by
  rw [← child?_bind_eq_access]
  rfl

theorem optional_eq_access [Vacant α] (shape : Shape) (n : Node) (key : String)
    (walk : Node → Walk α) :
    Node.optional shape n key walk
      = n.access (.given shape.absent) key fun c => shape.present <$> walk c := by
  rw [← child?_bind_eq_access, Node.optional]
  congr 1
  funext child
  cases child <;> rfl

theorem optionalBlock_eq_access [Vacant α] (shape : Shape) (n : Node) (key : String)
    (walk : Node → Walk α) :
    Node.optionalBlock shape n key walk
      = n.access (.block shape.absent) key fun c => shape.present <$> walk c := by
  obtain ⟨p, t⟩ := n
  obtain ⟨entries, rfl⟩ | h := t.map_or_kind_ne
  · rw [access_map, Node.optionalBlock, child?_map, pure_bind, Access.child?_block, Tree.get?]
    cases Tree.find? key entries with
    | none => rfl
    | some v =>
        cases v with
        | map inner => cases inner <;> rfl
        | _ => rfl
  · rw [access_fail h, Node.optionalBlock, child?_fail h]
    rfl

theorem auth_eq_access (n : Node) (key : String) :
    n.auth key = n.access (.level .none) key fun c => c.labelled .auth Leaf.auth := by
  obtain ⟨p, t⟩ := n
  obtain ⟨entries, rfl⟩ | h := t.map_or_kind_ne
  · rw [access_map, auth, lookup_map, pure_bind, Access.child?_level, Tree.get?]
    cases Tree.find? key entries <;> rfl
  · rw [access_fail h, auth, lookup_fail h]
    rfl

end Node

/-! ### Readings -/

/-- What is read at a node, in the order in which it is read. -/
inductive Reading : Type → Type 1
  /-- This node is a leaf. -/
  | leaf {α : Type} (read : Leaf.Reader α) : Reading α
  /-- This node is a label, and one that is not recognised is settled by a fallback. -/
  | label {α : Type} (fallback : Fallback) (read : Leaf.Reader (Leaf.Labelled α)) : Reading α
  /-- This node is a list of state slots. -/
  | slots (shape : Shape) : Reading Slots
  /-- This node is a list. -/
  | list {α : Type} (item : Reading α) : Reading (List α)
  /-- Nothing is read. -/
  | done {α : Type} (value : α) : Reading α
  /-- The keys that are not in the table of this node are noticed. -/
  | note (known : List String) : Reading Unit
  /-- The value under a key is read. -/
  | field {β : Type} (access : Access β) (key : String) (inner : Reading β) : Reading β
  /-- One reading after another, at the same node. -/
  | seq {β γ : Type} (first : Reading β) (next : Reading (β → γ)) : Reading γ

namespace Reading

variable {α β γ : Type}

/-- The walk of a reading. -/
@[simp] def walk {α : Type} : Reading α → Node → Walk α
  | .leaf read, n => n.leaf read
  | .label fallback read, n => n.labelled fallback read
  | .slots shape, n => Node.slots shape n
  | .list item, n => n.each item.walk
  | .done value, _ => pure value
  | .note known, n => n.noteUnknown known
  | .field access key inner, n => n.access access key inner.walk
  | .seq first next, n => do
      let value ← first.walk n
      let rest ← next.walk n
      pure (rest value)

/-! ### Common steps -/

/-- A reading whose value is changed. -/
abbrev map (f : α → β) (r : Reading α) : Reading β := .seq r (.done f)

/-- A table of keys, and what is read at a node with that table. -/
abbrev table (known : List String) (next : Reading α) : Reading α :=
  .seq (.note known) (.map (fun value (_ : Unit) => value) next)

/-- The value under a key that has to be there, and what is read after it. -/
abbrev required (key : String) (inner : Reading β) (next : Reading (β → γ)) : Reading γ :=
  .seq (.field .required key inner) next

/-- The leaf under a key, or a default. -/
abbrev leafOr (key : String) (default : β) (read : Leaf.Reader β) (next : Reading (β → γ)) :
    Reading γ :=
  .seq (.field (.given default) key (.leaf read)) next

/-- The value under a key, absent if it is not given. -/
abbrev optional [Vacant β] (shape : Shape) (key : String) (inner : Reading β)
    (next : Reading (Optional β → γ)) : Reading γ :=
  .seq (.field (.given shape.absent) key (.map shape.present inner)) next

/-- The block under a key, absent if it is not given or empty. -/
abbrev optionalBlock [Vacant β] (shape : Shape) (key : String) (inner : Reading β)
    (next : Reading (Optional β → γ)) : Reading γ :=
  .seq (.field (.block shape.absent) key (.map shape.present inner)) next

/-- The permission level under a key. -/
abbrev level (key : String) (next : Reading (Auth → γ)) : Reading γ :=
  .seq (.field (.level .none) key (.label .auth Leaf.auth)) next

end Reading

end ZkCommand
