import ZkCommand.Command.Update
import ZkCommand.Leaf.Read
import ZkCommand.Walk.Basic

/-!
# ZkCommand.Walk.Node

**Nodes** are document values together with their places. The functions here are the steps that
the schema is made of: going to a child, reading a leaf, and the rules for values that may be
absent. Each of them fails at the node that is to blame.
-/

namespace ZkCommand

/-- A value and its place in the document. -/
structure Node where
  path : Path
  tree : Tree

namespace Node

variable {α : Type}

/-- The document itself. -/
def root (t : Tree) : Node := ⟨Path.root, t⟩

/-- The failure of a walk at this node. -/
def fail (n : Node) (cause : Walk.Cause) : Walk α := Walk.fail ⟨n.path, cause⟩

/-! ### Children -/

/-- The entries of a mapping. -/
def entries (n : Node) : Walk (List (String × Tree)) :=
  match n.tree with
  | .map entries => pure entries
  | t => n.fail (.wrongShape .mapping t.kind)

/-- The child under a key, if the key is there. -/
def lookup (n : Node) (key : String) : Walk (Option Node) := do
  let entries ← n.entries
  pure ((Tree.find? key entries).map fun t => ⟨n.path.key key, t⟩)

/-- The child under a key that has to be there. It may be null. -/
def required (n : Node) (key : String) : Walk Node := do
  match ← n.lookup key with
  | some child => pure child
  | none => n.fail (.missingField key)

/-- The child under a key. Null counts as missing. -/
def child? (n : Node) (key : String) : Walk (Option Node) := do
  let child ← n.lookup key
  pure (child.filter fun c => !c.tree.isNull)

/-- The elements of a list, in order. -/
def items (n : Node) : Walk (List Node) :=
  match n.tree with
  | .list items => pure (items.mapIdx fun i t => ⟨n.path.index i, t⟩)
  | t => n.fail (.wrongShape .list t.kind)

/-- A walk from the child under a key that has to be there. -/
def within (n : Node) (key : String) (walk : Node → Walk α) : Walk α := do
  let child ← n.required key
  walk child

/-- A walk from every element of a list. -/
def each (n : Node) (walk : Node → Walk α) : Walk (List α) := do
  let items ← n.items
  items.mapM walk

/-- Notices the keys that are not known here. -/
def noteUnknown (n : Node) (known : List String) : Walk Unit :=
  match n.tree with
  | .map entries =>
      let keys := (entries.map Prod.fst).filter fun key => !known.contains key
      ⟨keys.map (Event.unknownKey n.path), .ok ()⟩
  | _ => pure ()

/-! ### Leaves -/

/-- This node as a leaf. -/
def leaf (n : Node) (read : Leaf.Reader α) : Walk α :=
  match read n.tree with
  | .ok value => pure value
  | .error fault => n.fail (.leaf fault)

/-- The child under a key as a leaf. -/
def requiredLeaf (n : Node) (key : String) (read : Leaf.Reader α) : Walk α :=
  n.within key fun child => child.leaf read

/-- The child under a key as a leaf, or a default for a child that is not there. -/
def leafOr (n : Node) (key : String) (default : α) (read : Leaf.Reader α) : Walk α := do
  match ← n.child? key with
  | some child => child.leaf read
  | none => pure default

/-- This node as a label. One that is not recognised is noticed. -/
def labelled (n : Node) (fallback : Fallback) (read : Leaf.Reader (Leaf.Labelled α)) :
    Walk α := do
  let result ← n.leaf read
  match result.unrecognised with
  | none => pure result.value
  | some label => do
      Walk.emit (.fallback ⟨n.path, fallback, label⟩)
      pure result.value

/-- This node as a sign. -/
def sign (n : Node) : Walk Sign := n.labelled .sign Leaf.sign

/-- The level under a key. A missing level is no requirement. -/
def auth (n : Node) (key : String) : Walk Auth := do
  match ← n.lookup key with
  | some child => child.labelled .auth Leaf.auth
  | none => do
      Walk.emit (.permissionMissing n.path key)
      pure .none

/-! ### Values that may be absent -/

/-- The child under a key, walked through if it is there. -/
def optional [Vacant α] (shape : Shape) (n : Node) (key : String) (walk : Node → Walk α) :
    Walk (Optional α) := do
  match ← n.child? key with
  | none => pure shape.absent
  | some child => do
      let value ← walk child
      pure (shape.present value)

/-- A mapping without entries. -/
def isEmptyMapping : Tree → Bool
  | .map [] => true
  | _ => false

/-- The block under a key, walked through if it is there. An empty mapping counts as missing. -/
def optionalBlock [Vacant α] (shape : Shape) (n : Node) (key : String) (walk : Node → Walk α) :
    Walk (Optional α) := do
  match (← n.child? key).filter fun child => !isEmptyMapping child.tree with
  | none => pure shape.absent
  | some child => do
      let value ← walk child
      pure (shape.present value)

/-- The leaf under a key. -/
def optionalLeaf [Vacant α] (shape : Shape) (n : Node) (key : String) (read : Leaf.Reader α) :
    Walk (Optional α) :=
  n.optional shape key fun child => child.leaf read

/-- The keys of a range. -/
def rangeKeys : List String := ["lower", "upper"]

/-- The range under a key. If it is there, both bounds have to be. -/
def optionalRange (shape : Shape) (width : Nat) (n : Node) (key : String) :
    Walk (Optional (Range width)) :=
  n.optional shape key fun child => do
    child.noteUnknown rangeKeys
    let lower ← child.requiredLeaf "lower" (Leaf.word width)
    let upper ← child.requiredLeaf "upper" (Leaf.word width)
    pure ⟨lower, upper⟩

/-- A state slot: null leaves it alone. -/
def slot (shape : Shape) (n : Node) : Walk (Optional Fp) :=
  if n.tree.isNull then pure shape.absent
  else do
    let value ← n.leaf Leaf.field
    pure (shape.present value)

/-- The state slots of a list. Slots that are not given are left alone, and beyond the last slot
there may only be nulls. -/
def slots (shape : Shape) (n : Node) : Walk Slots := do
  let items ← n.items
  if (items.drop slotCount).any fun item => !item.tree.isNull then
    n.fail (.tooManySlots items.length slotCount)
  else do
    let given ← (items.take slotCount).mapM (slot shape)
    pure (Vector.ofFn fun i => given.getD i shape.absent)

end Node

end ZkCommand
