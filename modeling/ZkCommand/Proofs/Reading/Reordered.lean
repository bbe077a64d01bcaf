import ZkCommand.Proofs.Reading.Tables
import ZkCommand.Proofs.Reading.UnknownKeys

/-!
# ZkCommand.Proofs.Reading.Reordered

**The order of keys is not read.** `Reordered` relates two documents that differ only in the order
of the entries of their mappings. A step looks up its key and never goes through the entries, so it
sees the same thing in both (`Alike`); the only leaf that is a mapping, a curve point, looks up its
coordinates in the same way. What is left of the order is that in which unknown keys are told
(`quiet_walk_of_reordered`).
-/

namespace ZkCommand

/-! ### Documents in another order -/

/-- Two documents that are equal up to the order of the entries of mappings, at any depth. Entries
change places only among distinct keys: every mapping that is read from a text has these. -/
inductive Tree.Reordered : Tree → Tree → Prop
  | same (t : Tree) : Reordered t t
  | trans {t u v : Tree} (first : Reordered t u) (next : Reordered u v) : Reordered t v
  | entries {es es' : List (String × Tree)} (distinct : (es.map Prod.fst).Nodup)
      (order : es.Perm es') : Reordered (.map es) (.map es')
  | value (before : List (String × Tree)) (key : String) {v v' : Tree}
      (after : List (String × Tree)) (h : Reordered v v') :
      Reordered (.map (before ++ (key, v) :: after)) (.map (before ++ (key, v') :: after))
  | element (before : List Tree) {v v' : Tree} (after : List Tree) (h : Reordered v v') :
      Reordered (.list (before ++ v :: after)) (.list (before ++ v' :: after))

namespace Tree

/-- Two values that look alike to a step: the same scalar, lists of reordered elements, or mappings
with reordered values under the same keys. -/
inductive Alike : Tree → Tree → Prop
  | null : Alike .null .null
  | bool (b : Bool) : Alike (.bool b) (.bool b)
  | num (literal : String) : Alike (.num literal) (.num literal)
  | str (text : String) : Alike (.str text) (.str text)
  | list {items items' : List Tree} (each : List.Forall₂ Reordered items items') :
      Alike (.list items) (.list items')
  | map {es es' : List (String × Tree)}
      (found : ∀ key, Option.Rel Reordered (find? key es) (find? key es'))
      (empty : es.isEmpty = es'.isEmpty) : Alike (.map es) (.map es')

variable {t t' u : Tree}

/-! ### Looking up keys -/

theorem rel_same (o : Option Tree) : Option.Rel Reordered o o := by
  cases o with
  | none => exact .none
  | some t => exact .some (.same t)

theorem rel_trans {o₁ o₂ o₃ : Option Tree} (first : Option.Rel Reordered o₁ o₂)
    (next : Option.Rel Reordered o₂ o₃) : Option.Rel Reordered o₁ o₃ := by
  cases first with
  | none => exact next
  | some h =>
      cases next with
      | some h' => exact .some (h.trans h')

/-- Among distinct keys, the value under a key is the one of its only entry. -/
theorem find?_eq_some_iff {key : String} {v : Tree} {es : List (String × Tree)}
    (distinct : (es.map Prod.fst).Nodup) : find? key es = some v ↔ (key, v) ∈ es := by
  induction es with
  | nil => simp [find?]
  | cons entry rest ih =>
      obtain ⟨name, value⟩ := entry
      obtain ⟨fresh, distinct⟩ := List.nodup_cons.mp distinct
      rw [find?, List.mem_cons, Prod.mk.injEq]
      by_cases same : name = key
      · subst same
        have absent : (name, v) ∉ rest := fun h => fresh (List.mem_map.mpr ⟨_, h, rfl⟩)
        simp [absent, eq_comm]
      · simp [same, Ne.symm same, ih distinct]

theorem find?_perm {es es' : List (String × Tree)} (distinct : (es.map Prod.fst).Nodup)
    (order : es.Perm es') (key : String) : find? key es = find? key es' := by
  have distinct' : (es'.map Prod.fst).Nodup := (order.map Prod.fst).nodup_iff.mp distinct
  refine Option.ext fun v => ?_
  rw [find?_eq_some_iff distinct, find?_eq_some_iff distinct', order.mem_iff]

theorem find?_value (before : List (String × Tree)) (key : String) (after : List (String × Tree))
    (h : Reordered t t') (k : String) :
    Option.Rel Reordered (find? k (before ++ (key, t) :: after))
      (find? k (before ++ (key, t') :: after)) := by
  induction before with
  | nil =>
      rw [List.nil_append, List.nil_append, find?, find?]
      split
      · exact .some h
      · exact rel_same _
  | cons entry rest ih =>
      rw [List.cons_append, List.cons_append, find?, find?]
      split
      · exact rel_same _
      · exact ih

/-! ### Values that look alike -/

theorem forall₂_reordered_same (items : List Tree) : List.Forall₂ Reordered items items :=
  List.forall₂_same.mpr fun item _ => .same item

theorem forall₂_reordered_trans {us vs ws : List Tree} (first : List.Forall₂ Reordered us vs)
    (next : List.Forall₂ Reordered vs ws) : List.Forall₂ Reordered us ws := by
  induction first generalizing ws with
  | nil => exact next
  | cons head _ ih =>
      cases next with
      | cons head' rest' => exact .cons (head.trans head') (ih rest')

theorem Alike.same (t : Tree) : Alike t t := by
  cases t with
  | null => exact .null
  | bool b => exact .bool b
  | num literal => exact .num literal
  | str text => exact .str text
  | list items => exact .list (forall₂_reordered_same items)
  | map es => exact .map (fun key => rel_same _) rfl

theorem Alike.trans (first : Alike t t') (next : Alike t' u) : Alike t u := by
  cases first with
  | list each =>
      cases next with
      | list each' => exact .list (forall₂_reordered_trans each each')
  | map found empty =>
      cases next with
      | map found' empty' =>
          exact .map (fun key => rel_trans (found key) (found' key)) (empty.trans empty')
  | _ => exact next

theorem Reordered.alike (h : Reordered t t') : Alike t t' := by
  induction h with
  | same t => exact .same t
  | trans _ _ first next => exact first.trans next
  | entries distinct order =>
      refine .map (fun key => ?_) order.isEmpty_eq
      rw [find?_perm distinct order]
      exact rel_same _
  | value before key after h =>
      exact .map (find?_value before key after h) (by cases before <;> rfl)
  | element before after h =>
      exact .list (List.rel_append (forall₂_reordered_same before)
        (.cons h (forall₂_reordered_same after)))

namespace Alike

theorem isNull_eq (h : Alike t t') : t.isNull = t'.isNull := by
  cases h <;> rfl

theorem isEmptyMapping_eq (h : Alike t t') :
    Node.isEmptyMapping t = Node.isEmptyMapping t' := by
  cases h with
  | map found empty => rw [isEmptyMapping_map, isEmptyMapping_map, empty]
  | _ => rfl

end Alike

end Tree

/-! ### Leaves -/

/-- The reader of a leaf does not see the order of keys. -/
def Leaf.Orderless {α : Type} (read : Leaf.Reader α) : Prop :=
  ∀ ⦃t t' : Tree⦄, t.Reordered t' → read t = read t'

namespace Leaf

variable {α : Type}

/-- A reader that does not look into lists and mappings does not see their order. -/
theorem orderless_of_scalar {read : Leaf.Reader α}
    (list : ∀ items items', read (.list items) = read (.list items'))
    (map : ∀ es es', read (.map es) = read (.map es')) : Orderless read := by
  intro t t' h
  cases h.alike with
  | list each => exact list _ _
  | map found empty => exact map _ _
  | _ => rfl

@[simp] theorem orderless_word (width : Nat) : Orderless (word width) :=
  orderless_of_scalar (fun _ _ => rfl) fun _ _ => rfl

@[simp] theorem orderless_field : Orderless field :=
  orderless_of_scalar (fun _ _ => rfl) fun _ _ => rfl

@[simp] theorem orderless_hash (version : UInt8) : Orderless (hash version) :=
  orderless_of_scalar (fun _ _ => rfl) fun _ _ => rfl

@[simp] theorem orderless_tokenId : Orderless tokenId := orderless_hash _

@[simp] theorem orderless_bool : Orderless bool :=
  orderless_of_scalar (fun _ _ => rfl) fun _ _ => rfl

@[simp] theorem orderless_string : Orderless string :=
  orderless_of_scalar (fun _ _ => rfl) fun _ _ => rfl

@[simp] theorem orderless_tokenSymbol : Orderless tokenSymbol :=
  orderless_of_scalar (fun _ _ => rfl) fun _ _ => rfl

@[simp] theorem orderless_uri : Orderless uri :=
  orderless_of_scalar (fun _ _ => rfl) fun _ _ => rfl

@[simp] theorem orderless_actionState : Orderless actionState :=
  orderless_of_scalar (fun _ _ => rfl) fun _ _ => rfl

@[simp] theorem orderless_auth : Orderless auth :=
  orderless_of_scalar (fun _ _ => rfl) fun _ _ => rfl

@[simp] theorem orderless_sign : Orderless sign :=
  orderless_of_scalar (fun _ _ => rfl) fun _ _ => rfl

/-- The coordinates of a point are looked up, in whatever order they are written. -/
@[simp] theorem orderless_publicKey : Orderless publicKey := by
  intro t t' h
  cases h.alike with
  | @map es es' found empty =>
      have x := found "x"
      have isOdd := found "isOdd"
      simp only [publicKey, member, Tree.get?]
      generalize Tree.find? "x" es = vx, Tree.find? "x" es' = vx' at x
      generalize Tree.find? "isOdd" es = vo, Tree.find? "isOdd" es' = vo' at isOdd
      cases x with
      | none => rfl
      | @some vx vx' x =>
          cases isOdd with
          | none => rfl
          | @some vo vo' isOdd =>
          show (do let x ← field vx; let isOdd ← bool vo; .ok (PublicKey.point x isOdd)) = _
          rw [orderless_field x, orderless_bool isOdd]
          rfl
  | _ => rfl

end Leaf

/-! ### Nodes -/

/-- Two nodes at one place, of which the values differ in the order of keys. -/
structure Node.Reordered (n n' : Node) : Prop where
  path : n.path = n'.path
  tree : n.tree.Reordered n'.tree

theorem Access.counts_of_alike {β : Type} (access : Access β) {v v' : Tree} (h : v.Alike v') :
    access.counts v = access.counts v' := by
  cases access <;> simp only [counts, h.isNull_eq, h.isEmptyMapping_eq]

theorem Access.child?_of_found {β : Type} (access : Access β) {key : String}
    {es es' : List (String × Tree)}
    (found : Option.Rel Tree.Reordered (Tree.find? key es) (Tree.find? key es')) :
    Option.Rel Tree.Reordered (access.child? key (.map es)) (access.child? key (.map es')) := by
  rw [child?, child?, Tree.get?, Tree.get?]
  generalize Tree.find? key es = o, Tree.find? key es' = o' at found
  cases found with
  | none => exact .none
  | some h =>
      rw [Option.filter_some, Option.filter_some, access.counts_of_alike h.alike]
      split
      · exact .some h
      · exact .none

namespace Node

variable {α : Type} {n n' : Node}

/-- The elements of a list keep their places. -/
theorem items_of_reordered (h : n.Reordered n') :
    (∃ items items', n.items = pure items ∧ n'.items = pure items' ∧
      List.Forall₂ Reordered items items') ∨
    ∃ fault, n.items = Walk.fail fault ∧ n'.items = Walk.fail fault := by
  obtain ⟨p, t⟩ := n
  obtain ⟨p', t'⟩ := n'
  obtain ⟨rfl, tree⟩ := h
  cases tree.alike with
  | list each =>
      exact Or.inl ⟨_, _, rfl, rfl, forall₂_mapIdx each fun i v v' hv => ⟨rfl, hv⟩⟩
  | _ => exact Or.inr ⟨_, rfl, rfl⟩

theorem leaf_of_reordered (h : n.Reordered n') {read : Leaf.Reader α}
    (orderless : Leaf.Orderless read) : n.leaf read = n'.leaf read := by
  rw [leaf, leaf, orderless h.tree]
  unfold fail
  rw [h.path]

theorem labelled_of_reordered (h : n.Reordered n') {read : Leaf.Reader (Leaf.Labelled α)}
    (orderless : Leaf.Orderless read) (fallback : Fallback) :
    n.labelled fallback read = n'.labelled fallback read := by
  rw [labelled, labelled, leaf_of_reordered h orderless, h.path]

theorem slot_of_reordered (h : n.Reordered n') (shape : Shape) : slot shape n = slot shape n' := by
  rw [slot, slot, h.tree.alike.isNull_eq, leaf_of_reordered h Leaf.orderless_field]

theorem any_of_reordered {items items' : List Node} (h : List.Forall₂ Reordered items items') :
    (items.any fun item => !item.tree.isNull) = items'.any fun item => !item.tree.isNull := by
  induction h with
  | nil => rfl
  | cons head _ ih => rw [List.any_cons, List.any_cons, ih, head.tree.alike.isNull_eq]

theorem quiet_each_of_reordered (h : n.Reordered n') {walk : Node → Walk α}
    (same : ∀ {child child' : Node}, child.Reordered child' →
      (walk child).quiet = (walk child').quiet) : (n.each walk).quiet = (n'.each walk).quiet := by
  obtain ⟨items, items', found, found', each⟩ | ⟨fault, found, found'⟩ := items_of_reordered h
  · rw [Node.each, Node.each, found, found', pure_bind, pure_bind]
    exact Walk.quiet_mapM_congr (each.imp fun _ _ => same)
  · rw [Node.each, Node.each, found, found']

theorem quiet_slots_of_reordered (h : n.Reordered n') (shape : Shape) :
    (slots shape n).quiet = (slots shape n').quiet := by
  obtain ⟨items, items', found, found', each⟩ | ⟨fault, found, found'⟩ := items_of_reordered h
  · rw [slots, slots, found, found', pure_bind, pure_bind,
      any_of_reordered (List.forall₂_drop slotCount each)]
    split
    · unfold fail
      rw [h.path, each.length_eq]
    · refine Walk.quiet_bind_congr ?_ fun given => rfl
      refine Walk.quiet_mapM_congr ((List.forall₂_take slotCount each).imp fun _ _ hv => ?_)
      rw [slot_of_reordered hv]
  · rw [slots, slots, found, found']
    rfl

theorem quiet_access_of_reordered (h : n.Reordered n') (access : Access α) (key : String)
    {walk : Node → Walk α} (same : ∀ {child child' : Node}, child.Reordered child' →
      (walk child).quiet = (walk child').quiet) :
    (n.access access key walk).quiet = (n'.access access key walk).quiet := by
  obtain ⟨p, t⟩ := n
  obtain ⟨p', t'⟩ := n'
  obtain ⟨rfl, tree⟩ := h
  cases tree.alike with
  | @map es es' found empty =>
      have child := access.child?_of_found (found key)
      rw [access_map, access_map, access.missing_congr p (.map es) (.map es')]
      generalize access.child? key (.map es) = o, access.child? key (.map es') = o' at child
      cases child with
      | none => rfl
      | some hv => exact same ⟨rfl, hv⟩
  | _ => rfl

end Node

/-! ### Readings -/

namespace Reading

variable {α : Type}

/-- No leaf of a reading sees the order of keys. -/
@[simp] def Orderless {α : Type} : Reading α → Prop
  | .leaf read => Leaf.Orderless read
  | .label _ read => Leaf.Orderless read
  | .slots _ => True
  | .list item => item.Orderless
  | .done _ => True
  | .note _ => True
  | .field _ _ inner => inner.Orderless
  | .seq first next => first.Orderless ∧ next.Orderless

/-- **The order of keys is not read.** Walks through two nodes that differ in the order of keys end
alike and notice the same things in the same order, up to the order of unknown keys. -/
theorem quiet_walk_of_reordered (r : Reading α) (orderless : r.Orderless) {n n' : Node}
    (h : n.Reordered n') : (r.walk n).quiet = (r.walk n').quiet := by
  induction r generalizing n n' with
  | leaf read => exact congrArg Walk.quiet (Node.leaf_of_reordered h orderless)
  | label fallback read =>
      exact congrArg Walk.quiet (Node.labelled_of_reordered h orderless fallback)
  | slots shape => exact Node.quiet_slots_of_reordered h shape
  | list item ih => exact Node.quiet_each_of_reordered h fun hc => ih orderless hc
  | done value => rfl
  | note known => rw [walk, walk, Node.quiet_noteUnknown, Node.quiet_noteUnknown]
  | field access key inner ih =>
      exact Node.quiet_access_of_reordered h access key fun hc => ih orderless hc
  | seq first next ihf ihn =>
      refine Walk.quiet_bind_congr (ihf orderless.1 h) fun b => ?_
      exact Walk.quiet_bind_congr (ihn orderless.2 h) fun f => rfl

/-! ### The tables of the schema -/

section Tables

variable (shape : Shape)

theorem orderless_update : (update shape).Orderless := by
  simp [update, verificationKey, permissions, setVerificationKey, timing]

theorem orderless_network : (network shape).Orderless := by
  simp [network, epoch, epochLedger, range]

theorem orderless_account : (account shape).Orderless := by
  simp [account, range]

theorem orderless_accountUpdate : (accountUpdate shape).Orderless := by
  simp [accountUpdate, accountUpdateBody, balanceChange, fieldLists, mayUseToken,
    authorizationKind, preconditions, range, orderless_update, orderless_network,
    orderless_account]

theorem orderless_document (config : Config) : (document config).Orderless := by
  cases hv : config.variant <;>
    simp [document, hv, expected, expectedHashes, feePayer, feePayerBody, orderless_accountUpdate]

end Tables

end Reading

end ZkCommand
