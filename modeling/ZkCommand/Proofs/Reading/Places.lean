import ZkCommand.Proofs.Reading.Visits

/-!
# ZkCommand.Proofs.Reading.Places

**Walks do not see where they are.** The place of a node enters a walk only in what it says: in the
paths of its events and of its failure. `walk_under` says so of every reading: a walk below another
place is the same walk, with that place put before all the paths.
-/

namespace ZkCommand

/-! ### Putting a place before paths -/

/-- A path that starts at a place instead of at the root. -/
def Path.under (base p : Path) : Path := ⟨base.segments ++ p.segments⟩

namespace Path

@[simp] theorem under_key (base p : Path) (key : String) :
    base.under (p.key key) = (base.under p).key key := by
  simp [under, Path.key]

@[simp] theorem under_index (base p : Path) (i : Nat) :
    base.under (p.index i) = (base.under p).index i := by
  simp [under, index]

@[simp] theorem under_root (base : Path) : base.under root = base := by
  simp [under, root]

end Path

/-- A diagnostic of a label below a place. -/
def Diagnostic.under (base : Path) (d : Diagnostic) : Diagnostic :=
  { d with path := base.under d.path }

/-- An event below a place. The number of updates of a command is told of no place. -/
def Event.under (base : Path) : Event → Event
  | .unknownKey path key => .unknownKey (base.under path) key
  | .permissionMissing path key => .permissionMissing (base.under path) key
  | .fallback d => .fallback (d.under base)
  | .transcoded name variant updates => .transcoded name variant updates

theorem Event.diagnostic?_under (base : Path) (event : Event) :
    (event.under base).diagnostic? = event.diagnostic?.map (Diagnostic.under base) := by
  cases event <;> rfl

/-- A failure below a place. -/
def Walk.Fault.under (base : Path) (fault : Walk.Fault) : Walk.Fault :=
  { fault with path := base.under fault.path }

/-- A node below a place. -/
def Node.under (base : Path) (n : Node) : Node := ⟨base.under n.path, n.tree⟩

namespace Walk

variable {α β : Type} (base : Path)

/-- A walk below a place. -/
def under (walk : Walk α) : Walk α :=
  ⟨walk.events.map (Event.under base), walk.outcome.mapError (Fault.under base)⟩

@[simp] theorem under_pure (a : α) : (pure a : Walk α).under base = pure a := rfl

@[simp] theorem under_bind (walk : Walk α) (next : α → Walk β) :
    (walk >>= next).under base = walk.under base >>= fun a => (next a).under base := by
  obtain ⟨events, outcome⟩ := walk
  cases outcome with
  | error fault => rfl
  | ok a =>
      show Walk.mk ((events ++ (next a).events).map _) _ = Walk.mk (_ ++ _) _
      rw [List.map_append]
      rfl

theorem under_mapM (walk : α → Walk β) (items : List α) :
    (items.mapM walk).under base = items.mapM fun item => (walk item).under base := by
  induction items with
  | nil => rfl
  | cons item rest ih =>
      rw [List.mapM_cons, List.mapM_cons, under_bind]
      refine bind_congr fun b => ?_
      rw [under_bind, ih]
      rfl

theorem diagnostics_under (walk : Walk α) :
    (walk.under base).diagnostics = walk.diagnostics.map (Diagnostic.under base) := by
  rw [diagnostics, diagnostics, under, List.filterMap_map, List.map_filterMap]
  exact congrArg (List.filterMap · walk.events) (funext (Event.diagnostic?_under base))

theorem fault?_under (walk : Walk α) :
    (walk.under base).fault? = walk.fault?.map (Fault.under base) := by
  unfold fault? under
  cases walk.outcome <;> rfl

end Walk

/-! ### Steps below a place -/

namespace Node

variable {α : Type} (base : Path) (n : Node)

theorem leaf_under (read : Leaf.Reader α) :
    (n.under base).leaf read = (n.leaf read).under base := by
  obtain ⟨p, t⟩ := n
  unfold leaf under
  cases read t <;> rfl

theorem labelled_under (fallback : Fallback) (read : Leaf.Reader (Leaf.Labelled α)) :
    (n.under base).labelled fallback read = (n.labelled fallback read).under base := by
  rw [labelled, labelled, Walk.under_bind, leaf_under]
  refine bind_congr fun result => ?_
  cases result.unrecognised <;> rfl

theorem items_under :
    (n.under base).items = n.items.under base >>= fun items => pure (items.map (under base)) := by
  obtain ⟨p, t⟩ := n
  cases t with
  | list items =>
      show (pure _ : Walk (List Node)) = pure _
      rw [map_mapIdx]
      simp [under]
  | _ => rfl

theorem slot_under (shape : Shape) :
    slot shape (n.under base) = (slot shape n).under base := by
  rw [slot, slot, leaf_under]
  show (if n.tree.isNull then _ else _) = _
  split
  · rfl
  · rw [Walk.under_bind]
    rfl

theorem slots_under (shape : Shape) :
    slots shape (n.under base) = (slots shape n).under base := by
  rw [slots, slots, items_under, bind_assoc, Walk.under_bind]
  refine bind_congr fun items => ?_
  have rest : ((items.map (under base)).drop slotCount).any (fun item => !item.tree.isNull)
      = (items.drop slotCount).any fun item => !item.tree.isNull := by
    rw [← List.map_drop, List.any_map]
    rfl
  rw [pure_bind, rest, List.length_map, ← List.map_take, List.mapM_map]
  split
  · rfl
  · rw [Walk.under_bind, Walk.under_mapM]
    simp only [Function.comp_def, slot_under]
    rfl

theorem each_under {walk : Node → Walk α}
    (h : ∀ n, walk (n.under base) = (walk n).under base) :
    (n.under base).each walk = (n.each walk).under base := by
  rw [each, each, items_under, bind_assoc, Walk.under_bind]
  refine bind_congr fun items => ?_
  rw [pure_bind, List.mapM_map, Walk.under_mapM]
  simp only [Function.comp_def, h]

theorem noteUnknown_under (known : List String) :
    (n.under base).noteUnknown known = (n.noteUnknown known).under base := by
  obtain ⟨p, t⟩ := n
  cases t with
  | map entries =>
      show Walk.mk (List.map _ _) _ = Walk.mk (List.map _ (List.map _ _)) _
      rw [List.map_map]
      rfl
  | _ => rfl

theorem missing_under (access : Access α) (key : String) :
    access.missing (n.under base) key = (access.missing n key).under base := by
  cases access <;> rfl

theorem access_under (access : Access α) (key : String) {walk : Node → Walk α}
    (h : ∀ n, walk (n.under base) = (walk n).under base) :
    (n.under base).access access key walk = (n.access access key walk).under base := by
  obtain ⟨p, t⟩ := n
  obtain ⟨entries, rfl⟩ | ht := t.map_or_kind_ne
  · rw [access_map, under, access_map]
    cases access.child? key (.map entries) with
    | some v => rw [← Path.under_key]; exact h ⟨p.key key, v⟩
    | none => exact missing_under base ⟨p, .map entries⟩ access key
  · rw [access_fail ht, under, access_fail ht]
    rfl

end Node

namespace Reading

variable {α : Type}

/-- **A walk below a place** is the same walk, with that place before all the paths. -/
theorem walk_under (r : Reading α) (base : Path) (n : Node) :
    r.walk (n.under base) = (r.walk n).under base := by
  induction r generalizing n with
  | leaf read => exact n.leaf_under base read
  | label fallback read => exact n.labelled_under base fallback read
  | slots shape => exact n.slots_under base shape
  | list item ih => exact n.each_under base ih
  | done value => rfl
  | note known => exact n.noteUnknown_under base known
  | field access key inner ih => exact n.access_under base access key ih
  | seq first next ihf ihn => simp only [walk, Walk.under_bind, ihf, ihn, Walk.under_pure]

/-- A walk at a place is a walk at the root, below that place. -/
theorem walk_at (r : Reading α) (p : Path) (t : Tree) :
    r.walk ⟨p, t⟩ = (r.walk (.root t)).under p := by
  rw [← walk_under, Node.under, Node.root, Path.under_root]

theorem diagnosticsOf_at {r : Reading α} {t : Tree} {a : α} (h : r.Reads t a) (p : Path) :
    r.diagnosticsOf p t = (r.diagnosticsOf Path.root t).map (Diagnostic.under p) := by
  have walked : ∀ p, (r.walk ⟨p, t⟩).diagnostics = r.diagnosticsOf p t := by
    intro p
    rw [diagnosticsOf_eq, Walk.diagnostics,
      events_walk r ⟨p, t⟩ ((outcome_walk_eq_ok_iff r ⟨p, t⟩ a).mpr h)]
  rw [← walked, walk_at, Walk.diagnostics_under, ← walked]
  rfl

end Reading

end ZkCommand
