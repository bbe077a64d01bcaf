import ZkCommand.Proofs.Reading.Visits

/-!
# ZkCommand.Proofs.Reading.Slots

**State slots keep their positions.** A list gives a slot the element at its index, or nothing if
that is null or missing (`givenAt?`), so nulls at the end of a list do not count. `SlotGiven` says
what a slot holds then, and `SlotsFault` how a list of slots fails: by its length if it gives
anything beyond the last slot, whatever else is wrong with it, and else at the first element that is
no field element.
-/

namespace ZkCommand

/-! ### What a list gives -/

/-- The element of a list that counts as given at an index: one that is not null. -/
def givenAt? (items : List Tree) (i : Nat) : Option Tree := items[i]?.filter fun v => !v.isNull

/-- What a slot holds if it is given a value or nothing. -/
inductive SlotGiven (shape : Shape) : Option Tree → Optional Fp → Prop
  | absent : SlotGiven shape none shape.absent
  | present {v : Tree} {x : Fp} (read : Leaf.field v = .ok x) :
      SlotGiven shape (some v) (shape.present x)

/-- The ways in which a node fails to be a list of state slots. -/
inductive SlotsFault (n : Node) : Walk.Fault → Prop
  /-- It is no list. -/
  | noList (other : n.tree.kind ≠ .list) : SlotsFault n ⟨n.path, .wrongShape .list n.tree.kind⟩
  /-- It gives something beyond the last slot. -/
  | tooMany {items : List Tree} (list : n.tree = .list items) {i : Nat} {v : Tree}
      (given : givenAt? items i = some v) (beyond : slotCount ≤ i) :
      SlotsFault n ⟨n.path, .tooManySlots items.length slotCount⟩
  /-- It gives nothing beyond the last slot, and this is the first element that cannot be read. -/
  | malformed {items : List Tree} (list : n.tree = .list items)
      (inside : ∀ i v, givenAt? items i = some v → i < slotCount) {i : Nat} {v : Tree}
      (given : givenAt? items i = some v) {cause : Leaf.Fault} (bad : Leaf.field v = .error cause)
      (first : ∀ (j : Nat) (u : Tree), j < i → givenAt? items j = some u →
        ∃ x, Leaf.field u = .ok x) :
      SlotsFault n ⟨n.path.index i, .leaf cause⟩

section
variable {items : List Tree} {i : Nat} {v : Tree}

theorem givenAt?_eq_some_iff :
    givenAt? items i = some v ↔ items[i]? = some v ∧ v.isNull = false := by
  rw [givenAt?, Option.filter_eq_some_iff, Bool.not_eq_true']

theorem givenAt?_of_isNull (h : items[i]? = some v) (null : v.isNull = true) :
    givenAt? items i = none := by
  rw [givenAt?, h, Option.filter_some, null]
  rfl

/-- Nulls behind a list do not change what it gives. -/
theorem givenAt?_append_nulls (items : List Tree) (count i : Nat) :
    givenAt? (items ++ List.replicate count .null) i = givenAt? items i := by
  by_cases inside : i < items.length
  · rw [givenAt?, List.getElem?_append_left inside, givenAt?]
  · rw [givenAt?, givenAt?, List.getElem?_append_right (Nat.le_of_not_lt inside),
      List.getElem?_replicate, List.getElem?_eq_none (Nat.le_of_not_lt inside)]
    split <;> rfl

/-- Beyond an index there is something that is not null, or nothing is given there. -/
theorem any_drop_iff {count : Nat} : ((items.drop count).any fun v => !v.isNull) = true ↔
    ∃ i v, givenAt? items i = some v ∧ count ≤ i := by
  rw [List.any_eq_true]
  constructor
  · intro h
    obtain ⟨v, hv, given⟩ := h
    obtain ⟨i, found⟩ := List.mem_iff_getElem?.mp hv
    rw [List.getElem?_drop] at found
    exact ⟨_, v, givenAt?_eq_some_iff.mpr ⟨found, by simpa using given⟩, Nat.le_add_right _ _⟩
  · intro h
    obtain ⟨i, v, given, beyond⟩ := h
    obtain ⟨found, given⟩ := givenAt?_eq_some_iff.mp given
    refine ⟨v, List.mem_iff_getElem?.mpr ⟨i - count, ?_⟩, by simpa using given⟩
    rw [List.getElem?_drop, Nat.add_sub_cancel' beyond, found]

theorem any_drop_eq_false_iff {count : Nat} :
    ((items.drop count).any fun v => !v.isNull) = false ↔
      ∀ i v, givenAt? items i = some v → i < count := by
  rw [← Bool.not_eq_true, any_drop_iff]
  simp only [not_exists, not_and, Nat.not_le]

theorem forall_drop_iff {count : Nat} : (∀ v ∈ items.drop count, v.isNull = true) ↔
    ∀ i v, givenAt? items i = some v → i < count := by
  rw [← any_drop_eq_false_iff, List.any_eq_false]
  simp only [Bool.not_eq_true', Bool.not_eq_false]

end

/-! ### What is read -/

section
variable {shape : Shape}

theorem slotGiven_none_iff {o : Optional Fp} : SlotGiven shape none o ↔ shape.absent = o := by
  constructor
  · intro h
    cases h
    rfl
  · intro h
    subst h
    exact .absent

theorem slotGiven_some_iff {v : Tree} {o : Optional Fp} :
    SlotGiven shape (some v) o ↔ ∃ x, Leaf.field v = .ok x ∧ shape.present x = o := by
  constructor
  · intro h
    cases h with
    | present read => exact ⟨_, read, rfl⟩
  · intro h
    obtain ⟨x, read, rfl⟩ := h
    exact .present read

theorem optional_eq_ok_iff_slotGiven {items : List Tree} {i : Nat} {o : Optional Fp} :
    Leaf.optional shape Leaf.field items[i]? = .ok o ↔ SlotGiven shape (givenAt? items i) o := by
  cases found : items[i]? with
  | none =>
      rw [givenAt?, found, Option.filter_none, slotGiven_none_iff]
      show Except.ok shape.absent = .ok o ↔ _
      rw [Except.ok.injEq]
  | some v =>
      cases null : v.isNull with
      | true =>
          rw [givenAt?_of_isNull found null, slotGiven_none_iff, Leaf.optional_of_isNull null,
            Except.ok.injEq]
      | false =>
          rw [givenAt?_eq_some_iff.mpr ⟨found, null⟩, slotGiven_some_iff,
            Leaf.optional_eq_ok_iff null]

/-- The slots of a list are those that it gives. -/
theorem slotsRead_iff {t : Tree} {s : Slots} : SlotsRead shape t s ↔ ∃ items, t = .list items ∧
    (∀ i v, givenAt? items i = some v → i < slotCount) ∧
    ∀ i : Fin slotCount, SlotGiven shape (givenAt? items i.val) (s.get i) := by
  simp only [SlotsRead, forall_drop_iff, optional_eq_ok_iff_slotGiven]
  rfl

/-- A list has slots if it gives nothing beyond the last slot and all that it gives can be read. -/
theorem exists_slotsRead_iff_given {t : Tree} : (∃ s, SlotsRead shape t s) ↔ ∃ items,
    t = .list items ∧ ∀ i v, givenAt? items i = some v → i < slotCount ∧
      ∃ x, Leaf.field v = .ok x := by
  rw [Reading.exists_slotsRead_iff]
  refine exists_congr fun items => and_congr_right fun _ => ?_
  rw [forall_drop_iff]
  constructor
  · intro h i v given
    have inside := h.1 i v given
    obtain ⟨found, notNull⟩ := givenAt?_eq_some_iff.mp given
    have front : (items.take slotCount)[i]? = some v := by
      rw [List.getElem?_take_of_lt inside, found]
    exact ⟨inside, h.2 v (List.mem_of_getElem? front) notNull⟩
  · intro h
    refine ⟨fun i v given => (h i v given).1, fun v hv notNull => ?_⟩
    obtain ⟨i, found⟩ := List.mem_iff_getElem?.mp (List.mem_of_mem_take hv)
    exact (h i v (givenAt?_eq_some_iff.mpr ⟨found, notNull⟩)).2

theorem slotsRead_append_nulls {items : List Tree} {count : Nat} {s : Slots} :
    SlotsRead shape (.list (items ++ List.replicate count .null)) s
      ↔ SlotsRead shape (.list items) s := by
  simp only [slotsRead_iff, Tree.list.injEq, exists_eq_left', givenAt?_append_nulls]

end

/-! ### How a list fails -/

/-- A search stops at the first element at which something is found. -/
theorem findSome?_eq_some_iff_getElem? {α β : Type} {f : α → Option β} {items : List α} {b : β} :
    items.findSome? f = some b ↔ ∃ i a, items[i]? = some a ∧ f a = some b ∧
      ∀ (j : Nat) (u : α), j < i → items[j]? = some u → f u = none := by
  rw [List.findSome?_eq_some_iff]
  constructor
  · intro h
    obtain ⟨before, a, after, rfl, here, none⟩ := h
    refine ⟨before.length, a, by simp, here, fun j u earlier found => none u ?_⟩
    rw [List.getElem?_append_left earlier] at found
    exact List.mem_of_getElem? found
  · intro h
    obtain ⟨i, a, found, here, none⟩ := h
    obtain ⟨inside, rfl⟩ := List.getElem?_eq_some_iff.mp found
    refine ⟨items.take i, items[i], items.drop (i + 1), ?_, here, fun u hu => ?_⟩
    · rw [List.getElem_cons_drop, List.take_append_drop]
    · obtain ⟨j, found⟩ := List.mem_iff_getElem?.mp hu
      rw [List.getElem?_take] at found
      split_ifs at found with earlier
      exact none j u earlier found

namespace Node

theorem fault?_slot_eq_some_iff {shape : Shape} {n : Node} {fault : Walk.Fault} :
    (slot shape n).fault? = some fault ↔ n.tree.isNull = false ∧
      ∃ cause, Leaf.field n.tree = .error cause ∧ fault = ⟨n.path, .leaf cause⟩ := by
  rw [fault?_slot, slotVisits]
  cases null : n.tree.isNull with
  | true => simp
  | false =>
      rw [if_neg (by decide), List.findSome?_singleton, Visit.fault?_leaf, and_iff_right rfl]
      cases Leaf.field n.tree <;> simp [eq_comm]

theorem fault?_slot_eq_none_iff {shape : Shape} {n : Node} :
    (slot shape n).fault? = none ↔ (n.tree.isNull = false → ∃ x, Leaf.field n.tree = .ok x) := by
  rw [fault?_slot, slotVisits]
  cases null : n.tree.isNull with
  | true => simp
  | false =>
      rw [if_neg (by decide), List.findSome?_singleton, Visit.fault?_leaf]
      cases Leaf.field n.tree <;> simp

/-- The nodes of the first slots stand at the indices of their elements. -/
theorem getElem?_take_mapIdx {p : Path} {items : List Tree} {i : Nat} {child : Node} :
    ((items.mapIdx fun i t => (⟨p.index i, t⟩ : Node)).take slotCount)[i]? = some child ↔
      i < slotCount ∧ ∃ v, items[i]? = some v ∧ ⟨p.index i, v⟩ = child := by
  rw [List.getElem?_take, List.getElem?_mapIdx]
  split_ifs with inside
  · rw [and_iff_right inside, Option.map_eq_some_iff]
  · exact iff_of_false (fun h => by cases h) fun h => inside h.1

section
variable {shape : Shape} {p : Path} {items : List Tree} {fault : Walk.Fault}

theorem fault?_slots_of_beyond (h : ∃ i v, givenAt? items i = some v ∧ slotCount ≤ i) :
    (slots shape ⟨p, .list items⟩).fault? = some ⟨p, .tooManySlots items.length slotCount⟩ := by
  rw [slots, items_list, pure_bind, any_drop_mapIdx, if_pos (any_drop_iff.mpr h),
    List.length_mapIdx]
  rfl

theorem fault?_slots_of_inside (h : ∀ i v, givenAt? items i = some v → i < slotCount) :
    (slots shape ⟨p, .list items⟩).fault? =
      ((items.mapIdx fun i t => (⟨p.index i, t⟩ : Node)).take slotCount).findSome?
        fun child => (slot shape child).fault? := by
  rw [slots, items_list, pure_bind, any_drop_mapIdx,
    if_neg (Bool.eq_false_iff.mp (any_drop_eq_false_iff.mpr h)), Walk.fault?_bind_pure,
    Walk.fault?_mapM]

/-- A list that is not too long fails at the first element that cannot be read. -/
theorem fault?_slots_eq_some_iff (h : ∀ i v, givenAt? items i = some v → i < slotCount) :
    (slots shape ⟨p, .list items⟩).fault? = some fault ↔
      ∃ i v cause, givenAt? items i = some v ∧ Leaf.field v = .error cause ∧
        fault = ⟨p.index i, .leaf cause⟩ ∧
        ∀ (j : Nat) (u : Tree), j < i → givenAt? items j = some u → ∃ x, Leaf.field u = .ok x := by
  rw [fault?_slots_of_inside h, findSome?_eq_some_iff_getElem?]
  constructor
  · intro some
    obtain ⟨i, child, front, failed, first⟩ := some
    obtain ⟨-, v, found, rfl⟩ := getElem?_take_mapIdx.mp front
    obtain ⟨notNull, cause, bad, rfl⟩ := fault?_slot_eq_some_iff.mp failed
    refine ⟨i, v, cause, givenAt?_eq_some_iff.mpr ⟨found, notNull⟩, bad, rfl, ?_⟩
    intro j u earlier given
    obtain ⟨found, notNull⟩ := givenAt?_eq_some_iff.mp given
    have front := getElem?_take_mapIdx (p := p).mpr ⟨h j u given, u, found, rfl⟩
    exact fault?_slot_eq_none_iff.mp (first j _ earlier front) notNull
  · intro some
    obtain ⟨i, v, cause, given, bad, rfl, first⟩ := some
    obtain ⟨found, notNull⟩ := givenAt?_eq_some_iff.mp given
    refine ⟨i, _, getElem?_take_mapIdx.mpr ⟨h i v given, v, found, rfl⟩,
      fault?_slot_eq_some_iff.mpr ⟨notNull, cause, bad, rfl⟩, ?_⟩
    intro j child earlier front
    obtain ⟨-, u, found, rfl⟩ := getElem?_take_mapIdx.mp front
    exact fault?_slot_eq_none_iff.mpr fun notNull =>
      first j u earlier (givenAt?_eq_some_iff.mpr ⟨found, notNull⟩)

end

/-- **A node fails to have slots in exactly one of three ways.** -/
theorem outcome_slots_eq_error_iff {shape : Shape} {n : Node} {fault : Walk.Fault} :
    (slots shape n).outcome = .error fault ↔ SlotsFault n fault := by
  rw [← Walk.fault?_eq_some_iff]
  obtain ⟨p, t⟩ := n
  constructor
  · intro h
    cases t with
    | list items =>
        by_cases beyond : ∃ i v, givenAt? items i = some v ∧ slotCount ≤ i
        · rw [fault?_slots_of_beyond beyond] at h
          obtain rfl := Option.some.inj h
          obtain ⟨i, v, given, beyond⟩ := beyond
          exact .tooMany rfl given beyond
        · have inside : ∀ i v, givenAt? items i = some v → i < slotCount := fun i v given =>
            Nat.lt_of_not_le fun large => beyond ⟨i, v, given, large⟩
          obtain ⟨i, v, cause, given, bad, rfl, first⟩ := (fault?_slots_eq_some_iff inside).mp h
          exact .malformed rfl inside given bad first
    | null | bool _ | num _ | str _ | map _ =>
        obtain rfl := Option.some.inj h
        exact .noList (by exact Tree.Kind.noConfusion)
  · intro h
    cases h with
    | noList other =>
        cases t with
        | list items => exact absurd rfl other
        | _ => rfl
    | tooMany list given beyond =>
        obtain rfl : t = _ := list
        exact fault?_slots_of_beyond ⟨_, _, given, beyond⟩
    | malformed list inside given bad first =>
        obtain rfl : t = _ := list
        exact (fault?_slots_eq_some_iff inside).mpr ⟨_, _, _, given, bad, rfl, first⟩

/-- **State slots are positional.** A node has slots exactly if it is a list that gives nothing
beyond the last slot and nothing unreadable before; there are always `slotCount` of them, each read
off the element at its own index. What fails otherwise is named by `SlotsFault`, and nulls at the
end of a list change none of its slots. -/
theorem slots_positional (shape : Shape) (n : Node) :
    ((∃ s, (slots shape n).outcome = .ok s) ↔ ∃ items, n.tree = .list items ∧
      ∀ i v, givenAt? items i = some v → i < slotCount ∧ ∃ x, Leaf.field v = .ok x) ∧
    (∀ s, (slots shape n).outcome = .ok s ↔ ∃ items, n.tree = .list items ∧
      (∀ i v, givenAt? items i = some v → i < slotCount) ∧
      s.toList.length = 8 ∧ ∀ i : Fin slotCount, SlotGiven shape (givenAt? items i.val) (s.get i)) ∧
    (∀ fault, (slots shape n).outcome = .error fault ↔ SlotsFault n fault) ∧
    (∀ items count s, n.tree = .list items →
      ((slots shape ⟨n.path, .list (items ++ List.replicate count .null)⟩).outcome = .ok s ↔
        (slots shape n).outcome = .ok s)) := by
  refine ⟨?_, fun s => ?_, fun fault => outcome_slots_eq_error_iff, ?_⟩
  · simp only [outcome_slots_eq_ok_iff, exists_slotsRead_iff_given]
  · have length : s.toList.length = 8 := s.length_toList
    rw [outcome_slots_eq_ok_iff, slotsRead_iff]
    simp only [length, true_and]
  · intro items count s list
    rw [outcome_slots_eq_ok_iff, outcome_slots_eq_ok_iff, list]
    exact slotsRead_append_nulls

/-- A ninth value is told of before a value that is no field element. -/
example : (slots .tagged
      ⟨.root, .list (.bool true :: List.replicate 7 .null ++ [.num "1"])⟩).outcome
    = .error ⟨.root, .tooManySlots 9 8⟩ := rfl

end Node

end ZkCommand
