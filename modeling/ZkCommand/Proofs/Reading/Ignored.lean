import ZkCommand.Proofs.Edit
import ZkCommand.Proofs.Reading.UnknownKeys

/-!
# ZkCommand.Proofs.Reading.Ignored

**Keys that a walk tells of and ignores.** A reading notes the unknown keys of some places, each
with its table (`nodes`). What it notices at a place are the keys there that are not in the tables
of that place, in order (`ignored_eventsOf`), whether or not what is read at the place is given:
what counts as missing has no keys. A key to which there is no step may have any value
(`walk_setAt`); where there is a table, these are the keys that the reading does not name
(`stepsAt_eq_nil_iff`).
-/

namespace ZkCommand

/-! ### Places of a schema -/

/-- A step to the same child of every element of a list, or to the child under a key. -/
inductive Part
  | key (name : String)
  | element
  deriving DecidableEq, Repr

/-- The step of a schema that a step of a document is an instance of. -/
def Segment.part : Segment → Part
  | .key name => .key name
  | .index _ => .element

/-- The key that an event tells of, if it tells of an unknown key at a place. -/
def Event.ignored? (p : List Segment) : Event → Option String
  | .unknownKey path key => if path.segments = p then some key else none
  | _ => none

/-- The keys at a place of a document that are not in a table, in order. -/
def Tree.keysOutside (known : List String) (t : Tree) (p : List Segment) : List String :=
  (t.at? p).elim [] (Tree.unknownKeys known)

theorem Tree.mem_keysOutside {known : List String} {t : Tree} {p : List Segment} {key : String} :
    key ∈ t.keysOutside known p ↔
      ∃ es old, t.at? p = some (.map es) ∧ find? key es = some old ∧ key ∉ known := by
  rw [keysOutside]
  cases place : t.at? p with
  | none => simp
  | some v =>
      cases v with
      | map es => simp [unknownKeys, mem_keys_iff]
      | _ => simp [unknownKeys]

/-- Distinct keys are told of once each. -/
theorem Tree.nodup_keysOutside {known : List String} {t : Tree} {p : List Segment}
    (distinct : ∀ es, t.at? p = some (.map es) → (es.map Prod.fst).Nodup) :
    (t.keysOutside known p).Nodup := by
  rw [keysOutside]
  cases place : t.at? p with
  | none => exact List.nodup_nil
  | some v =>
      cases v with
      | map es => exact (distinct es place).filter _
      | _ => exact List.nodup_nil

/-- A list of which one element is walked in the same way as before. -/
theorem Node.each_set {α : Type} {walk : Node → Walk α} {base : Path} {items : List Tree} {i : Nat}
    {v v' : Tree} (child : items[i]? = some v)
    (same : walk ⟨base.index i, v'⟩ = walk ⟨base.index i, v⟩) :
    (⟨base, .list (items.set i v')⟩ : Node).each walk = (⟨base, .list items⟩ : Node).each walk := by
  obtain ⟨bound, rfl⟩ := List.getElem?_eq_some_iff.mp child
  have walks : ((items.set i v').mapIdx fun i t => (⟨base.index i, t⟩ : Node)).map walk
      = (items.mapIdx fun i t => (⟨base.index i, t⟩ : Node)).map walk := by
    rw [List.mapIdx_set, List.map_set, same]
    refine List.ext_getElem? fun j => ?_
    by_cases here : i = j
    · obtain rfl := here
      simp [bound]
    · rw [List.getElem?_set_ne here]
  rw [each, each, items_list, items_list, pure_bind, pure_bind]
  have mapped (nodes : List Node) : nodes.mapM walk = (nodes.map walk).mapM id :=
    (List.mapM_map (f := walk) (g := id)).symm
  rw [mapped, walks, ← mapped]

namespace Reading

variable {α : Type}

/-- The places at which a reading notes unknown keys, with their tables. -/
def nodes {α : Type} : Reading α → List (List Part × List String)
  | .list item => item.nodes.map fun node => (.element :: node.1, node.2)
  | .note known => [([], known)]
  | .field _ key inner => inner.nodes.map fun node => (.key key :: node.1, node.2)
  | .seq first next => first.nodes ++ next.nodes
  | _ => []

/-- The tables by which a reading notes unknown keys at a place. -/
def tablesAt (r : Reading α) (p : List Segment) : List (List String) :=
  (r.nodes.filter fun node => node.1 = p.map Segment.part).map Prod.snd

theorem tablesAt_below (r : Reading α) (part : Part) (segment : Segment) (p : List Segment) :
    (((r.nodes.map fun node => (part :: node.1, node.2)).filter
        fun node => node.1 = (segment :: p).map Segment.part).map Prod.snd)
      = if segment.part = part then r.tablesAt p else [] := by
  rw [List.filter_map, List.map_map, tablesAt]
  split
  · rename_i same
    obtain rfl := same
    refine congrArg (List.map Prod.snd) (List.filter_congr fun node _ => ?_)
    simp
  · rename_i other
    rw [List.filter_eq_nil_iff.mpr]
    · rfl
    · intro node _
      simp [Ne.symm other]

@[simp] theorem tablesAt_list (item : Reading α) (segment : Segment) (p : List Segment) :
    (list item).tablesAt (segment :: p) = if segment.part = .element then item.tablesAt p else [] :=
  tablesAt_below item .element segment p

@[simp] theorem tablesAt_field (access : Access α) (key : String) (inner : Reading α)
    (segment : Segment) (p : List Segment) :
    (field access key inner).tablesAt (segment :: p)
      = if segment.part = .key key then inner.tablesAt p else [] :=
  tablesAt_below inner (.key key) segment p

@[simp] theorem tablesAt_seq {β : Type} (first : Reading α) (next : Reading (α → β))
    (p : List Segment) : (seq first next).tablesAt p = first.tablesAt p ++ next.tablesAt p := by
  rw [tablesAt, nodes, List.filter_append, List.map_append]
  rfl

theorem tablesAt_list_nil (item : Reading α) : (list item).tablesAt [] = [] := by
  simp [tablesAt, nodes, List.filter_map, Function.comp_def]

theorem tablesAt_field_nil (access : Access α) (key : String) (inner : Reading α) :
    (field access key inner).tablesAt [] = [] := by
  simp [tablesAt, nodes, List.filter_map, Function.comp_def]

/-- The table of a place is the first one by which its keys are noted. -/
theorem tableAt_eq_head? (r : Reading α) (p : List Segment) :
    r.tableAt p = (r.tablesAt p).head? := by
  induction r generalizing p with
  | list item ih =>
      rcases p with _ | ⟨name | i, p⟩
      · rw [tablesAt_list_nil]
        rfl
      · simp [Segment.part]
      · simp [Segment.part, ih]
  | note known => cases p <;> rfl
  | field access key inner ih =>
      rcases p with _ | ⟨name | i, p⟩
      · rw [tablesAt_field_nil]
        rfl
      · by_cases same : name = key <;> simp [Segment.part, ih, same]
      · simp [Segment.part]
  | seq first next ihf ihn => rw [tableAt, ihf, ihn, tablesAt_seq, List.head?_append]
  | _ => cases p <;> rfl

/-! ### What is noticed at a place -/

/-- What a reading notices is at its node or below it. -/
theorem prefix_of_unknownKey {r : Reading α} {base path : Path} {t : Tree} {key : String}
    (h : .unknownKey path key ∈ r.eventsOf base t) : base.segments <+: path.segments := by
  induction r generalizing base t with
  | leaf read => cases h
  | label fallback read =>
      rw [eventsOf] at h
      split at h
      · obtain ⟨text, -, same⟩ := Option.map_eq_some_iff.mp (Option.mem_toList.mp h)
        cases same
      · cases h
  | slots shape => cases h
  | list item ih =>
      cases t with
      | list items =>
          obtain ⟨events, member, h⟩ := List.mem_flatten.mp h
          obtain ⟨i, bound, rfl⟩ := List.mem_mapIdx.mp member
          exact (List.prefix_append _ _).trans (ih h)
      | _ => cases h
  | done value => cases h
  | note known =>
      obtain ⟨name, -, same⟩ := List.mem_map.mp h
      cases same
      exact List.prefix_rfl
  | field access name inner ih =>
      rw [eventsOf] at h
      split at h
      · exact (List.prefix_append _ _).trans (ih h)
      · cases access <;> simp [Access.missingEvents] at h
  | seq first next ihf ihn => exact (List.mem_append.mp h).elim ihf ihn

theorem ignored_eventsOf_apart {r : Reading α} {base : Path} {t : Tree} {p : List Segment}
    (apart : ¬ base.segments <+: p) : (r.eventsOf base t).filterMap (Event.ignored? p) = [] := by
  refine List.filterMap_eq_nil_iff.mpr fun event member => ?_
  cases event with
  | unknownKey path key =>
      refine if_neg ?_
      rintro rfl
      exact apart (prefix_of_unknownKey member)
  | _ => rfl

theorem flatten_mapIdx_eq {γ δ : Type} {f : Nat → γ → List δ} {i : Nat} (items : List γ)
    (others : ∀ j a, j ≠ i → f j a = []) :
    (items.mapIdx f).flatten = (items[i]?).elim [] (f i) := by
  induction items generalizing f i with
  | nil => rfl
  | cons a items ih =>
      rw [List.mapIdx_cons, List.flatten_cons]
      cases i with
      | zero =>
          have none : (items.mapIdx fun j => f (j + 1)).flatten = [] := by
            refine List.flatten_eq_nil_iff.mpr fun events member => ?_
            obtain ⟨j, -, rfl⟩ := List.mem_mapIdx.mp member
            exact others _ _ (Nat.succ_ne_zero j)
          rw [none, List.append_nil]
          rfl
      | succ i =>
          rw [others 0 a (Nat.succ_ne_zero i).symm, List.nil_append,
            ih fun j b other => others (j + 1) b fun same => other (Nat.succ.inj same)]
          rfl

theorem not_prefix_of_head {base : Path} {segment : Segment} {p : List Segment}
    (other : p.head? ≠ some segment) : ¬ base.segments ++ [segment] <+: base.segments ++ p := by
  intro cut
  obtain ⟨rest, rfl⟩ := (List.prefix_append_right_inj _).mp cut
  exact other rfl

/-- What counts as missing has no keys. -/
theorem keysOutside_of_not_counts {access : Access α} {v : Tree} (h : access.counts v = false)
    (known : List String) (p : List Segment) : v.keysOutside known p = [] := by
  have empty : v = .null ∨ v = .map [] := by
    by_cases null : v.isNull = true
    · cases v with
      | null => exact .inl rfl
      | _ => cases null
    · exact .inr (access.counts_eq_false (Bool.not_eq_true _ ▸ null) h).2
  rcases empty with rfl | rfl <;> rcases p with _ | ⟨name | i, p⟩ <;> rfl

theorem ignored_note (known : List String) (base : Path) (t : Tree) (p : List Segment) :
    ((note known).eventsOf base t).filterMap (Event.ignored? (base.segments ++ p))
      = ((note known).tablesAt p).flatMap fun known => t.keysOutside known p := by
  rw [eventsOf, List.filterMap_map]
  cases p with
  | nil =>
      have here : Event.ignored? (base.segments ++ []) ∘ Event.unknownKey base = some := by
        funext key
        exact if_pos (List.append_nil _).symm
      rw [here, List.filterMap_some]
      exact (List.append_nil _).symm
  | cons segment p =>
      refine List.filterMap_eq_nil_iff.mpr fun key _ => if_neg fun same => ?_
      simp at same

theorem missingEvents_ignored (access : Access α) (base : Path) (key : String)
    (p : List Segment) : (access.missingEvents base key).filterMap (Event.ignored? p) = [] := by
  cases access <;> rfl

theorem ignored_list_apart {item : Reading α} {base : Path} {t : Tree} {p : List Segment}
    (other : ∀ i, p.head? ≠ some (.index i)) :
    ((list item).eventsOf base t).filterMap (Event.ignored? (base.segments ++ p)) = [] := by
  cases t with
  | list items =>
      rw [eventsOf, List.filterMap_flatten, map_mapIdx]
      refine List.flatten_eq_nil_iff.mpr fun keys member => ?_
      obtain ⟨i, -, rfl⟩ := List.mem_mapIdx.mp member
      exact ignored_eventsOf_apart (not_prefix_of_head (other i))
  | _ => rfl

theorem ignored_field_apart {access : Access α} {key : String} {inner : Reading α} {base : Path}
    {t : Tree} {p : List Segment} (other : p.head? ≠ some (.key key)) :
    ((field access key inner).eventsOf base t).filterMap (Event.ignored? (base.segments ++ p))
      = [] := by
  rw [eventsOf]
  split
  · exact ignored_eventsOf_apart (not_prefix_of_head other)
  · exact missingEvents_ignored access base key _

section
variable {inner : Reading α}
  (ih : ∀ base t p, (inner.eventsOf base t).filterMap (Event.ignored? (base.segments ++ p))
    = (inner.tablesAt p).flatMap fun known => t.keysOutside known p)

include ih

/-- An element of a list tells of what is below it alone. -/
theorem ignored_element (base : Path) (t : Tree) (i : Nat) (p : List Segment) :
    ((list inner).eventsOf base t).filterMap (Event.ignored? (base.segments ++ .index i :: p))
      = (inner.tablesAt p).flatMap fun known => t.keysOutside known (.index i :: p) := by
  have nowhere (h : t.at? (.index i :: p) = none) :
      ((inner.tablesAt p).flatMap fun known => t.keysOutside known (.index i :: p)) = [] := by
    refine List.flatMap_eq_nil_iff.mpr fun known _ => ?_
    rw [Tree.keysOutside, h]
    rfl
  cases t with
  | list items =>
      have apart (j : Nat) (v : Tree) (other : j ≠ i) :
          (inner.eventsOf (base.index j) v).filterMap
            (Event.ignored? (base.segments ++ .index i :: p)) = [] := by
        refine ignored_eventsOf_apart (not_prefix_of_head ?_)
        simpa using Ne.symm other
      rw [eventsOf, List.filterMap_flatten, map_mapIdx, flatten_mapIdx_eq items apart]
      cases found : items[i]? with
      | none =>
          refine (nowhere ?_).symm
          rw [Tree.at?, found]
          rfl
      | some v =>
          have below := ih (base.index i) v p
          simp only [Path.index, List.append_assoc, List.singleton_append] at below
          refine below.trans (List.flatMap_congr fun known _ => ?_)
          rw [Tree.keysOutside, Tree.keysOutside, Tree.at?_index found]
  | _ => exact (nowhere rfl).symm

/-- A field tells of what is below its key, if that is given. -/
theorem ignored_child (access : Access α) (base : Path) (t : Tree) (key : String)
    (p : List Segment) :
    ((field access key inner).eventsOf base t).filterMap
        (Event.ignored? (base.segments ++ .key key :: p))
      = (inner.tablesAt p).flatMap fun known => t.keysOutside known (.key key :: p) := by
  rw [eventsOf]
  cases child : access.child? key t with
  | some v =>
      obtain ⟨found, -⟩ := Option.filter_eq_some_iff.mp child
      have below := ih (base.key key) v p
      simp only [Path.key, List.append_assoc, List.singleton_append] at below
      refine below.trans (List.flatMap_congr fun known _ => ?_)
      rw [Tree.keysOutside, Tree.keysOutside, Tree.at?, found]
      rfl
  | none =>
      rw [missingEvents_ignored]
      refine (List.flatMap_eq_nil_iff.mpr fun known _ => ?_).symm
      cases found : t.get? key with
      | none =>
          rw [Tree.keysOutside, Tree.at?, found]
          rfl
      | some v =>
          rw [Access.child?, found, Option.filter_some] at child
          have missing : access.counts v = false := by simpa using child
          have none := keysOutside_of_not_counts missing known p
          rw [Tree.keysOutside] at none ⊢
          rw [Tree.at?, found]
          exact none

end

/-- **What a reading notices at a place** are the keys there that are not in the tables of the
place. -/
theorem ignored_eventsOf (r : Reading α) (base : Path) (t : Tree) (p : List Segment) :
    (r.eventsOf base t).filterMap (Event.ignored? (base.segments ++ p))
      = (r.tablesAt p).flatMap fun known => t.keysOutside known p := by
  induction r generalizing base t p with
  | leaf read => rfl
  | label fallback read =>
      rw [eventsOf]
      cases read t with
      | error fault => rfl
      | ok result =>
          show List.filterMap _ (Option.toList _) = []
          cases result.unrecognised <;> rfl
  | slots shape => rfl
  | list item ih =>
      rcases p with _ | ⟨name | i, p⟩
      · rw [ignored_list_apart (by simp), tablesAt_list_nil]
        rfl
      · rw [ignored_list_apart (by simp), tablesAt_list, if_neg (by simp [Segment.part])]
        rfl
      · rw [ignored_element ih, tablesAt_list, if_pos (by rfl)]
  | done value => rfl
  | note known => exact ignored_note known base t p
  | field access key inner ih =>
      rcases p with _ | ⟨name | i, p⟩
      · rw [ignored_field_apart (by simp), tablesAt_field_nil]
        rfl
      · by_cases same : name = key
        · obtain rfl := same
          rw [ignored_child ih, tablesAt_field, if_pos (by rfl)]
        · have apart : Segment.part (.key name) ≠ .key key := by simpa [Segment.part] using same
          rw [ignored_field_apart (by simpa using same), tablesAt_field, if_neg apart]
          rfl
      · rw [ignored_field_apart (by simp), tablesAt_field, if_neg (by simp [Segment.part])]
        rfl
  | seq first next ihf ihn =>
      rw [eventsOf, List.filterMap_append, ihf, ihn, tablesAt_seq, List.flatMap_append]

/-! ### Keys that are not read -/

/-- The keys that a reading reads, each with the place of its mapping. -/
def reads {α : Type} : Reading α → List (List Part × String)
  | .list item => item.reads.map fun read => (.element :: read.1, read.2)
  | .field _ key inner => ([], key) :: inner.reads.map fun read => (.key key :: read.1, read.2)
  | .seq first next => first.reads ++ next.reads
  | _ => []

theorem joined_eq_nil_iff {steps later : Option (List Step)} :
    joined steps later = some [] ↔ steps = some [] ∧ later = some [] := by
  cases steps <;> cases later <;> simp [joined]

/-- **Where there is a table, the keys without a step are those that are not read.** -/
theorem stepsAt_eq_nil_iff {r : Reading α} {tables : List Segment → Option (List String)}
    {known : List String} {p : List Segment} (heeds : r.Heeds tables)
    (table : tables p = some known) (key : String) :
    r.stepsAt key p = some [] ↔ (p.map Segment.part, key) ∉ r.reads := by
  induction r generalizing tables p with
  | leaf read => cases (heeds p).symm.trans table
  | label fallback read => cases (heeds p).symm.trans table
  | slots shape => cases (heeds p).symm.trans table
  | list item ih =>
      rcases p with _ | ⟨name | i, p⟩
      · simp [reads]
      · simp [reads, Segment.part]
      · simp [reads, Segment.part, ih (heeds i) table]
  | done value => simp [reads]
  | note known => simp [reads]
  | field access name inner ih =>
      rcases p with _ | ⟨k | i, p⟩
      · by_cases same : name = key <;> simp [reads, same, Ne.symm]
      · by_cases same : k = name
        · obtain rfl := same
          simp [reads, Segment.part, ih heeds.2 table]
        · simp [reads, Segment.part, same, Ne.symm same]
      · simp [reads, Segment.part]
  | seq first next ihf ihn =>
      rw [stepsAt, joined_eq_nil_iff, ihf heeds.1 table, ihn heeds.2 table, reads, List.mem_append,
        not_or]

theorem counts_of_at? {access : Access α} {v old : Tree} {key : String} {p : List Segment}
    {es : List (String × Tree)} (place : v.at? p = some (.map es))
    (found : Tree.find? key es = some old) : access.counts v = true := by
  by_contra missing
  have none := keysOutside_of_not_counts (Bool.not_eq_true _ ▸ missing) [] p
  rw [Tree.keysOutside, place] at none
  obtain rfl : es = [] := by simpa [Tree.unknownKeys] using none
  cases found

/-- **A key without a step may have any value**: the walk tells of it all the same. -/
theorem walk_setAt {r : Reading α} {base : Path} {t old : Tree} {key : String} {p : List Segment}
    {es : List (String × Tree)} (unread : r.stepsAt key p = some [])
    (place : t.at? p = some (.map es)) (found : Tree.find? key es = some old) (value : Tree) :
    r.walk ⟨base, t.setAt (p ++ [.key key]) value⟩ = r.walk ⟨base, t⟩ := by
  -- By the reading, along the place: the document differs under the key of the mapping here, or
  -- below one child of it.
  induction r generalizing base t p with
  | leaf read => cases unread
  | label fallback read => cases unread
  | slots shape => cases unread
  | list item ih =>
      rcases p with _ | ⟨name | i, p⟩
      · cases place
        rfl
      · obtain ⟨entries, child, rfl, -, -⟩ := Tree.exists_of_at?_key place
        rfl
      · obtain ⟨items, child, rfl, inside, below⟩ := Tree.exists_of_at?_index place
        rw [List.cons_append, Tree.setAt_index inside]
        exact Node.each_set inside (ih unread below)
  | done value => rfl
  | note known =>
      have noted (entries : List (String × Tree)) {k : String} {v : Tree}
          (here : Tree.find? k entries = some v) (v' : Tree) :
          (⟨base, .map (Tree.insert k v' entries)⟩ : Node).noteUnknown known
            = (⟨base, .map entries⟩ : Node).noteUnknown known := by
        rw [Node.noteUnknown, Node.noteUnknown]
        simp only [Tree.keys_insert here]
      rcases p with _ | ⟨name | i, p⟩
      · cases place
        exact noted es found value
      · obtain ⟨entries, child, rfl, inside, below⟩ := Tree.exists_of_at?_key place
        rw [List.cons_append, Tree.setAt_key inside]
        exact noted entries inside _
      · obtain ⟨items, child, rfl, inside, below⟩ := Tree.exists_of_at?_index place
        rw [List.cons_append, Tree.setAt_index inside]
        rfl
  | field access name inner ih =>
      rcases p with _ | ⟨k | i, p⟩
      · cases place
        have other : name ≠ key := by
          rintro rfl
          rw [stepsAt, if_pos rfl] at unread
          cases unread
        exact Node.access_congr (Tree.find?_insert_ne other value es)
      · obtain ⟨entries, child, rfl, inside, below⟩ := Tree.exists_of_at?_key place
        rw [List.cons_append, Tree.setAt_key inside]
        by_cases same : k = name
        · obtain rfl := same
          rw [stepsAt, if_pos rfl] at unread
          obtain ⟨-, -, set⟩ := Tree.altered_of_edits key below value
          have given : access.counts child = true := counts_of_at? below found
          have given' : access.counts (child.setAt (p ++ [.key key]) value) = true :=
            counts_of_at? set (Tree.find?_insert_self key value es)
          rw [walk, walk, Node.access_map, Node.access_map, Access.child?_of_find? inside,
            Access.child?_of_find? (Tree.find?_insert_self k _ entries), given, given']
          exact ih unread below
        · exact Node.access_congr (Tree.find?_insert_ne (Ne.symm same) _ entries)
      · obtain ⟨items, child, rfl, inside, below⟩ := Tree.exists_of_at?_index place
        rw [List.cons_append, Tree.setAt_index inside]
        rfl
  | seq first next ihf ihn =>
      obtain ⟨before, after, atFirst, atNext, none⟩ := joined_eq_some unread
      obtain ⟨rfl, rfl⟩ := List.append_eq_nil_iff.mp none.symm
      rw [walk, walk, ihf atFirst place, ihn atNext place]

end Reading

end ZkCommand
