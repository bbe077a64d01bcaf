import ZkCommand.Edit
import ZkCommand.Proofs.Reading.Altered

/-!
# ZkCommand.Proofs.Edit

**Setting and removing a key.** Both are edits of a document that nothing but that key can tell
apart (`altered_of_edits`).
-/

namespace ZkCommand

namespace Tree

variable {key k name : String} {p q : List Segment} {t v : Tree} {es : List (String × Tree)}

/-- The entries with every value under a key changed. -/
def change (k : String) (f : Tree → Tree) (es : List (String × Tree)) : List (String × Tree) :=
  es.map fun e => if e.1 = k then (e.1, f e.2) else e

theorem find?_change_self (f : Tree → Tree) (h : find? k es = some v) :
    find? k (change k f es) = some (f v) := by
  induction es with
  | nil => cases h
  | cons e rest ih =>
      obtain ⟨name, value⟩ := e
      by_cases same : name = k
      · rw [find?, if_pos same] at h
        cases h
        rw [change, List.map_cons, if_pos same, find?, if_pos same]
      · rw [find?, if_neg same] at h
        rw [change, List.map_cons, if_neg same, find?, if_neg same]
        exact ih h

theorem find?_change_ne (h : name ≠ k) (f : Tree → Tree) (es : List (String × Tree)) :
    find? name (change k f es) = find? name es := by
  induction es with
  | nil => rfl
  | cons e rest ih =>
      obtain ⟨other, value⟩ := e
      rw [change, List.map_cons]
      by_cases same : other = k
      · have apart : other ≠ name := fun hk => h (hk ▸ same)
        rw [if_pos same, find?, if_neg apart, find?, if_neg apart]
        exact ih
      · rw [if_neg same, find?, find?]
        split
        · rfl
        · exact ih

theorem removeAt_key (nonempty : q ≠ []) (es : List (String × Tree)) :
    (Tree.map es).removeAt (.key k :: q) = .map (change k (fun child => child.removeAt q) es) := by
  cases q with
  | nil => exact absurd rfl nonempty
  | cons segment q => rfl

theorem removeAt_index (nonempty : q ≠ []) {items : List Tree} {i : Nat}
    (child : items[i]? = some v) :
    (Tree.list items).removeAt (.index i :: q) = .list (items.set i (v.removeAt q)) := by
  obtain ⟨bound, rfl⟩ := List.getElem?_eq_some_iff.mp child
  have modified : (Tree.list items).removeAt (.index i :: q)
      = .list (items.modify i fun child => child.removeAt q) := by
    cases q with
    | nil => exact absurd rfl nonempty
    | cons segment q => rfl
  rw [modified, List.modify_eq_set_getElem?, child]
  rfl

theorem setAt_key (child : find? k es = some v) (value : Tree) :
    (Tree.map es).setAt (.key k :: q) value = .map (insert k (v.setAt q value) es) := by
  rw [setAt, child]
  rfl

theorem setAt_index {items : List Tree} {i : Nat} (child : items[i]? = some v) (value : Tree) :
    (Tree.list items).setAt (.index i :: q) value = .list (items.set i (v.setAt q value)) := by
  obtain ⟨bound, rfl⟩ := List.getElem?_eq_some_iff.mp child
  rw [setAt, List.getD_eq_getElem?_getD, child]
  simp only [if_neg (Nat.ne_of_lt bound)]
  rfl

/-- What is found below a key is found in a mapping. -/
theorem exists_of_at?_key (h : t.at? (.key k :: p) = some v) :
    ∃ es child, t = .map es ∧ find? k es = some child ∧ child.at? p = some v := by
  rw [at?] at h
  obtain ⟨child, found, below⟩ := Option.bind_eq_some_iff.mp h
  cases t with
  | map es => exact ⟨es, child, rfl, found, below⟩
  | _ => cases found

/-- What is found below an index is found in a list. -/
theorem exists_of_at?_index {i : Nat} (h : t.at? (.index i :: p) = some v) :
    ∃ items child, t = .list items ∧ items[i]? = some child ∧ child.at? p = some v := by
  cases t with
  | list items =>
      rw [at?] at h
      obtain ⟨child, found, below⟩ := Option.bind_eq_some_iff.mp h
      exact ⟨items, child, rfl, found, below⟩
  | _ => cases h

/-- **A key of a mapping in a document, removed and set**: the mapping without the key and with its
new value are found at their place, and nothing else can be told apart. -/
theorem altered_of_edits (key : String) (h : t.at? p = some (.map es)) (value : Tree) :
    Altered key p (t.removeAt (p ++ [.key key])) (t.setAt (p ++ [.key key]) value) ∧
      (t.removeAt (p ++ [.key key])).at? p = some (.map (es.filter fun e => e.1 ≠ key)) ∧
      (t.setAt (p ++ [.key key]) value).at? p = some (.map (insert key value es)) := by
  induction p generalizing t with
  | nil =>
      cases h
      refine ⟨.here fun k other => ?_, rfl, rfl⟩
      rw [find?_filter_ne other, setAt, find?_insert_ne other]
  | cons segment p ih =>
      have nonempty : p ++ [.key key] ≠ [] := by simp
      cases segment with
      | key k =>
          obtain ⟨entries, child, rfl, found, below⟩ := exists_of_at?_key h
          obtain ⟨altered, removed, set⟩ := ih below
          have changed := find?_change_self (fun child => child.removeAt (p ++ [.key key])) found
          have inserted := find?_insert_self k (child.setAt (p ++ [.key key]) value) entries
          rw [List.cons_append, removeAt_key nonempty, setAt_key found, at?_key changed,
            at?_key inserted]
          refine ⟨.under changed inserted (fun name other => ?_) altered, removed, set⟩
          rw [find?_change_ne other, find?_insert_ne other]
      | index i =>
          obtain ⟨items, child, rfl, found, below⟩ := exists_of_at?_index h
          obtain ⟨altered, removed, set⟩ := ih below
          have first := getElem?_set_of_some found (child.removeAt (p ++ [.key key]))
          have second := getElem?_set_of_some found (child.setAt (p ++ [.key key]) value)
          rw [List.cons_append, removeAt_index nonempty found, setAt_index found, at?_index first,
            at?_index second]
          have inside := Altered.inside first altered
          rw [List.set_set] at inside
          exact ⟨inside, removed, set⟩

end Tree

end ZkCommand
