import ZkCommand.Tree

/-!
# ZkCommand.Proofs.Tree

**Entries of mappings**: which value is found under a key, and what leaving out and setting a key
change about that.
-/

namespace ZkCommand.Tree

variable {key k : String} {v : Tree} {es : List (String × Tree)}

theorem mem_keys_iff : k ∈ es.map Prod.fst ↔ ∃ v, find? k es = some v := by
  induction es with
  | nil => simp [find?]
  | cons e rest ih =>
      obtain ⟨name, value⟩ := e
      by_cases same : name = k
      · simp [find?, same]
      · rw [List.map_cons, List.mem_cons, ih, find?, if_neg same]
        exact or_iff_right (Ne.symm same)

/-! ### Leaving out a key -/

theorem find?_filter_self (key : String) (es : List (String × Tree)) :
    find? key (es.filter fun e => e.1 ≠ key) = none := by
  induction es with
  | nil => rfl
  | cons e rest ih =>
      obtain ⟨name, value⟩ := e
      by_cases same : name = key
      · rw [List.filter_cons_of_neg (by simp [same]), ih]
      · rw [List.filter_cons_of_pos (by simp [same]), find?, if_neg same, ih]

theorem find?_filter_ne (h : k ≠ key) (es : List (String × Tree)) :
    find? k (es.filter fun e => e.1 ≠ key) = find? k es := by
  induction es with
  | nil => rfl
  | cons e rest ih =>
      obtain ⟨name, value⟩ := e
      by_cases hname : name = key
      · have other : name ≠ k := fun hk => h (hk ▸ hname)
        rw [List.filter_cons_of_neg (by simp [hname]), find?, if_neg other, ih]
      · rw [List.filter_cons_of_pos (by simp [hname]), find?, find?, ih]

/-! ### Setting a key -/

theorem find?_insert_self (k : String) (v : Tree) (es : List (String × Tree)) :
    find? k (insert k v es) = some v := by
  induction es with
  | nil => rw [insert, find?, if_pos rfl]
  | cons e rest ih =>
      obtain ⟨name, value⟩ := e
      by_cases hname : name = k
      · rw [insert, if_pos hname, find?, if_pos rfl]
      · rw [insert, if_neg hname, find?, if_neg hname, ih]

theorem find?_insert_ne {name : String} (h : name ≠ k) (v : Tree) (es : List (String × Tree)) :
    find? name (insert k v es) = find? name es := by
  induction es with
  | nil => simp [insert, find?, h.symm]
  | cons e rest ih =>
      obtain ⟨other, value⟩ := e
      by_cases hother : other = k
      · obtain rfl := hother
        rw [insert, if_pos rfl, find?, if_neg h.symm, find?, if_neg h.symm]
      · rw [insert, if_neg hother, find?, find?, ih]

theorem insert_ne_nil (k : String) (v : Tree) (es : List (String × Tree)) : insert k v es ≠ [] := by
  cases es with
  | nil => simp [insert]
  | cons e rest =>
      obtain ⟨name, value⟩ := e
      rw [insert]
      split <;> simp

/-- A key that is there keeps its place when it is set. -/
theorem keys_insert (h : find? k es = some v) (value : Tree) :
    (insert k value es).map Prod.fst = es.map Prod.fst := by
  induction es with
  | nil => cases h
  | cons e rest ih =>
      obtain ⟨name, old⟩ := e
      by_cases same : name = k
      · rw [insert, if_pos same, List.map_cons, List.map_cons, same]
      · rw [find?, if_neg same] at h
        rw [insert, if_neg same, List.map_cons, List.map_cons, ih h]

theorem insert_of_find? (found : find? key es = some v) : insert key v es = es := by
  induction es with
  | nil => cases found
  | cons entry rest ih =>
      obtain ⟨name, value⟩ := entry
      rw [find?] at found
      rw [insert]
      by_cases same : name = key
      · rw [if_pos same] at found ⊢
        rw [same, Option.some.inj found]
      · rw [if_neg same] at found ⊢
        rw [ih found]

end ZkCommand.Tree
