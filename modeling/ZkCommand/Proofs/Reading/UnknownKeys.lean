import ZkCommand.Proofs.Reading.Altered

/-!
# ZkCommand.Proofs.Reading.UnknownKeys

**Keys that no step reads.** `EditedAt` relates two documents that differ in the entries of one key
at one place. If the place has a table and the key is not in it, then there is no step to that key
(`stepsAt_of_heeds`), so that the walks through the two documents differ in nothing but what they
tell of unknown keys (`quiet_walk_of_edit`).
-/

namespace ZkCommand

/-- Two documents that differ in the entries of a key in the mapping at a place, and nowhere else.
Either may have the key, with any value and anywhere among the other keys. -/
inductive Tree.EditedAt (key : String) : List Segment → Tree → Tree → Prop
  | here {es es' : List (String × Tree)}
      (same : es.filter (fun e => e.1 ≠ key) = es'.filter fun e => e.1 ≠ key) :
      EditedAt key [] (.map es) (.map es')
  | under {k : String} {p : List Segment} {es : List (String × Tree)} {v v' : Tree}
      (child : Tree.find? k es = some v) (edit : EditedAt key p v v') :
      EditedAt key (.key k :: p) (.map es) (.map (Tree.insert k v' es))
  | inside {i : Nat} {p : List Segment} {items : List Tree} {v v' : Tree}
      (child : items[i]? = some v) (edit : EditedAt key p v v') :
      EditedAt key (.index i :: p) (.list items) (.list (items.set i v'))

/-- The entries of other keys are found in both documents. -/
theorem Tree.EditedAt.altered {key : String} {p : List Segment} {t t' : Tree}
    (h : EditedAt key p t t') : Altered key p t t' := by
  induction h with
  | here same =>
      refine .here fun k other => ?_
      rw [← find?_filter_ne other, same, find?_filter_ne other]
  | @under k p es v v' child edit ih =>
      exact .under child (find?_insert_self k v' es)
        (fun name other => (find?_insert_ne other v' es).symm) ih
  | inside child edit ih => exact .inside child ih

/-! ### Tables of a reading -/

namespace Reading

/-- The table of keys at a place below a node. -/
@[simp] def tableAt {α : Type} : Reading α → List Segment → Option (List String)
  | .leaf _, _ => none
  | .label _ _, _ => none
  | .slots _, _ => none
  | .list _, [] => none
  | .list item, .index _ :: p => item.tableAt p
  | .list _, .key _ :: _ => none
  | .done _, _ => none
  | .note known, [] => some known
  | .note _, _ :: _ => none
  | .field _ _ _, [] => none
  | .field _ key inner, .key k :: p => if k = key then inner.tableAt p else none
  | .field _ _ _, .index _ :: _ => none
  | .seq first next, p => (first.tableAt p).or (next.tableAt p)

/-- Every key that is read at a place is in the table of that place, and no leaf is read where there
is a table. -/
@[simp] def Heeds {α : Type} : Reading α → (List Segment → Option (List String)) → Prop
  | .leaf _, tables => ∀ p, tables p = none
  | .label _ _, tables => ∀ p, tables p = none
  | .slots _, tables => ∀ p, tables p = none
  | .list item, tables => ∀ i, item.Heeds fun p => tables (.index i :: p)
  | .done _, _ => True
  | .note _, _ => True
  | .field _ key inner, tables =>
      (∃ known, tables [] = some known ∧ key ∈ known) ∧ inner.Heeds fun p => tables (.key key :: p)
  | .seq first next, tables => first.Heeds tables ∧ next.Heeds tables

/-- There is no step to a key that is not in the table of a place. -/
theorem stepsAt_of_heeds {α : Type} {r : Reading α} {tables : List Segment → Option (List String)}
    {key : String} {known : List String} {p : List Segment} (heeds : r.Heeds tables)
    (table : tables p = some known) (unknown : key ∉ known) : r.stepsAt key p = some [] := by
  induction r generalizing tables p with
  | leaf read => cases (heeds p).symm.trans table
  | label fallback read => cases (heeds p).symm.trans table
  | slots shape => cases (heeds p).symm.trans table
  | list item ih =>
      rcases p with _ | ⟨name | i, p⟩
      · rfl
      · rfl
      · exact ih (heeds i) table
  | done value => rfl
  | note known => rfl
  | field access name inner ih =>
      obtain ⟨⟨names, hnames, hmem⟩, below⟩ := heeds
      rcases p with _ | ⟨k | i, p⟩
      · have other : name ≠ key := by
          intro same
          subst same
          rw [table] at hnames
          exact unknown (Option.some.inj hnames ▸ hmem)
        rw [stepsAt, if_neg other]
      · rw [stepsAt]
        split
        · rename_i same
          obtain rfl := same
          exact ih below table
        · rfl
      · rfl
  | seq first next ihf ihn =>
      rw [stepsAt, ihf heeds.1 table, ihn heeds.2 table]
      rfl

/-- **What is not in the table of a place is not seen there**, except in whether a block is
empty. -/
theorem quiet_walk_of_edit {α : Type} (r : Reading α) {tables : List Segment → Option (List String)}
    {key : String} {known : List String} {p : List Segment} {t t' : Tree} (base : Path)
    (heeds : r.Heeds tables) (table : tables p = some known) (unknown : key ∉ known)
    (edit : Tree.EditedAt key p t t')
    (blocks : r.blockAt p = true → (t.at? p = some (.map []) ↔ t'.at? p = some (.map []))) :
    (r.walk ⟨base, t⟩).quiet = (r.walk ⟨base, t'⟩).quiet := by
  have steps := stepsAt_of_heeds heeds table unknown
  -- No event is replaced, whatever is told for one that is.
  have swaps : Walk.Swaps (.unknownKey base key) (.unknownKey base key) 0 (r.walk ⟨base, t⟩)
      (r.walk ⟨base, t'⟩) :=
    swaps_walk_of_altered r base steps edit.altered blocks (fun _ _ => rfl) nofun
  exact swaps.quiet_eq

end Reading

end ZkCommand
