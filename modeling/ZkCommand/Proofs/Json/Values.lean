import Mathlib.Data.List.Induction
import Mathlib.Data.List.Nodup
import Mathlib.Tactic.Tauto
import ZkCommand.Proofs.Json.Scalars
import ZkCommand.Proofs.Tree

/-!
# ZkCommand.Proofs.Json.Values

**Reading the values of a normalised text.** White space before a value is skipped, so each lemma
takes any amount of it. The induction is on the syntax of a value; a list or a mapping takes one
level of nesting, and what it holds has to fit in the others. A mapping is read as one if its first
key is not that of a number. `readTree_strict` says so of a whole text.
-/

namespace ZkCommand.Json

open Text Relaxed Relaxed.Grammar

/-! ### White space -/

/-- A text of white space only. -/
def AllSpace (sp : List Char) : Prop := ∀ c ∈ sp, isSpace c = true

theorem AllSpace.nil : AllSpace [] := fun _ hc => absurd hc List.not_mem_nil

theorem AllSpace.append {sp sp' : List Char} (h : AllSpace sp) (h' : AllSpace sp') :
    AllSpace (sp ++ sp') := by
  intro c hc
  rcases List.mem_append.mp hc with left | right
  · exact h c left
  · exact h' c right

theorem allSpace_filler (f : Filler) : AllSpace f.strict := by
  intro c hc
  cases f with
  | space d isSpace =>
      obtain rfl : c = d := List.mem_singleton.mp hc
      rcases isSpace with rfl | rfl | rfl | rfl <;> rfl
  | line body oneLine =>
      obtain rfl : c = '\n' := List.mem_singleton.mp hc
      rfl
  | block body unclosed =>
      obtain rfl : c = '\n' := of_decide_eq_true (List.mem_filter.mp hc).2
      rfl

theorem allSpace_gap (gap : Gap) : AllSpace gap.strict := by
  intro c hc
  obtain ⟨f, -, inFiller⟩ := List.mem_flatMap.mp hc
  exact allSpace_filler f c inFiller

theorem allSpace_trailing (trailing : Option Gap) : AllSpace (trailingStrict trailing) := by
  cases trailing with
  | none => exact AllSpace.nil
  | some gap => exact allSpace_gap gap

theorem skipSpace_append {sp : List Char} (spaces : AllSpace sp) {c : Char}
    (visible : isSpace c = false) (r : List Char) :
    ∃ short, skipSpace (sp ++ c :: r) = ⟨(), c :: r, short⟩ := by
  obtain ⟨-, left⟩ := takeWhile_append_of_head (s := c :: r) spaces visible
  have short : (c :: r).length < (sp ++ c :: r).length + 1 := by
    rw [List.length_append]
    omega
  refine ⟨short, ?_⟩
  unfold skipSpace
  congr

theorem length_lt_append_cons {s t : List Char} (h : s.length ≤ t.length) (sp : List Char)
    (c : Char) : s.length < (sp ++ c :: t).length := by
  rw [List.length_append, List.length_cons]
  omega

/-! ### Scalars -/

/-- The words of JSON, by their first letter, and their values. -/
def words : List (Char × List Char × Tree) :=
  [('n', ['u', 'l', 'l'], .null), ('t', ['r', 'u', 'e'], .bool true),
    ('f', ['a', 'l', 's', 'e'], .bool false)]

theorem word_cases {c : Char} {letters : List Char} {t : Tree} (word : (c, letters, t) ∈ words) :
    (c = 'n' ∧ letters = ['u', 'l', 'l'] ∧ t = .null) ∨
      (c = 't' ∧ letters = ['r', 'u', 'e'] ∧ t = .bool true) ∨
      (c = 'f' ∧ letters = ['a', 'l', 's', 'e'] ∧ t = .bool false) := by
  simpa [words] using word

theorem scalar_word {c : Char} {letters : List Char} {t : Tree} (word : (c, letters, t) ∈ words)
    (s : List Char) : Gives (scalar (c :: (letters ++ s))) t s := by
  have within : s.length < (c :: (letters ++ s)).length := by
    rw [List.length_cons, List.length_append]
    omega
  refine ⟨within, ?_⟩
  rcases word_cases word with ⟨rfl, rfl, rfl⟩ | ⟨rfl, rfl, rfl⟩ | ⟨rfl, rfl, rfl⟩ <;> rfl

theorem scalar_string {t body s : List Char} (h : Gives (quotedBody t) body s) :
    Gives (scalar ('"' :: t)) (.str (String.ofList body)) s := by
  obtain ⟨short, read⟩ := h
  refine ⟨Nat.lt_succ_of_lt short, ?_⟩
  show (quotedBody t >>= _) = _
  rw [read]
  rfl

theorem scalar_number {c : Char} {t kept s : List Char} (start : c.isDigit = true ∨ c = '-')
    (h : Gives (number (c :: t)) kept s) :
    Gives (scalar (c :: t)) (.num (String.ofList kept)) s := by
  have word : c ≠ 'n' ∧ c ≠ 't' ∧ c ≠ 'f' := by
    refine ⟨?_, ?_, ?_⟩ <;> rintro rfl <;> revert start <;> decide
  obtain ⟨short, read⟩ := h
  refine ⟨short, ?_⟩
  rw [scalar, if_neg word.1, if_neg word.2.1, if_neg word.2.2, if_pos start.symm, read]
  rfl

theorem isSpace_of_starts {c : Char} (start : c.isDigit = true ∨ c = '-') : isSpace c = false := by
  rcases start with digit | rfl
  · simp only [isSpace, Bool.or_eq_false_iff, decide_eq_false_iff_not]
    refine ⟨⟨⟨?_, ?_⟩, ?_⟩, ?_⟩ <;> rintro rfl <;> revert digit <;> decide
  · rfl

/-- The character opens neither a list nor a mapping. -/
def NoBracket (c : Char) : Prop := c ≠ '[' ∧ c ≠ '\x7b'

section
variable {inner : Option (Reader Tree)} {sp : List Char}

/-- A scalar is a value at every level. -/
theorem gives_scalar (spaces : AllSpace sp) {c : Char} (visible : isSpace c = false)
    (opens : NoBracket c) {t s : List Char} {a : Tree} (h : Gives (scalar (c :: t)) a s) :
    Gives (valueWith inner (sp ++ c :: t)) a s := by
  obtain ⟨_, skip⟩ := skipSpace_append spaces visible t
  obtain ⟨short, read⟩ := h
  refine ⟨length_lt_append_cons (Nat.le_of_lt_succ short) sp c, ?_⟩
  unfold valueWith
  simp only [skip]
  rw [if_neg opens.1, if_neg opens.2, read]
  rfl

theorem gives_word (spaces : AllSpace sp) {c : Char} {letters : List Char} {t : Tree}
    (word : (c, letters, t) ∈ words) (s : List Char) :
    Gives (valueWith inner (sp ++ c :: (letters ++ s))) t s := by
  have first : isSpace c = false ∧ NoBracket c := by
    rcases word_cases word with ⟨rfl, -⟩ | ⟨rfl, -⟩ | ⟨rfl, -⟩ <;> exact ⟨rfl, by decide, by decide⟩
  exact gives_scalar spaces first.1 first.2 (scalar_word word s)

theorem gives_str (spaces : AllSpace sp) {t body s : List Char} (h : Gives (quotedBody t) body s) :
    Gives (valueWith inner (sp ++ '"' :: t)) (.str (String.ofList body)) s :=
  gives_scalar spaces rfl ⟨by decide, by decide⟩ (scalar_string h)

theorem gives_num (spaces : AllSpace sp) {c : Char} {t kept s : List Char}
    (start : c.isDigit = true ∨ c = '-') (h : Gives (number (c :: t)) kept s) :
    Gives (valueWith inner (sp ++ c :: t)) (.num (String.ofList kept)) s := by
  have opens : NoBracket c := by
    constructor <;> rintro rfl <;> revert start <;> decide
  exact gives_scalar spaces (isSpace_of_starts start) opens (scalar_number start h)

end

/-! ### Lists -/

section
variable {item : Reader Tree} {sp : List Char}

theorem gives_moreItems_close (spaces : AllSpace sp) (s : List Char) :
    Gives (moreItems item (sp ++ ']' :: s)) [] s := by
  obtain ⟨short, skip⟩ := skipSpace_append spaces (c := ']') rfl s
  refine ⟨length_lt_append_cons (Nat.le_refl _) sp ']', ?_⟩
  rw [moreItems]
  simp only [skip]
  rfl

theorem gives_moreItems_comma (spaces : AllSpace sp) {sp' : List Char} (spaces' : AllSpace sp')
    {c : Char} (visible : isSpace c = false) (bracket : c ≠ ']') {t r s : List Char} {first : Tree}
    {others : List Tree} (h : Gives (item (sp' ++ c :: t)) first r)
    (h' : Gives (moreItems item r) others s) :
    Gives (moreItems item (sp ++ ',' :: (sp' ++ c :: t))) (first :: others) s := by
  obtain ⟨_, skip⟩ := skipSpace_append spaces (c := ',') rfl (sp' ++ c :: t)
  obtain ⟨_, skip'⟩ := skipSpace_append spaces' visible t
  obtain ⟨short, read⟩ := h
  obtain ⟨shorter, readOthers⟩ := h'
  refine ⟨length_lt_append_cons (Nat.le_of_lt (Nat.lt_trans shorter short)) sp ',', ?_⟩
  have goes : ¬ some c = some ']' := fun same => bracket (Option.some.inj same)
  rw [moreItems]
  simp only [skip, skip', List.head?_cons, if_neg goes]
  show (item (sp' ++ c :: t) >>= _) = _
  rw [read]
  show (moreItems item r >>= _) = _
  rw [readOthers]
  rfl

theorem gives_items_close (spaces : AllSpace sp) (s : List Char) :
    Gives (items item (sp ++ ']' :: s)) [] s := by
  obtain ⟨short, skip⟩ := skipSpace_append spaces (c := ']') rfl s
  refine ⟨length_lt_append_cons (Nat.le_refl _) sp ']', ?_⟩
  unfold items
  simp only [skip]
  rfl

theorem gives_items_first (spaces : AllSpace sp) {c : Char} (visible : isSpace c = false)
    (bracket : c ≠ ']') {t r s : List Char} {first : Tree} {others : List Tree}
    (h : Gives (item (c :: t)) first r) (h' : Gives (moreItems item r) others s) :
    Gives (items item (sp ++ c :: t)) (first :: others) s := by
  obtain ⟨_, skip⟩ := skipSpace_append spaces visible t
  obtain ⟨short, read⟩ := h
  obtain ⟨shorter, readOthers⟩ := h'
  have within : s.length ≤ t.length := Nat.le_of_lt_succ (Nat.lt_trans shorter short)
  refine ⟨length_lt_append_cons within sp c, ?_⟩
  unfold items
  simp only [skip, if_neg bracket]
  rw [read]
  show (moreItems item r >>= _) = _
  rw [readOthers]
  rfl

end

/-! ### Mappings -/

section
variable {item : Reader Tree} {sp : List Char}

/-- An entry is a string, a colon and a value. -/
theorem gives_entry_of_key (spaces : AllSpace sp) {r t s chars : List Char} {a : Tree}
    (key : Gives (quotedBody r) chars (sp ++ ':' :: t)) (h : Gives (item t) a s) :
    Gives (entry item ('"' :: r)) (String.ofList chars, a) s := by
  obtain ⟨within, readKey⟩ := key
  obtain ⟨short, skip⟩ := skipSpace_append spaces (c := ':') rfl t
  obtain ⟨shorter, read⟩ := h
  refine ⟨?_, ?_⟩
  · rw [List.length_append, List.length_cons] at within
    rw [List.length_cons]
    omega
  · rw [entry, if_pos rfl, readKey]
    simp only [bind, Except.bind, skip, if_true, read]

/-- An entry is read from its quoted key. -/
theorem gives_entry (key : Key) (spaces : AllSpace sp) {t s : List Char} {a : Tree}
    (h : Gives (item t) a s) :
    Gives (entry item (key.strict ++ (sp ++ ':' :: t))) (key.text, a) s := by
  cases key with
  | name word =>
      have parts : ∀ c ∈ word.first :: word.rest, isWordPart c = true := by
        intro c hc
        rcases List.mem_cons.mp hc with rfl | inRest
        · have start := word.isStart
          simp only [isWordPart, Char.isAlphanum, Bool.or_eq_true, decide_eq_true_eq]
          tauto
        · simpa [isWordPart, or_assoc] using word.areParts c inRest
      have text : (Key.name word).strict ++ (sp ++ ':' :: t)
          = '"' :: (word.first :: word.rest ++ '"' :: (sp ++ ':' :: t)) := by
        simp [Key.strict]
      rw [text]
      exact gives_entry_of_key spaces (gives_quotedBody_name parts _) h
  | quoted q =>
      have text : (Key.quoted q).strict ++ (sp ++ ':' :: t)
          = '"' :: (q.pieces.flatMap Piece.strict ++ '"' :: (sp ++ ':' :: t)) := by
        simp [Key.strict, Quoted.strict]
      rw [text]
      exact gives_entry_of_key spaces (gives_quotedBody_pieces q.pieces _) h

/-- An entry starts with the quote of its key. -/
theorem key_strict_cons (key : Key) : ∃ r, key.strict = '"' :: r := by
  cases key with
  | name word => exact ⟨_, rfl⟩
  | quoted q => exact ⟨_, rfl⟩

theorem gives_moreEntries_close (spaces : AllSpace sp) (s : List Char) :
    Gives (moreEntries item (sp ++ '\x7d' :: s)) [] s := by
  obtain ⟨short, skip⟩ := skipSpace_append spaces (c := '\x7d') rfl s
  refine ⟨length_lt_append_cons (Nat.le_refl _) sp '\x7d', ?_⟩
  rw [moreEntries]
  simp only [skip]
  rfl

theorem gives_moreEntries_comma (spaces : AllSpace sp) {sp' : List Char} (spaces' : AllSpace sp')
    {t r s : List Char} {first : String × Tree} {others : List (String × Tree)}
    (h : Gives (entry item ('"' :: t)) first r) (h' : Gives (moreEntries item r) others s) :
    Gives (moreEntries item (sp ++ ',' :: (sp' ++ '"' :: t))) (first :: others) s := by
  obtain ⟨_, skip⟩ := skipSpace_append spaces (c := ',') rfl (sp' ++ '"' :: t)
  obtain ⟨_, skip'⟩ := skipSpace_append spaces' (c := '"') rfl t
  obtain ⟨short, read⟩ := h
  obtain ⟨shorter, readOthers⟩ := h'
  have within : s.length ≤ (sp' ++ '"' :: t).length :=
    Nat.le_of_lt (length_lt_append_cons (Nat.le_of_lt_succ (Nat.lt_trans shorter short)) sp' '"')
  refine ⟨length_lt_append_cons within sp ',', ?_⟩
  rw [moreEntries]
  simp only [skip]
  generalize skipSpace (sp' ++ '"' :: t) = skipped at skip' ⊢
  subst skip'
  show (entry item ('"' :: t) >>= _) = _
  rw [read]
  show (moreEntries item r >>= _) = _
  rw [readOthers]
  rfl

theorem gives_entries_close (spaces : AllSpace sp) (s : List Char) :
    Gives (entries item (sp ++ '\x7d' :: s)) [] s := by
  obtain ⟨short, skip⟩ := skipSpace_append spaces (c := '\x7d') rfl s
  refine ⟨length_lt_append_cons (Nat.le_refl _) sp '\x7d', ?_⟩
  unfold entries
  simp only [skip]
  rfl

theorem gives_entries_first (spaces : AllSpace sp) {t r s : List Char} {first : String × Tree}
    {others : List (String × Tree)} (h : Gives (entry item ('"' :: t)) first r)
    (h' : Gives (moreEntries item r) others s) :
    Gives (entries item (sp ++ '"' :: t)) (first :: others) s := by
  obtain ⟨_, skip⟩ := skipSpace_append spaces (c := '"') rfl t
  obtain ⟨short, read⟩ := h
  obtain ⟨shorter, readOthers⟩ := h'
  have within : s.length ≤ t.length := Nat.le_of_lt_succ (Nat.lt_trans shorter short)
  refine ⟨length_lt_append_cons within sp '"', ?_⟩
  unfold entries
  simp only [skip]
  show (entry item ('"' :: t) >>= _) = _
  rw [read]
  show (moreEntries item r >>= _) = _
  rw [readOthers]
  rfl

end

/-! ### Repeated keys -/

theorem eraseDups_concat (keys : List String) (key : String) :
    (keys ++ [key]).eraseDups = if key ∈ keys then keys.eraseDups else keys.eraseDups ++ [key] := by
  rw [List.eraseDups_append]
  split
  · rename_i repeated
    simp [List.removeAll, repeated]
  · rename_i fresh
    simp [List.removeAll, fresh, List.eraseDups_cons]

theorem nodup_eraseDups (keys : List String) : keys.eraseDups.Nodup := by
  induction keys using List.reverseRecOn with
  | nil => exact List.nodup_nil
  | append_singleton keys key ih =>
      rw [eraseDups_concat]
      split
      · exact ih
      · rename_i fresh
        refine List.nodup_append.mpr ⟨ih, List.nodup_singleton key, ?_⟩
        rintro a ha b hb rfl
        obtain rfl : a = key := List.mem_singleton.mp hb
        exact fresh (List.mem_eraseDups.mp ha)

/-- The entries of keys whose values are known. -/
def entriesOf (f : String → Option Tree) (keys : List String) : List (String × Tree) :=
  keys.filterMap fun key => (f key).map fun v => (key, v)

theorem entriesOf_congr {f g : String → Option Tree} {keys : List String}
    (h : ∀ key ∈ keys, f key = g key) : entriesOf f keys = entriesOf g keys := by
  refine List.filterMap_congr fun key inKeys => ?_
  rw [h key inKeys]

/-- Setting a key that is there replaces its value, and setting another one adds it. -/
theorem insert_entriesOf {f g : String → Option Tree} {key : String} {v : Tree}
    {keys : List String} (distinct : keys.Nodup) (found : ∀ k ∈ keys, (f k).isSome)
    (others : ∀ k, k ≠ key → g k = f k) (set : g key = some v) :
    Tree.insert key v (entriesOf f keys)
      = entriesOf g (if key ∈ keys then keys else keys ++ [key]) := by
  induction keys with
  | nil => simp [entriesOf, Tree.insert, set]
  | cons k rest ih =>
      obtain ⟨fresh, distinct⟩ := List.nodup_cons.mp distinct
      obtain ⟨u, value⟩ := Option.isSome_iff_exists.mp (found k List.mem_cons_self)
      have front : entriesOf f (k :: rest) = (k, u) :: entriesOf f rest := by
        simp [entriesOf, value]
      rw [front, Tree.insert]
      by_cases same : k = key
      · obtain rfl := same
        have unchanged : entriesOf f rest = entriesOf g rest :=
          entriesOf_congr fun name hname => (others name fun clash => fresh (clash ▸ hname)).symm
        rw [if_pos rfl, if_pos List.mem_cons_self, unchanged]
        simp [entriesOf, set]
      · have tail := ih distinct fun name hname => found name (List.mem_cons_of_mem k hname)
        have kept : g k = some u := (others k same).trans value
        rw [if_neg same, tail]
        by_cases later : key ∈ rest
        · rw [if_pos later, if_pos (List.mem_cons_of_mem k later)]
          simp [entriesOf, kept]
        · have absent : key ∉ k :: rest := by
            simp [later, Ne.symm same]
          rw [if_neg later, if_neg absent]
          simp [entriesOf, kept]

theorem mappingOf_eq (pairs : List (String × Tree)) :
    mappingOf pairs
      = entriesOf (fun key => Tree.find? key pairs.reverse) (pairs.map Prod.fst).eraseDups := rfl

/-- The entries read are the mapping that they denote. -/
theorem mapOfEntries_eq (pairs : List (String × Tree)) :
    mapOfEntries pairs = .map (mappingOf pairs) := by
  induction pairs using List.reverseRecOn with
  | nil => rfl
  | append_singleton pairs pair ih =>
      obtain ⟨key, v⟩ := pair
      have before : pairs.foldl (fun acc entry => Tree.insert entry.1 entry.2 acc) []
          = mappingOf pairs := Tree.map.inj ih
      have found : ∀ k ∈ (pairs.map Prod.fst).eraseDups,
          (Tree.find? k pairs.reverse).isSome := by
        intro k hk
        refine Option.isSome_iff_exists.mpr (Tree.mem_keys_iff.mp ?_)
        rw [List.map_reverse]
        exact List.mem_reverse.mpr (List.mem_eraseDups.mp hk)
      have others : ∀ k, k ≠ key →
          Tree.find? k ((key, v) :: pairs.reverse) = Tree.find? k pairs.reverse :=
        fun k other => if_neg other.symm
      have given : Tree.find? key ((key, v) :: pairs.reverse) = some v := if_pos rfl
      have set := insert_entriesOf (nodup_eraseDups _) found others given
      simp only [List.mem_eraseDups] at set
      rw [mapOfEntries, List.foldl_append, before]
      show Tree.map (Tree.insert key v (mappingOf pairs)) = _
      rw [mappingOf_eq, set, mappingOf_eq, List.map_append, List.reverse_append,
        ← eraseDups_concat]
      rfl

/-! ### Nesting -/

section
variable {item : Reader Tree} {sp : List Char}

theorem gives_list (spaces : AllSpace sp) {t s : List Char} {trees : List Tree}
    (h : Gives (items item t) trees s) :
    Gives (valueWith (some item) (sp ++ '[' :: t)) (.list trees) s := by
  obtain ⟨short, skip⟩ := skipSpace_append spaces (c := '[') rfl t
  obtain ⟨shorter, read⟩ := h
  refine ⟨length_lt_append_cons (Nat.le_of_lt shorter) sp '[', ?_⟩
  unfold valueWith
  simp only [skip]
  show (items item t >>= _) = _
  rw [read]
  rfl

theorem gives_map (spaces : AllSpace sp) {t s : List Char} {a : Tree}
    (h : Gives (mapping item t) a s) :
    Gives (valueWith (some item) (sp ++ '\x7b' :: t)) a s := by
  obtain ⟨short, skip⟩ := skipSpace_append spaces (c := '\x7b') rfl t
  obtain ⟨shorter, read⟩ := h
  refine ⟨length_lt_append_cons (Nat.le_of_lt shorter) sp '\x7b', ?_⟩
  unfold valueWith
  simp only [skip]
  show (mapping item t >>= _) = _
  rw [read]
  rfl

/-- The first key of a mapping decides whether it stands for a number. -/
theorem opensNumber_quote (spaces : AllSpace sp) {t body s : List Char}
    (key : Gives (quotedBody t) body s) :
    opensNumber (sp ++ '"' :: t) = decide (String.ofList body = numberKey) := by
  obtain ⟨_, skip⟩ := skipSpace_append spaces (c := '"') rfl t
  obtain ⟨_, read⟩ := key
  rw [opensNumber, skip]
  simp only [if_true, read]

theorem opensNumber_other (spaces : AllSpace sp) {c : Char} (visible : isSpace c = false)
    (other : c ≠ '"') (t : List Char) : opensNumber (sp ++ c :: t) = false := by
  obtain ⟨_, skip⟩ := skipSpace_append spaces visible t
  rw [opensNumber, skip]
  exact if_neg other

theorem gives_mapping {t s : List Char} {pairs : List (String × Tree)}
    (ordinary : opensNumber t = false) (h : Gives (entries item t) pairs s) :
    Gives (mapping item t) (mapOfEntries pairs) s := by
  obtain ⟨short, read⟩ := h
  refine ⟨short, ?_⟩
  unfold mapping
  rw [ordinary, if_neg Bool.false_ne_true, read]
  rfl

/-- An entry starts with its key. -/
theorem exists_key_of_entry {t s : List Char} {pair : String × Tree}
    (h : Gives (entry item ('"' :: t)) pair s) :
    ∃ body r, Gives (quotedBody t) body r ∧ String.ofList body = pair.1 := by
  obtain ⟨_, h⟩ := h
  obtain ⟨key, read, h⟩ := bind_eq_ok_iff.mp h
  refine ⟨key.value, key.rest, ⟨key.rest_lt, read⟩, ?_⟩
  split at h
  · cases h
  · split at h
    · obtain ⟨val, -, h⟩ := bind_eq_ok_iff.mp h
      cases h
      rfl
    · cases h

end

/-- A value has the same reader at every level but for what it holds. -/
theorem value_eq_valueWith (levels : Nat) : ∃ inner, value levels = valueWith inner := by
  cases levels with
  | zero => exact ⟨none, rfl⟩
  | succ n => exact ⟨some (value n), rfl⟩

theorem number_source_cons (n : Number) :
    ∃ c t, n.source = c :: t ∧ (c.isDigit = true ∨ c = '-') := by
  obtain ⟨c, run, text, -, start⟩ := n.whole.starts (t := []) fun _ => trivial
  rw [List.append_nil] at text
  refine ⟨c, run ++ (fractionSource n.fraction ++ (n.exponent.map Exponent.source).getD []), ?_,
    (start []).imp_right And.left⟩
  rw [Number.source, text, List.append_assoc, List.cons_append]

/-- An integer with a suffix is read as a number without fraction and exponent. -/
theorem source_of_integer (n : Integer) :
    Number.source ⟨n, none, none⟩ = n.source ∧ Number.kept ⟨n, none, none⟩ = n.source := by
  simp [Number.source, Number.kept, fractionSource]

theorem strict_cons (v : Value) :
    ∃ c t, v.strict = c :: t ∧ isSpace c = false ∧ c ≠ ']' := by
  have numeric : ∀ n : Number, ∃ c t, n.source = c :: t ∧ isSpace c = false ∧ c ≠ ']' := by
    intro n
    obtain ⟨c, t, text, start⟩ := number_source_cons n
    refine ⟨c, t, text, isSpace_of_starts start, ?_⟩
    intro same
    subst same
    revert start
    decide
  cases v with
  | null => exact ⟨'n', _, rfl, by decide⟩
  | undefined => exact ⟨'n', _, rfl, by decide⟩
  | bool b => cases b <;> exact ⟨_, _, rfl, by decide⟩
  | number n => exact numeric n
  | big n =>
      have whole := numeric ⟨n, none, none⟩
      rwa [(source_of_integer n).1] at whole
  | string q => exact ⟨'"', _, rfl, by decide⟩
  | emptyList inside => exact ⟨'[', _, rfl, by decide⟩
  | list items => exact ⟨'[', _, rfl, by decide⟩
  | emptyMapping inside => exact ⟨'\x7b', _, rfl, by decide⟩
  | mapping entries => exact ⟨'\x7b', _, rfl, by decide⟩

/-- The first pair of a mapping has its first key. -/
theorem key_of_head?_pairs {ens : Entries} {pair : String × Tree} (h : pair ∈ ens.pairs.head?) :
    pair.1 = ens.firstKey.text := by
  cases ens <;> exact congrArg Prod.fst (Option.some.inj h).symm

theorem gives_value_number (n : Number) (levels : Nat) {sp s : List Char} (spaces : AllSpace sp)
    (bounded : Bounded s) :
    Gives (value levels (sp ++ (n.source ++ s))) (.num (String.ofList n.kept)) s := by
  obtain ⟨inner, reader⟩ := value_eq_valueWith levels
  obtain ⟨c, t, text, start⟩ := number_source_cons n
  have read := gives_number n bounded
  rw [text, List.cons_append] at read
  rw [reader, text, List.cons_append]
  exact gives_num spaces start read

/-! ### Items and entries -/

/-- A text starts, after white space, with the first of some items, and the others follow. -/
def ItemsAhead (n : Nat) (text : List Char) (trees : List Tree) (s : List Char) : Prop :=
  ∃ sp c t r first others, text = sp ++ c :: t ∧ AllSpace sp ∧ isSpace c = false ∧ c ≠ ']' ∧
    (∀ sp', AllSpace sp' → Gives (value n (sp' ++ c :: t)) first r) ∧
    Gives (moreItems (value n) r) others s ∧ trees = first :: others

theorem ItemsAhead.items {n : Nat} {text s : List Char} {trees : List Tree}
    (h : ItemsAhead n text trees s) : Gives (items (value n) text) trees s := by
  obtain ⟨sp, c, t, r, first, others, rfl, spaces, visible, bracket, read, more, rfl⟩ := h
  exact gives_items_first spaces visible bracket (read [] AllSpace.nil) more

theorem ItemsAhead.moreItems {n : Nat} {text s : List Char} {trees : List Tree}
    (h : ItemsAhead n text trees s) {sp : List Char} (before : AllSpace sp) :
    Gives (moreItems (value n) (sp ++ ',' :: text)) trees s := by
  obtain ⟨sp', c, t, r, first, others, rfl, spaces, visible, bracket, read, more, rfl⟩ := h
  exact gives_moreItems_comma before spaces visible bracket (read sp' spaces) more

/-- A text starts, after white space, with the first of some entries, and the others follow. -/
def EntriesAhead (n : Nat) (text : List Char) (pairs : List (String × Tree)) (s : List Char) :
    Prop :=
  ∃ sp t r first others, text = sp ++ '"' :: t ∧ AllSpace sp ∧
    Gives (entry (value n) ('"' :: t)) first r ∧
    Gives (moreEntries (value n) r) others s ∧ pairs = first :: others

theorem EntriesAhead.entries {n : Nat} {text s : List Char} {pairs : List (String × Tree)}
    (h : EntriesAhead n text pairs s) : Gives (entries (value n) text) pairs s := by
  obtain ⟨sp, t, r, first, others, rfl, spaces, read, more, rfl⟩ := h
  exact gives_entries_first spaces read more

/-- The entries ahead are those of a mapping unless the first key is the one for a number. -/
theorem EntriesAhead.opensNumber {n : Nat} {text s : List Char} {pairs : List (String × Tree)}
    (h : EntriesAhead n text pairs s) (other : ∀ pair ∈ pairs.head?, pair.1 ≠ numberKey) :
    opensNumber text = false := by
  obtain ⟨sp, t, r, first, others, rfl, spaces, read, -, rfl⟩ := h
  obtain ⟨body, _, key, same⟩ := exists_key_of_entry read
  rw [opensNumber_quote spaces key, same]
  exact decide_eq_false (other first rfl)

theorem EntriesAhead.moreEntries {n : Nat} {text s : List Char} {pairs : List (String × Tree)}
    (h : EntriesAhead n text pairs s) {sp : List Char} (before : AllSpace sp) :
    Gives (moreEntries (value n) (sp ++ ',' :: text)) pairs s := by
  obtain ⟨sp', t, r, first, others, rfl, spaces, read, more, rfl⟩ := h
  exact gives_moreEntries_comma before spaces read more

/-- What follows the last item or entry is white space, up to the closing bracket or brace. -/
theorem allSpace_ending (after : Gap) (trailing : Option Gap) :
    AllSpace (after.strict ++ trailingStrict trailing) :=
  (allSpace_gap after).append (allSpace_trailing trailing)

/-- White space and a boundary end a number and a word. -/
theorem bounded_append {sp s : List Char} (spaces : AllSpace sp) (h : Bounded s) :
    Bounded (sp ++ s) := by
  cases sp with
  | nil => exact h
  | cons c rest =>
      have space : isSpace c = true := spaces c List.mem_cons_self
      refine Bounded.cons ?_ _
      simp only [isSpace, Bool.or_eq_true, decide_eq_true_eq] at space
      rcases space with ((rfl | rfl) | rfl) | rfl <;> rfl

/-! ### Values -/

mutual

/-- The JSON text of an ordinary value that fits in the levels left is read as its tree. -/
theorem gives_value (v : Value) (levels : Nat) {sp s : List Char} (fits : v.depth ≤ levels)
    (ordinary : v.Ordinary) (spaces : AllSpace sp) (bounded : Bounded s) :
    Gives (value levels (sp ++ (v.strict ++ s))) v.tree s := by
  obtain ⟨inner, reader⟩ := value_eq_valueWith levels
  cases v with
  | null =>
      rw [reader]
      exact gives_word spaces (c := 'n') List.mem_cons_self s
  | undefined =>
      rw [reader]
      exact gives_word spaces (c := 'n') List.mem_cons_self s
  | bool b =>
      rw [reader]
      cases b with
      | true => exact gives_word spaces (c := 't') (List.mem_cons_of_mem _ List.mem_cons_self) s
      | false =>
          exact gives_word spaces (c := 'f')
            (List.mem_cons_of_mem _ (List.mem_cons_of_mem _ List.mem_cons_self)) s
  | number n => exact gives_value_number n levels spaces bounded
  | big n =>
      have whole := gives_value_number ⟨n, none, none⟩ levels spaces bounded
      rwa [(source_of_integer n).1, (source_of_integer n).2] at whole
  | string q =>
      have body := gives_quotedBody_pieces q.pieces s
      have text : (Value.string q).strict ++ s
          = '"' :: (q.pieces.flatMap Piece.strict ++ '"' :: s) := by
        simp [Value.strict, Quoted.strict]
      rw [reader, text]
      exact gives_str spaces body
  -- A bracket or a brace takes one of the levels: it cannot be open when none is left.
  | emptyList inside =>
      cases levels with
      | zero => cases fits
      | succ n =>
          have closed : Gives (items (value n) (inside.strict ++ ']' :: s)) [] s :=
            gives_items_close (allSpace_gap inside) s
          have text : (Value.emptyList inside).strict ++ s
              = '[' :: (inside.strict ++ ']' :: s) := by
            simp [Value.strict]
          rw [text]
          exact gives_list spaces closed
  | list its =>
      cases levels with
      | zero => cases fits
      | succ n =>
          have read := (itemsAhead its (Nat.le_of_succ_le_succ fits) ordinary s).items
          have text : (Value.list its).strict ++ s = '[' :: (its.strict ++ ']' :: s) := by
            simp [Value.strict]
          rw [text]
          exact gives_list spaces read
  | emptyMapping inside =>
      cases levels with
      | zero => cases fits
      | succ n =>
          have closed : Gives (entries (value n) (inside.strict ++ '\x7d' :: s)) [] s :=
            gives_entries_close (allSpace_gap inside) s
          have text : (Value.emptyMapping inside).strict ++ s
              = '\x7b' :: (inside.strict ++ '\x7d' :: s) := by
            simp [Value.strict]
          have first := opensNumber_other (allSpace_gap inside) (c := '\x7d') rfl (by decide) s
          rw [text]
          exact gives_map spaces (gives_mapping first closed)
  | mapping ens =>
      cases levels with
      | zero => cases fits
      | succ n =>
          obtain ⟨other, ordinary⟩ := ordinary
          have ahead := entriesAhead ens (Nat.le_of_succ_le_succ fits) ordinary s
          have first := ahead.opensNumber fun pair hpair => key_of_head?_pairs hpair ▸ other
          have text : (Value.mapping ens).strict ++ s = '\x7b' :: (ens.strict ++ '\x7d' :: s) := by
            simp [Value.strict]
          rw [text, Value.tree, ← mapOfEntries_eq]
          exact gives_map spaces (gives_mapping first ahead.entries)

theorem itemsAhead (its : Items) {n : Nat} (fits : its.depth ≤ n) (ordinary : its.Ordinary)
    (s : List Char) : ItemsAhead n (its.strict ++ ']' :: s) its.trees s := by
  -- A value opens with no `]`, so that the reader of items does not stop before it.
  cases its with
  | last before v after trailing =>
      obtain ⟨c, t, text, visible, bracket⟩ := strict_cons v
      have ending := allSpace_ending after trailing
      have bounded := bounded_append ending (Bounded.cons (c := ']') rfl s)
      refine ⟨before.strict, c, t ++ (after.strict ++ trailingStrict trailing ++ ']' :: s), _,
        v.tree, [], ?_, allSpace_gap before, visible, bracket, ?_, gives_moreItems_close ending s,
        rfl⟩
      · simp [Items.strict, text]
      · intro sp spaces
        have read := gives_value v n fits ordinary spaces bounded
        rwa [text, List.cons_append] at read
  | more before v after rest =>
      obtain ⟨c, t, text, visible, bracket⟩ := strict_cons v
      obtain ⟨fitsFirst, fitsRest⟩ := Nat.max_le.mp fits
      have bounded := bounded_append (allSpace_gap after)
        (Bounded.cons (c := ',') rfl (rest.strict ++ ']' :: s))
      obtain ⟨ordinaryFirst, ordinaryRest⟩ := ordinary
      have others := (itemsAhead rest fitsRest ordinaryRest s).moreItems (allSpace_gap after)
      refine ⟨before.strict, c, t ++ (after.strict ++ ',' :: (rest.strict ++ ']' :: s)), _, v.tree,
        rest.trees, ?_, allSpace_gap before, visible, bracket, ?_, others, rfl⟩
      · simp [Items.strict, text]
      · intro sp spaces
        have read := gives_value v n fitsFirst ordinaryFirst spaces bounded
        rwa [text, List.cons_append] at read

theorem entriesAhead (ens : Entries) {n : Nat} (fits : ens.depth ≤ n) (ordinary : ens.Ordinary)
    (s : List Char) :
    EntriesAhead n (ens.strict ++ '\x7d' :: s) ens.pairs s := by
  cases ens with
  | last before key afterKey beforeValue v after trailing =>
      obtain ⟨t, text⟩ := key_strict_cons key
      have ending := allSpace_ending after trailing
      have bounded := bounded_append ending (Bounded.cons (c := '\x7d') rfl s)
      have read := gives_value v n fits ordinary (allSpace_gap beforeValue) bounded
      have first := gives_entry key (allSpace_gap afterKey) read
      rw [text, List.cons_append] at first
      refine ⟨before.strict, _, _, _, [], ?_, allSpace_gap before, first,
        gives_moreEntries_close ending s, rfl⟩
      simp [Entries.strict, text]
  | more before key afterKey beforeValue v after rest =>
      obtain ⟨t, text⟩ := key_strict_cons key
      obtain ⟨fitsFirst, fitsRest⟩ := Nat.max_le.mp fits
      have bounded := bounded_append (allSpace_gap after)
        (Bounded.cons (c := ',') rfl (rest.strict ++ '\x7d' :: s))
      obtain ⟨ordinaryFirst, ordinaryRest⟩ := ordinary
      have others := (entriesAhead rest fitsRest ordinaryRest s).moreEntries (allSpace_gap after)
      have read := gives_value v n fitsFirst ordinaryFirst (allSpace_gap beforeValue) bounded
      have first := gives_entry key (allSpace_gap afterKey) read
      rw [text, List.cons_append] at first
      refine ⟨before.strict, _, _, _, rest.pairs, ?_, allSpace_gap before, first, others, rfl⟩
      simp [Entries.strict, text]

end

/-! ### Documents -/

/-- **The JSON text of a document is read as the tree of its value.** -/
theorem readTree_strict (d : Document) (fits : d.value.depth ≤ maxLevels)
    (ordinary : d.value.Ordinary) : readTree d.strict = .ok d.value.tree := by
  have bounded : Bounded (d.after.strict ++ []) :=
    bounded_append (allSpace_gap d.after) fun c hc => (by cases hc)
  obtain ⟨short, read⟩ := gives_value d.value maxLevels fits ordinary (allSpace_gap d.before)
    bounded
  have rest : (skipSpace (d.after.strict ++ [])).rest = [] := by
    obtain ⟨-, left⟩ := takeWhile_append_of_head (s := []) (allSpace_gap d.after) rfl
    exact left
  have text : d.strict = d.before.strict ++ (d.value.strict ++ (d.after.strict ++ [])) := by
    simp [Document.strict]
  rw [readTree, text, read]
  simp only [bind, Except.bind]
  rw [rest]

end ZkCommand.Json
