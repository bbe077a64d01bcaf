import ZkCommand.Json.Printer
import ZkCommand.Proofs.Decimal
import ZkCommand.Proofs.Relaxed.Reading

/-!
# ZkCommand.Proofs.Json.Printed

**A printed tree is read back.** Both ways of printing are layouts of the same text: they differ in
the gaps before items and after colons. What a layout prints is the text of syntax of the relaxed
grammar that denotes the tree, so reading it needs no proof of its own. A tree for which this works
has numerals for numbers, no key twice in a mapping, and not the key of a number (`Plain`).
-/

namespace ZkCommand

open Relaxed Grammar

/-! ### Plain trees -/

namespace Tree

/-- A tree with numerals, distinct keys that are not the one of a number, and at most so many lists
and mappings around one another. -/
inductive Plain : Nat → Tree → Prop
  | null {levels : Nat} : Plain levels .null
  | bool {levels : Nat} (b : Bool) : Plain levels (.bool b)
  | numeral {levels : Nat} (n : Nat) : Plain levels (.num (Decimal.text n))
  | str {levels : Nat} (text : String) : Plain levels (.str text)
  | list {levels : Nat} {items : List Tree} (each : ∀ t ∈ items, Plain levels t) :
      Plain (levels + 1) (.list items)
  | map {levels : Nat} {entries : List (String × Tree)}
      (distinct : (Json.numberKey :: entries.map Prod.fst).Nodup)
      (each : ∀ entry ∈ entries, Plain levels entry.2) : Plain (levels + 1) (.map entries)

end Tree

/-! ### Layouts -/

/-- The gaps of a printed text: before each item and entry of a level and before the bracket or
brace that ends it, and after a colon. -/
structure Layout where
  breaks : Nat → Gap
  afterColon : Gap

namespace Layout

/-- No gaps at all. -/
def compact : Layout := ⟨fun _ => [], []⟩

/-- A line for each item and entry. -/
def pretty : Layout where
  breaks level := .lineBreak :: List.replicate (2 * level) .blank
  afterColon := [.blank]

mutual

/-- The text of a value at a level. -/
def chars (layout : Layout) (level : Nat) : Tree → List Char
  | .null => "null".toList
  | .bool b => Tree.boolWord b
  | .num literal => literal.toList
  | .str text => Tree.quote text
  | .list [] => ['[', ']']
  | .list (t :: rest) =>
      '[' :: ((layout.breaks (level + 1)).source ++ (layout.chars (level + 1) t
        ++ (layout.items (level + 1) rest ++ (layout.breaks level).source)) ++ [']'])
  | .map [] => ['\x7b', '\x7d']
  | .map ((k, t) :: rest) =>
      '\x7b' :: ((layout.breaks (level + 1)).source ++ (Tree.quote k ++ ':' ::
        (layout.afterColon.source ++ (layout.chars (level + 1) t
          ++ (layout.entries (level + 1) rest ++ (layout.breaks level).source)))) ++ ['\x7d'])

/-- The text of the items after the first. -/
def items (layout : Layout) (level : Nat) : List Tree → List Char
  | [] => []
  | t :: rest =>
      ',' :: ((layout.breaks level).source ++ (layout.chars level t ++ layout.items level rest))

/-- The text of the entries after the first. -/
def entries (layout : Layout) (level : Nat) : List (String × Tree) → List Char
  | [] => []
  | (k, t) :: rest =>
      ',' :: ((layout.breaks level).source ++ (Tree.quote k ++ ':' ::
        (layout.afterColon.source ++ (layout.chars level t ++ layout.entries level rest))))

end

mutual

/-- Compact text is the layout without gaps. -/
theorem chars_compact (level : Nat) : (t : Tree) → compact.chars level t = t.chars
  | .null => rfl
  | .bool _ => rfl
  | .num _ => rfl
  | .str _ => rfl
  | .list [] => rfl
  | .list (t :: rest) => by
      have others := items_compact (level + 1) rest t
      have first := chars_compact (level + 1) t
      show '[' :: ([] ++ (compact.chars (level + 1) t ++ (compact.items (level + 1) rest ++ []))
        ++ [']']) = _
      rw [first, List.append_nil, others]
      rfl
  | .map [] => rfl
  | .map ((k, t) :: rest) => by
      have others := entries_compact (level + 1) rest k t
      have first := chars_compact (level + 1) t
      show '\x7b' :: ([] ++ (Tree.quote k ++ ':' :: ([] ++ (compact.chars (level + 1) t
        ++ (compact.entries (level + 1) rest ++ [])))) ++ ['\x7d']) = _
      rw [first, List.append_nil, List.nil_append, List.nil_append, others]
      rfl

theorem items_compact (level : Nat) : (rest : List Tree) → (t : Tree) →
    t.chars ++ compact.items level rest = Tree.charsItems (t :: rest)
  | [], t => List.append_nil _
  | u :: rest, t => by
      have others := items_compact level rest u
      have first := chars_compact level u
      show t.chars ++ ',' :: ([] ++ (compact.chars level u ++ compact.items level rest)) = _
      rw [first, List.nil_append, others]
      rfl

theorem entries_compact (level : Nat) : (rest : List (String × Tree)) → (k : String) →
    (t : Tree) → Tree.quote k ++ ':' :: (t.chars ++ compact.entries level rest)
      = Tree.charsEntries ((k, t) :: rest)
  | [], k, t => by
      show Tree.quote k ++ ':' :: (t.chars ++ []) = _
      rw [List.append_nil]
      rfl
  | (k', u) :: rest, k, t => by
      have others := entries_compact level rest k' u
      have first := chars_compact level u
      show Tree.quote k ++ ':' :: (t.chars ++ ',' :: ([] ++ (Tree.quote k' ++ ':' ::
        ([] ++ (compact.chars level u ++ compact.entries level rest))))) = _
      rw [first, List.nil_append, List.nil_append, others]
      rfl

end

theorem source_blanks (n : Nat) :
    (List.replicate n Filler.blank).flatMap Filler.source = List.replicate n ' ' := by
  induction n with
  | zero => rfl
  | succ n ih =>
      rw [List.replicate_succ, List.flatMap_cons, ih]
      rfl

theorem source_breaks (level : Nat) : (pretty.breaks level).source = Tree.newline level :=
  congrArg (List.cons '\n') (source_blanks _)

mutual

/-- Indented text is the layout with a line for each item and entry. -/
theorem chars_pretty (level : Nat) : (t : Tree) → pretty.chars level t = Tree.prettyChars level t
  | .null => rfl
  | .bool _ => rfl
  | .num _ => rfl
  | .str _ => rfl
  | .list [] => rfl
  | .list (t :: rest) => by
      rw [chars, Tree.prettyChars, chars_pretty (level + 1) t, items_pretty (level + 1) rest,
        source_breaks, source_breaks]
      simp only [List.append_assoc]
  | .map [] => rfl
  | .map ((k, t) :: rest) => by
      rw [chars, Tree.prettyChars, chars_pretty (level + 1) t, entries_pretty (level + 1) rest,
        source_breaks, source_breaks]
      simp [pretty, Gap.source, Filler.source, Filler.blank]

theorem items_pretty (level : Nat) : (rest : List Tree) →
    pretty.items level rest = Tree.prettyItems level rest
  | [] => rfl
  | t :: rest => by
      rw [items, Tree.prettyItems, chars_pretty level t, items_pretty level rest, source_breaks,
        List.append_assoc]

theorem entries_pretty (level : Nat) : (rest : List (String × Tree)) →
    pretty.entries level rest = Tree.prettyEntries level rest
  | [] => rfl
  | (k, t) :: rest => by
      rw [entries, Tree.prettyEntries, chars_pretty level t, entries_pretty level rest,
        source_breaks]
      simp [pretty, Gap.source, Filler.source, Filler.blank]

end

end Layout

/-! ### Syntax of printed scalars -/

/-- The code of a character below the space, in small digits. -/
def codeOf (n : Nat) : Code :=
  let digit (d : Nat) : HexDigit := ⟨⟨d % 16, Nat.mod_lt d (by decide)⟩, false⟩
  ⟨digit (n / 4096), digit (n / 256), digit (n / 16), digit n⟩

theorem value_codeOf {n : Nat} (h : n < 0x20) : (codeOf n).value = n := by
  show ((n / 4096 % 16 * 16 + n / 256 % 16) * 16 + n / 16 % 16) * 16 + n % 16 = n
  omega

/-- Every character between quotes is printed as a piece of a string. -/
theorem exists_piece (c : Char) : ∃ p : Piece '"', p.source = Tree.quoteChar c ∧ p.char = c := by
  unfold Tree.quoteChar
  split_ifs with quote bare b t n f r control
  · exact ⟨.letter .quote, rfl, quote.symm⟩
  · exact ⟨.letter .backslash, rfl, bare.symm⟩
  · exact ⟨.letter .b, rfl, b.symm⟩
  · exact ⟨.letter .t, rfl, t.symm⟩
  · exact ⟨.letter .n, rfl, n.symm⟩
  · exact ⟨.letter .f, rfl, f.symm⟩
  · exact ⟨.letter .r, rfl, r.symm⟩
  -- The other controls are written as four hexadecimal digits.
  · have value := value_codeOf control
    refine ⟨.code (codeOf c.toNat) (Or.inl (by omega)), rfl, ?_⟩
    rw [Piece.char, value, Char.ofNat_toNat]
  · exact ⟨.plain c (Nat.le_of_not_lt control) ⟨bare, quote⟩, rfl, rfl⟩

/-- A printed text is a string of the grammar. -/
theorem exists_quoted (text : String) :
    ∃ q : Quoted, q.source = Tree.quote text ∧ q.text = text := by
  choose piece source char using exists_piece
  refine ⟨⟨'"', Or.inl rfl, text.toList.map piece⟩, ?_, ?_⟩
  · rw [Quoted.source, Tree.quote, List.flatMap_map]
    simp only [source]
  · rw [Quoted.text, List.map_map]
    have same : text.toList.map (Piece.char ∘ piece) = text.toList := by
      refine (List.map_congr_left fun c _ => char c).trans (List.map_id _)
    rw [same, String.ofList_toList]

/-- The numeral of a number as an integer of the grammar. -/
def integerOf (n : Nat) : Integer where
  negative := false
  digits := ⟨Decimal.write n, Decimal.write_ne_nil n, fun _ => Decimal.isDigit_of_mem_write⟩
  noLeadingZero := Decimal.eq_zero_of_head_write

@[simp] theorem source_integerOf (n : Nat) : (integerOf n).source = Decimal.write n := rfl

/-- A printed numeral is a number of the grammar. -/
theorem exists_number (n : Nat) :
    ∃ m : Number, m.source = (Decimal.text n).toList ∧ String.ofList m.kept = Decimal.text n := by
  obtain ⟨source, kept⟩ := Json.source_of_integer (integerOf n)
  refine ⟨⟨integerOf n, none, none⟩, ?_, ?_⟩
  · rw [source, source_integerOf, Decimal.toList_text]
  · rw [kept, source_integerOf]
    rfl

/-! ### Syntax of printed trees -/

theorem insert_of_absent {key : String} {v : Tree} {entries : List (String × Tree)}
    (h : key ∉ entries.map Prod.fst) : Tree.insert key v entries = entries ++ [(key, v)] := by
  induction entries with
  | nil => rfl
  | cons entry rest ih =>
      obtain ⟨k, u⟩ := entry
      rw [List.map_cons, List.mem_cons, not_or] at h
      obtain ⟨other, absent⟩ := h
      rw [Tree.insert, if_neg (Ne.symm other), ih absent]
      rfl

theorem foldl_insert_of_distinct (before : List (String × Tree)) {entries : List (String × Tree)}
    (distinct : ((before ++ entries).map Prod.fst).Nodup) :
    entries.foldl (fun acc entry => Tree.insert entry.1 entry.2 acc) before
      = before ++ entries := by
  induction entries generalizing before with
  | nil => rw [List.foldl_nil, List.append_nil]
  | cons entry rest ih =>
      have whole : before ++ entry :: rest = before ++ [entry] ++ rest := by simp
      have fresh : entry.1 ∉ before.map Prod.fst := by
        rw [List.map_append, List.nodup_append] at distinct
        exact fun hmem => distinct.2.2 _ hmem _ List.mem_cons_self rfl
      rw [List.foldl_cons, insert_of_absent fresh, whole]
      rw [whole] at distinct
      exact ih _ distinct

/-- Distinct keys keep all their entries. -/
theorem mappingOf_of_distinct {entries : List (String × Tree)}
    (distinct : (entries.map Prod.fst).Nodup) : mappingOf entries = entries := by
  have read := Json.mapOfEntries_eq entries
  have folded := foldl_insert_of_distinct [] distinct
  rw [Json.mapOfEntries, folded] at read
  exact (Tree.map.inj read).symm

section
variable {layout : Layout} {levels : Nat}

/-- A tree is printed at every level as an ordinary value of the grammar that denotes it. -/
def Layout.Prints (layout : Layout) (levels : Nat) (t : Tree) : Prop :=
  ∀ level, ∃ v : Value,
    v.source = layout.chars level t ∧ v.tree = t ∧ v.depth ≤ levels ∧ v.Ordinary

theorem exists_items {rest : List Tree} {t : Tree} (first : layout.Prints levels t)
    (others : ∀ u ∈ rest, layout.Prints levels u) (level : Nat) (after : Gap) :
    ∃ its : Items, its.trees = t :: rest ∧ its.depth ≤ levels ∧ its.Ordinary ∧
      its.source = (layout.breaks level).source ++
        (layout.chars level t ++ (layout.items level rest ++ after.source)) := by
  -- The first element is apart: each step down makes the next one the first of what is left.
  induction rest generalizing t with
  | nil =>
      obtain ⟨v, source, rfl, fits, ordinary⟩ := first level
      refine ⟨.last (layout.breaks level) v after none, rfl, fits, ordinary, ?_⟩
      simp [Items.source, Layout.items, trailingSource, source]
  | cons u rest ih =>
      obtain ⟨v, source, rfl, fits, ordinary⟩ := first level
      obtain ⟨its, trees, fitsRest, ordinaryRest, sourceRest⟩ :=
        ih (others u List.mem_cons_self) fun w hw => others w (List.mem_cons_of_mem u hw)
      refine ⟨.more (layout.breaks level) v [] its, ?_, Nat.max_le.mpr ⟨fits, fitsRest⟩,
        ⟨ordinary, ordinaryRest⟩, ?_⟩
      · rw [Items.trees, trees]
      · simp [Items.source, Layout.items, Gap.source, source, sourceRest]

theorem exists_entries {rest : List (String × Tree)} {k : String} {t : Tree}
    (first : layout.Prints levels t) (others : ∀ entry ∈ rest, layout.Prints levels entry.2)
    (level : Nat) (after : Gap) :
    ∃ ens : Entries, ens.pairs = (k, t) :: rest ∧ ens.depth ≤ levels ∧ ens.Ordinary ∧
      ens.source = (layout.breaks level).source ++ (Tree.quote k ++ ':' ::
        (layout.afterColon.source ++
          (layout.chars level t ++ (layout.entries level rest ++ after.source)))) := by
  induction rest generalizing k t with
  | nil =>
      obtain ⟨v, source, rfl, fits, ordinary⟩ := first level
      obtain ⟨q, key, rfl⟩ := exists_quoted k
      refine ⟨.last (layout.breaks level) (.quoted q) [] layout.afterColon v after none, rfl, fits,
        ordinary, ?_⟩
      simp [Entries.source, Layout.entries, trailingSource, Key.source, Gap.source, source, key]
  | cons entry rest ih =>
      obtain ⟨k', u⟩ := entry
      obtain ⟨v, source, rfl, fits, ordinary⟩ := first level
      obtain ⟨q, key, rfl⟩ := exists_quoted k
      obtain ⟨ens, pairs, fitsRest, ordinaryRest, sourceRest⟩ :=
        ih (k := k') (others _ List.mem_cons_self) fun w hw => others w (List.mem_cons_of_mem _ hw)
      refine ⟨.more (layout.breaks level) (.quoted q) [] layout.afterColon v [] ens, ?_,
        Nat.max_le.mpr ⟨fits, fitsRest⟩, ⟨ordinary, ordinaryRest⟩, ?_⟩
      · rw [Entries.pairs, pairs]
        rfl
      · simp [Entries.source, Layout.entries, Key.source, Gap.source, source, key, sourceRest]

/-- **A plain tree is printed as syntax that denotes it.** -/
theorem prints_of_plain (layout : Layout) {t : Tree} (h : t.Plain levels) :
    layout.Prints levels t := by
  induction h with
  | null => exact fun level => ⟨.null, rfl, rfl, Nat.zero_le _, trivial⟩
  | bool b =>
      intro level
      refine ⟨.bool b, ?_, rfl, Nat.zero_le _, trivial⟩
      cases b <;> rfl
  | numeral n =>
      intro level
      obtain ⟨m, source, kept⟩ := exists_number n
      exact ⟨.number m, source, congrArg Tree.num kept, Nat.zero_le _, trivial⟩
  | str text =>
      intro level
      obtain ⟨q, source, denoted⟩ := exists_quoted text
      exact ⟨.string q, source, congrArg Tree.str denoted, Nat.zero_le _, trivial⟩
  -- The elements stand one step further in, and the closing bracket stands where this one does.
  | @list levels items each ih =>
      intro level
      cases items with
      | nil => exact ⟨.emptyList [], rfl, rfl, Nat.succ_le_succ (Nat.zero_le _), trivial⟩
      | cons t rest =>
          obtain ⟨its, trees, fits, ordinary, source⟩ := exists_items (ih t List.mem_cons_self)
            (fun u hu => ih u (List.mem_cons_of_mem t hu)) (level + 1) (layout.breaks level)
          refine ⟨.list its, ?_, ?_, Nat.succ_le_succ fits, ordinary⟩
          · rw [Value.source, source, Layout.chars]
          · rw [Value.tree, trees]
  | @map levels entries distinct each ih =>
      intro level
      obtain ⟨other, distinct⟩ := List.nodup_cons.mp distinct
      cases entries with
      | nil => exact ⟨.emptyMapping [], rfl, rfl, Nat.succ_le_succ (Nat.zero_le _), trivial⟩
      | cons entry rest =>
          obtain ⟨k, t⟩ := entry
          obtain ⟨ens, pairs, fits, ordinary, source⟩ := exists_entries (k := k)
            (ih _ List.mem_cons_self) (fun u hu => ih u (List.mem_cons_of_mem _ hu)) (level + 1)
            (layout.breaks level)
          have first : ens.firstKey.text ≠ Json.numberKey := by
            rw [← Json.key_of_head?_pairs (congrArg List.head? pairs)]
            exact fun same => other (same ▸ List.mem_cons_self)
          refine ⟨.mapping ens, ?_, ?_, Nat.succ_le_succ fits, first, ordinary⟩
          · rw [Value.source, source, Layout.chars]
          · rw [Value.tree, pairs, mappingOf_of_distinct distinct]

end

/-! ### Reading printed text -/

theorem readTree_chars (layout : Layout) {t : Tree} (h : t.Plain 127) :
    readTree (String.ofList (layout.chars 0 t)) = .ok t := by
  obtain ⟨v, source, rfl, fits, ordinary⟩ := prints_of_plain layout h 0
  have read := readTree_source ⟨[], v, [], none, by simp⟩ fits ordinary
  simpa [Document.source, Gap.source, lastLineSource, source] using read

/-- **The compact text of a plain tree is read back as the tree.** -/
theorem readTree_compact {t : Tree} (h : t.Plain 127) : readTree t.compact = .ok t := by
  rw [Tree.compact, ← Layout.chars_compact 0 t]
  exact readTree_chars _ h

/-- **The indented text of a plain tree is read back as the tree.** -/
theorem readTree_pretty {t : Tree} (h : t.Plain 127) : readTree t.pretty = .ok t := by
  rw [Tree.pretty, ← Layout.chars_pretty 0 t]
  exact readTree_chars _ h

end ZkCommand
