import Mathlib.Data.List.Basic
import Mathlib.Data.List.Induction
import ZkCommand.Proofs.Decimal
import ZkCommand.Proofs.Witness.Grammar

/-!
# ZkCommand.Proofs.Witness.Values

**Values of tokens.** The value of a token is decoded for its type if and only if it is the text of
a value of the grammar for that type (`decode_eq_ok_iff`), and what that value denotes fits its
width (`Value.fits`). A list of bytes is the one value with a structure of its own: it is cut at
its commas, and the pieces are the entries with the white space around them.
-/

namespace ZkCommand.Witness

open Text Grammar

/-! ### White space at the ends of a text -/

/-- A text of white space only. -/
def AllBlank (s : List Char) : Prop := ∀ c ∈ s, isBlank c = true

/-- A text neither starts nor ends with white space. -/
def Trimmed (s : List Char) : Prop :=
  s.head?.any isBlank = false ∧ s.getLast?.any isBlank = false

theorem dropWhile_blank_append {gap s : List Char} (blank : AllBlank gap)
    (visible : s.head?.any isBlank = false) : (gap ++ s).dropWhile isBlank = s :=
  (takeWhile_append_of_head blank visible).2

theorem trim_of_allBlank {s : List Char} (h : AllBlank s) : trim s = [] := by
  rw [trim, List.dropWhile_eq_nil_iff.mpr h]
  rfl

theorem trim_append {before s after : List Char} (hb : AllBlank before) (hs : Trimmed s)
    (ha : AllBlank after) (some : s ≠ []) : trim (before ++ s ++ after) = s := by
  have front : (before ++ s ++ after).dropWhile isBlank = s ++ after := by
    rw [List.append_assoc]
    refine dropWhile_blank_append hb ?_
    rw [List.head?_append, Option.or_of_isSome (List.isSome_head?.mpr some)]
    exact hs.1
  have back : (s ++ after).reverse.dropWhile isBlank = s.reverse := by
    rw [List.reverse_append]
    refine dropWhile_blank_append (fun c hc => ha c (List.mem_reverse.mp hc)) ?_
    rw [List.head?_reverse]
    exact hs.2
  rw [trim, front, back, List.reverse_reverse]

/-- What trimming a text takes off is white space. -/
theorem exists_gaps_of_trim (s : List Char) :
    ∃ before after : Gap, s = before.chars ++ trim s ++ after.chars := by
  refine ⟨⟨s.takeWhile isBlank, fun c hc => List.mem_takeWhile_imp hc⟩,
    ⟨((s.dropWhile isBlank).reverse.takeWhile isBlank).reverse, fun c hc =>
      List.mem_takeWhile_imp (List.mem_reverse.mp hc)⟩, ?_⟩
  rw [trim, List.append_assoc, ← List.reverse_append, List.takeWhile_append_dropWhile,
    List.reverse_reverse, List.takeWhile_append_dropWhile]

/-- The digits of a numeral as a range of characters. -/
theorem inRanges_of_isDigit {c : Char} (h : c.isDigit = true) :
    inRanges [(0x30, 0x39)] c = true := by
  simpa [inRanges] using toNat_of_isDigit h

theorem isBlank_of_isDigit {c : Char} (h : c.isDigit = true) : isBlank c = false :=
  inRanges_of_disjoint (by decide) (inRanges_of_isDigit h)

theorem Grammar.Numeral.isDigit_of_mem {bound : Nat} (n : Numeral bound) {c : Char}
    (h : c ∈ n.digits) : c.isDigit = true :=
  (Decimal.isNumeral_iff.mp n.isNumeral).2 c h

theorem Grammar.Numeral.ne_nil {bound : Nat} (n : Numeral bound) : n.digits ≠ [] :=
  (Decimal.isNumeral_iff.mp n.isNumeral).1

theorem Grammar.Numeral.trimmed {bound : Nat} (n : Numeral bound) : Trimmed n.digits := by
  constructor
  · cases h : n.digits.head? with
    | none => rfl
    | some c => exact isBlank_of_isDigit (n.isDigit_of_mem (List.mem_of_mem_head? h))
  · cases h : n.digits.getLast? with
    | none => rfl
    | some c => exact isBlank_of_isDigit (n.isDigit_of_mem (List.mem_of_getLast? h))

/-! ### Cutting a list at its commas -/

theorem splitCommas_eq_splitOn (s : List Char) : splitCommas s = s.splitOn ',' := by
  induction s with
  | nil => rfl
  | cons c s ih =>
      rw [List.splitOn, List.splitOnP_cons_eq_if_modifyHead, ← List.splitOn, splitCommas, ih]
      simp only [beq_iff_eq]
      split
      · rfl
      · obtain ⟨part, parts, h⟩ := List.exists_cons_of_ne_nil (List.splitOn_ne_nil ',' s)
        rw [h, List.modifyHead_cons]

/-- The pieces between the commas of a list of bytes. -/
def Grammar.Entries.pieces : Entries → List (List Char)
  | .none inside => [inside.chars]
  | .some first others trailing =>
      (first :: others).map Entry.source ++ trailing.toList.map Gap.chars

theorem intercalate_cons (first : List Char) (others : List (List Char)) :
    [','].intercalate (first :: others) = first ++ others.flatMap (',' :: ·) := by
  induction others generalizing first with
  | nil => simp
  | cons next rest ih =>
      rw [List.intercalate_cons_cons, ih, List.flatMap_cons, List.append_assoc]
      rfl

theorem Grammar.Entries.source_eq_intercalate (entries : Entries) :
    entries.source = [','].intercalate entries.pieces := by
  cases entries with
  | none inside => simp [source, pieces]
  | some first others trailing =>
      rw [pieces, List.map_cons, List.cons_append, intercalate_cons, List.flatMap_append,
        List.flatMap_map, source, List.append_assoc]
      cases trailing <;> simp [trailingSource]

theorem comma_notMem_of_allBlank {s : List Char} (h : AllBlank s) : ',' ∉ s := fun hc =>
  absurd (h ',' hc) (by decide)

theorem Grammar.Entry.comma_notMem (e : Entry) : ',' ∉ e.source := by
  intro hc
  rw [source, List.append_assoc, List.mem_append, List.mem_append] at hc
  rcases hc with hc | hc | hc
  · exact comma_notMem_of_allBlank e.before.blank hc
  · exact absurd (e.byte.isDigit_of_mem hc) (by decide)
  · exact comma_notMem_of_allBlank e.after.blank hc

/-- A list of bytes is cut into its pieces. -/
theorem splitCommas_source (entries : Entries) : splitCommas entries.source = entries.pieces := by
  rw [splitCommas_eq_splitOn, entries.source_eq_intercalate]
  refine List.splitOn_intercalate ',' (fun piece hp => ?_) ?_
  · cases entries with
    | none inside =>
        obtain rfl := List.mem_singleton.mp hp
        exact comma_notMem_of_allBlank inside.blank
    | some first others trailing =>
        rcases List.mem_append.mp hp with hp | hp
        · obtain ⟨e, -, rfl⟩ := List.mem_map.mp hp
          exact e.comma_notMem
        · obtain ⟨gap, -, rfl⟩ := List.mem_map.mp hp
          exact comma_notMem_of_allBlank gap.blank
  · cases entries <;> simp [Entries.pieces]

/-! ### Lists of bytes -/

/-- The entries of a list. -/
def Grammar.Entries.list : Entries → List Entry
  | .none _ => []
  | .some first others _ => first :: others

theorem Grammar.Entries.bytes_eq_map (entries : Entries) :
    entries.bytes = entries.list.map fun e => e.byte.value := by
  cases entries <;> rfl

theorem Grammar.Entry.trim_source (e : Entry) : trim e.source = e.byte.digits :=
  trim_append e.before.blank e.byte.trimmed e.after.blank e.byte.ne_nil

/-- The last of some entries is not blank. -/
theorem getLast?_trim_sources_ne (es : List Entry) :
    ((es.map Entry.source).map trim).getLast? ≠ some [] := by
  intro last
  obtain ⟨piece, hp, empty⟩ := List.mem_map.mp (List.mem_of_getLast? last)
  obtain ⟨e, -, rfl⟩ := List.mem_map.mp hp
  exact e.byte.ne_nil (e.trim_source ▸ empty)

theorem byteEntries_source (entries : Entries) :
    byteEntries entries.source = (entries.list.map Entry.source).map trim := by
  rw [byteEntries, splitCommas_source]
  cases entries with
  | none inside => simp [Entries.pieces, Entries.list, trim_of_allBlank inside.blank]
  | some first others trailing =>
      cases trailing with
      | none =>
          rw [Entries.pieces, Option.toList_none, List.map_nil, List.append_nil]
          exact if_neg (getLast?_trim_sources_ne _)
      | some gap =>
          rw [Entries.pieces, Option.toList_some, List.map_singleton, List.map_append,
            List.map_singleton, trim_of_allBlank gap.blank]
          simp only [List.getLast?_concat, if_true, List.dropLast_concat, Entries.list]

theorem decodeByte_eq_ok_iff {offset : Nat} {piece : List Char} {b : Nat} :
    decodeByte offset (trim piece) = .ok b ↔ ∃ e : Entry, e.source = piece ∧ e.byte.value = b := by
  constructor
  · intro h
    rw [decodeByte] at h
    split at h
    · rename_i good
      obtain ⟨before, after, source⟩ := exists_gaps_of_trim piece
      exact ⟨⟨before, ⟨trim piece, good.1, good.2⟩, after⟩, source.symm, Except.ok.inj h⟩
    · cases h
  · rintro ⟨e, rfl, rfl⟩
    rw [e.trim_source, decodeByte, if_pos ⟨e.byte.isNumeral, e.byte.below⟩]
    rfl

theorem mapM_decodeByte_eq_ok_iff {offset : Nat} {pieces : List (List Char)} {bytes : List Nat} :
    (pieces.map trim).mapM (decodeByte offset) = .ok bytes ↔
      ∃ es : List Entry, es.map Entry.source = pieces ∧ (es.map fun e => e.byte.value) = bytes := by
  induction pieces generalizing bytes with
  | nil => simp [pure, Except.pure, eq_comm]
  | cons piece pieces ih =>
      rw [List.map_cons, List.mapM_cons, bind_eq_ok_iff]
      constructor
      · rintro ⟨b, hb, h⟩
        obtain ⟨others, hs, h⟩ := bind_eq_ok_iff.mp h
        obtain ⟨e, rfl, rfl⟩ := decodeByte_eq_ok_iff.mp hb
        obtain ⟨es, rfl, rfl⟩ := ih.mp hs
        exact ⟨e :: es, rfl, Except.ok.inj h⟩
      · rintro ⟨es, sources, rfl⟩
        obtain ⟨e, es, rfl, rfl, rfl⟩ := List.map_eq_cons_iff.mp sources
        exact ⟨e.byte.value, decodeByte_eq_ok_iff.mpr ⟨e, rfl, rfl⟩,
          bind_eq_ok_iff.mpr ⟨_, ih.mpr ⟨es, rfl, rfl⟩, rfl⟩⟩

/-- Entries before a blank piece are a list that ends in a comma, or no list if there are none. -/
theorem exists_entries_of_blank (es : List Entry) (gap : Gap) :
    ∃ entries : Entries, entries.pieces = es.map Entry.source ++ [gap.chars] ∧ entries.list = es :=
  match es with
  | [] => ⟨.none gap, rfl, rfl⟩
  | first :: others => ⟨.some first others (some gap), rfl, rfl⟩

theorem exists_entries_of_ne_nil {es : List Entry} (some : es ≠ []) :
    ∃ entries : Entries, entries.pieces = es.map Entry.source ∧ entries.list = es :=
  match es with
  | [] => absurd rfl some
  | first :: others => ⟨.some first others none, List.append_nil _, rfl⟩

/-- The entries of a text between brackets are bytes if and only if it is the text of a list. -/
theorem mapM_byteEntries_eq_ok_iff {offset : Nat} {inner : List Char} {bytes : List Nat} :
    (byteEntries inner).mapM (decodeByte offset) = .ok bytes ↔
      ∃ entries : Entries, entries.source = inner ∧ entries.bytes = bytes := by
  constructor
  · intro h
    suffices ∃ entries : Entries, entries.pieces = splitCommas inner ∧
        (entries.list.map fun e => e.byte.value) = bytes by
      obtain ⟨entries, cut, read⟩ := this
      refine ⟨entries, ?_, entries.bytes_eq_map.trans read⟩
      rw [entries.source_eq_intercalate, cut, splitCommas_eq_splitOn, List.intercalate_splitOn]
    have nonempty : splitCommas inner ≠ [] := by
      rw [splitCommas_eq_splitOn]
      exact List.splitOn_ne_nil _ _
    -- the last piece tells whether the list ends in a comma
    obtain ⟨init, last, cut⟩ := (List.eq_nil_or_concat (splitCommas inner)).resolve_left nonempty
    rw [List.concat_eq_append] at cut
    rw [byteEntries, cut, List.map_append, List.map_singleton] at h
    by_cases blank : trim last = []
    · obtain ⟨before, after, ends⟩ := exists_gaps_of_trim last
      have allBlank : AllBlank last := by
        rw [ends, blank, List.append_nil]
        exact fun c hc => (List.mem_append.mp hc).elim (before.blank c) (after.blank c)
      simp only [List.getLast?_concat, blank, if_true, List.dropLast_concat] at h
      obtain ⟨es, rfl, read⟩ := mapM_decodeByte_eq_ok_iff.mp h
      obtain ⟨entries, pieces, rfl⟩ := exists_entries_of_blank es ⟨last, allBlank⟩
      exact ⟨entries, pieces.trans cut.symm, read⟩
    · rw [List.getLast?_concat, if_neg fun same => blank (Option.some.inj same),
        ← List.map_singleton, ← List.map_append, ← cut] at h
      obtain ⟨es, sources, read⟩ := mapM_decodeByte_eq_ok_iff.mp h
      have entered : es ≠ [] := fun none => nonempty (by rw [← sources, none]; rfl)
      obtain ⟨entries, pieces, rfl⟩ := exists_entries_of_ne_nil entered
      exact ⟨entries, pieces.trans sources, read⟩
  · rintro ⟨entries, rfl, rfl⟩
    rw [byteEntries_source, mapM_decodeByte_eq_ok_iff]
    exact ⟨entries.list, rfl, entries.bytes_eq_map.symm⟩

/-! ### The number of a list of bytes -/

theorem bigEndian_concat (bytes : List Nat) (b : Nat) :
    bigEndian (bytes ++ [b]) = bigEndian bytes * 2 ^ 8 + b := by
  rw [bigEndian, List.foldl_append, bigEndian]
  rfl

theorem value_reverse_eq_bigEndian (bytes : List Nat) :
    Radix.value 256 bytes.reverse = bigEndian bytes := by
  rw [Radix.value_reverse, bigEndian]
  simp only [Nat.mul_comm 256]
  rfl

theorem bigEndian_lt {bytes : List Nat} (h : ∀ b ∈ bytes, b < 2 ^ 8) :
    bigEndian bytes < 2 ^ (8 * bytes.length) := by
  induction bytes using List.reverseRecOn with
  | nil => decide
  | append_singleton bytes b ih =>
      have front : bigEndian bytes < 2 ^ (8 * bytes.length) :=
        ih fun a ha => h a (List.mem_append_left _ ha)
      have last : b < 2 ^ 8 := h b (List.mem_append_right _ (List.mem_singleton_self b))
      have width : 8 * (bytes ++ [b]).length = 8 * bytes.length + 8 := by
        rw [List.length_append, List.length_singleton, Nat.mul_add]
      rw [bigEndian_concat, width, Nat.pow_add]
      omega

/-! ### Values -/

/-- **A value fits its width.** -/
theorem Grammar.Value.fits {tag : Tag} (v : Value tag) :
    v.primitive.value < 2 ^ v.primitive.width := by
  cases v with
  | yes word => exact Nat.one_lt_two
  | no word => exact Nat.zero_lt_two
  | word32 number => exact number.below
  | word64 number => exact number.below
  | bytes entries narrow =>
      refine bigEndian_lt fun b hb => ?_
      rw [entries.bytes_eq_map] at hb
      obtain ⟨e, -, rfl⟩ := List.mem_map.mp hb
      exact e.byte.below

theorem decodeBool_eq_ok_iff {text : List Char} {p : Primitive} :
    decodeBool text = .ok p ↔ ∃ v : Value .bool, v.source = text ∧ v.primitive = p := by
  constructor
  · intro h
    rw [decodeBool] at h
    split at h
    · rename_i spells
      exact ⟨.yes ⟨text, spells⟩, rfl, Except.ok.inj h⟩
    · split at h
      · rename_i spells
        exact ⟨.no ⟨text, spells⟩, rfl, Except.ok.inj h⟩
      · cases h
  · rintro ⟨v, rfl, rfl⟩
    cases v with
    | yes word => rw [Value.source, decodeBool, if_pos word.spells, Value.primitive]
    | no word =>
        rw [Value.source, decodeBool, word.spells, if_neg (by decide), if_pos rfl, Value.primitive]

theorem decodeUnsigned_eq_ok_iff {tag : Tag} {width : Nat} {text : List Char} {p : Primitive} :
    decodeUnsigned tag width text = .ok p ↔
      ∃ n : Numeral (2 ^ width), n.digits = text ∧ ⟨n.value, width⟩ = p := by
  rw [decodeUnsigned]
  constructor
  · intro h
    split at h
    · rename_i good
      exact ⟨⟨text, good.1, good.2⟩, rfl, Except.ok.inj h⟩
    · cases h
  · rintro ⟨n, rfl, rfl⟩
    rw [if_pos ⟨n.isNumeral, n.below⟩]
    rfl

theorem bracketed?_eq_some_iff {text inner : List Char} :
    bracketed? text = some inner ↔ text = '[' :: (inner ++ [']']) := by
  constructor
  · intro h
    unfold bracketed? at h
    split at h
    · rename_i s
      split at h
      · rename_i closed
        rw [← Option.some.inj h, List.dropLast_append_getLast? _ closed]
      · cases h
    · cases h
  · rintro rfl
    simp [bracketed?]

theorem decodeBytes_eq_ok_iff {offset : Nat} {text : List Char} {p : Primitive} :
    decodeBytes offset text = .ok p ↔ ∃ v : Value .bytes, v.source = text ∧ v.primitive = p := by
  constructor
  · intro h
    rw [decodeBytes] at h
    split at h
    · cases h
    · rename_i inner hi
      obtain ⟨bytes, read, h⟩ := bind_eq_ok_iff.mp h
      obtain ⟨entries, rfl, rfl⟩ := mapM_byteEntries_eq_ok_iff.mp read
      split at h
      · rename_i narrow
        refine ⟨.bytes entries narrow, (bracketed?_eq_some_iff.mp hi).symm, ?_⟩
        rw [← Except.ok.inj h, value_reverse_eq_bigEndian]
        rfl
      · cases h
  · rintro ⟨v, rfl, rfl⟩
    cases v with
    | bytes entries narrow =>
        rw [Value.source, decodeBytes, bracketed?_eq_some_iff.mpr rfl]
        refine bind_eq_ok_iff.mpr ⟨_, mapM_byteEntries_eq_ok_iff.mpr ⟨entries, rfl, rfl⟩, ?_⟩
        rw [value_reverse_eq_bigEndian]
        exact if_pos narrow

/-- **A value is decoded for a type if and only if it is the text of a value of that type.** -/
theorem decode_eq_ok_iff {offset : Nat} {tag : Tag} {text : List Char} {p : Primitive} :
    Token.decode offset ⟨tag, text⟩ = .ok p ↔
      ∃ v : Value tag, v.source = text ∧ v.primitive = p := by
  cases tag with
  | bool => exact decodeBool_eq_ok_iff
  | u32 =>
      refine decodeUnsigned_eq_ok_iff.trans ⟨?_, ?_⟩
      · rintro ⟨n, source, denotes⟩
        exact ⟨.word32 n, source, denotes⟩
      · rintro ⟨v, source, denotes⟩
        cases v with
        | word32 n => exact ⟨n, source, denotes⟩
  | u64 =>
      refine decodeUnsigned_eq_ok_iff.trans ⟨?_, ?_⟩
      · rintro ⟨n, source, denotes⟩
        exact ⟨.word64 n, source, denotes⟩
      · rintro ⟨v, source, denotes⟩
        cases v with
        | word64 n => exact ⟨n, source, denotes⟩
  | bytes => exact decodeBytes_eq_ok_iff

end ZkCommand.Witness
