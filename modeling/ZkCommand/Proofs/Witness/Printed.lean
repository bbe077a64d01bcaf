import ZkCommand.Proofs.Json.Printed
import ZkCommand.Proofs.Witness.Compare
import ZkCommand.Proofs.Witness.Reference

/-!
# ZkCommand.Proofs.Witness.Printed

**Printed primitives are a reference.** A list of primitives as they are displayed is read back as
these primitives, and so it is with any of the numbers spelt in another way that references allow:
with the suffix of big integers, or between quotes. Each primitive is syntax of the relaxed grammar
that denotes a pair of components, so that neither reader has to be opened here.
-/

namespace ZkCommand.Witness

open Relaxed Relaxed.Grammar

/-! ### Spellings -/

/-- A number with or without the suffix of big integers. -/
def suffixed (suffix : Bool) (n : Nat) : String :=
  Decimal.text n ++ (if suffix then "n" else "")

/-- A way to write a number in a reference. -/
inductive Spelling
  | bare (suffix : Bool)
  | quoted (delimiter : Char) (isQuote : delimiter = '"' ∨ delimiter = '\'') (suffix : Bool)

/-- The text of a number. -/
def Spelling.text (n : Nat) : Spelling → String
  | .bare suffix => suffixed suffix n
  | .quoted delimiter _ suffix =>
      String.singleton delimiter ++ suffixed suffix n ++ String.singleton delimiter

/-- A primitive with the spellings of its two numbers. Its width is a number of 32 bits. -/
structure Written where
  primitive : Primitive
  narrow : primitive.width < 2 ^ 32
  value : Spelling
  width : Spelling

/-- The text of a primitive. -/
def Written.text (w : Written) : String :=
  "[" ++ w.value.text w.primitive.value ++ ", " ++ w.width.text w.primitive.width ++ "]"

/-- The text of a reference: primitives between brackets, with commas between them. -/
def referenceText (ws : List Written) : String :=
  "[" ++ ",".intercalate (ws.map Written.text) ++ "]"

/-- The same primitive without suffixes and quotes. -/
def Written.plain (w : Written) : Written := { w with value := .bare false, width := .bare false }

/-- Without suffixes and quotes a primitive is written as it is displayed. -/
theorem Written.text_plain (w : Written) : w.plain.text = w.primitive.display := by
  simp [plain, text, Primitive.display, Spelling.text, suffixed]

theorem referenceText_plain (ws : List Written) :
    referenceText (ws.map Written.plain)
      = "[" ++ ",".intercalate ((ws.map Written.primitive).map Primitive.display) ++ "]" := by
  simp [referenceText, Function.comp_def, Written.text_plain]

/-! ### Syntax -/

/-- Characters that stand for themselves between quotes are pieces of a string. -/
theorem exists_pieces {delimiter : Char} {chars : List Char}
    (plain : ∀ c ∈ chars, 0x20 ≤ c.toNat ∧ c ≠ '\\' ∧ c ≠ delimiter) :
    ∃ pieces : List (Piece delimiter),
      pieces.flatMap Piece.source = chars ∧ pieces.map Piece.char = chars := by
  induction chars with
  | nil => exact ⟨[], rfl, rfl⟩
  | cons c rest ih =>
      obtain ⟨⟨printable, ordinary⟩, others⟩ := List.forall_mem_cons.mp plain
      obtain ⟨pieces, source, text⟩ := ih others
      refine ⟨.plain c printable ordinary :: pieces, ?_, ?_⟩
      · rw [List.flatMap_cons, source]
        rfl
      · rw [List.map_cons, text]
        rfl

/-- The characters of a number with or without the suffix. -/
theorem plain_of_mem_suffixed {suffix : Bool} {n : Nat} {c delimiter : Char}
    (isQuote : delimiter = '"' ∨ delimiter = '\'') (h : c ∈ (suffixed suffix n).toList) :
    0x20 ≤ c.toNat ∧ c ≠ '\\' ∧ c ≠ delimiter := by
  have digitOrSuffix : c.isDigit = true ∨ c = 'n' := by
    rw [suffixed, String.toList_append, Decimal.toList_text] at h
    rcases List.mem_append.mp h with digit | last
    · exact .inl (Decimal.isDigit_of_mem_write digit)
    · cases suffix
      · cases last
      · exact .inr (List.mem_singleton.mp last)
  rcases digitOrSuffix with digit | rfl
  · have range := Text.toNat_of_isDigit digit
    refine ⟨by omega, Text.ne_of_isDigit digit (by decide), ?_⟩
    rcases isQuote with rfl | rfl <;> exact Text.ne_of_isDigit digit (by decide)
  · rcases isQuote with rfl | rfl <;> decide

/-- A number between quotes is a component. -/
theorem component_suffixed (suffix : Bool) (n : Nat) :
    Component anyTimes (.str (suffixed suffix n)) n := by
  have component := @Component.string anyTimes _ (Decimal.isNumeral_write n)
    (if suffix then 1 else 0) trivial
  rw [Decimal.read_write] at component
  cases suffix <;> simpa [suffixed, Decimal.text] using component

theorem component_num (n : Nat) :
    Component anyTimes (.num (String.ofList (Decimal.write n))) n := by
  have component := @Component.number anyTimes (Decimal.text n)
  rw [Decimal.toList_text, Decimal.read_write] at component
  exact component (Decimal.isNumeral_write n)

/-- A number in any spelling is a value of the grammar that denotes a component. -/
theorem exists_component (n : Nat) (spelling : Spelling) :
    ∃ v : Value, v.source = (spelling.text n).toList ∧ Component anyTimes v.tree n ∧
      v.depth = 0 := by
  cases spelling with
  | bare suffix =>
      cases suffix with
      | false =>
          obtain ⟨source, kept⟩ := Json.source_of_integer (integerOf n)
          refine ⟨.number ⟨integerOf n, none, none⟩, ?_, ?_, rfl⟩
          · rw [Value.source, source]
            simp [Spelling.text, suffixed]
          · rw [Value.tree, kept]
            exact component_num n
      | true =>
          refine ⟨.big (integerOf n), ?_, component_num n, rfl⟩
          simp [Value.source, Spelling.text, suffixed]
  | quoted delimiter isQuote suffix =>
      have plain : ∀ c ∈ (suffixed suffix n).toList, 0x20 ≤ c.toNat ∧ c ≠ '\\' ∧ c ≠ delimiter :=
        fun c hc => plain_of_mem_suffixed isQuote hc
      obtain ⟨pieces, source, text⟩ := exists_pieces plain
      refine ⟨.string ⟨delimiter, isQuote, pieces⟩, ?_, ?_, rfl⟩
      · rw [Value.source, Quoted.source, source]
        simp [Spelling.text]
      · rw [Value.tree, Quoted.text, text, String.ofList_toList]
        exact component_suffixed suffix n

/-- A scalar holds no mapping. -/
theorem ordinary_of_flat {v : Value} (flat : v.depth = 0) : v.Ordinary := by
  cases v with
  | mapping entries => cases flat
  | list items => cases flat
  | _ => trivial

/-- A primitive in any spelling is a value of the grammar that denotes a pair. -/
theorem exists_pair (w : Written) :
    ∃ v : Value, v.source = w.text.toList ∧ Pair anyTimes v.tree w.primitive ∧ v.depth = 1 ∧
      v.Ordinary := by
  obtain ⟨value, source, hvalue, flat⟩ := exists_component w.primitive.value w.value
  obtain ⟨width, source', hwidth, flat'⟩ := exists_component w.primitive.width w.width
  refine ⟨.list (.more [] value [] (.last [.blank] width [] none)), ?_, ?_, ?_,
    ordinary_of_flat flat, ordinary_of_flat flat'⟩
  · simp [Value.source, Items.source, Gap.source, Filler.source, Filler.blank, trailingSource,
      Written.text, source, source']
  · exact .intro hvalue hwidth w.narrow
  · simp [Value.depth, Items.depth, flat, flat']

/-- Primitives with commas between them are items of the grammar that denote pairs. -/
theorem exists_pairs (w : Written) (ws : List Written) :
    ∃ items : Items, items.source = (",".intercalate ((w :: ws).map Written.text)).toList ∧
      List.Forall₂ (Pair anyTimes) items.trees ((w :: ws).map Written.primitive) ∧
      items.depth = 1 ∧ items.Ordinary := by
  -- The grammar ends a list with its last item, so the induction is on what follows the first one.
  induction ws generalizing w with
  | nil =>
      obtain ⟨v, source, pair, depth, ordinary⟩ := exists_pair w
      refine ⟨.last [] v [] none, ?_, .cons pair .nil, depth, ordinary⟩
      simp [Items.source, Gap.source, trailingSource, source]
  | cons u rest ih =>
      obtain ⟨v, source, pair, depth, ordinary⟩ := exists_pair w
      obtain ⟨items, sources, pairs, depths, ordinaries⟩ := ih u
      refine ⟨.more [] v [] items, ?_, .cons pair pairs, ?_, ordinary, ordinaries⟩
      · rw [List.map_cons, List.map_cons, String.intercalate_cons_cons, ← List.map_cons]
        simp [Items.source, Gap.source, source, sources]
      · simp [Items.depth, depth, depths]

/-! ### Reading -/

/-- The text of a reference is read as a list of pairs. -/
theorem readTree_referenceText (ws : List Written) :
    ∃ trees, readTree (referenceText ws) = .ok (.list trees) ∧
      List.Forall₂ (Pair anyTimes) trees (ws.map Written.primitive) := by
  cases ws with
  | nil =>
      have read := readTree_source ⟨[], .emptyList [], [], none, by simp⟩ (by decide) trivial
      exact ⟨[], read, .nil⟩
  | cons w ws =>
      obtain ⟨items, source, pairs, depth, ordinary⟩ := exists_pairs w ws
      have fits : (Value.list items).depth ≤ 127 := by
        rw [Value.depth, depth]
        decide
      have read := readTree_source ⟨[], .list items, [], none, by simp⟩ fits ordinary
      have source : referenceText (w :: ws) = String.ofList
          (Document.source ⟨[], .list items, [], none, by simp⟩) := by
        apply String.toList_injective
        simp [referenceText, source, Document.source, Gap.source, lastLineSource, Value.source]
      exact ⟨items.trees, source ▸ read, pairs⟩

theorem ofReference_referenceText (ws : List Written) :
    ∃ t, readTree (referenceText ws) = .ok t ∧
      ofReference t = .ok (ws.map Written.primitive) := by
  obtain ⟨trees, read, pairs⟩ := readTree_referenceText ws
  exact ⟨.list trees, read, ofReference_eq_ok_iff.mpr ⟨trees, rfl, pairs⟩⟩

/-- **Printed primitives are read back.** The displayed forms of any list of primitives between
brackets, with any of the numbers in another spelling, are read as relaxed notation and then as a
reference, which is the list itself, and the comparison with it is a match. -/
theorem ofReference_printed (ws : List Written) :
    referenceText (ws.map Written.plain)
      = "[" ++ ",".intercalate ((ws.map Written.primitive).map Primitive.display) ++ "]" ∧
    ∃ t, readTree (referenceText ws) = .ok t ∧
      ofReference t = .ok (ws.map Written.primitive) ∧
      (compare (ws.map Written.primitive) (ws.map Written.primitive)).isMatch = true := by
  refine ⟨referenceText_plain ws, ?_⟩
  obtain ⟨t, read, pairs⟩ := ofReference_referenceText ws
  exact ⟨t, read, pairs, isMatch_compare_iff.mpr rfl⟩

example : referenceText
    [⟨⟨5, 8⟩, by decide, .bare false, .bare false⟩,
      ⟨⟨300, 32⟩, by decide, .quoted '"' (.inl rfl) true, .bare true⟩]
    = "[[5, 8],[\"300n\", 32n]]" := by decide +kernel

end ZkCommand.Witness
