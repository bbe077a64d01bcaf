import Mathlib
import ZkCommand.Proofs.Json.Consumed
import ZkCommand.Proofs.Relaxed.Reading

/-!
# ZkCommand.Proofs.Json.Spelled

**JSON is a part of relaxed notation.** Whatever the JSON reader takes off a text is spelled as a
value of the grammar of relaxed notation that normalising leaves alone: a value without comments,
names, suffixes and trailing commas, in double quotes. The rules for what stands at a front are
followed one by one, and each of them is a rule of the grammar; the trees are the same where no
mapping stands for a number. So normalising a JSON text changes nothing in it, and normalising twice
is normalising once.
-/

namespace ZkCommand.Json

open Text Relaxed Relaxed.Grammar

/-! ### Gaps -/

theorem exists_gap {sp : List Char} (spaces : AllSpace sp) :
    ∃ gap : Gap, gap.source = sp ∧ gap.strict = gap.source := by
  induction sp with
  | nil => exact ⟨[], rfl, rfl⟩
  | cons c sp ih =>
      have space : c = ' ' ∨ c = '\t' ∨ c = '\r' ∨ c = '\n' := by
        have visible := spaces c List.mem_cons_self
        simp only [isSpace, Bool.or_eq_true, decide_eq_true_eq] at visible
        tauto
      obtain ⟨gap, rfl, strict⟩ := ih fun d hd => spaces d (List.mem_cons_of_mem c hd)
      exact ⟨.space c space :: gap, rfl, congrArg (c :: ·) strict⟩

theorem Leads.exists_gap {s r : List Char} {c : Char} (h : Leads s c r) :
    ∃ gap : Gap, s = gap.source ++ c :: r ∧ gap.strict = gap.source := by
  obtain ⟨sp, spaces, -, rfl⟩ := h
  obtain ⟨gap, rfl, strict⟩ := Json.exists_gap spaces
  exact ⟨gap, rfl, strict⟩

/-! ### Values -/

/-- A value of the grammar is JSON as it stands, denotes a tree if it is ordinary, and fits so many
levels. -/
structure Spells (levels : Nat) (v : Value) (t : Tree) : Prop where
  strict : v.strict = v.source
  tree : v.Ordinary → v.tree = t
  fits : v.depth ≤ levels

/-- What stands at a front is spelled as a value behind a gap. -/
def SpelledBy (levels : Nat) (one : Front Tree) : Prop :=
  ∀ ⦃s rest : List Char⦄ ⦃t : Tree⦄, one s t rest → ∃ (gap : Gap) (v : Value),
    s = gap.source ++ (v.source ++ rest) ∧ gap.strict = gap.source ∧ Spells levels v t

/-- A key with its gaps and its colon, up to a value. -/
structure Label where
  before : Gap
  key : Quoted
  afterKey : Gap
  beforeValue : Gap

/-- The text of a label. -/
def Label.source (l : Label) : List Char :=
  l.before.source ++ l.key.source ++ l.afterKey.source ++ ':' :: l.beforeValue.source

/-- A label is JSON as it stands. -/
structure Label.Strict (l : Label) : Prop where
  before : l.before.strict = l.before.source
  key : l.key.strict = l.key.source
  afterKey : l.afterKey.strict = l.afterKey.source
  beforeValue : l.beforeValue.strict = l.beforeValue.source

theorem spelled_string {r body rest : List Char} (h : Gives (quotedBody r) body rest) :
    ∃ q : Quoted, '"' :: r = q.source ++ rest ∧ q.strict = q.source ∧
      q.text = String.ofList body := by
  obtain ⟨pieces, rfl, rfl, stricts⟩ := spelled_quotedBody h
  refine ⟨⟨'"', Or.inl rfl, pieces⟩, ?_, ?_, rfl⟩
  · simp [Quoted.source]
  · rw [Quoted.strict, Quoted.source, flatMap_strict stricts]

section Members
variable {levels : Nat} {one : Front Tree}

theorem spelled_moreItems (spelled : SpelledBy levels one) {mid rest : List Char}
    {others : List Tree} (h : Front.More ']' one mid others rest) {before : Gap} {v : Value}
    {t : Tree} (blank : before.strict = before.source) (spells : Spells levels v t) :
    ∃ its : Items, before.source ++ (v.source ++ mid) = its.source ++ ']' :: rest ∧
      its.strict = its.source ∧ (its.Ordinary → its.trees = t :: others) ∧
      its.depth ≤ levels := by
  induction h generalizing before v t with
  | close lead =>
      obtain ⟨after, rfl, blank'⟩ := lead.exists_gap
      refine ⟨.last before v after none, ?_, ?_, fun ordinary => ?_, spells.fits⟩
      · simp [Items.source, trailingSource]
      · simp [Items.source, Items.strict, trailingSource, trailingStrict, blank, blank',
          spells.strict]
      · rw [Items.trees, spells.tree ordinary]
  | comma lead member more ih =>
      obtain ⟨after, rfl, blank'⟩ := lead.exists_gap
      obtain ⟨gap, w, rfl, blank'', spells'⟩ := spelled member
      obtain ⟨its, text, strict, trees, fits⟩ := ih blank'' spells'
      refine ⟨.more before v after its, ?_, ?_, fun ordinary => ?_,
        Nat.max_le.mpr ⟨spells.fits, fits⟩⟩
      · simp [Items.source, text]
      · simp [Items.source, Items.strict, blank, blank', spells.strict, strict]
      · rw [Items.trees, spells.tree ordinary.1, trees ordinary.2]

theorem spelled_entry (spelled : SpelledBy levels one) {s rest : List Char}
    {entry : String × Tree} (h : Front.Led (Front.EntryAt one) s entry rest) :
    ∃ (l : Label) (v : Value), s = l.source ++ (v.source ++ rest) ∧ l.Strict ∧
      Spells levels v entry.2 ∧ l.key.text = entry.1 := by
  obtain ⟨c, r, lead, h⟩ := h
  obtain ⟨before, rfl, blank⟩ := lead.exists_gap
  cases h with
  | mk read colon value =>
      obtain ⟨q, key, strict, text⟩ := spelled_string read
      obtain ⟨afterKey, rfl, blank'⟩ := colon.exists_gap
      obtain ⟨beforeValue, v, rfl, blank'', spells⟩ := spelled value
      refine ⟨⟨before, q, afterKey, beforeValue⟩, v, ?_, ⟨blank, strict, blank', blank''⟩,
        spells, text⟩
      rw [key]
      simp [Label.source]

theorem spelled_moreEntries (spelled : SpelledBy levels one) {mid rest : List Char}
    {others : List (String × Tree)}
    (h : Front.More '\x7d' (Front.Led (Front.EntryAt one)) mid others rest) {l : Label} {v : Value}
    {t : Tree} (label : l.Strict) (spells : Spells levels v t) :
    ∃ ens : Entries, l.source ++ (v.source ++ mid) = ens.source ++ '\x7d' :: rest ∧
      ens.strict = ens.source ∧ ens.firstKey = .quoted l.key ∧
      (ens.Ordinary → ens.pairs = (l.key.text, t) :: others) ∧ ens.depth ≤ levels := by
  induction h generalizing l v t with
  | close lead =>
      obtain ⟨after, rfl, blank⟩ := lead.exists_gap
      refine ⟨.last l.before (.quoted l.key) l.afterKey l.beforeValue v after none, ?_, ?_, rfl,
        fun ordinary => ?_, spells.fits⟩
      · simp [Label.source, Entries.source, Key.source, trailingSource]
      · simp [Entries.source, Entries.strict, Key.source, Key.strict, trailingSource,
          trailingStrict, label.before, label.key, label.afterKey, label.beforeValue, blank,
          spells.strict]
      · rw [Entries.pairs, spells.tree ordinary, Key.text]
  | comma lead member more ih =>
      obtain ⟨after, rfl, blank⟩ := lead.exists_gap
      obtain ⟨l', w, rfl, label', spells', text⟩ := spelled_entry spelled member
      obtain ⟨ens, source, strict, -, pairs, fits⟩ := ih label' spells'
      refine ⟨.more l.before (.quoted l.key) l.afterKey l.beforeValue v after ens, ?_, ?_, rfl,
        fun ordinary => ?_, Nat.max_le.mpr ⟨spells.fits, fits⟩⟩
      · simp [Label.source, Entries.source, Key.source, ← source]
      · simp [Entries.source, Entries.strict, Key.source, Key.strict, label.before, label.key,
          label.afterKey, label.beforeValue, blank, spells.strict, strict]
      · rw [Entries.pairs, spells.tree ordinary.1, Key.text, pairs ordinary.2, text]

end Members

theorem spelled_scalar {levels : Nat} {c : Char} {r rest : List Char} {t : Tree}
    (h : Front.ScalarAt c r t rest) :
    ∃ v : Value, c :: r = v.source ++ rest ∧ Spells levels v t := by
  cases h with
  | word word text =>
      subst text
      simp only [words, List.mem_cons, Prod.mk.injEq, List.not_mem_nil, or_false] at word
      rcases word with ⟨rfl, rfl, rfl⟩ | ⟨rfl, rfl, rfl⟩ | ⟨rfl, rfl, rfl⟩
      · exact ⟨.null, rfl, rfl, fun _ => rfl, Nat.zero_le _⟩
      · exact ⟨.bool true, rfl, rfl, fun _ => rfl, Nat.zero_le _⟩
      · exact ⟨.bool false, rfl, rfl, fun _ => rfl, Nat.zero_le _⟩
  | number start read =>
      obtain ⟨n, source, rfl⟩ := spelled_number read
      exact ⟨.number n, source, rfl, fun _ => rfl, Nat.zero_le _⟩
  | string read =>
      obtain ⟨q, source, strict, text⟩ := spelled_string read
      exact ⟨.string q, source, strict, fun _ => congrArg Tree.str text, Nat.zero_le _⟩

theorem spelled_valueAt (levels : Nat) {inner : Option (Front Tree)} {c : Char}
    {r rest : List Char} {t : Tree}
    (deeper : ∀ one, inner = some one → ∃ below, levels = below + 1 ∧ SpelledBy below one)
    (h : Front.ValueAt inner c r t rest) :
    ∃ v : Value, c :: r = v.source ++ rest ∧ Spells levels v t := by
  cases h with
  | scalar scalar => exact spelled_scalar scalar
  | list level members =>
      obtain ⟨below, rfl, spelled⟩ := deeper _ level
      cases members with
      | empty lead =>
          obtain ⟨inside, rfl, blank⟩ := lead.exists_gap
          refine ⟨.emptyList inside, ?_, ?_, fun _ => rfl, Nat.succ_le_succ (Nat.zero_le _)⟩
          · simp [Value.source]
          · rw [Value.strict, Value.source, blank]
      | first member more =>
          obtain ⟨gap, v, rfl, blank, spells⟩ := spelled member
          obtain ⟨its, text, strict, trees, fits⟩ := spelled_moreItems spelled more blank spells
          refine ⟨.list its, ?_, ?_, fun ordinary => ?_, Nat.succ_le_succ fits⟩
          · simp [Value.source, text]
          · rw [Value.strict, Value.source, strict]
          · rw [Value.tree, trees ordinary]
  | mapping level members denotes =>
      obtain ⟨below, rfl, spelled⟩ := deeper _ level
      cases members with
      | empty lead =>
          obtain ⟨inside, rfl, blank⟩ := lead.exists_gap
          refine ⟨.emptyMapping inside, ?_, ?_, fun _ => ?_, Nat.succ_le_succ (Nat.zero_le _)⟩
          · simp [Value.source]
          · rw [Value.strict, Value.source, blank]
          · cases denotes
            rfl
      | first member more =>
          obtain ⟨l, v, rfl, label, spells, key⟩ := spelled_entry spelled member
          obtain ⟨ens, text, strict, firstKey, pairs, fits⟩ :=
            spelled_moreEntries spelled more label spells
          refine ⟨.mapping ens, ?_, ?_, fun ordinary => ?_, Nat.succ_le_succ fits⟩
          · simp [Value.source, text]
          · rw [Value.strict, Value.source, strict]
          · obtain ⟨other, ordinary⟩ := ordinary
            rw [firstKey, Key.text, key] at other
            cases denotes with
            | mapping => rw [Value.tree, pairs ordinary, key, mapOfEntries_eq]
            | number => exact absurd rfl other

/-- **What stands at the front of a JSON text is spelled as a value of the grammar.** -/
theorem spelled_value (levels : Nat) : SpelledBy levels (Front.Value levels) := by
  induction levels with
  | zero =>
      intro s rest t h
      obtain ⟨c, r, lead, h⟩ := h
      obtain ⟨gap, rfl, blank⟩ := lead.exists_gap
      obtain ⟨v, source, spells⟩ := spelled_valueAt 0 (fun _ none => by cases none) h
      exact ⟨gap, v, by rw [source], blank, spells⟩
  | succ levels ih =>
      intro s rest t h
      obtain ⟨c, r, lead, h⟩ := h
      obtain ⟨gap, rfl, blank⟩ := lead.exists_gap
      obtain ⟨v, source, spells⟩ := spelled_valueAt (levels + 1)
        (fun _ level => ⟨levels, rfl, Option.some.inj level ▸ ih⟩) h
      exact ⟨gap, v, by rw [source], blank, spells⟩

/-! ### Whole texts -/

/-- **The JSON reader accepts only documents that are JSON as they stand**, and reads them as their
trees if they are ordinary. -/
theorem exists_document {text : List Char} {t : Tree} (h : readTree text = .ok t) :
    ∃ d : Document, d.source = text ∧ d.strict = text ∧ d.value.depth ≤ maxLevels ∧
      (d.value.Ordinary → d.value.tree = t) := by
  obtain ⟨rest, front, spaces⟩ := readTree_eq_ok_iff.mp h
  obtain ⟨before, v, rfl, blank, spells⟩ := spelled_value maxLevels front
  obtain ⟨after, rfl, blank'⟩ := exists_gap spaces
  refine ⟨⟨before, v, after, none, by simp⟩, ?_, ?_, spells.fits, spells.tree⟩
  · simp [Document.source, lastLineSource]
  · simp [Document.strict, blank, blank', spells.strict]

end ZkCommand.Json

namespace ZkCommand.Relaxed

/-- Normalising a JSON text changes nothing in it. -/
theorem normalise_of_json {json : List Char} {t : Tree} (h : Json.readTree json = .ok t) :
    normalise json = .ok json := by
  obtain ⟨d, source, strict, -⟩ := Json.exists_document h
  rw [← source, normalise_document, strict, source]

/-- **Normalising leaves JSON alone.** A text that the JSON reader accepts is normalised to itself,
and so it is read as the same tree with and without normalising; and normalising what a text has
been normalised to changes nothing more. -/
theorem normalise_json {text : String} {t : Tree} :
    (Json.readTree text.toList = .ok t →
      normalise text.toList = .ok text.toList ∧ readTree text = .ok t) ∧
    (readTree text = .ok t →
      ∃ json, normalise text.toList = .ok json ∧ normalise json = .ok json) := by
  constructor
  · intro h
    have kept := normalise_of_json h
    exact ⟨kept, readTree_eq_ok_iff.mpr ⟨_, kept, h⟩⟩
  · intro h
    obtain ⟨json, normalised, read⟩ := readTree_eq_ok_iff.mp h
    exact ⟨json, normalised, normalise_of_json read⟩

/-- Quotes, marks of comments and exponents in JSON, and a text that is not JSON. -/
theorem normalise_json_apostrophe :
    (normalise "\x7b\"it's\": [\"// 5n,]\", 1e3]\x7d".toList
        = .ok "\x7b\"it's\": [\"// 5n,]\", 1e3]\x7d".toList ∧
      readTree "\x7b\"it's\": [\"// 5n,]\", 1e3]\x7d"
        = .ok (.map [("it's", .list [.str "// 5n,]", .num "1e+3"])])) ∧
    ∃ json, normalise "\x7ba: '\"', b: [5n, ],\x7d".toList = .ok json ∧
      normalise json = .ok json := by
  have json : Json.readTree "\x7b\"it's\": [\"// 5n,]\", 1e3]\x7d".toList
      = .ok (.map [("it's", .list [.str "// 5n,]", .num "1e+3"])]) := by
    cbv
  have relaxed : readTree "\x7ba: '\"', b: [5n, ],\x7d"
      = .ok (.map [("a", .str "\""), ("b", .list [.num "5"])]) := by
    cbv
  exact ⟨normalise_json.1 json, normalise_json.2 relaxed⟩

end ZkCommand.Relaxed
