import Mathlib.Data.List.Forall2
import ZkCommand.Proofs.Witness.Values

/-!
# ZkCommand.Proofs.Witness.Tokens

**Tokens at the front of a text.** What `Token.first?` finds is a token of the grammar as far as its
form goes (`exists_frame_of_first?`), and what has that form is found whatever follows it, also if
its type cannot hold its value (`finds_first?_of_form`). Nothing in a token can be read in two ways:
a word starts no other word, white space and the closing brace end the digits, and the first closing
bracket ends a list of bytes.
-/

namespace ZkCommand.Witness

open Text Grammar

/-- A reader finds `a`, and `rest` is left. -/
def Finds {α : Type} {bound : Nat} (result : Option (Parsed α bound)) (a : α)
    (rest : List Char) : Prop :=
  ∃ short, result = some ⟨a, rest, short⟩

section Finds

variable {α : Type} {bound : Nat} {result other : Option (Parsed α bound)} {a : α}
  {rest : List Char}

theorem Finds.orElse (h : Finds result a rest) : Finds (result <|> other) a rest := by
  obtain ⟨short, found⟩ := h
  exact ⟨short, by rw [found]; rfl⟩

theorem Finds.orElse_of_eq_none (h : Finds other a rest) (none : result = none) :
    Finds (result <|> other) a rest := by
  rw [none]
  exact h

theorem Finds.bind {β : Type} {bound' : Nat} {next : Parsed α bound → Option (Parsed β bound')}
    {b : β} {rest' : List Char} (h : Finds result a rest)
    (h' : ∀ short, Finds (next ⟨a, rest, short⟩) b rest') : Finds (result >>= next) b rest' := by
  obtain ⟨short, found⟩ := h
  rw [found]
  exact h' short

theorem eq_some_of_orElse {p : Parsed α bound} (h : (result <|> other) = some p) :
    result = some p ∨ other = some p := by
  rw [Option.orElse_eq_orElse, Option.orElse_eq_or, Option.or_eq_some_iff] at h
  exact h.imp_right And.right

end Finds

/-! ### Letters -/

/-- A character outside the capital letters is its own small letter. -/
theorem toLower_of_inRanges {table : List CodeRange} {c : Char}
    (apart : ∀ r ∈ table, r.2 < 65 ∨ 90 < r.1) (h : inRanges table c = true) : c.toLower = c := by
  obtain ⟨r, hr, inside⟩ := List.any_eq_true.mp h
  rw [Bool.and_eq_true, decide_eq_true_iff, decide_eq_true_iff] at inside
  refine dif_neg fun capital => ?_
  have lower : 65 ≤ c.toNat := UInt32.le_iff_toNat_le.mp capital.1
  have upper : c.toNat ≤ 90 := UInt32.le_iff_toNat_le.mp capital.2
  have := apart r hr
  omega

/-- No character of a table stands for a letter outside it. -/
theorem foldsTo_eq_false {table : List CodeRange} {letter c : Char}
    (apart : ∀ r ∈ table, r.2 < 65 ∨ 90 < r.1) (long : inRanges table 'ſ' = false)
    (outside : inRanges table letter = false) (h : inRanges table c = true) :
    foldsTo letter c = false := by
  have notLetter : c ≠ letter := fun same => by rw [same, outside] at h; cases h
  have notLong : c ≠ 'ſ' := fun same => by rw [same, long] at h; cases h
  simp [foldsTo, toLower_of_inRanges apart h, notLetter, notLong]

theorem isBlank_of_foldsTo {letter c : Char} (visible : isBlank letter = false)
    (h : foldsTo letter c = true) : isBlank c = false := by
  by_contra blank
  rw [Bool.not_eq_false] at blank
  rw [foldsTo_eq_false (by decide) (by decide) visible blank] at h
  cases h

theorem foldsTo_iff_tagLetter {letter c : Char} (h : letter ≠ 'ſ') :
    foldsTo letter c = true ↔ tagLetter c = letter := by
  rw [foldsTo, tagLetter]
  by_cases long : c = 'ſ'
  · obtain rfl := long
    have lower : Char.toLower 'ſ' = 'ſ' := by decide
    simp [lower, h.symm, eq_comm]
  · simp [long]

theorem foldsTo_iff_toLower {letter c : Char} (h : letter ≠ 's') :
    foldsTo letter c = true ↔ c.toLower = letter := by
  simp [foldsTo, h]

/-! ### Words -/

/-- The characters `chars` stand for a word. -/
def Spells (word chars : List Char) : Prop :=
  List.Forall₂ (fun letter c => foldsTo letter c = true) word chars

theorem spells_iff_map {fold : Char → Char} {word : List Char}
    (h : ∀ letter ∈ word, ∀ c, foldsTo letter c = true ↔ fold c = letter) {chars : List Char} :
    Spells word chars ↔ chars.map fold = word := by
  induction word generalizing chars with
  | nil => rw [Spells, List.forall₂_nil_left_iff, List.map_eq_nil_iff]
  | cons letter word ih =>
      have tail : ∀ {cs : List Char}, Spells word cs ↔ cs.map fold = word :=
        ih fun l hl => h l (List.mem_cons_of_mem _ hl)
      rw [Spells, List.forall₂_cons_left_iff, List.map_eq_cons_iff]
      constructor
      · rintro ⟨c, cs, head, rest, rfl⟩
        exact ⟨c, cs, rfl, (h letter List.mem_cons_self c).mp head, tail.mp rest⟩
      · rintro ⟨c, cs, rfl, head, rest⟩
        exact ⟨c, cs, (h letter List.mem_cons_self c).mpr head, tail.mpr rest, rfl⟩

theorem spells_of_toLower {word chars : List Char} (h : chars.map Char.toLower = word) :
    Spells word chars := by
  rw [← h, Spells, List.forall₂_map_left_iff, List.forall₂_same]
  intro c _
  simp [foldsTo]

theorem spells_tag_iff {tag : Tag} {chars : List Char} :
    Spells tag.word chars ↔ chars.map tagLetter = tag.word :=
  spells_iff_map fun letter hl _ => foldsTo_iff_tagLetter (by
    rintro rfl
    cases tag <;> exact absurd hl (by decide))

theorem spells_iff_toLower {word : List Char} (h : 's' ∉ word) {chars : List Char} :
    Spells word chars ↔ chars.map Char.toLower = word :=
  spells_iff_map fun _ hl _ => foldsTo_iff_toLower fun same => h (same ▸ hl)

theorem finds_wordSpan {word chars : List Char} (h : Spells word chars) (rest : List Char) :
    Finds (wordSpan word (chars ++ rest)) chars rest := by
  induction h with
  | nil => exact ⟨length_lt_succ rest, rfl⟩
  | cons head _ ih =>
      obtain ⟨short, found⟩ := ih
      refine ⟨Nat.lt_succ_of_lt short, ?_⟩
      exact (if_pos head).trans (congrArg (Option.map _) found)

theorem spells_of_wordSpan {word s : List Char} {p : Parsed (List Char) (s.length + 1)}
    (h : wordSpan word s = some p) : Spells word p.value ∧ s = p.value ++ p.rest := by
  induction word generalizing s with
  | nil =>
      obtain rfl := Option.some.inj h
      exact ⟨.nil, rfl⟩
  | cons letter word ih =>
      cases s with
      | nil => cases h
      | cons c s =>
          change (if foldsTo letter c = true then _ else _) = _ at h
          split at h
          · rename_i head
            obtain ⟨tail, found, rfl⟩ := Option.map_eq_some_iff.mp h
            obtain ⟨spells, whole⟩ := ih found
            exact ⟨.cons head spells, congrArg (c :: ·) whole⟩
          · cases h

theorem wordSpan_eq_none {letter c : Char} {word s : List Char} (h : foldsTo letter c = false) :
    wordSpan (letter :: word) (c :: s) = none :=
  if_neg (by rw [h]; exact Bool.false_ne_true)

/-- The first character of a word is not white space. -/
theorem visible_of_spells {word chars rest : List Char} (letter : Char)
    (visible : isBlank letter = false) (h : Spells (letter :: word) chars) :
    (chars ++ rest).head?.any isBlank = false := by
  cases h with
  | cons head _ => exact isBlank_of_foldsTo visible head

/-! ### White space and marks -/

theorem skipBlank_append {gap s : List Char} (blank : AllBlank gap)
    (visible : s.head?.any isBlank = false) : (skipBlank (gap ++ s)).rest = s :=
  dropWhile_blank_append blank visible

theorem exists_gap_of_skipBlank (s : List Char) :
    ∃ gap : Gap, s = gap.chars ++ (skipBlank s).rest :=
  ⟨⟨s.takeWhile isBlank, fun _ hc => List.mem_takeWhile_imp hc⟩,
    List.takeWhile_append_dropWhile.symm⟩

/-- What is read after white space. -/
theorem finds_skipBlank {α : Type} {bound : List Char → Nat}
    {reader : (s : List Char) → Option (Parsed α (bound s))} (gap : Gap) {s : List Char} {a : α}
    {rest : List Char} (visible : s.head?.any isBlank = false) (h : Finds (reader s) a rest) :
    Finds (reader (skipBlank (gap.chars ++ s)).rest) a rest := by
  rw [skipBlank_append gap.blank visible]
  exact h

theorem finds_mark {c : Char} (visible : isBlank c = false) {gap : List Char}
    (blank : AllBlank gap) (rest : List Char) :
    Finds (mark c (gap ++ c :: rest)) () rest := by
  have short : (c :: rest).length < (gap ++ c :: rest).length + 1 := by
    rw [List.length_append]
    omega
  have skip : skipBlank (gap ++ c :: rest) = ⟨(), c :: rest, short⟩ := by
    unfold skipBlank
    congr
    exact dropWhile_blank_append blank visible
  refine ⟨length_lt_of_cons_lt_succ _ c rest short, ?_⟩
  rw [mark]
  simp only [skip, if_true]

theorem exists_gap_of_mark {c : Char} {s : List Char} {p : Parsed Unit s.length}
    (h : mark c s = some p) : ∃ gap : Gap, s = gap.chars ++ c :: p.rest := by
  obtain ⟨gap, whole⟩ := exists_gap_of_skipBlank s
  rw [mark] at h
  split at h
  · cases h
  · rename_i d rest short skip
    split at h
    · rename_i same
      obtain rfl := Option.some.inj h
      rw [skip, same] at whole
      exact ⟨gap, whole⟩
    · cases h

/-! ### Values -/

theorem finds_digitSpan {digits rest : List Char} (nonempty : digits ≠ [])
    (inside : ∀ c ∈ digits, isDecimalDigit c = true)
    (after : rest.head?.any isDecimalDigit = false) :
    Finds (digitSpan (digits ++ rest)) digits rest := by
  obtain ⟨taken, left⟩ := takeWhile_append_of_head inside after
  refine ⟨by grind, ?_⟩
  unfold digitSpan
  rw [if_neg (by rw [taken]; simpa using nonempty)]
  congr

theorem digitSpan_source {s : List Char} {p : Parsed (List Char) (s.length + 1)}
    (h : digitSpan s = some p) : s = p.value ++ p.rest := by
  rw [digitSpan] at h
  split at h
  · cases h
  · obtain rfl := Option.some.inj h
    exact List.takeWhile_append_dropWhile.symm

theorem finds_bracketTail {inside : List Char} (closed : ']' ∉ inside) (rest : List Char) :
    Finds (bracketTail (inside ++ ']' :: rest)) (inside ++ [']']) rest := by
  induction inside with
  | nil => exact ⟨length_lt_cons ']' rest, rfl⟩
  | cons c inside ih =>
      obtain ⟨short, found⟩ := ih fun h => closed (List.mem_cons_of_mem c h)
      refine ⟨Nat.lt_succ_of_lt short, ?_⟩
      have other : c ≠ ']' := fun same => closed (same ▸ List.mem_cons_self)
      exact (if_neg other).trans (congrArg (Option.map _) found)

theorem bracketTail_source {s : List Char} {p : Parsed (List Char) s.length}
    (h : bracketTail s = some p) : s = p.value ++ p.rest := by
  induction s with
  | nil => cases h
  | cons c s ih =>
      change (if c = ']' then _ else _) = _ at h
      split at h
      · obtain rfl := Option.some.inj h
        rfl
      · obtain ⟨tail, found, rfl⟩ := Option.map_eq_some_iff.mp h
        exact congrArg (c :: ·) (ih found)

theorem finds_bracketSpan {inside : List Char} (closed : ']' ∉ inside) (rest : List Char) :
    Finds (bracketSpan ('[' :: (inside ++ [']']) ++ rest)) ('[' :: (inside ++ [']'])) rest := by
  obtain ⟨short, found⟩ := finds_bracketTail closed rest
  rw [List.cons_append, List.append_assoc, List.singleton_append]
  refine ⟨Nat.lt_succ_of_lt (Nat.lt_succ_of_lt short), ?_⟩
  rw [bracketSpan, if_pos rfl, found]
  rfl

theorem bracketSpan_source {s : List Char} {p : Parsed (List Char) (s.length + 1)}
    (h : bracketSpan s = some p) : s = p.value ++ p.rest := by
  cases s with
  | nil => cases h
  | cons c s =>
      rw [bracketSpan] at h
      split at h
      · obtain ⟨tail, found, rfl⟩ := Option.map_eq_some_iff.mp h
        exact congrArg (c :: ·) (bracketTail_source found)
      · cases h

theorem valueSpan_source {s : List Char} {p : Parsed (List Char) (s.length + 1)}
    (h : valueSpan s = some p) : s = p.value ++ p.rest := by
  rcases eq_some_of_orElse h with h | h
  · exact (spells_of_wordSpan h).2
  rcases eq_some_of_orElse h with h | h
  · exact (spells_of_wordSpan h).2
  rcases eq_some_of_orElse h with h | h
  · exact digitSpan_source h
  · exact bracketSpan_source h

/-- No list of bytes has a closing bracket in it. -/
theorem Grammar.Entries.bracket_notMem (entries : Entries) : ']' ∉ entries.source := by
  have blank (gap : Gap) : ']' ∉ gap.chars := fun h => absurd (gap.blank _ h) (by decide)
  have entry (e : Entry) : ']' ∉ e.source := by
    intro h
    rw [Entry.source, List.append_assoc, List.mem_append, List.mem_append] at h
    rcases h with h | h | h
    · exact blank _ h
    · exact absurd (e.byte.isDigit_of_mem h) (by decide)
    · exact blank _ h
  cases entries with
  | none inside => exact blank inside
  | some first others trailing =>
      intro h
      rw [source, List.append_assoc, List.mem_append, List.mem_append, List.mem_flatMap] at h
      rcases h with h | ⟨e, -, h⟩ | h
      · exact entry first h
      · exact (List.mem_cons.mp h).elim (by decide) (entry e)
      · cases trailing with
        | none => cases h
        | some gap => exact (List.mem_cons.mp h).elim (by decide) (blank gap)

theorem isDecimalDigit_of_isDigit {c : Char} (h : c.isDigit = true) : isDecimalDigit c = true :=
  List.any_eq_true.mpr ⟨(0x30, 0x39), List.mem_cons_self, by
    simpa using toNat_of_isDigit h⟩

/-- What a value looks like, whether or not the type of its token can hold it. -/
inductive ValueForm : List Char → Prop
  | yes {chars : List Char} (spells : Spells ['t', 'r', 'u', 'e'] chars) : ValueForm chars
  | no {chars : List Char} (spells : Spells ['f', 'a', 'l', 's', 'e'] chars) : ValueForm chars
  | digits {run : List Char} (nonempty : run ≠ []) (all : ∀ c ∈ run, isDecimalDigit c = true) :
      ValueForm run
  | list {inside : List Char} (closed : ']' ∉ inside) : ValueForm ('[' :: (inside ++ [']']))

theorem Grammar.Value.form {tag : Tag} (v : Value tag) : ValueForm v.source := by
  have digits {bound : Nat} (n : Numeral bound) : ValueForm n.digits :=
    .digits n.ne_nil fun _ hc => isDecimalDigit_of_isDigit (n.isDigit_of_mem hc)
  cases v with
  | yes word => exact .yes (spells_of_toLower word.spells)
  | no word => exact .no (spells_of_toLower word.spells)
  | word32 number => exact digits number
  | word64 number => exact digits number
  | bytes entries narrow => exact .list entries.bracket_notMem

/-- What looks like a value is found whatever follows it, unless digits go on. -/
theorem finds_valueSpan {value rest : List Char} (form : ValueForm value)
    (after : rest.head?.any isDecimalDigit = false) :
    Finds (valueSpan (value ++ rest)) value rest := by
  cases form with
  | yes spells => exact (finds_wordSpan spells rest).orElse
  | no spells =>
      refine Finds.orElse_of_eq_none (finds_wordSpan spells rest).orElse ?_
      cases spells with
      | cons head _ =>
        refine wordSpan_eq_none (Bool.eq_false_iff.mpr fun both => ?_)
        rw [foldsTo_iff_toLower (by decide)] at head both
        exact absurd (head.symm.trans both) (by decide)
  | digits nonempty all =>
      have noWord (letter : Char) (word : List Char)
          (outside : inRanges decimalDigitRanges letter = false) :
          wordSpan (letter :: word) (value ++ rest) = none := by
        obtain ⟨c, run, rfl⟩ := List.exists_cons_of_ne_nil nonempty
        exact wordSpan_eq_none
          (foldsTo_eq_false (by decide) (by decide) outside (all c List.mem_cons_self))
      refine Finds.orElse_of_eq_none ?_ (noWord _ _ (by decide))
      refine Finds.orElse_of_eq_none ?_ (noWord _ _ (by decide))
      exact (finds_digitSpan nonempty all after).orElse
  | list closed =>
      refine Finds.orElse_of_eq_none ?_ (wordSpan_eq_none (by decide))
      refine Finds.orElse_of_eq_none ?_ (wordSpan_eq_none (by decide))
      exact (finds_bracketSpan closed rest).orElse_of_eq_none rfl

/-- The first character of a value is not white space. -/
theorem ValueForm.visible {value : List Char} (form : ValueForm value) (rest : List Char) :
    (value ++ rest).head?.any isBlank = false := by
  cases form with
  | yes spells => exact visible_of_spells 't' (by decide) spells
  | no spells => exact visible_of_spells 'f' (by decide) spells
  | digits nonempty all =>
      obtain ⟨c, run, rfl⟩ := List.exists_cons_of_ne_nil nonempty
      exact inRanges_of_disjoint (by decide) (all c List.mem_cons_self)
  | list closed => exact (by decide : isBlank '[' = false)

/-- White space and a closing brace end the digits of a value. -/
theorem notDigit_of_gap (gap : Gap) (rest : List Char) :
    (gap.chars ++ '\x7d' :: rest).head?.any isDecimalDigit = false := by
  obtain ⟨chars, blank⟩ := gap
  cases chars with
  | nil => exact (by decide : isDecimalDigit '\x7d' = false)
  | cons c chars => exact inRanges_of_disjoint (by decide) (blank c List.mem_cons_self)

/-! ### Tokens -/

/-- What is read after the name of a type completes a token of that type. -/
theorem exists_frame_of_body {tag : Tag} (name : TagSpelling tag) {s : List Char}
    {p : Parsed (List Char) s.length} (h : body s = some p) :
    ∃ frame : Frame tag, name.chars ++ s = frame.source p.value ++ p.rest := by
  obtain ⟨opened, ho, h⟩ := Option.bind_eq_some_iff.mp h
  obtain ⟨val, hv, h⟩ := Option.bind_eq_some_iff.mp h
  obtain ⟨colon, hc, h⟩ := Option.bind_eq_some_iff.mp h
  obtain ⟨value, hs, h⟩ := Option.bind_eq_some_iff.mp h
  obtain ⟨closed, hd, h⟩ := Option.bind_eq_some_iff.mp h
  obtain rfl := Option.some.inj h
  obtain ⟨beforeBrace, text⟩ := exists_gap_of_mark ho
  obtain ⟨afterBrace, text₁⟩ := exists_gap_of_skipBlank opened.rest
  obtain ⟨spells, text₂⟩ := spells_of_wordSpan hv
  obtain ⟨beforeColon, text₃⟩ := exists_gap_of_mark hc
  obtain ⟨afterColon, text₄⟩ := exists_gap_of_skipBlank colon.rest
  have text₅ := valueSpan_source hs
  obtain ⟨afterValue, text₆⟩ := exists_gap_of_mark hd
  refine ⟨⟨name, beforeBrace, afterBrace, ⟨val.value, (spells_iff_toLower (by decide)).mp spells⟩,
    beforeColon, afterColon, afterValue⟩, ?_⟩
  have whole : s = beforeBrace.chars ++ '\x7b' :: (afterBrace.chars ++ (val.value
      ++ (beforeColon.chars ++ ':' :: (afterColon.chars ++ (value.value
        ++ (afterValue.chars ++ '\x7d' :: closed.rest)))))) := by
    rw [← text₆, ← text₅, ← text₄, ← text₃, ← text₂, ← text₁, ← text]
  simpa [Frame.source, Frame.braces] using whole

theorem exists_frame_of_ofTag? {tag : Tag} {s : List Char} {p : Parsed Token s.length}
    (h : Token.ofTag? tag s = some p) :
    p.value.tag = tag ∧ ∃ frame : Frame tag, s = frame.source p.value.value ++ p.rest := by
  obtain ⟨name, hn, h⟩ := Option.bind_eq_some_iff.mp h
  obtain ⟨inside, hb, h⟩ := Option.bind_eq_some_iff.mp h
  obtain rfl := Option.some.inj h
  obtain ⟨spells, text⟩ := spells_of_wordSpan hn
  obtain ⟨frame, whole⟩ := exists_frame_of_body ⟨name.value, spells_tag_iff.mp spells⟩ hb
  exact ⟨rfl, frame, text.trans whole⟩

theorem finds_body {tag : Tag} (frame : Frame tag) {value : List Char} (form : ValueForm value)
    (rest : List Char) : Finds (body (frame.braces value ++ rest)) value rest := by
  obtain ⟨name, beforeBrace, afterBrace, val, beforeColon, afterColon, afterValue⟩ := frame
  have text : beforeBrace.chars ++ '\x7b' :: (afterBrace.chars ++ (val.chars
      ++ (beforeColon.chars ++ ':' :: (afterColon.chars ++ (value
        ++ (afterValue.chars ++ '\x7d' :: rest))))))
      = Frame.braces ⟨name, beforeBrace, afterBrace, val, beforeColon, afterColon, afterValue⟩
          value ++ rest := by
    simp [Frame.braces]
  rw [← text]
  refine (finds_mark (by decide) beforeBrace.blank _).bind fun _ => ?_
  have letters : Spells ['v', 'a', 'l'] val.chars := spells_of_toLower val.spells
  refine (finds_skipBlank afterBrace (visible_of_spells 'v' (by decide) letters)
    (finds_wordSpan letters _)).bind fun _ => ?_
  refine (finds_mark (by decide) beforeColon.blank _).bind fun _ => ?_
  refine (finds_skipBlank afterColon (form.visible _) (finds_valueSpan form ?_)).bind fun _ => ?_
  · exact notDigit_of_gap afterValue rest
  refine (finds_mark (by decide) afterValue.blank _).bind fun _ => ?_
  exact ⟨_, rfl⟩

/-- **The token of a type at the front of a text** is one of the grammar as far as its form goes. -/
theorem exists_frame_of_first? {s : List Char} {p : Parsed Token s.length}
    (h : Token.first? s = some p) :
    ∃ frame : Frame p.value.tag, s = frame.source p.value.value ++ p.rest := by
  have found : ∃ tag, Token.ofTag? tag s = some p := by
    rcases eq_some_of_orElse h with h | h
    · exact ⟨_, h⟩
    rcases eq_some_of_orElse h with h | h
    · exact ⟨_, h⟩
    rcases eq_some_of_orElse h with h | h
    · exact ⟨_, h⟩
    · exact ⟨_, h⟩
  obtain ⟨tag, h⟩ := found
  obtain ⟨rfl, frame⟩ := exists_frame_of_ofTag? h
  exact frame

theorem finds_ofTag? {tag : Tag} (frame : Frame tag) {value : List Char} (form : ValueForm value)
    (rest : List Char) :
    Finds (Token.ofTag? tag (frame.source value ++ rest)) ⟨tag, value⟩ rest := by
  rw [Frame.source, List.append_assoc]
  refine (finds_wordSpan (spells_tag_iff.mpr frame.name.spells) _).bind fun _ => ?_
  exact (finds_body frame form rest).bind fun _ => ⟨_, rfl⟩

theorem Grammar.Frame.word_prefix {tag : Tag} (frame : Frame tag) (value rest : List Char) :
    tag.word <+: (frame.source value ++ rest).map tagLetter := by
  have named : (frame.source value ++ rest).map tagLetter
      = frame.name.chars.map tagLetter ++ (frame.braces value ++ rest).map tagLetter := by
    rw [source, List.append_assoc, List.map_append]
  rw [named, frame.name.spells]
  exact List.prefix_append _ _

/-- The name of a type starts no other. -/
theorem Tag.eq_of_word_prefix {tag tag' : Tag} (h : tag.word <+: tag'.word) : tag = tag' := by
  revert h
  cases tag <;> cases tag' <;> decide

theorem ofTag?_eq_none {tag other : Tag} (frame : Frame tag) (value rest : List Char)
    (differ : other ≠ tag) : Token.ofTag? other (frame.source value ++ rest) = none := by
  by_contra found
  obtain ⟨p, found⟩ := Option.ne_none_iff_exists'.mp found
  obtain ⟨-, frame', same⟩ := exists_frame_of_ofTag? found
  have word := frame'.word_prefix p.value.value p.rest
  rw [← same] at word
  rcases List.prefix_or_prefix_of_prefix word (frame.word_prefix value rest) with h | h
  · exact differ (Tag.eq_of_word_prefix h)
  · exact differ (Tag.eq_of_word_prefix h).symm

/-- **What has the form of a token at the front of a text** is found, whatever follows it. -/
theorem finds_first?_of_form {tag : Tag} (frame : Frame tag) {value : List Char}
    (form : ValueForm value) (rest : List Char) :
    Finds (Token.first? (frame.source value ++ rest)) ⟨tag, value⟩ rest := by
  have found := finds_ofTag? frame form rest
  have none {other : Tag} (differ : other ≠ tag) := ofTag?_eq_none frame value rest differ
  cases tag with
  | bool => exact found.orElse
  | u32 => exact found.orElse.orElse_of_eq_none (none nofun)
  | u64 =>
      refine Finds.orElse_of_eq_none ?_ (none nofun)
      exact found.orElse.orElse_of_eq_none (none nofun)
  | bytes =>
      refine Finds.orElse_of_eq_none ?_ (none nofun)
      refine Finds.orElse_of_eq_none ?_ (none nofun)
      exact found.orElse_of_eq_none (none nofun)

/-- A token of the grammar at the front of a text is found, whatever follows it. -/
theorem finds_first? (t : Grammar.Token) (rest : List Char) :
    Finds (Token.first? (t.source ++ rest)) ⟨t.tag, t.value.source⟩ rest :=
  finds_first?_of_form t.frame t.value.form rest

end ZkCommand.Witness
