import ZkCommand.Proofs.Witness.Tokens

/-!
# ZkCommand.Proofs.Witness.Exact

**Witness dumps are decoded exactly.** A text is decoded to a sequence of primitives if and only if
it is the text of a dump of the grammar that denotes that sequence, and then every primitive fits
its width.
-/

namespace ZkCommand.Witness

open Text Grammar

/-! ### One step -/

theorem decodeFrom_of_allBlank {s : List Char} (h : AllBlank s) (total : Nat) :
    decodeFrom total s = .ok [] := by
  have empty : (skipBlank s).rest = [] := List.dropWhile_eq_nil_iff.mpr h
  rw [decodeFrom]
  split
  · rfl
  · rename_i skip
    rw [skip] at empty
    cases empty

/-- What is decoded behind white space. -/
theorem decodeFrom_gap {gap : List Char} (blank : AllBlank gap) {c : Char}
    (visible : isBlank c = false) (s : List Char) (total : Nat) :
    decodeFrom total (gap ++ c :: s) =
      (match Token.first? (c :: s) with
      | none =>
          .error (.grammar (total - Utf8.size (c :: s)) (String.ofList (snippet (c :: s))))
      | some p => do
          let first ← p.value.decode (total - Utf8.size (c :: s))
          let others ← decodeFrom total p.rest
          .ok (first :: others)) := by
  have skipped : (skipBlank (gap ++ c :: s)).rest = c :: s := skipBlank_append blank visible
  rw [decodeFrom]
  split
  · rename_i skip
    rw [skip] at skipped
    cases skipped
  · rename_i d r within skip
    rw [skip] at skipped
    obtain ⟨rfl, rfl⟩ := List.cons.inj skipped
    rfl

/-- A dump goes on with a token after white space, whose primitive comes first. -/
theorem decodeFrom_of_finds {s rest value : List Char} {tag : Tag} (gap : Gap)
    (visible : s.head?.any isBlank = false) (found : Finds (Token.first? s) ⟨tag, value⟩ rest)
    (total : Nat) :
    ∃ offset, decodeFrom total (gap.chars ++ s) = (do
      let first ← Token.decode offset ⟨tag, value⟩
      let others ← decodeFrom total rest
      .ok (first :: others)) := by
  obtain ⟨short, found⟩ := found
  cases s with
  | nil => cases found
  | cons c s =>
      rw [decodeFrom_gap gap.blank visible, found]
      exact ⟨_, rfl⟩

/-- What a text begins with: white space only, or a token behind white space, or what is none. -/
theorem exists_front (s : List Char) :
    AllBlank s ∨
      (∃ (gap : Gap) (c : Char) (r : List Char), s = gap.chars ++ c :: r ∧ isBlank c = false) := by
  obtain ⟨gap, whole⟩ := exists_gap_of_skipBlank s
  have visible : (skipBlank s).rest.head?.any isBlank = false := head?_dropWhile s
  cases front : (skipBlank s).rest with
  | nil =>
      rw [front, List.append_nil] at whole
      exact .inl (whole ▸ gap.blank)
  | cons c r =>
      rw [front] at whole visible
      exact .inr ⟨gap, c, r, whole, visible⟩

/-- What a text begins with that is decoded. -/
theorem decodeFrom_inv {total : Nat} {s : List Char} {primitives : List Primitive}
    (h : decodeFrom total s = .ok primitives) :
    (AllBlank s ∧ primitives = []) ∨
      ∃ (gap : Gap) (t : List Char) (p : Parsed Token t.length) (offset : Nat) (first : Primitive)
        (others : List Primitive), s = gap.chars ++ t ∧ Token.first? t = some p ∧
          p.value.decode offset = .ok first ∧ decodeFrom total p.rest = .ok others ∧
          primitives = first :: others := by
  rcases exists_front s with blank | ⟨gap, c, r, rfl, visible⟩
  · rw [decodeFrom_of_allBlank blank] at h
    exact .inl ⟨blank, (Except.ok.inj h).symm⟩
  · rw [decodeFrom_gap gap.blank visible] at h
    cases found : Token.first? (c :: r) with
    | none =>
        rw [found] at h
        cases h
    | some p =>
        rw [found] at h
        obtain ⟨first, hf, h⟩ := bind_eq_ok_iff.mp h
        obtain ⟨others, ho, h⟩ := bind_eq_ok_iff.mp h
        exact .inr ⟨gap, c :: r, p, _, first, others, rfl, found, hf, ho, (Except.ok.inj h).symm⟩

/-! ### Dumps -/

/-- The first character of a token is not white space. -/
theorem Grammar.Token.visible (t : Grammar.Token) (rest : List Char) :
    (t.source ++ rest).head?.any isBlank = false := by
  have letters := spells_tag_iff.mpr t.frame.name.spells
  rw [source, Frame.source, List.append_assoc]
  obtain ⟨tag, frame, value⟩ := t
  cases tag with
  | bool => exact visible_of_spells 'b' (by decide) letters
  | u32 => exact visible_of_spells 'u' (by decide) letters
  | u64 => exact visible_of_spells 'u' (by decide) letters
  | bytes => exact visible_of_spells 'b' (by decide) letters

theorem decodeFrom_source (d : Dump) (total : Nat) :
    decodeFrom total d.source = .ok d.primitives := by
  induction d with
  | finish gap => exact decodeFrom_of_allBlank gap.blank total
  | more gap token rest ih =>
      obtain ⟨offset, step⟩ :=
        decodeFrom_of_finds gap (token.visible rest.source) (finds_first? token rest.source) total
      rw [Dump.source, step, ih, decode_eq_ok_iff.mpr ⟨token.value, rfl, rfl⟩]
      rfl

theorem exists_dump_of_decodeFrom {total : Nat} {s : List Char} {primitives : List Primitive}
    (h : decodeFrom total s = .ok primitives) :
    ∃ d : Dump, d.source = s ∧ d.primitives = primitives := by
  induction hn : s.length using Nat.strongRecOn generalizing s primitives with
  | _ n ih =>
    rcases decodeFrom_inv h with
      ⟨blank, rfl⟩ | ⟨gap, t, p, offset, first, others, rfl, found, hf, ho, rfl⟩
    · exact ⟨.finish ⟨s, blank⟩, rfl, rfl⟩
    · have shorter : p.rest.length < n := by
        have := p.rest_lt
        rw [List.length_append] at hn
        omega
      obtain ⟨rest, source, denotes⟩ := ih p.rest.length shorter ho rfl
      obtain ⟨frame, token⟩ := exists_frame_of_first? found
      obtain ⟨value, valueSource, valueDenotes⟩ := decode_eq_ok_iff.mp hf
      refine ⟨.more gap ⟨p.value.tag, frame, value⟩ rest, ?_, ?_⟩
      · rw [Dump.source, Grammar.Token.source, valueSource, source]
        exact congrArg (gap.chars ++ ·) token.symm
      · rw [Dump.primitives, valueDenotes, denotes]

/-- The primitives of a dump fit their widths. -/
theorem Grammar.Dump.fits (d : Dump) : ∀ p ∈ d.primitives, p.value < 2 ^ p.width := by
  induction d with
  | finish gap => exact fun p hp => absurd hp List.not_mem_nil
  | more gap token rest ih =>
      intro p hp
      rcases List.mem_cons.mp hp with rfl | hp
      · exact token.value.fits
      · exact ih p hp

/-- **A text is decoded if and only if it is a dump of the grammar**, to what that dump denotes, and
every value is below the power of two of its width. -/
theorem decode_exact (text : String) (primitives : List Primitive) :
    (decode text = .ok primitives ↔
      ∃ d : Dump, d.source = text.toList ∧ d.primitives = primitives) ∧
    (decode text = .ok primitives → ∀ p ∈ primitives, p.value < 2 ^ p.width) := by
  have accepted : decode text = .ok primitives ↔
      ∃ d : Dump, d.source = text.toList ∧ d.primitives = primitives := by
    constructor
    · exact exists_dump_of_decodeFrom
    · rintro ⟨d, source, rfl⟩
      rw [decode, ← source]
      exact decodeFrom_source d _
  refine ⟨accepted, fun h => ?_⟩
  obtain ⟨d, -, rfl⟩ := accepted.mp h
  exact d.fits

/-! ### A dump of two tokens -/

/-- White space that a computation checks. -/
def room (chars : List Char) (h : (chars.all isBlank) = true) : Gap :=
  ⟨chars, List.all_eq_true.mp h⟩

/-- A truth value, and two bytes with a comma after them. -/
def twoTokens : Dump :=
  .more (room [] rfl)
    ⟨.bool,
      ⟨⟨['B', 'O', 'O', 'L'], by decide⟩, room [] rfl, room [] rfl, ⟨['v', 'a', 'l'], by decide⟩,
        room [] rfl, room [] rfl, room [] rfl⟩,
      .yes ⟨['T', 'r', 'u', 'e'], by decide⟩⟩ <|
  .more (room ['\n'] rfl)
    ⟨.bytes,
      ⟨⟨['b', 'y', 't', 'e', 'ſ'], by decide⟩, room [' '] rfl, room [' '] rfl,
        ⟨['v', 'A', 'l'], by decide⟩, room [' '] rfl, room [' '] rfl, room [' '] rfl⟩,
      .bytes (.some ⟨room [] rfl, ⟨['0', '1'], by decide, by decide⟩, room [] rfl⟩
        [⟨room [' '] rfl, ⟨['2'], by decide, by decide⟩, room [] rfl⟩] (some (room [' '] rfl)))
        (by decide)⟩ <|
  .finish (room [] rfl)

theorem decode_twoTokens :
    decode "BOOL\x7bval:True\x7d\nbyteſ \x7b vAl : [01, 2, ] \x7d" = .ok [⟨1, 1⟩, ⟨258, 16⟩] ∧
      ∀ p ∈ ([⟨1, 1⟩, ⟨258, 16⟩] : List Primitive), p.value < 2 ^ p.width := by
  have accepted := decode_exact "BOOL\x7bval:True\x7d\nbyteſ \x7b vAl : [01, 2, ] \x7d"
    [⟨1, 1⟩, ⟨258, 16⟩]
  have decoded := accepted.1.mpr ⟨twoTokens, by decide +kernel, by decide⟩
  exact ⟨decoded, accepted.2 decoded⟩

end ZkCommand.Witness
