import ZkCommand.Proofs.Relaxed.Grammar
import ZkCommand.Proofs.Text

/-!
# ZkCommand.Proofs.Relaxed.Lexemes

**Lexemes of the grammar.** The scanner sees characters and no syntax, so each lemma says what has
to follow a piece of syntax for the scanner to stop where the piece does: after a number or a word,
a character that neither of them can go on with (`Bounded`). What the scanner looks ahead for is
not affected by gaps (`nextSignificant_gap`).
-/

namespace ZkCommand.Relaxed

open Text Grammar

/-! ### Characters -/

/-- A character that ends every number and every word. -/
def isBoundary (c : Char) : Bool :=
  c = ' ' || c = '\t' || c = '\r' || c = '\n' || c = '/' || c = ',' || c = ':' || c = ']'
    || c = '\x7d'

/-- No number and no word at the front of a text goes on in it. -/
def Bounded (s : List Char) : Prop := ∀ c ∈ s.head?, isBoundary c = true

theorem Bounded.cons {c : Char} (h : isBoundary c = true) (s : List Char) : Bounded (c :: s) := by
  intro d hd
  obtain rfl : c = d := Option.some.inj hd
  exact h

/-- A test that fails at every boundary fails at the front of a bounded text. -/
theorem Bounded.head_eq_false {s : List Char} (h : Bounded s) {test : Char → Bool}
    (fails : ∀ c, isBoundary c = true → test c = false) : s.head?.any test = false := by
  cases s with
  | nil => rfl
  | cons c rest => exact fails c (h c rfl)

theorem eq_of_isBoundary {c : Char} (h : isBoundary c = true) :
    c = ' ' ∨ c = '\t' ∨ c = '\r' ∨ c = '\n' ∨ c = '/' ∨ c = ',' ∨ c = ':' ∨ c = ']'
      ∨ c = '\x7d' := by
  simpa [isBoundary, or_assoc] using h

theorem isWordPart_of_isBoundary {c : Char} (h : isBoundary c = true) : isWordPart c = false := by
  rcases eq_of_isBoundary h with rfl | rfl | rfl | rfl | rfl | rfl | rfl | rfl | rfl <;> rfl

/-! ### What follows -/

theorem isBlank_of_visible {c : Char} (low : 0x20 < c.toNat) (high : c.toNat < 0x7f) :
    isBlank c = false := by
  simp only [isBlank, blankRanges, inRanges, List.any_cons, List.any_nil, Bool.or_false,
    Bool.or_eq_false_iff, Bool.and_eq_false_iff, decide_eq_false_iff_not]
  omega

theorem nextSignificant_blank {c : Char} (h : isBlank c = true) (s : List Char) :
    nextSignificant (c :: s) = nextSignificant s := by
  rw [nextSignificant, if_pos h]

theorem nextSignificant_visible {c : Char} (h : isBlank c = false) (slash : c ≠ '/')
    (s : List Char) : nextSignificant (c :: s) = some c := by
  rw [nextSignificant, if_neg (by rw [h]; decide), if_neg fun both => slash both.1,
    if_neg fun both => slash both.1]

/-- A line comment ends at a line break or at the end of the text. -/
theorem lineSpan_append {body s : List Char} (h : '\n' ∉ body)
    (stops : s.head?.any (fun c => decide (c ≠ '\n')) = false) :
    ∃ short, lineSpan (body ++ s) = ⟨body, s, short⟩ := by
  have inside : ∀ c ∈ body, decide (c ≠ '\n') = true := by
    intro c hc
    have other : c ≠ '\n' := fun same => h (same ▸ hc)
    exact decide_eq_true other
  obtain ⟨taken, left⟩ := takeWhile_append_of_head inside stops
  have short : s.length < (body ++ s).length + 1 := by
    rw [List.length_append]
    omega
  refine ⟨short, ?_⟩
  unfold lineSpan
  congr

theorem blockSpan_cons {c : Char} {t : List Char} (h : ¬ (c = '*' ∧ t.head? = some '/')) :
    blockSpan (c :: t) =
      (blockSpan t).map fun p => ⟨c :: p.value, p.rest, Nat.lt_succ_of_lt p.rest_lt⟩ := by
  refine blockSpan.eq_3 c t ?_
  rintro rest rfl rfl
  exact h ⟨rfl, rfl⟩

theorem closesBlock_cons {c : Char} {t : List Char} (h : closesBlock (c :: t) = false) :
    closesBlock t = false ∧ ¬ (c = '*' ∧ t.head? = some '/') := by
  have unmarked : ¬ (c = '*' ∧ t.head? = some '/') := by
    intro both
    obtain ⟨rfl, head⟩ := both
    obtain ⟨rest, rfl⟩ := List.head?_eq_some_iff.mp head
    cases h
  refine ⟨?_, unmarked⟩
  rw [closesBlock.eq_2 c t] at h
  · exact h
  · rintro rest rfl rfl
    exact unmarked ⟨rfl, rfl⟩

/-- A block comment ends at the first mark that ends one. -/
theorem blockSpan_append {body : List Char} (h : closesBlock body = false) (s : List Char) :
    ∃ short, blockSpan (body ++ '*' :: '/' :: s) = some ⟨body, s, short⟩ := by
  induction body with
  | nil => exact ⟨_, rfl⟩
  | cons c body ih =>
      obtain ⟨unclosed, unmarked⟩ := closesBlock_cons h
      have inner : ¬ (c = '*' ∧ (body ++ '*' :: '/' :: s).head? = some '/') := by
        intro both
        obtain ⟨rfl, head⟩ := both
        -- A `*` right before the mark is not itself followed by `/`.
        cases body with
        | nil => simp at head
        | cons d rest => exact unmarked ⟨rfl, head⟩
      obtain ⟨short, found⟩ := ih unclosed
      refine ⟨Nat.lt_succ_of_lt short, ?_⟩
      refine (blockSpan_cons inner).trans ?_
      rw [found, Option.map_some]

/-- Gaps are passed over when looking for what follows. -/
theorem nextSignificant_filler (f : Filler) (s : List Char) :
    nextSignificant (f.source ++ s) = nextSignificant s := by
  cases f with
  | space c isSpace =>
      refine nextSignificant_blank ?_ s
      rcases isSpace with rfl | rfl | rfl | rfl <;> rfl
  | line body oneLine =>
      have noBreak : '\n' ∉ '/' :: body := by simp [oneLine]
      obtain ⟨_, span⟩ := lineSpan_append (s := '\n' :: s) noBreak rfl
      have text : (Filler.line body oneLine).source ++ s = '/' :: ('/' :: body ++ '\n' :: s) := by
        simp [Filler.source]
      rw [text, nextSignificant, if_neg (by decide), if_pos ⟨rfl, rfl⟩, span]
      -- The line break is not in the span of the comment: it is passed over as white space.
      exact nextSignificant_blank rfl s
  | block body unclosed =>
      obtain ⟨_, span⟩ := blockSpan_append unclosed s
      have text : (Filler.block body unclosed).source ++ s
          = '/' :: '*' :: (body ++ '*' :: '/' :: s) := by
        simp [Filler.source]
      rw [text, nextSignificant, if_neg (by decide), if_neg fun both => by simp at both,
        if_pos ⟨rfl, rfl⟩, List.drop_one, List.tail_cons, afterBlock, span]

theorem nextSignificant_gap (gap : Gap) (s : List Char) :
    nextSignificant (gap.source ++ s) = nextSignificant s := by
  induction gap with
  | nil => rfl
  | cons f rest ih =>
      rw [Gap.source, List.flatMap_cons, List.append_assoc, nextSignificant_filler]
      exact ih

/-- A gap does not go on with a number or a word. -/
theorem Bounded.gap (gap : Gap) {s : List Char} (h : Bounded s) : Bounded (gap.source ++ s) := by
  cases gap with
  | nil => exact h
  | cons f rest =>
      cases f with
      | space c isSpace =>
          refine Bounded.cons ?_ _
          rcases isSpace with rfl | rfl | rfl | rfl <;> rfl
      | line body oneLine => exact Bounded.cons rfl _
      | block body unclosed => exact Bounded.cons rfl _

/-! ### First lexemes -/

/-- A text that starts with `c` has a first lexeme, and `s` is left. -/
def Takes (c : Char) (t : List Char) (lexeme : Lexeme) (s : List Char) : Prop :=
  ∃ short, Lexeme.first c t = .ok ⟨lexeme, s, short⟩

theorem takes_lineComment {body s : List Char} (h : '\n' ∉ body)
    (stops : s.head?.any (fun c => decide (c ≠ '\n')) = false) :
    Takes '/' ('/' :: (body ++ s)) (.lineComment body) s := by
  obtain ⟨short, span⟩ := lineSpan_append h stops
  have after : lineSpan (List.drop 1 ('/' :: (body ++ s))) = ⟨body, s, short⟩ := span
  refine ⟨Nat.lt_succ_of_lt short, ?_⟩
  rw [Lexeme.first, if_neg (by decide), if_pos ⟨rfl, rfl⟩]
  simp only [after]

theorem takes_blockComment {body : List Char} (h : closesBlock body = false) (s : List Char) :
    Takes '/' ('*' :: (body ++ '*' :: '/' :: s)) (.blockComment body) s := by
  obtain ⟨short, span⟩ := blockSpan_append h s
  have after : blockSpan (List.drop 1 ('*' :: (body ++ '*' :: '/' :: s))) = some ⟨body, s, short⟩ :=
    span
  refine ⟨Nat.lt_succ_of_lt (Nat.lt_succ_of_lt short), ?_⟩
  rw [Lexeme.first, if_neg (by decide), if_neg fun both => by simp at both, if_pos ⟨rfl, rfl⟩]
  simp only [after]

/-! ### Strings -/

/-- A text goes on with the body of a string and its closing delimiter, and `s` is left. -/
def Closes (delimiter : Char) (t body s : List Char) : Prop :=
  ∃ short, quotedSpan delimiter t = some ⟨body, s, short⟩

theorem closes_delimiter {delimiter : Char} (h : delimiter ≠ '\\') (s : List Char) :
    Closes delimiter (delimiter :: s) [] s := by
  refine ⟨by simp, ?_⟩
  rw [quotedSpan.eq_4 _ _ _ (fun c => absurd c h) (fun _ _ c => absurd c h), if_pos rfl]

theorem closes_plain {delimiter c : Char} {t body s : List Char} (bare : c ≠ '\\')
    (other : c ≠ delimiter) (h : Closes delimiter t body s) :
    Closes delimiter (c :: t) (c :: body) s := by
  obtain ⟨short, span⟩ := h
  refine ⟨Nat.lt_succ_of_lt short, ?_⟩
  rw [quotedSpan.eq_4 _ _ _ (fun same => absurd same bare) (fun _ _ same => absurd same bare),
    if_neg other, span, Option.map_some]

theorem closes_escape {delimiter c : Char} {t body s : List Char} (h : Closes delimiter t body s) :
    Closes delimiter ('\\' :: c :: t) ('\\' :: c :: body) s := by
  obtain ⟨short, span⟩ := h
  refine ⟨Nat.lt_succ_of_lt (Nat.lt_succ_of_lt short), ?_⟩
  rw [quotedSpan, span, Option.map_some]

namespace Grammar

theorem HexDigit.source_ne (d : HexDigit) :
    d.source ≠ '\\' ∧ d.source ≠ '"' ∧ d.source ≠ '\'' := by
  obtain ⟨value, capital⟩ := d
  revert value capital
  decide

end Grammar

theorem closes_code {delimiter : Char} (quote : delimiter = '"' ∨ delimiter = '\'') (code : Code)
    {t body s : List Char} (h : Closes delimiter t body s) :
    Closes delimiter ('\\' :: 'u' :: (code.source ++ t))
      ('\\' :: 'u' :: (code.source ++ body)) s := by
  have digit : ∀ (d : HexDigit) {t body : List Char}, Closes delimiter t body s →
      Closes delimiter (d.source :: t) (d.source :: body) s := by
    intro d t body h
    obtain ⟨bare, double, single⟩ := d.source_ne
    refine closes_plain bare ?_ h
    rcases quote with rfl | rfl
    · exact double
    · exact single
  exact closes_escape (digit _ (digit _ (digit _ (digit _ h))))

theorem closes_piece {delimiter : Char} (quote : delimiter = '"' ∨ delimiter = '\'')
    (p : Piece delimiter) {t body s : List Char} (h : Closes delimiter t body s) :
    Closes delimiter (p.source ++ t) (p.source ++ body) s := by
  cases p with
  | plain c printable ordinary => exact closes_plain ordinary.1 ordinary.2 h
  | letter e => exact closes_escape h
  | apostrophe => exact closes_escape h
  | code digits scalar => exact closes_code quote digits h
  | pair high low isHigh isLow =>
      have both := closes_code quote high (closes_code quote low h)
      simp only [Piece.source, List.cons_append, List.append_assoc]
      exact both

/-- A string ends at the first delimiter that no backslash takes with it. -/
theorem closes_pieces {delimiter : Char} (quote : delimiter = '"' ∨ delimiter = '\'')
    (pieces : List (Piece delimiter)) (s : List Char) :
    Closes delimiter (pieces.flatMap Piece.source ++ delimiter :: s)
      (pieces.flatMap Piece.source) s := by
  induction pieces with
  | nil =>
      refine closes_delimiter ?_ s
      rcases quote with rfl | rfl <;> decide
  | cons p rest ih =>
      rw [List.flatMap_cons, List.append_assoc]
      exact closes_piece quote p ih

theorem takes_of_closes {delimiter : Char} (quote : delimiter = '"' ∨ delimiter = '\'')
    {t body s : List Char} (h : Closes delimiter t body s) :
    Takes delimiter t (.quoted delimiter body) s := by
  obtain ⟨short, span⟩ := h
  refine ⟨Nat.lt_succ_of_lt short, ?_⟩
  rw [Lexeme.first, if_pos quote]
  simp only [span]

theorem takes_quoted (q : Quoted) (s : List Char) :
    Takes q.delimiter (q.pieces.flatMap Piece.source ++ q.delimiter :: s)
      (.quoted q.delimiter (q.pieces.flatMap Piece.source)) s :=
  takes_of_closes q.isQuote (closes_pieces q.isQuote q.pieces s)

/-! ### Numbers -/

/-- A number goes on with a character after another one. -/
def goesOn (previous c : Char) : Bool :=
  c.isDigit || c = '.' || c = 'e' || c = 'E'
    || ((c = '+' || c = '-') && (previous = 'e' || previous = 'E'))

/-- Every character of a run goes on with the number that ends right before the run. -/
def Runs : Char → List Char → Prop
  | _, [] => True
  | previous, c :: run => goesOn previous c = true ∧ Runs c run

theorem runs_digits {digits run : List Char} (all : ∀ c ∈ digits, c.isDigit = true)
    (h : ∀ previous, Runs previous run) (previous : Char) : Runs previous (digits ++ run) := by
  induction digits generalizing previous with
  | nil => exact h previous
  | cons d rest ih =>
      have digit : d.isDigit = true := all d List.mem_cons_self
      refine ⟨by rw [goesOn, digit]; rfl, ih (fun c hc => all c (List.mem_cons_of_mem d hc)) d⟩

theorem goesOn_of_isBoundary {c : Char} (h : isBoundary c = true) (previous : Char) :
    goesOn previous c = false := by
  rcases eq_of_isBoundary h with rfl | rfl | rfl | rfl | rfl | rfl | rfl | rfl | rfl <;> rfl

theorem numberSpan_run {previous : Char} {run s : List Char} (h : Runs previous run)
    (stops : ∀ p, s.head?.any (goesOn p) = false) :
    ∃ short, numberSpan previous (run ++ s) = ⟨run, s, short⟩ := by
  -- Whether a sign goes on with the number depends on the character before it, so the claim is
  -- about every such character.
  induction run generalizing previous with
  | nil =>
      cases s with
      | nil => exact ⟨_, rfl⟩
      | cons c rest =>
          have stop : ¬ goesOn previous c = true := by simpa using stops previous
          exact ⟨_, if_neg stop⟩
  | cons c run ih =>
      obtain ⟨short, span⟩ := ih h.2
      have unfolded : numberSpan previous (c :: (run ++ s)) =
          ⟨c :: (numberSpan c (run ++ s)).value, (numberSpan c (run ++ s)).rest,
            Nat.lt_succ_of_lt (numberSpan c (run ++ s)).rest_lt⟩ := if_pos h.1
      refine ⟨Nat.lt_succ_of_lt short, unfolded.trans ?_⟩
      simp only [span]

/-- A number starts with `c` and a text: with a digit, or with a minus sign before one. -/
abbrev StartsNumber (c : Char) (t : List Char) : Prop :=
  c.isDigit = true ∨ (c = '-' ∧ t.head?.any Char.isDigit = true)

theorem isDigit_or_minus {c : Char} {t : List Char} (h : StartsNumber c t) :
    ¬ (c = '"' ∨ c = '\'') ∧ c ≠ '/' ∧ c ≠ ',' := by
  have digit : c.isDigit = true ∨ c = '-' := h.imp_right And.left
  refine ⟨?_, ?_, ?_⟩
  · rintro (rfl | rfl) <;> revert digit <;> decide
  · intro same
    subst same
    revert digit
    decide
  · intro same
    subst same
    revert digit
    decide

/-- The first lexeme of a text that starts like a number. -/
theorem first_number {c : Char} {t : List Char} (h : StartsNumber c t) :
    Lexeme.first c t = .ok (numberLexeme c t) := by
  obtain ⟨quote, slash, comma⟩ := isDigit_or_minus h
  rw [Lexeme.first, if_neg quote, if_neg fun both => slash both.1, if_neg fun both => slash both.1,
    if_neg comma, if_pos h]

/-- A number whose characters have been found and that has no suffix. -/
theorem takes_number_of_span {c : Char} {t run s : List Char} (start : StartsNumber c t)
    (span : ∃ short, numberSpan c t = ⟨run, s, short⟩)
    (unsuffixed : (isPlainInteger (c :: run) && startsWithSuffix s) = false) :
    Takes c t (.number (c :: run) false) s := by
  obtain ⟨short, span⟩ := span
  refine ⟨short, ?_⟩
  rw [first_number start, numberLexeme]
  simp only [span, unsuffixed, Bool.false_eq_true, if_false]

/-- A number whose characters have been found before its suffix. -/
theorem takes_big_of_span {c : Char} {t run s : List Char} (start : StartsNumber c t)
    (span : ∃ short, numberSpan c t = ⟨run, 'n' :: s, short⟩)
    (plain : isPlainInteger (c :: run) = true) (stop : s.head?.any isWordPart = false) :
    Takes c t (.number (c :: run) true) s := by
  obtain ⟨short, span⟩ := span
  have suffixed : startsWithSuffix ('n' :: s) = true := by
    simp [startsWithSuffix, stop]
  refine ⟨Nat.lt_of_succ_lt short, ?_⟩
  rw [first_number start, numberLexeme]
  simp only [span, suffixed, plain, Bool.and_true, if_true, List.drop_one, List.tail_cons]

theorem takes_number {c : Char} {run s : List Char} (start : StartsNumber c (run ++ s))
    (h : Runs c run) (bounded : Bounded s) :
    Takes c (run ++ s) (.number (c :: run) false) s := by
  refine takes_number_of_span start (numberSpan_run h fun previous =>
    bounded.head_eq_false fun _ hd => goesOn_of_isBoundary hd previous) ?_
  -- A boundary is no `n`, so that the number is not taken for a big integer.
  have other : s.head? ≠ some 'n' := fun head => absurd (bounded 'n' head) (by decide)
  simp [startsWithSuffix, other]

theorem takes_big {c : Char} {run s : List Char} (start : StartsNumber c (run ++ 'n' :: s))
    (h : Runs c run) (plain : isPlainInteger (c :: run) = true) (bounded : Bounded s) :
    Takes c (run ++ 'n' :: s) (.number (c :: run) true) s :=
  takes_big_of_span start (numberSpan_run (s := 'n' :: s) h fun _ => rfl) plain
    (bounded.head_eq_false fun _ hd => isWordPart_of_isBoundary hd)

/-! ### Words -/

theorem wordStart_ne {c : Char} (h : isWordStart c = true) :
    ¬ (c = '"' ∨ c = '\'') ∧ c ≠ '/' ∧ c ≠ ',' ∧ c ≠ '-' := by
  refine ⟨?_, ?_, ?_, ?_⟩
  · rintro (rfl | rfl) <;> revert h <;> decide
  · intro same
    subst same
    revert h
    decide
  · intro same
    subst same
    revert h
    decide
  · intro same
    subst same
    revert h
    decide

theorem toNat_of_isWordStart {c : Char} (h : isWordStart c = true) :
    (65 ≤ c.toNat ∧ c.toNat ≤ 90) ∨ (97 ≤ c.toNat ∧ c.toNat ≤ 122) ∨ c.toNat = 95
      ∨ c.toNat = 36 := by
  simp only [isWordStart, Bool.or_eq_true, decide_eq_true_eq] at h
  rcases h with (alpha | rfl) | rfl
  · have range : (65 ≤ c.toNat ∧ c.toNat ≤ 90) ∨ (97 ≤ c.toNat ∧ c.toNat ≤ 122) := by
      rcases (Bool.or_eq_true _ _).mp alpha with upper | lower
      · have bounds : 'A'.val ≤ c.val ∧ c.val ≤ 'Z'.val := of_decide_eq_true upper
        exact Or.inl ⟨UInt32.le_iff_toNat_le.mp bounds.1, UInt32.le_iff_toNat_le.mp bounds.2⟩
      · obtain ⟨least, greatest⟩ := (Bool.and_eq_true _ _).mp lower
        have bounds : 'a'.val ≤ c.val ∧ c.val ≤ 'z'.val :=
          ⟨of_decide_eq_true least, of_decide_eq_true greatest⟩
        exact Or.inr ⟨UInt32.le_iff_toNat_le.mp bounds.1, UInt32.le_iff_toNat_le.mp bounds.2⟩
    omega
  · decide
  · decide

theorem takes_word_of_stop {c : Char} {rest s : List Char} (start : isWordStart c = true)
    (parts : ∀ d ∈ rest, isWordPart d = true) (stop : s.head?.any isWordPart = false) :
    Takes c (rest ++ s) (.word (c :: rest)) s := by
  obtain ⟨quote, slash, comma, sign⟩ := wordStart_ne start
  obtain ⟨taken, left⟩ := takeWhile_append_of_head parts stop
  have noNumber : ¬ StartsNumber c (rest ++ s) := by
    rintro (digit | ⟨same, -⟩)
    · have low := toNat_of_isDigit digit
      have high := toNat_of_isWordStart start
      omega
    · exact sign same
  have short : s.length < (rest ++ s).length + 1 := by
    rw [List.length_append]
    omega
  refine ⟨short, ?_⟩
  rw [Lexeme.first, if_neg quote, if_neg fun both => slash both.1, if_neg fun both => slash both.1,
    if_neg comma, if_neg noNumber, if_pos start]
  simp only [taken, left]

theorem takes_word {c : Char} {rest s : List Char} (start : isWordStart c = true)
    (parts : ∀ d ∈ rest, isWordPart d = true) (bounded : Bounded s) :
    Takes c (rest ++ s) (.word (c :: rest)) s :=
  takes_word_of_stop start parts (bounded.head_eq_false fun _ hd => isWordPart_of_isBoundary hd)

end ZkCommand.Relaxed
