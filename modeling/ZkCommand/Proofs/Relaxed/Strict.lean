import ZkCommand.Proofs.Relaxed.Lexemes

/-!
# ZkCommand.Proofs.Relaxed.Strict

**Normalising a text of the grammar.** For every piece of syntax, `strict` is the JSON text that
normalising makes of it, lexeme by lexeme: comments leave their line breaks, strings get double
quotes, names get quotes, suffixes and trailing commas go. `normalise_document` says so of a whole
text.
-/

namespace ZkCommand.Relaxed

namespace Grammar

/-! ### Normal forms -/

/-- The JSON text of a filler: comments leave their line breaks. -/
def Filler.strict : Filler → List Char
  | .space c _ => [c]
  | .line _ _ => ['\n']
  | .block body _ => body.filter (· = '\n')

/-- The JSON text of a gap. -/
def Gap.strict (gap : Gap) : List Char := gap.flatMap Filler.strict

/-- The JSON text of a piece of a string. -/
def Piece.strict {delimiter : Char} : Piece delimiter → List Char
  | .plain c _ _ => if c = '"' then ['\\', '"'] else [c]
  | .apostrophe => ['\'']
  | p => p.source

/-- The JSON text of a string. -/
def Quoted.strict (q : Quoted) : List Char := '"' :: (q.pieces.flatMap Piece.strict ++ ['"'])

/-- The JSON text of a key. -/
def Key.strict : Key → List Char
  | .name word => '"' :: (word.first :: word.rest ++ ['"'])
  | .quoted q => q.strict

/-- The JSON text of a trailing comma and the gap after it. -/
def trailingStrict : Option Gap → List Char
  | none => []
  | some gap => gap.strict

mutual

/-- The JSON text of a value. -/
def Value.strict : Value → List Char
  | .undefined => ['n', 'u', 'l', 'l']
  | .big n => n.source
  | .string q => q.strict
  | .emptyList inside => '[' :: (inside.strict ++ [']'])
  | .list items => '[' :: (items.strict ++ [']'])
  | .emptyMapping inside => '\x7b' :: (inside.strict ++ ['\x7d'])
  | .mapping entries => '\x7b' :: (entries.strict ++ ['\x7d'])
  | v => v.source

/-- The JSON text between the brackets of a list. -/
def Items.strict : Items → List Char
  | .last before value after trailing =>
      before.strict ++ value.strict ++ after.strict ++ trailingStrict trailing
  | .more before value after rest =>
      before.strict ++ value.strict ++ after.strict ++ ',' :: rest.strict

/-- The JSON text between the braces of a mapping. -/
def Entries.strict : Entries → List Char
  | .last before key afterKey beforeValue value after trailing =>
      before.strict ++ key.strict ++ afterKey.strict ++ ':' :: (beforeValue.strict ++ value.strict
        ++ after.strict ++ trailingStrict trailing)
  | .more before key afterKey beforeValue value after rest =>
      before.strict ++ key.strict ++ afterKey.strict ++ ':' :: (beforeValue.strict ++ value.strict
        ++ after.strict ++ ',' :: rest.strict)

end

end Grammar

open Text Grammar

/-- Normalising the body of a string normalises its pieces. -/
theorem strictBody_piece {delimiter : Char} (p : Piece delimiter) (t : List Char) :
    strictBody (p.source ++ t) = p.strict ++ strictBody t := by
  -- A hexadecimal digit is neither a quote nor a backslash, and so it stays.
  have digit : ∀ (d : HexDigit) (t : List Char),
      strictBody (d.source :: t) = d.source :: strictBody t := by
    intro d t
    obtain ⟨bare, double, -⟩ := d.source_ne
    exact strictBody.eq_5 _ _ (fun _ same => absurd same bare) (fun _ _ same => absurd same bare)
      double
  have digits : ∀ (code : Code) (t : List Char),
      strictBody (code.source ++ t) = code.source ++ strictBody t := by
    intro code t
    simp only [Code.source, List.cons_append, List.nil_append, digit]
  cases p with
  | plain c printable ordinary =>
      obtain ⟨bare, -⟩ := ordinary
      rw [Piece.strict]
      split
      · rename_i double
        obtain rfl := double
        exact strictBody.eq_4 t
      · rename_i double
        exact strictBody.eq_5 _ _ (fun _ same => absurd same bare)
          (fun _ _ same => absurd same bare) double
  | letter e => cases e <;> rfl
  | apostrophe => rfl
  | code code scalar =>
      show strictBody ('\\' :: 'u' :: (code.source ++ t)) = _
      rw [strictBody.eq_3 _ _ (by decide), digits]
      rfl
  | pair high low isHigh isLow =>
      have text : (Piece.pair high low isHigh isLow : Piece delimiter).source ++ t
          = '\\' :: 'u' :: (high.source ++ '\\' :: 'u' :: (low.source ++ t)) := by
        simp [Piece.source]
      rw [text, strictBody.eq_3 _ _ (by decide), digits, strictBody.eq_3 _ _ (by decide), digits]
      simp [Piece.strict, Piece.source]

theorem strictBody_pieces {delimiter : Char} (pieces : List (Piece delimiter)) :
    strictBody (pieces.flatMap Piece.source) = pieces.flatMap Piece.strict := by
  induction pieces with
  | nil => rfl
  | cons p rest ih => rw [List.flatMap_cons, List.flatMap_cons, strictBody_piece, ih]

/-! ### Normalising -/

/-- Normalising a text that goes on with `s` turns its front `x` into `y`. -/
def Normalises (x y s : List Char) : Prop :=
  normalise (x ++ s) = (normalise s).map fun tail => y ++ tail

theorem Normalises.nil (s : List Char) : Normalises [] [] s := by
  show normalise s = (normalise s).map fun tail => [] ++ tail
  cases normalise s <;> rfl

theorem Normalises.append {x y x' y' s : List Char} (h : Normalises x y (x' ++ s))
    (h' : Normalises x' y' s) : Normalises (x ++ x') (y ++ y') s := by
  unfold Normalises at h h' ⊢
  rw [List.append_assoc, h, h']
  cases normalise s with
  | error unclosed => rfl
  | ok tail => simp [Except.map]

theorem Normalises.lexeme {c : Char} {t s : List Char} {lexeme : Lexeme}
    (h : Takes c t lexeme s) :
    normalise (c :: t) = (normalise s).map fun tail => lexeme.strict s ++ tail := by
  obtain ⟨short, first⟩ := h
  rw [normalise, first]
  cases hs : normalise s with
  | error unclosed => simp [bind, Except.bind, Except.map, hs]
  | ok tail => simp [bind, Except.bind, Except.map, hs]

theorem takes_symbol {c : Char}
    (h : c ∈ [' ', '\t', '\r', '\n', '[', ']', '\x7b', '\x7d', ':']) (s : List Char) :
    Takes c s (.symbol c) s := by
  simp only [List.mem_cons, List.not_mem_nil, or_false] at h
  rcases h with rfl | rfl | rfl | rfl | rfl | rfl | rfl | rfl | rfl <;> exact ⟨_, rfl⟩

/-- White space, brackets, braces and colons stay. -/
theorem normalises_symbol {c : Char}
    (h : c ∈ [' ', '\t', '\r', '\n', '[', ']', '\x7b', '\x7d', ':']) (s : List Char) :
    Normalises [c] [c] s :=
  Normalises.lexeme (takes_symbol h s)

theorem takes_comma (s : List Char) : Takes ',' s .comma s := ⟨_, rfl⟩

/-- A comma stays if something other than a closing bracket or brace follows. -/
theorem normalises_comma {s : List Char} {c : Char} (next : nextSignificant s = some c)
    (open_ : c ≠ '\x7d' ∧ c ≠ ']') : Normalises [','] [','] s := by
  have kept : Lexeme.comma.strict s = [','] := by
    rw [Lexeme.strict, if_neg]
    rw [next]
    rintro (same | same)
    · exact open_.1 (Option.some.inj same)
    · exact open_.2 (Option.some.inj same)
  have whole := Normalises.lexeme (takes_comma s)
  rwa [kept] at whole

/-- A trailing comma goes. -/
theorem normalises_trailing {s : List Char}
    (next : nextSignificant s = some '\x7d' ∨ nextSignificant s = some ']') :
    Normalises [','] [] s := by
  have dropped : Lexeme.comma.strict s = [] := by
    rw [Lexeme.strict, if_pos next]
  have whole := Normalises.lexeme (takes_comma s)
  rwa [dropped] at whole

/-! ### Gaps -/

theorem normalises_filler (f : Filler) (s : List Char) : Normalises f.source f.strict s := by
  cases f with
  | space c isSpace =>
      refine normalises_symbol ?_ s
      rcases isSpace with rfl | rfl | rfl | rfl <;> decide
  | line body oneLine =>
      have comment : Normalises ('/' :: '/' :: body) [] ('\n' :: s) :=
        Normalises.lexeme (takes_lineComment oneLine rfl)
      have whole := comment.append (normalises_symbol (c := '\n') (by decide) s)
      exact whole
  | block body unclosed =>
      have comment : normalise ('/' :: '*' :: (body ++ '*' :: '/' :: s)) = _ :=
        Normalises.lexeme (takes_blockComment unclosed s)
      unfold Normalises
      simp only [Filler.source, List.cons_append, List.append_assoc, List.nil_append]
      exact comment

theorem normalises_gap (gap : Gap) (s : List Char) : Normalises gap.source gap.strict s := by
  induction gap with
  | nil => exact Normalises.nil s
  | cons f rest ih =>
      rw [Gap.source, Gap.strict, List.flatMap_cons, List.flatMap_cons]
      exact (normalises_filler f _).append ih

/-! ### Strings, keys and words -/

theorem normalises_quoted (q : Quoted) (s : List Char) : Normalises q.source q.strict s := by
  have whole := Normalises.lexeme (takes_quoted q s)
  rw [Lexeme.strict, strictBody_pieces] at whole
  unfold Normalises
  simp only [Quoted.source, List.cons_append, List.append_assoc, List.nil_append]
  exact whole

/-- A word before a colon gets quotes. -/
theorem normalises_key (key : Key) {s : List Char} (bounded : Bounded s)
    (colon : nextSignificant s = some ':') : Normalises key.source key.strict s := by
  cases key with
  | quoted q => exact normalises_quoted q s
  | name word =>
      have start : isWordStart word.first = true := by
        simpa [isWordStart, or_assoc] using word.isStart
      have parts : ∀ d ∈ word.rest, isWordPart d = true := by
        intro d hd
        simpa [isWordPart, or_assoc] using word.areParts d hd
      have whole := Normalises.lexeme (takes_word start parts bounded)
      rw [Lexeme.strict, strictWord, if_pos colon] at whole
      exact whole

/-- Any other word stays, except for one. -/
theorem normalises_word {c : Char} {t s : List Char} (start : isWordStart c = true)
    (parts : t.all isWordPart = true) (bounded : Bounded s)
    (next : nextSignificant s ≠ some ':') :
    Normalises (c :: t)
      (if c :: t = "undefined".toList then "null".toList else c :: t) s := by
  have whole := Normalises.lexeme (takes_word start (List.all_eq_true.mp parts) bounded)
  rw [Lexeme.strict, strictWord, if_neg next] at whole
  exact whole

/-! ### Numbers -/

theorem runs_fraction (fraction : Option Digits) {tail : List Char}
    (h : ∀ previous, Runs previous tail) (previous : Char) :
    Runs previous (fractionSource fraction ++ tail) := by
  cases fraction with
  | none => exact h previous
  | some digits => exact ⟨rfl, runs_digits digits.areDigits h '.'⟩

theorem runs_exponent (exponent : Option Exponent) (previous : Char) :
    Runs previous ((exponent.map Exponent.source).getD []) := by
  cases exponent with
  | none => trivial
  | some e =>
      obtain ⟨capital, sign, digits⟩ := e
      have all : ∀ previous, Runs previous digits.chars := by
        intro previous
        have nothing : ∀ previous, Runs previous [] := fun _ => trivial
        have run := runs_digits digits.areDigits nothing previous
        rwa [List.append_nil] at run
      cases sign with
      | none => cases capital <;> exact ⟨rfl, all _⟩
      | some negative => cases capital <;> cases negative <;> exact ⟨rfl, rfl, all _⟩

/-- An integer at the front of a number, as its first character and a run. -/
theorem Grammar.Integer.starts (n : Integer) {t : List Char}
    (h : ∀ previous, Runs previous t) :
    ∃ c run, n.source ++ t = c :: run ∧ Runs c run ∧ ∀ s, StartsNumber c (run ++ s) := by
  obtain ⟨negative, ⟨chars, nonempty, areDigits⟩, noLeadingZero⟩ := n
  cases chars with
  | nil => exact absurd rfl nonempty
  | cons d ds =>
      have digit : d.isDigit = true := areDigits d List.mem_cons_self
      have others := runs_digits (fun c hc => areDigits c (List.mem_cons_of_mem d hc)) h
      cases negative with
      | false => exact ⟨d, ds ++ t, rfl, others d, fun s => Or.inl digit⟩
      | true =>
          refine ⟨'-', d :: (ds ++ t), rfl, ⟨?_, others d⟩, fun s => Or.inr ⟨rfl, digit⟩⟩
          rw [goesOn, digit]
          rfl

theorem Grammar.Integer.isPlain (n : Integer) : isPlainInteger n.source = true := by
  obtain ⟨negative, ⟨chars, nonempty, areDigits⟩, noLeadingZero⟩ := n
  have all : chars.all Char.isDigit = true := List.all_eq_true.mpr areDigits
  cases negative with
  | true => exact all
  | false =>
      cases chars with
      | nil => rfl
      | cons d ds =>
          have digit : d.isDigit = true := areDigits d List.mem_cons_self
          show isPlainInteger (d :: ds) = true
          rw [isPlainInteger.eq_2 _ fun rest same => ?_]
          · exact all
          · obtain rfl : d = '-' := by injection same
            revert digit
            decide

theorem normalises_number (n : Number) {s : List Char} (bounded : Bounded s) :
    Normalises n.source n.source s := by
  have tail : ∀ previous, Runs previous
      (fractionSource n.fraction ++ (n.exponent.map Exponent.source).getD []) :=
    runs_fraction n.fraction (runs_exponent n.exponent)
  obtain ⟨c, run, text, runs, start⟩ := n.whole.starts tail
  rw [Number.source, List.append_assoc, text]
  exact Normalises.lexeme (takes_number (start s) runs bounded)

/-- The suffix of an integer goes. -/
theorem normalises_big (n : Integer) {s : List Char} (bounded : Bounded s) :
    Normalises (n.source ++ ['n']) n.source s := by
  obtain ⟨c, run, text, runs, start⟩ := n.starts (t := []) fun _ => trivial
  have plain := n.isPlain
  rw [List.append_nil] at text
  rw [text] at plain ⊢
  have whole := Normalises.lexeme (takes_big (start ('n' :: s)) runs plain bounded)
  unfold Normalises
  simp only [List.cons_append, List.append_assoc, List.nil_append]
  exact whole

/-! ### What values start with -/

/-- A text starts with a visible character that opens no comment and closes nothing. -/
def Opens (t : List Char) : Prop :=
  ∃ c rest, t = c :: rest ∧ isBlank c = false ∧ c ≠ '/' ∧ c ≠ ':' ∧ c ≠ ']' ∧ c ≠ '\x7d'

theorem Opens.append {t : List Char} (h : Opens t) (s : List Char) : Opens (t ++ s) := by
  obtain ⟨c, rest, rfl, hc⟩ := h
  exact ⟨c, rest ++ s, rfl, hc⟩

theorem Opens.next {t : List Char} (h : Opens t) :
    ∃ c, nextSignificant t = some c ∧ c ≠ ':' ∧ c ≠ '\x7d' ∧ c ≠ ']' := by
  obtain ⟨c, rest, rfl, visible, slash, colon, bracket, brace⟩ := h
  exact ⟨c, nextSignificant_visible visible slash rest, colon, brace, bracket⟩

theorem opens_digit {c : Char} {t : List Char} (h : c.isDigit = true ∨ c = '-') :
    Opens (c :: t) := by
  refine ⟨c, t, rfl, ?_⟩
  rcases h with digit | rfl
  · have range := toNat_of_isDigit digit
    refine ⟨isBlank_of_visible (by omega) (by omega), ?_, ?_, ?_, ?_⟩ <;> rintro rfl <;>
      revert digit <;> decide
  · decide

theorem opens_word {c : Char} {t : List Char} (h : isWordStart c = true) : Opens (c :: t) := by
  have range := toNat_of_isWordStart h
  refine ⟨c, t, rfl, isBlank_of_visible (by omega) (by omega), ?_, ?_, ?_, ?_⟩ <;> rintro rfl <;>
    revert h <;> decide

theorem opens_quoted (q : Quoted) : Opens q.source := by
  obtain ⟨delimiter, isQuote, pieces⟩ := q
  refine ⟨delimiter, _, rfl, ?_⟩
  rcases isQuote with rfl | rfl <;> decide

theorem opens_integer (n : Integer) (tail : List Char) : Opens (n.source ++ tail) := by
  obtain ⟨c, run, text, -, start⟩ := n.starts (t := []) fun _ => trivial
  rw [List.append_nil] at text
  rw [text]
  exact opens_digit ((start []).imp_right And.left)

theorem opens_key (key : Key) : Opens key.source := by
  cases key with
  | name word =>
      refine opens_word ?_
      simpa [isWordStart, or_assoc] using word.isStart
  | quoted q => exact opens_quoted q

theorem opens_value (v : Value) : Opens v.source := by
  cases v with
  | null => exact opens_word (by decide)
  | undefined => exact opens_word (by decide)
  | bool b => cases b <;> exact opens_word (by decide)
  | number n =>
      rw [Value.source, Number.source, List.append_assoc]
      exact opens_integer n.whole _
  | big n => exact opens_integer n _
  | string q => exact opens_quoted q
  | emptyList inside => exact ⟨'[', _, rfl, by decide⟩
  | list items => exact ⟨'[', _, rfl, by decide⟩
  | emptyMapping inside => exact ⟨'\x7b', _, rfl, by decide⟩
  | mapping entries => exact ⟨'\x7b', _, rfl, by decide⟩

/-- The first significant character of the items of a list is that of the first item. -/
theorem next_items (items : Items) (s : List Char) :
    ∃ c, nextSignificant (items.source ++ s) = some c ∧ c ≠ '\x7d' ∧ c ≠ ']' := by
  cases items with
  | last before value after trailing =>
      obtain ⟨c, next, -, both⟩ := ((opens_value value).append
        (after.source ++ (trailingSource trailing ++ s))).next
      refine ⟨c, ?_, both⟩
      simp only [Items.source, List.append_assoc, nextSignificant_gap]
      exact next
  | more before value after rest =>
      obtain ⟨c, next, -, both⟩ := ((opens_value value).append
        (after.source ++ ',' :: (rest.source ++ s))).next
      refine ⟨c, ?_, both⟩
      simp only [Items.source, List.append_assoc, nextSignificant_gap, List.cons_append]
      exact next

theorem next_entries (entries : Entries) (s : List Char) :
    ∃ c, nextSignificant (entries.source ++ s) = some c ∧ c ≠ '\x7d' ∧ c ≠ ']' := by
  cases entries with
  | last before key afterKey beforeValue value after trailing =>
      obtain ⟨c, next, -, both⟩ := ((opens_key key).append (afterKey.source ++ ':' ::
        (beforeValue.source ++ (value.source ++
          (after.source ++ (trailingSource trailing ++ s)))))).next
      refine ⟨c, ?_, both⟩
      simp only [Entries.source, List.append_assoc, nextSignificant_gap, List.cons_append]
      exact next
  | more before key afterKey beforeValue value after rest =>
      obtain ⟨c, next, -, both⟩ := ((opens_key key).append (afterKey.source ++ ':' ::
        (beforeValue.source ++ (value.source ++ (after.source ++ ',' :: (rest.source ++ s)))))).next
      refine ⟨c, ?_, both⟩
      simp only [Entries.source, List.append_assoc, nextSignificant_gap, List.cons_append]
      exact next

/-! ### Values -/

/-- A closing bracket or brace. -/
def Closing (c : Char) : Prop := c = ']' ∨ c = '\x7d'

theorem next_closing {c : Char} (h : Closing c) (s : List Char) :
    nextSignificant (c :: s) = some c := by
  rcases h with rfl | rfl <;> exact nextSignificant_visible rfl (by decide) s

/-- What ends the last item of a list or the last entry of a mapping ends its value. -/
theorem trailing_ends (trailing : Option Gap) {c : Char} (h : Closing c) (s : List Char) :
    Bounded (trailingSource trailing ++ c :: s) ∧
      nextSignificant (trailingSource trailing ++ c :: s) ≠ some ':' := by
  cases trailing with
  | none =>
      refine ⟨Bounded.cons ?_ s, ?_⟩
      · rcases h with rfl | rfl <;> rfl
      · show nextSignificant (c :: s) ≠ some ':'
        rw [next_closing h]
        rcases h with rfl | rfl <;> decide
  | some gap =>
      refine ⟨Bounded.cons rfl _, ?_⟩
      show nextSignificant (',' :: (gap.source ++ c :: s)) ≠ some ':'
      rw [nextSignificant_visible rfl (by decide)]
      decide

theorem normalises_trailingSource (trailing : Option Gap) {c : Char} (h : Closing c)
    (s : List Char) :
    Normalises (trailingSource trailing) (trailingStrict trailing) (c :: s) := by
  cases trailing with
  | none => exact Normalises.nil _
  | some gap =>
      have next : nextSignificant (gap.source ++ c :: s) = some '\x7d' ∨
          nextSignificant (gap.source ++ c :: s) = some ']' := by
        rw [nextSignificant_gap, next_closing h]
        rcases h with rfl | rfl
        · exact Or.inr rfl
        · exact Or.inl rfl
      exact (normalises_trailing next).append (normalises_gap gap _)

/-- What comes after an item or an entry that is not the last one ends its value. -/
theorem comma_ends (after : Gap) (s : List Char) :
    Bounded (after.source ++ ',' :: s) ∧ nextSignificant (after.source ++ ',' :: s) ≠ some ':' := by
  refine ⟨Bounded.gap after (Bounded.cons rfl s), ?_⟩
  rw [nextSignificant_gap, nextSignificant_visible rfl (by decide)]
  decide

theorem colon_ends (afterKey : Gap) (s : List Char) :
    Bounded (afterKey.source ++ ':' :: s) ∧
      nextSignificant (afterKey.source ++ ':' :: s) = some ':' := by
  refine ⟨Bounded.gap afterKey (Bounded.cons rfl s), ?_⟩
  rw [nextSignificant_gap, nextSignificant_visible rfl (by decide)]

mutual

/-- **A value is normalised to its JSON text** wherever something follows that ends it. -/
theorem normalises_value (v : Value) {s : List Char} (bounded : Bounded s)
    (next : nextSignificant s ≠ some ':') : Normalises v.source v.strict s :=
  match v with
  | .null => normalises_word (c := 'n') (t := ['u', 'l', 'l']) rfl (by decide) bounded next
  | .undefined =>
      normalises_word (c := 'u') (t := ['n', 'd', 'e', 'f', 'i', 'n', 'e', 'd']) rfl (by decide)
        bounded next
  | .bool true => normalises_word (c := 't') (t := ['r', 'u', 'e']) rfl (by decide) bounded next
  | .bool false =>
      normalises_word (c := 'f') (t := ['a', 'l', 's', 'e']) rfl (by decide) bounded next
  | .number n => normalises_number n bounded
  | .big n => normalises_big n bounded
  | .string q => normalises_quoted q s
  | .emptyList inside =>
      (normalises_symbol (c := '[') (by decide) _).append
        ((normalises_gap inside _).append (normalises_symbol (c := ']') (by decide) s))
  | .list items =>
      (normalises_symbol (c := '[') (by decide) _).append
        ((normalises_items items s).append (normalises_symbol (c := ']') (by decide) s))
  | .emptyMapping inside =>
      (normalises_symbol (c := '\x7b') (by decide) _).append
        ((normalises_gap inside _).append (normalises_symbol (c := '\x7d') (by decide) s))
  | .mapping entries =>
      (normalises_symbol (c := '\x7b') (by decide) _).append
        ((normalises_entries entries s).append (normalises_symbol (c := '\x7d') (by decide) s))

theorem normalises_items (items : Items) (s : List Char) :
    Normalises items.source items.strict (']' :: s) :=
  match items with
  | .last before value after trailing => by
      obtain ⟨bounded, next⟩ := trailing_ends trailing (Or.inl rfl) s
      have item := normalises_value value (Bounded.gap after bounded)
        (by rw [nextSignificant_gap]; exact next)
      have front := (normalises_gap before _).append item
      have whole := front.append (normalises_gap after _)
      exact whole.append (normalises_trailingSource trailing (Or.inl rfl) s)
  | .more before value after rest => by
      obtain ⟨bounded, next⟩ := comma_ends after (rest.source ++ ']' :: s)
      -- The comma stays: the next item opens with a character that closes nothing.
      obtain ⟨c, following, brace, bracket⟩ := next_items rest (']' :: s)
      have item := normalises_value value bounded next
      have front := (normalises_gap before _).append item
      have whole := front.append (normalises_gap after _)
      have comma := (normalises_comma following ⟨brace, bracket⟩).append (normalises_items rest s)
      exact whole.append comma

theorem normalises_entries (entries : Entries) (s : List Char) :
    Normalises entries.source entries.strict ('\x7d' :: s) :=
  match entries with
  | .last before key afterKey beforeValue value after trailing => by
      obtain ⟨bounded, next⟩ := trailing_ends trailing (Or.inr rfl) s
      -- The colon after the key decides that a bare name is written as a string.
      obtain ⟨keyBounded, colon⟩ := colon_ends afterKey (beforeValue.source ++ value.source
        ++ after.source ++ trailingSource trailing ++ '\x7d' :: s)
      have item := normalises_value value (Bounded.gap after bounded)
        (by rw [nextSignificant_gap]; exact next)
      have valuePart := (((normalises_gap beforeValue _).append item).append
        (normalises_gap after _)).append (normalises_trailingSource trailing (Or.inr rfl) s)
      have mark := (normalises_symbol (c := ':') (by decide) _).append valuePart
      have keyPart := ((normalises_gap before _).append
        (normalises_key key keyBounded colon)).append (normalises_gap afterKey _)
      exact keyPart.append mark
  | .more before key afterKey beforeValue value after rest => by
      obtain ⟨bounded, next⟩ := comma_ends after (rest.source ++ '\x7d' :: s)
      obtain ⟨c, following, brace, bracket⟩ := next_entries rest ('\x7d' :: s)
      obtain ⟨keyBounded, colon⟩ := colon_ends afterKey (beforeValue.source ++ value.source
        ++ after.source ++ ',' :: rest.source ++ '\x7d' :: s)
      have item := normalises_value value bounded next
      have comma := (normalises_comma following ⟨brace, bracket⟩).append (normalises_entries rest s)
      have valuePart := (((normalises_gap beforeValue _).append item).append
        (normalises_gap after _)).append comma
      have mark := (normalises_symbol (c := ':') (by decide) _).append valuePart
      have keyPart := ((normalises_gap before _).append
        (normalises_key key keyBounded colon)).append (normalises_gap afterKey _)
      exact keyPart.append mark

end

/-! ### Documents -/

/-- The JSON text of a document. -/
def Grammar.Document.strict (d : Document) : List Char :=
  d.before.strict ++ d.value.strict ++ d.after.strict

theorem lastLine_ends {lastLine : Option (List Char)} (h : ∀ body ∈ lastLine, '\n' ∉ body) :
    Bounded (lastLineSource lastLine) ∧ nextSignificant (lastLineSource lastLine) = none := by
  cases lastLine with
  | none => exact ⟨fun c hc => (by cases hc), by rw [lastLineSource, nextSignificant]⟩
  | some body =>
      have noBreak : '\n' ∉ '/' :: body := by simp [h body rfl]
      obtain ⟨_, span⟩ := lineSpan_append (s := []) noBreak rfl
      have text : lastLineSource (some body) = '/' :: ('/' :: body ++ []) := by
        rw [List.append_nil, lastLineSource]
      refine ⟨Bounded.cons rfl _, ?_⟩
      rw [text, nextSignificant, if_neg (by decide), if_pos ⟨rfl, rfl⟩, span, nextSignificant]

theorem normalises_lastLine {lastLine : Option (List Char)} (h : ∀ body ∈ lastLine, '\n' ∉ body) :
    Normalises (lastLineSource lastLine) [] [] := by
  cases lastLine with
  | none => exact Normalises.nil []
  | some body =>
      have comment := takes_lineComment (s := []) (h body rfl) rfl
      exact Normalises.lexeme comment

/-- **A text of the grammar is normalised to the JSON text of its syntax.** -/
theorem normalise_document (d : Document) : normalise d.source = .ok d.strict := by
  obtain ⟨bounded, next⟩ := lastLine_ends d.oneLine
  have item := normalises_value d.value (Bounded.gap d.after bounded)
    (by rw [nextSignificant_gap, next]; decide)
  have whole := ((normalises_gap d.before _).append item).append (normalises_gap d.after _)
  have lastLine := normalises_lastLine d.oneLine
  unfold Normalises at whole lastLine
  rw [List.append_nil, normalise] at lastLine
  rw [Document.source, Document.strict, whole, lastLine]
  simp [Except.map]

end ZkCommand.Relaxed
