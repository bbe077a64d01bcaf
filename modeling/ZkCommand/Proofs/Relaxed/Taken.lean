import ZkCommand.Proofs.Json.Consumed
import ZkCommand.Proofs.Relaxed.Strict

/-!
# ZkCommand.Proofs.Relaxed.Taken

**What the scanner takes off a text.** There is one rule for each kind of lexeme (`Taken`), and
`takes_iff` says that the scanner follows them, so that a property of every scanned text is proved
rule by rule. The lexeme and what is left are the whole text (`Taken.source`), looking ahead is
scanning (`Taken.nextSignificant_eq`), and a lexeme that has ended stays the same when the text goes
on (`Taken.append`).
-/

namespace ZkCommand.Relaxed

open Text Grammar
open Json (isTokenPart isTokenPart_of_isDigit)

/-! ### Characters -/

theorem isTokenPart_of_isWordPart {c : Char} (h : isWordPart c = true) : isTokenPart c = true := by
  simp [isTokenPart, h]

theorem isWordPart_of_isWordStart {c : Char} (h : isWordStart c = true) : isWordPart c = true := by
  simp only [isWordStart, Bool.or_eq_true] at h
  simp only [isWordPart, Char.isAlphanum, Bool.or_eq_true]
  rcases h with (h | h) | h
  · exact .inl (.inl (.inl h))
  · exact .inl (.inr h)
  · exact .inr h

theorem isTokenPart_of_goesOn {previous c : Char} (h : goesOn previous c = true) :
    isTokenPart c = true := by
  simp only [goesOn, Bool.or_eq_true, Bool.and_eq_true, decide_eq_true_eq] at h
  rcases h with (((digit | rfl) | rfl) | rfl) | ⟨rfl | rfl, -⟩
  · exact isTokenPart_of_isDigit digit
  all_goals decide

theorem isTokenPart_of_start {c : Char} {t : List Char} (h : StartsNumber c t) :
    isTokenPart c = true := by
  rcases h with digit | ⟨rfl, -⟩
  · exact isTokenPart_of_isDigit digit
  · decide

theorem toNat_of_isTokenPart {c : Char} (h : isTokenPart c = true) :
    0x20 < c.toNat ∧ c.toNat < 0x7f := by
  simp only [isTokenPart, isWordPart, Char.isAlphanum, Bool.or_eq_true, decide_eq_true_eq] at h
  rcases h with (((((alpha | digit) | rfl) | rfl) | rfl) | rfl) | rfl
  · have start : isWordStart c = true := by simp [isWordStart, alpha]
    have := toNat_of_isWordStart start
    omega
  · have := toNat_of_isDigit digit
    omega
  all_goals decide

/-- No token goes on with a text. -/
def Breaks (s : List Char) : Prop := s.head?.any isTokenPart = false

theorem Breaks.head {s : List Char} (h : Breaks s) {test : Char → Bool}
    (part : ∀ c, test c = true → isTokenPart c = true) : s.head?.any test = false := by
  cases s with
  | nil => rfl
  | cons c s =>
      by_contra goes
      have broken : isTokenPart c = false := h
      rw [part c (by simpa using goes)] at broken
      cases broken

/-! ### Bodies of strings -/

/-- A text in which no delimiter closes a string. -/
inductive Body (delimiter : Char) : List Char → Prop
  | nil : Body delimiter []
  | plain {c : Char} {body : List Char} (bare : c ≠ '\\') (other : c ≠ delimiter)
      (more : Body delimiter body) : Body delimiter (c :: body)
  | escape (c : Char) {body : List Char} (more : Body delimiter body) :
      Body delimiter ('\\' :: c :: body)

theorem Body.closes {delimiter : Char} {body : List Char} (h : Body delimiter body)
    (quote : delimiter = '"' ∨ delimiter = '\'') (s : List Char) :
    Closes delimiter (body ++ delimiter :: s) body s := by
  induction h with
  | nil =>
      refine closes_delimiter ?_ s
      rcases quote with rfl | rfl <;> decide
  | plain bare other more ih => exact closes_plain bare other ih
  | escape c more ih => exact closes_escape ih

/-- A backslash is the last character or is taken with the one after it. -/
theorem ne_backslash {c : Char} {t : List Char} (single : c = '\\' → t = [] → False)
    (pair : ∀ d r, c = '\\' → t = d :: r → False) : c ≠ '\\' := by
  intro same
  cases t with
  | nil => exact single same rfl
  | cons d t => exact pair d t same rfl

theorem Closes.body {delimiter : Char} {t body s : List Char} (h : Closes delimiter t body s) :
    t = body ++ delimiter :: s ∧ Body delimiter body := by
  obtain ⟨short, span⟩ := h
  induction t using quotedSpan.induct delimiter generalizing body with
  | case1 => cases span
  | case2 => cases span
  | case3 c t ih =>
      rw [quotedSpan] at span
      obtain ⟨p, inner, same⟩ := Option.map_eq_some_iff.mp span
      cases same
      obtain ⟨text, body⟩ := ih p.rest_lt inner
      exact ⟨congrArg ('\\' :: c :: ·) text, .escape c body⟩
  | case4 t single pair =>
      rw [quotedSpan.eq_4 _ _ _ single pair, if_pos rfl] at span
      cases span
      exact ⟨rfl, .nil⟩
  | case5 c t single pair other ih =>
      rw [quotedSpan.eq_4 _ _ _ single pair, if_neg other] at span
      obtain ⟨p, inner, same⟩ := Option.map_eq_some_iff.mp span
      cases same
      obtain ⟨text, body⟩ := ih p.rest_lt inner
      exact ⟨congrArg (c :: ·) text, .plain (ne_backslash single pair) other body⟩

/-! ### Block comments and numbers -/

theorem blockSpan_eq_some {t : List Char} {p : Parsed (List Char) t.length}
    (h : blockSpan t = some p) :
    t = p.value ++ '*' :: '/' :: p.rest ∧ closesBlock p.value = false := by
  induction t using blockSpan.induct with
  | case1 => cases h
  | case2 t =>
      cases h
      exact ⟨rfl, rfl⟩
  | case3 c t mark ih =>
      rw [blockSpan.eq_3 c t mark] at h
      obtain ⟨q, inner, rfl⟩ := Option.map_eq_some_iff.mp h
      obtain ⟨text, unclosed⟩ := ih inner
      refine ⟨congrArg (c :: ·) text, ?_⟩
      show closesBlock (c :: q.value) = false
      rw [closesBlock.eq_2]
      · exact unclosed
      · intro body star same
        rw [same] at text
        exact mark _ star text

/-- A number goes on with a run of characters behind one of them, and `s` is left. -/
def Spans (previous : Char) (t run s : List Char) : Prop :=
  ∃ short, numberSpan previous t = ⟨run, s, short⟩

theorem spans_nil_iff {previous : Char} {run s : List Char} :
    Spans previous [] run s ↔ run = [] ∧ s = [] := by
  constructor
  · rintro ⟨short, span⟩
    cases span
    exact ⟨rfl, rfl⟩
  · rintro ⟨rfl, rfl⟩
    exact ⟨_, rfl⟩

theorem spans_cons_of_goesOn {previous c : Char} (h : goesOn previous c = true)
    {t run s : List Char} :
    Spans previous (c :: t) run s ↔ ∃ run', run = c :: run' ∧ Spans c t run' s := by
  have unfolded : numberSpan previous (c :: t) = ⟨c :: (numberSpan c t).value,
      (numberSpan c t).rest, Nat.lt_succ_of_lt (numberSpan c t).rest_lt⟩ := if_pos h
  constructor
  · rintro ⟨short, span⟩
    rw [unfolded] at span
    cases span
    exact ⟨_, rfl, (numberSpan c t).rest_lt, rfl⟩
  · rintro ⟨run', rfl, short, span⟩
    refine ⟨Nat.lt_succ_of_lt short, unfolded.trans ?_⟩
    simp only [span]

theorem spans_of_stop {previous : Char} {t run s : List Char}
    (h : t.head?.any (goesOn previous) = false) :
    Spans previous t run s ↔ run = [] ∧ s = t := by
  cases t with
  | nil => exact spans_nil_iff
  | cons c t =>
      have stop : ¬ goesOn previous c = true := by simpa using h
      have unfolded : numberSpan previous (c :: t) = ⟨[], c :: t, by simp⟩ := if_neg stop
      constructor
      · rintro ⟨short, span⟩
        rw [unfolded] at span
        cases span
        exact ⟨rfl, rfl⟩
      · rintro ⟨rfl, rfl⟩
        exact ⟨_, unfolded⟩

theorem Spans.source {previous : Char} {t run s : List Char} (h : Spans previous t run s) :
    t = run ++ s ∧ ∀ d ∈ run, isTokenPart d = true := by
  induction t generalizing previous run with
  | nil =>
      obtain ⟨rfl, rfl⟩ := spans_nil_iff.mp h
      exact ⟨rfl, fun d hd => absurd hd List.not_mem_nil⟩
  | cons c t ih =>
      by_cases goes : goesOn previous c = true
      · obtain ⟨run, rfl, tail⟩ := (spans_cons_of_goesOn goes).mp h
        obtain ⟨text, parts⟩ := ih tail
        exact ⟨congrArg (c :: ·) text, List.forall_mem_cons.mpr ⟨isTokenPart_of_goesOn goes, parts⟩⟩
      · obtain ⟨rfl, rfl⟩ := (spans_of_stop (by simpa using goes)).mp h
        exact ⟨rfl, fun d hd => absurd hd List.not_mem_nil⟩

theorem Spans.append {previous : Char} {t run s u : List Char} (h : Spans previous t run s)
    (breaks : Breaks u) : Spans previous (t ++ u) run (s ++ u) := by
  induction t generalizing previous run with
  | nil =>
      obtain ⟨rfl, rfl⟩ := spans_nil_iff.mp h
      exact (spans_of_stop (breaks.head fun _ => isTokenPart_of_goesOn)).mpr ⟨rfl, rfl⟩
  | cons c t ih =>
      by_cases goes : goesOn previous c = true
      · obtain ⟨run, rfl, tail⟩ := (spans_cons_of_goesOn goes).mp h
        exact (spans_cons_of_goesOn goes).mpr ⟨run, rfl, ih tail⟩
      · obtain ⟨rfl, rfl⟩ := (spans_of_stop (by simpa using goes)).mp h
        exact (spans_of_stop (by simpa using goes)).mpr ⟨rfl, rfl⟩

theorem startsWithSuffix_append {s u : List Char} (breaks : Breaks u) :
    startsWithSuffix (s ++ u) = startsWithSuffix s := by
  have stop := breaks.head fun _ => isTokenPart_of_isWordPart
  match s with
  | [] =>
      have other : u.head?.any (· = 'n') = false := breaks.head fun c same => by
        rw [of_decide_eq_true same]
        decide
      cases u <;> simp_all [startsWithSuffix]
  | [c] => simp [startsWithSuffix, stop]
  | c :: d :: s => simp [startsWithSuffix]

/-! ### Lexemes -/

/-- A text that starts with `c` has a first lexeme, and `s` is left: the rules. -/
inductive Taken : Char → List Char → Lexeme → List Char → Prop
  | quoted {delimiter : Char} {body : List Char} (quote : delimiter = '"' ∨ delimiter = '\'')
      (closed : Body delimiter body) (s : List Char) :
      Taken delimiter (body ++ delimiter :: s) (.quoted delimiter body) s
  | lineComment {body s : List Char} (oneLine : '\n' ∉ body)
      (stops : s.head?.any (fun c => decide (c ≠ '\n')) = false) :
      Taken '/' ('/' :: (body ++ s)) (.lineComment body) s
  | blockComment {body : List Char} (unclosed : closesBlock body = false) (s : List Char) :
      Taken '/' ('*' :: (body ++ '*' :: '/' :: s)) (.blockComment body) s
  | comma (s : List Char) : Taken ',' s .comma s
  | number {c : Char} {t run s : List Char} (start : StartsNumber c t) (span : Spans c t run s)
      (unsuffixed : (isPlainInteger (c :: run) && startsWithSuffix s) = false) :
      Taken c t (.number (c :: run) false) s
  | big {c : Char} {t run s : List Char} (start : StartsNumber c t)
      (span : Spans c t run ('n' :: s)) (plain : isPlainInteger (c :: run) = true)
      (stop : s.head?.any isWordPart = false) : Taken c t (.number (c :: run) true) s
  | word {c : Char} {name s : List Char} (start : isWordStart c = true)
      (parts : ∀ d ∈ name, isWordPart d = true) (stop : s.head?.any isWordPart = false) :
      Taken c (name ++ s) (.word (c :: name)) s
  | symbol {c : Char} {s : List Char} (quote : ¬ (c = '"' ∨ c = '\''))
      (line : ¬ (c = '/' ∧ s.head? = some '/')) (block : ¬ (c = '/' ∧ s.head? = some '*'))
      (comma : c ≠ ',') (number : ¬ StartsNumber c s) (word : ¬ isWordStart c = true) :
      Taken c s (.symbol c) s

theorem Taken.takes {c : Char} {t s : List Char} {lexeme : Lexeme} (h : Taken c t lexeme s) :
    Takes c t lexeme s := by
  cases h with
  | quoted quote closed => exact takes_of_closes quote (closed.closes quote _)
  | lineComment oneLine stops => exact takes_lineComment oneLine stops
  | blockComment unclosed => exact takes_blockComment unclosed _
  | comma => exact takes_comma _
  | number start span unsuffixed => exact takes_number_of_span start span unsuffixed
  | big start span plain stop => exact takes_big_of_span start span plain stop
  | word start parts stop => exact takes_word_of_stop start parts stop
  | symbol quote line block comma number word =>
      refine ⟨by simp, ?_⟩
      rw [Lexeme.first, if_neg quote, if_neg line, if_neg block, if_neg comma, if_neg number,
        if_neg word]

theorem taken_lineSpan (t : List Char) :
    Taken '/' ('/' :: t) (.lineComment (lineSpan t).value) (lineSpan t).rest := by
  have oneLine : '\n' ∉ (lineSpan t).value := fun broken => by
    simpa using List.mem_takeWhile_imp broken
  have text : (lineSpan t).value ++ (lineSpan t).rest = t := List.takeWhile_append_dropWhile
  have rule := Taken.lineComment (s := (lineSpan t).rest) oneLine (head?_dropWhile t)
  rwa [text] at rule

theorem taken_takeWhile {c : Char} (start : isWordStart c = true) (t : List Char) :
    Taken c t (.word (c :: t.takeWhile isWordPart)) (t.dropWhile isWordPart) := by
  have parts : ∀ d ∈ t.takeWhile isWordPart, isWordPart d = true :=
    fun d hd => List.mem_takeWhile_imp hd
  have rule := Taken.word start parts (head?_dropWhile t)
  rwa [List.takeWhile_append_dropWhile] at rule

theorem taken_numberLexeme {c : Char} {t : List Char} (start : StartsNumber c t) :
    Taken c t (numberLexeme c t).value (numberLexeme c t).rest := by
  have span : Spans c t (numberSpan c t).value (numberSpan c t).rest :=
    ⟨(numberSpan c t).rest_lt, rfl⟩
  by_cases suffixed : (isPlainInteger (c :: (numberSpan c t).value) &&
      startsWithSuffix (numberSpan c t).rest) = true
  · have lexeme : (numberLexeme c t).value = .number (c :: (numberSpan c t).value) true ∧
        (numberLexeme c t).rest = (numberSpan c t).rest.drop 1 := by
      simp [numberLexeme, suffixed]
    rw [lexeme.1, lexeme.2]
    obtain ⟨plain, suffix⟩ := (Bool.and_eq_true _ _).mp suffixed
    simp only [startsWithSuffix, Bool.and_eq_true, decide_eq_true_eq, Bool.not_eq_true'] at suffix
    obtain ⟨s, rest⟩ := List.head?_eq_some_iff.mp suffix.1
    rw [rest] at span suffix ⊢
    exact .big start span plain suffix.2
  · have lexeme : (numberLexeme c t).value = .number (c :: (numberSpan c t).value) false ∧
        (numberLexeme c t).rest = (numberSpan c t).rest := by
      simp [numberLexeme, suffixed]
    rw [lexeme.1, lexeme.2]
    exact .number start span (Bool.not_eq_true _ ▸ suffixed)

theorem taken_of_takes {c : Char} {t s : List Char} {lexeme : Lexeme} (h : Takes c t lexeme s) :
    Taken c t lexeme s := by
  obtain ⟨short, first⟩ := h
  unfold Lexeme.first at first
  split at first
  · rename_i quote
    cases span : quotedSpan c t with
    | none =>
        simp only [span] at first
        cases first
    | some p =>
        obtain ⟨body, rest, less⟩ := p
        simp only [span] at first
        cases first
        obtain ⟨rfl, closed⟩ := Closes.body ⟨less, span⟩
        exact .quoted quote closed _
  split at first
  · rename_i line
    obtain ⟨rfl, head⟩ := line
    obtain ⟨t, rfl⟩ := List.head?_eq_some_iff.mp head
    cases first
    exact taken_lineSpan t
  split at first
  · rename_i block
    obtain ⟨rfl, head⟩ := block
    obtain ⟨t, rfl⟩ := List.head?_eq_some_iff.mp head
    cases span : blockSpan (List.drop 1 ('*' :: t)) with
    | none =>
        simp only [span] at first
        cases first
    | some p =>
        obtain ⟨body, rest, less⟩ := p
        simp only [span] at first
        cases first
        obtain ⟨text, unclosed⟩ := blockSpan_eq_some span
        have text : t = body ++ '*' :: '/' :: _ := text
        rw [text]
        exact .blockComment unclosed _
  split at first
  · rename_i comma
    cases first
    rw [comma]
    exact .comma t
  split at first
  · rename_i start
    have same := Except.ok.inj first
    have rule := taken_numberLexeme start
    rwa [same] at rule
  split at first
  · rename_i start
    cases first
    exact taken_takeWhile start t
  · rename_i quote line block comma number word
    cases first
    exact .symbol quote line block comma number word

/-- The rules are what the scanner does. -/
theorem takes_iff {c : Char} {t s : List Char} {lexeme : Lexeme} :
    Takes c t lexeme s ↔ Taken c t lexeme s :=
  ⟨taken_of_takes, Taken.takes⟩

/-- **Induction along the scan.** A text is empty, or starts with a lexeme, or with one that does
not end. -/
@[elab_as_elim]
theorem scan_induction {motive : List Char → Prop} (nil : motive [])
    (taken : ∀ {c t lexeme s}, Taken c t lexeme s → motive s → motive (c :: t))
    (unclosed : ∀ {c t u}, Lexeme.first c t = .error u → motive (c :: t)) : ∀ s, motive s
  | [] => nil
  | c :: t =>
      match first : Lexeme.first c t with
      | .ok p => taken (takes_iff.mp ⟨p.rest_lt, first⟩) (scan_induction nil taken unclosed p.rest)
      | .error _ => unclosed first
termination_by s => s.length
decreasing_by exact p.rest_lt

theorem normalise_cons_eq_ok {c : Char} {t json : List Char} (h : normalise (c :: t) = .ok json) :
    ∃ lexeme s tail, Taken c t lexeme s ∧ normalise s = .ok tail ∧
      json = lexeme.strict s ++ tail := by
  rw [normalise] at h
  obtain ⟨p, first, h⟩ := bind_eq_ok_iff.mp h
  obtain ⟨tail, rest, h⟩ := bind_eq_ok_iff.mp h
  cases h
  exact ⟨p.value, p.rest, tail, takes_iff.mp ⟨p.rest_lt, first⟩, rest, rfl⟩

/-! ### What is taken and what is left -/

/-- The lexeme and what is left are the whole text. -/
theorem Taken.source {c : Char} {t s : List Char} {lexeme : Lexeme} (h : Taken c t lexeme s) :
    c :: t = lexeme.source ++ s := by
  cases h with
  | quoted quote closed => simp [Lexeme.source]
  | lineComment oneLine stops => simp [Lexeme.source]
  | blockComment unclosed => simp [Lexeme.source]
  | comma => rfl
  | number start span unsuffixed =>
      obtain ⟨rfl, -⟩ := span.source
      simp [Lexeme.source]
  | big start span plain stop =>
      obtain ⟨rfl, -⟩ := span.source
      simp [Lexeme.source]
  | word start parts stop => rfl
  | symbol => rfl

/-- What is looked ahead for from a lexeme on, given what is from behind it. -/
def Lexeme.ahead (next : Option Char) : Lexeme → Option Char
  | .lineComment _ => next
  | .blockComment _ => next
  | .symbol c => if isBlank c then next else some c
  | lexeme => lexeme.source.head?

theorem isBlank_of_isTokenPart {c : Char} (h : isTokenPart c = true) : isBlank c = false := by
  obtain ⟨low, high⟩ := toNat_of_isTokenPart h
  exact isBlank_of_visible low high

theorem nextSignificant_token {c : Char} (h : isTokenPart c = true) (s : List Char) :
    nextSignificant (c :: s) = some c := by
  refine nextSignificant_visible (isBlank_of_isTokenPart h) ?_ s
  rintro rfl
  cases h

/-- **Looking ahead is scanning.** -/
theorem Taken.nextSignificant_eq {c : Char} {t s : List Char} {lexeme : Lexeme}
    (h : Taken c t lexeme s) : nextSignificant (c :: t) = lexeme.ahead (nextSignificant s) := by
  cases h with
  | quoted quote closed =>
      refine nextSignificant_visible ?_ ?_ _
      · rcases quote with rfl | rfl <;> rfl
      · rcases quote with rfl | rfl <;> decide
  | lineComment oneLine stops =>
      rename_i body
      have noBreak : '\n' ∉ '/' :: body := by simp [oneLine]
      obtain ⟨_, span⟩ := lineSpan_append noBreak stops
      rw [nextSignificant, if_neg (by decide), if_pos ⟨rfl, rfl⟩, ← List.cons_append, span]
      rfl
  | blockComment unclosed =>
      have passed := nextSignificant_filler (.block _ unclosed) s
      simpa [Filler.source, Lexeme.ahead] using passed
  | comma => exact nextSignificant_visible rfl (by decide) _
  | number start => exact nextSignificant_token (isTokenPart_of_start start) t
  | big start => exact nextSignificant_token (isTokenPart_of_start start) t
  | word start =>
      exact nextSignificant_token
        (isTokenPart_of_isWordPart (isWordPart_of_isWordStart start)) _
  | symbol quote line block =>
      rw [nextSignificant, if_neg line, if_neg block]
      rfl

/-- A lexeme that ends in a text stays the first one when the text goes on, unless nothing is left
behind it and what follows goes on with a line comment or with a slash. -/
theorem Taken.append_of_ended {c : Char} {t s u : List Char} {lexeme : Lexeme}
    (h : Taken c t lexeme s) (breaks : Breaks u)
    (line : s = [] → ∀ body, lexeme ≠ .lineComment body)
    (slash : s = [] → c = '/' → u.head? ≠ some '/' ∧ u.head? ≠ some '*') :
    Taken c (t ++ u) lexeme (s ++ u) := by
  have stop {s : List Char} (h : s.head?.any isWordPart = false) :
      (s ++ u).head?.any isWordPart = false := by
    cases s with
    | nil => exact breaks.head fun _ => isTokenPart_of_isWordPart
    | cons d s => exact h
  have digit (c : Char) (t : List Char) : StartsNumber c (t ++ u) ↔ StartsNumber c t := by
    cases t with
    | nil =>
        have none : u.head?.any Char.isDigit = false := breaks.head fun _ => isTokenPart_of_isDigit
        simp [StartsNumber, none]
    | cons d t => rfl
  cases h with
  | quoted quote closed =>
      rw [List.append_assoc, List.cons_append]
      exact .quoted quote closed _
  | lineComment oneLine stops =>
      obtain ⟨d, s, rfl⟩ := List.exists_cons_of_ne_nil fun none => line none _ rfl
      rw [List.cons_append, List.append_assoc]
      exact .lineComment oneLine stops
  | blockComment unclosed =>
      simp only [List.cons_append, List.append_assoc]
      exact .blockComment unclosed _
  | comma => exact .comma _
  | number start span unsuffixed =>
      refine .number ((digit _ _).mpr start) (span.append breaks) ?_
      rw [startsWithSuffix_append breaks]
      exact unsuffixed
  | big start span plain stops =>
      exact .big ((digit _ _).mpr start) (span.append breaks) plain (stop stops)
  | word start parts stops =>
      rw [List.append_assoc]
      exact .word start parts (stop stops)
  | symbol quote line' block comma number word =>
      have head {d : Char} (mark : d = '/' ∨ d = '*') (other : ¬ (c = '/' ∧ t.head? = some d)) :
          ¬ (c = '/' ∧ (t ++ u).head? = some d) := by
        intro both
        cases t with
        | nil =>
            obtain ⟨first, second⟩ := slash rfl both.1
            rcases mark with rfl | rfl
            · exact first both.2
            · exact second both.2
        | cons e t => exact other both
      have number := fun start => number ((digit _ _).mp start)
      exact .symbol quote (head (Or.inl rfl) line') (head (Or.inr rfl) block) comma number word

/-- A lexeme that starts with no slash, or has something behind it, stays the first one when the
text goes on. -/
theorem Taken.append {c : Char} {t s u : List Char} {lexeme : Lexeme} (h : Taken c t lexeme s)
    (breaks : Breaks u) (ended : s = [] → c ≠ '/') : Taken c (t ++ u) lexeme (s ++ u) := by
  refine h.append_of_ended breaks ?_ fun none slash => absurd slash (ended none)
  intro none body same
  subst same
  cases h
  exact ended none rfl

end ZkCommand.Relaxed
