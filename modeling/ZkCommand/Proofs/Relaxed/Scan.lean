import ZkCommand.Proofs.Json.Seams
import ZkCommand.Proofs.Relaxed.Taken

/-!
# ZkCommand.Proofs.Relaxed.Scan

**Scanning a part of a text.** Whether a text stands in a string, in a comment or outside both can
be told character by character, with no lexeme taken off (`Place`). If it stands outside, the part
is made of whole lexemes (`exists_taken`), so that it is normalised by itself, up to what its last
comma and its last word look ahead for (`exists_settled`).
-/

namespace ZkCommand.Relaxed

open Text Grammar
open Json (isTokenPart EndsInToken endsInToken_of_parts endsInToken_append_iff
  getLast?_append_of_ne_nil Quoting Closed notMem_of_parts)

/-! ### Places -/

/-- Where a text stands. After a slash it is open whether a comment starts. -/
inductive Place
  | code
  | slash
  | string (delimiter : Char)
  | escape (delimiter : Char)
  | line
  | block
  | star
  deriving DecidableEq, Repr

/-- One character on, outside strings and comments. -/
def Place.ofCode (c : Char) : Place :=
  if c = '"' ∨ c = '\'' then .string c else if c = '/' then .slash else .code

/-- One character on. -/
def Place.step : Place → Char → Place
  | .code, c => ofCode c
  | .slash, c => if c = '/' then .line else if c = '*' then .block else ofCode c
  | .string delimiter, c =>
      if c = '\\' then .escape delimiter else if c = delimiter then .code else .string delimiter
  | .escape delimiter, _ => .string delimiter
  | .line, c => if c = '\n' then .code else .line
  | .block, c => if c = '*' then .star else .block
  | .star, c => if c = '/' then .code else if c = '*' then .star else .block

/-- A text on. -/
def Place.after (place : Place) (s : List Char) : Place := s.foldl step place

theorem Place.after_cons (place : Place) (c : Char) (s : List Char) :
    place.after (c :: s) = (place.step c).after s := rfl

theorem Place.after_append (place : Place) (s t : List Char) :
    place.after (s ++ t) = (place.after s).after t := List.foldl_append

theorem Place.after_parts {run : List Char} (parts : ∀ c ∈ run, isTokenPart c = true) :
    code.after run = code := by
  induction run with
  | nil => rfl
  | cons c run ih =>
      obtain ⟨part, parts⟩ := List.forall_mem_cons.mp parts
      have plain : code.step c = code := by
        rw [step, ofCode, if_neg, if_neg]
        · rintro rfl
          cases part
        · rintro (rfl | rfl) <;> cases part
      rw [after_cons, plain]
      exact ih parts

/-- A place outside strings and comments. -/
def Place.IsOutside (place : Place) : Prop := place = .code ∨ place = .slash

/-- A string that is closed in a text has a body there. -/
theorem exists_body {delimiter : Char} (quote : delimiter = '"' ∨ delimiter = '\'') {t : List Char}
    (outside : ((Place.string delimiter).after t).IsOutside) :
    ∃ body s, t = body ++ delimiter :: s ∧ Body delimiter body ∧
      Place.code.after s = (Place.string delimiter).after t := by
  induction t using quotedSpan.induct delimiter with
  | case1 => rcases outside with h | h <;> cases h
  | case2 => rcases outside with h | h <;> cases h
  | case3 c t ih =>
      obtain ⟨body, s, rfl, closed, rest⟩ := ih outside
      exact ⟨'\\' :: c :: body, s, rfl, .escape c closed, rest⟩
  | case4 t single pair =>
      refine ⟨[], t, rfl, .nil, ?_⟩
      rw [Place.after_cons, Place.step, if_neg, if_pos rfl]
      rcases quote with rfl | rfl <;> decide
  | case5 c t single pair other ih =>
      have bare := ne_backslash single pair
      rw [Place.after_cons, Place.step, if_neg bare, if_neg other] at outside ⊢
      obtain ⟨body, s, rfl, closed, rest⟩ := ih outside
      exact ⟨c :: body, s, rfl, .plain bare other closed, rest⟩

/-- A line comment that is over in a text ends at a line break. -/
theorem exists_line {t : List Char} (outside : (Place.line.after t).IsOutside) :
    ∃ body s, t = body ++ '\n' :: s ∧ '\n' ∉ body ∧
      Place.code.after ('\n' :: s) = Place.line.after t := by
  induction t with
  | nil => rcases outside with h | h <;> cases h
  | cons c t ih =>
      by_cases broken : c = '\n'
      · obtain rfl := broken
        exact ⟨[], t, rfl, List.not_mem_nil, rfl⟩
      · rw [Place.after_cons, Place.step, if_neg broken] at outside ⊢
        obtain ⟨body, s, rfl, oneLine, rest⟩ := ih outside
        refine ⟨c :: body, s, rfl, ?_, rest⟩
        simp [oneLine, Ne.symm broken]

/-- A star opens the end mark, and is part of the comment where no slash follows. -/
theorem Place.star_after {t : List Char} (other : t.head? ≠ some '/') (nonempty : t ≠ []) :
    star.after t = block.after t := by
  cases t with
  | nil => exact absurd rfl nonempty
  | cons c t =>
      have same : star.step c = block.step c := if_neg fun slash => other (congrArg some slash)
      rw [after_cons, after_cons, same]

/-- A block comment that is over in a text ends there. -/
theorem exists_blockSpan {t : List Char} (outside : (Place.block.after t).IsOutside) :
    ∃ p, blockSpan t = some p ∧ Place.code.after p.rest = Place.block.after t := by
  induction t using blockSpan.induct with
  | case1 => rcases outside with h | h <;> cases h
  | case2 t => exact ⟨_, rfl, rfl⟩
  | case3 c t mark ih =>
      have inner : Place.block.after (c :: t) = Place.block.after t := by
        rw [Place.after_cons, Place.step] at outside ⊢
        split at outside
        · rename_i star
          obtain rfl := star
          refine Place.star_after ?_ ?_
          · intro head
            obtain ⟨r, rfl⟩ := List.head?_eq_some_iff.mp head
            exact mark r rfl rfl
          · intro none
            subst none
            rcases outside with h | h <;> cases h
        · rename_i plain
          rw [if_neg plain]
      rw [inner] at outside ⊢
      obtain ⟨p, span, rest⟩ := ih outside
      exact ⟨_, by rw [blockSpan.eq_3 c t mark, span]; rfl, rest⟩

/-! ### Whole lexemes -/

/-- No string and no comment is open at the end of a text, and its last character opens none. -/
structure Scanned (s : List Char) : Prop where
  place : Place.code.after s = .code
  last : s.getLast? ≠ some '/'

theorem Scanned.behind {front s : List Char} (h : Scanned (front ++ s))
    (place : Place.code.after s = .code) : Scanned s := by
  refine ⟨place, ?_⟩
  cases s with
  | nil => nofun
  | cons c s =>
      rw [← getLast?_append_of_ne_nil (List.cons_ne_nil c s) front]
      exact h.last

/-- A lexeme that opens no string and no comment has no character that opens one. -/
theorem Taken.after_eq {c : Char} {t s : List Char} {lexeme : Lexeme} (h : Taken c t lexeme s)
    (quote : ¬ (c = '"' ∨ c = '\'')) (slash : c ≠ '/') :
    Place.code.after t = Place.code.after s := by
  have run {run s : List Char} (parts : ∀ d ∈ run, isTokenPart d = true) :
      Place.code.after (run ++ s) = Place.code.after s := by
    rw [Place.after_append, Place.after_parts parts]
  cases h with
  | quoted delimiter => exact absurd delimiter quote
  | lineComment => exact absurd rfl slash
  | blockComment => exact absurd rfl slash
  | comma => rfl
  | number start span =>
      obtain ⟨rfl, parts⟩ := span.source
      exact run parts
  | big start span =>
      obtain ⟨rfl, parts⟩ := span.source
      exact run parts
  | word start parts => exact run fun d hd => isTokenPart_of_isWordPart (parts d hd)
  | symbol => rfl

theorem exists_taken_plain {c : Char} (quote : ¬ (c = '"' ∨ c = '\'')) (slash : c ≠ '/')
    (t : List Char) : ∃ lexeme s, Taken c t lexeme s := by
  by_cases comma : c = ','
  · obtain rfl := comma
    exact ⟨_, t, .comma t⟩
  by_cases start : StartsNumber c t
  · exact ⟨_, _, taken_numberLexeme start⟩
  by_cases word : isWordStart c = true
  · exact ⟨_, _, taken_takeWhile word t⟩
  · exact ⟨_, t, .symbol quote (fun both => slash both.1) (fun both => slash both.1) comma start
      word⟩

theorem not_startsNumber_slash (t : List Char) : ¬ StartsNumber '/' t := by
  intro start
  rcases start with digit | ⟨minus, -⟩
  · cases digit
  · revert minus
    decide

/-- What starts with a slash is a comment that is over, or the slash stands for itself. -/
theorem exists_taken_slash {t : List Char} (outside : (Place.slash.after t).IsOutside) :
    ∃ lexeme s, Taken '/' t lexeme s ∧ (s = [] ∨ Place.code.after s = Place.slash.after t) ∧
      (s = [] → ∀ body, lexeme ≠ .lineComment body) := by
  cases t with
  | nil =>
      exact ⟨_, [], .symbol (by decide) (by simp) (by simp) (by decide) (not_startsNumber_slash [])
        (by decide),
        Or.inl rfl, fun _ _ same => by cases same⟩
  | cons d t =>
      by_cases line : d = '/'
      · obtain rfl := line
        obtain ⟨body, s, rfl, oneLine, rest⟩ := exists_line outside
        exact ⟨_, '\n' :: s, .lineComment oneLine rfl, Or.inr rest,
          fun none => absurd none (List.cons_ne_nil _ s)⟩
      by_cases block : d = '*'
      · obtain rfl := block
        obtain ⟨p, span, rest⟩ := exists_blockSpan outside
        obtain ⟨text, unclosed⟩ := blockSpan_eq_some span
        have rule := Taken.blockComment unclosed p.rest
        rw [← text] at rule
        exact ⟨_, p.rest, rule, Or.inr rest, fun _ _ same => by cases same⟩
      · have step : Place.slash.step d = Place.code.step d :=
          (if_neg line).trans (if_neg block)
        refine ⟨_, d :: t, .symbol (by decide) ?_ ?_ (by decide) (not_startsNumber_slash _)
          (by decide), Or.inr ?_, fun none => absurd none (List.cons_ne_nil d t)⟩
        · exact fun both => line (Option.some.inj both.2)
        · exact fun both => block (Option.some.inj both.2)
        · rw [Place.after_cons, Place.after_cons, step]

/-- **What ends outside strings and comments starts with a whole lexeme**, and so does the rest of
it. -/
theorem exists_taken_outside {c : Char} {t : List Char}
    (outside : (Place.code.after (c :: t)).IsOutside) :
    ∃ lexeme s, Taken c t lexeme s ∧ (s = [] ∨ Place.code.after s = Place.code.after (c :: t)) ∧
      (s = [] → ∀ body, lexeme ≠ .lineComment body) := by
  by_cases slash : c = '/'
  · obtain rfl := slash
    exact exists_taken_slash outside
  have place : Place.code.after (c :: t) = (Place.ofCode c).after t := rfl
  rw [place] at outside ⊢
  by_cases quote : c = '"' ∨ c = '\''
  · rw [Place.ofCode, if_pos quote] at outside ⊢
    obtain ⟨body, s, rfl, closed, rest⟩ := exists_body quote outside
    exact ⟨_, s, .quoted quote closed s, Or.inr rest, fun _ _ same => by cases same⟩
  · rw [Place.ofCode, if_neg quote, if_neg slash]
    obtain ⟨lexeme, s, taken⟩ := exists_taken_plain quote slash t
    refine ⟨lexeme, s, taken, Or.inr (taken.after_eq quote slash).symm, ?_⟩
    intro _ body same
    subst same
    cases taken
    exact slash rfl

/-- What is scanned starts with a whole lexeme, and the rest of it is scanned. -/
theorem exists_taken {c : Char} {t : List Char} (h : Scanned (c :: t)) :
    ∃ lexeme s, Taken c t lexeme s ∧ Scanned s ∧ (s = [] → c ≠ '/') := by
  obtain ⟨lexeme, s, taken, rest, line⟩ := exists_taken_outside (Or.inl h.place)
  have whole := h
  rw [taken.source] at whole
  refine ⟨lexeme, s, taken, whole.behind ?_, ?_⟩
  · rcases rest with none | same
    · rw [none]
      rfl
    · exact same.trans h.place
  · -- A comment that ends the text, or a slash that does, is its last character.
    intro none slash
    subst none slash
    refine whole.last ?_
    rw [List.append_nil]
    cases taken with
    | quoted quote => exact absurd quote (by decide)
    | lineComment => exact absurd rfl (line rfl _)
    | blockComment => exact getLast?_append_of_ne_nil (List.cons_ne_nil _ _) ('/' :: '*' :: _)
    | number start => exact absurd start (not_startsNumber_slash _)
    | big start => exact absurd start (not_startsNumber_slash _)
    | word start => exact absurd start (by decide)
    | symbol => rfl

/-! ### What is written for a lexeme -/

theorem Lexeme.strict_congr {r r' : List Char} (h : nextSignificant r = nextSignificant r')
    (lexeme : Lexeme) : lexeme.strict r = lexeme.strict r' := by
  cases lexeme with
  | comma => rw [strict, strict, h]
  | word name => rw [strict, strict, strictWord, strictWord, h]
  | _ => rfl

theorem Body.inside_after {delimiter : Char} {body : List Char} (h : Body delimiter body) :
    Quoting.inside.after (strictBody body) = .inside := by
  induction h with
  | nil => rfl
  | @plain c body bare other more ih =>
      by_cases double : c = '"'
      · obtain rfl := double
        exact ih
      · have step : Quoting.inside.step c = .inside := by
          rw [Quoting.step, if_neg double, if_neg bare]
        rw [strictBody.eq_5 _ _ (fun _ same => absurd same bare) (fun _ _ same => absurd same bare)
          double, Quoting.after, List.foldl_cons, step]
        exact ih
  | @escape c body more ih =>
      by_cases single : c = '\''
      · obtain rfl := single
        exact ih
      · rw [strictBody.eq_3 _ _ single]
        exact ih

theorem inside_after_of_parts {run : List Char} (parts : ∀ d ∈ run, isTokenPart d = true) :
    Quoting.inside.after run = .inside := by
  induction run with
  | nil => rfl
  | cons c run ih =>
      obtain ⟨part, parts⟩ := List.forall_mem_cons.mp parts
      have step : Quoting.inside.step c = .inside := by
        rw [Quoting.step, if_neg, if_neg]
        · rintro rfl
          cases part
        · rintro rfl
          cases part
      rw [Quoting.after, List.foldl_cons, step]
      exact ih parts

theorem closed_quoted {body : List Char} (h : Quoting.inside.after body = .inside) :
    Closed ('"' :: (body ++ ['"'])) := by
  show Quoting.inside.after (body ++ ['"']) = .outside
  rw [Quoting.after_append, h]
  rfl

/-- The text of a number or a word consists of characters of tokens. -/
theorem Taken.parts {c : Char} {t s : List Char} {lexeme : Lexeme} (h : Taken c t lexeme s) :
    (∀ literal suffixed, lexeme = .number literal suffixed → ∀ d ∈ literal, isTokenPart d = true) ∧
    (∀ name, lexeme = .word name → ∀ d ∈ name, isTokenPart d = true) := by
  cases h with
  | number start span =>
      refine ⟨?_, nofun⟩
      rintro literal suffixed ⟨⟩
      exact List.forall_mem_cons.mpr ⟨isTokenPart_of_start start, span.source.2⟩
  | big start span =>
      refine ⟨?_, nofun⟩
      rintro literal suffixed ⟨⟩
      exact List.forall_mem_cons.mpr ⟨isTokenPart_of_start start, span.source.2⟩
  | word start parts =>
      refine ⟨nofun, ?_⟩
      rintro name ⟨⟩
      exact List.forall_mem_cons.mpr ⟨isTokenPart_of_isWordPart (isWordPart_of_isWordStart start),
        fun d hd => isTokenPart_of_isWordPart (parts d hd)⟩
  | _ => exact ⟨nofun, nofun⟩

/-- The suffix of a number is one more of them. -/
theorem Taken.number_parts {c : Char} {t s : List Char} {lexeme : Lexeme} (h : Taken c t lexeme s) :
    ∀ literal suffixed, lexeme = .number literal suffixed →
      ∀ d ∈ lexeme.source, isTokenPart d = true := by
  rintro literal suffixed rfl
  have parts := h.parts.1 literal suffixed rfl
  cases suffixed with
  | false =>
      rw [Lexeme.source, if_neg (by decide), List.append_nil]
      exact parts
  | true =>
      rw [Lexeme.source, if_pos rfl]
      exact List.forall_mem_append.mpr ⟨parts, List.forall_mem_singleton.mpr rfl⟩

/-- A lexeme is written with no string left open. -/
theorem Taken.closed {c : Char} {t s : List Char} {lexeme : Lexeme} (h : Taken c t lexeme s)
    (r : List Char) : Closed (lexeme.strict r) := by
  obtain ⟨literals, names⟩ := h.parts
  cases lexeme with
  | quoted delimiter body =>
      cases h with
      | quoted quote closed => exact closed_quoted closed.inside_after
  | lineComment => rfl
  | blockComment body =>
      refine Quoting.after_outside fun quote => ?_
      have lineBreak := (List.mem_filter.mp quote).2
      cases lineBreak
  | comma =>
      rw [Lexeme.strict]
      split <;> rfl
  | number literal suffixed =>
      exact Quoting.after_outside (notMem_of_parts (literals _ _ rfl))
  | word name =>
      rw [Lexeme.strict, strictWord]
      split
      · exact closed_quoted (inside_after_of_parts (names _ rfl))
      split
      · rfl
      · exact Quoting.after_outside (notMem_of_parts (names _ rfl))
  | symbol d =>
      cases h with
      | symbol quote =>
          refine Quoting.after_outside fun same => quote (.inl ?_)
          exact (List.mem_singleton.mp same).symm

/-- A comma in front of a closing bracket or brace is dropped. -/
def Trails (next : Option Char) : Prop := next = some '\x7d' ∨ next = some ']'

/-- Other than comments, only a trailing comma leaves nothing behind. -/
theorem Taken.trails {c : Char} {t s r : List Char} {lexeme : Lexeme} (h : Taken c t lexeme s)
    (slash : c ≠ '/') (empty : lexeme.strict r = []) : Trails (nextSignificant r) := by
  cases h with
  | lineComment => exact absurd rfl slash
  | blockComment => exact absurd rfl slash
  | comma =>
      rw [Lexeme.strict] at empty
      split at empty
      · assumption
      · cases empty
  | word =>
      rw [Lexeme.strict, strictWord] at empty
      split at empty
      · cases empty
      split at empty <;> cases empty
  | _ => cases empty

/-- A lexeme that is written with a token at its end ends in one. -/
theorem Taken.last {c : Char} {t s r : List Char} {lexeme : Lexeme} (h : Taken c t lexeme s)
    (last : EndsInToken (lexeme.strict r)) : EndsInToken lexeme.source := by
  obtain ⟨literals, names⟩ := h.parts
  cases h with
  | @quoted delimiter body =>
      have mark := endsInToken_append_iff (List.cons_ne_nil '"' []) ('"' :: strictBody body)
      cases mark.mp last
  | lineComment => cases last
  | @blockComment body =>
      -- Line breaks are all that a comment leaves behind.
      obtain ⟨d, found, part⟩ := (Option.any_eq_true _ _).mp last
      have lineBreak := (List.mem_filter.mp (List.mem_of_getLast? found)).2
      rw [of_decide_eq_true lineBreak] at part
      cases part
  | comma =>
      rw [Lexeme.strict] at last
      split at last <;> cases last
  | number => rwa [Lexeme.source, if_neg (by decide), List.append_nil]
  | big => exact (endsInToken_append_iff (List.cons_ne_nil 'n' []) _).mpr rfl
  | word => exact endsInToken_of_parts (names _ rfl) (List.cons_ne_nil _ _)
  | symbol => exact last

/-- A lexeme that ends in a token is written with one at its end, unless it is a key. -/
theorem Taken.ends {c : Char} {t s r : List Char} {lexeme : Lexeme} (h : Taken c t lexeme s)
    (slash : c ≠ '/') (other : nextSignificant r ≠ some ':') (last : EndsInToken lexeme.source) :
    EndsInToken (lexeme.strict r) := by
  obtain ⟨literals, names⟩ := h.parts
  cases h with
  | @quoted delimiter body quote =>
      have mark := endsInToken_append_iff (List.cons_ne_nil c []) (c :: body)
      have part : isTokenPart c = true := mark.mp last
      rcases quote with rfl | rfl <;> cases part
  | lineComment => exact absurd rfl slash
  | blockComment => exact absurd rfl slash
  | comma => cases last
  | number => exact endsInToken_of_parts (literals _ _ rfl) (List.cons_ne_nil _ _)
  | big => exact endsInToken_of_parts (literals _ _ rfl) (List.cons_ne_nil _ _)
  | word =>
      rw [Lexeme.strict, strictWord, if_neg other]
      split
      · rfl
      · exact last
  | symbol => exact last

/-! ### Settled texts -/

/-- A text lets no token go on, and has the same first significant character as another. -/
structure Alike (t t' : List Char) : Prop where
  breaks : Breaks t'
  next : nextSignificant t' = nextSignificant t

/-- In front of `t` and of every text like it, `text` is normalised to `out`. -/
structure Settled (t text out : List Char) : Prop where
  normalises : ∀ ⦃t'⦄, Alike t t' → Normalises text out t'
  next : ∀ ⦃t'⦄, Alike t t' → nextSignificant (text ++ t') = nextSignificant (text ++ t)
  closed : Closed out
  empty : text = [] → out = []
  trails : text ≠ [] → out = [] → Trails (nextSignificant t)
  last : EndsInToken out → EndsInToken text ∨ Trails (nextSignificant t)
  ends : EndsInToken text → nextSignificant t ≠ some ':' → EndsInToken out

theorem settled_nil (t : List Char) : Settled t [] [] where
  normalises := fun t' _ => Normalises.nil t'
  next := fun _ alike => alike.next
  closed := rfl
  empty := fun _ => rfl
  trails := fun nonempty => absurd rfl nonempty
  last := nofun
  ends := nofun

/-- One lexeme more. -/
theorem Settled.cons {c : Char} {t u s out : List Char} {lexeme : Lexeme} (breaks : Breaks t)
    (taken : Taken c u lexeme s) (ended : s = [] → c ≠ '/') (h : Settled t s out) :
    Settled t (c :: u) (lexeme.strict (s ++ t) ++ out) := by
  have whole := taken.source
  have longer {t' : List Char} (alike : Alike t t') := taken.append alike.breaks ended
  exact
    { normalises := fun t' alike => by
        have front := Normalises.lexeme (longer alike).takes
        rw [lexeme.strict_congr (h.next alike)] at front
        have rest := h.normalises alike
        unfold Normalises at rest ⊢
        rw [List.cons_append, front, rest]
        cases normalise t' with
        | error unclosed => rfl
        | ok tail => simp [Except.map]
      next := fun t' alike => by
        show nextSignificant (c :: (u ++ t')) = nextSignificant (c :: (u ++ t))
        rw [(longer alike).nextSignificant_eq, (longer ⟨breaks, rfl⟩).nextSignificant_eq,
          h.next alike]
      closed := (taken.closed _).append h.closed
      empty := fun none => absurd none (List.cons_ne_nil c u)
      trails := fun _ none => by
        obtain ⟨first, rest⟩ := List.append_eq_nil_iff.mp none
        by_cases last : s = []
        · obtain rfl := last
          exact taken.trails (ended rfl) first
        · exact h.trails last rest
      last := fun token => by
        rw [whole]
        by_cases behind : s = []
        · obtain rfl := behind
          rw [h.empty rfl, List.append_nil] at token
          rw [List.append_nil]
          exact .inl (taken.last token)
        · rw [endsInToken_append_iff behind]
          by_cases written : out = []
          · exact .inr (h.trails behind written)
          · rw [endsInToken_append_iff written] at token
            exact h.last token
      ends := fun token other => by
        rw [whole] at token
        by_cases behind : s = []
        · obtain rfl := behind
          rw [h.empty rfl, List.append_nil]
          rw [List.append_nil] at token
          exact taken.ends (ended rfl) other token
        · rw [endsInToken_append_iff behind] at token
          have token := h.ends token other
          rwa [endsInToken_append_iff]
          rintro rfl
          cases token }

/-- **What is scanned is normalised by itself**, up to what it looks ahead for. -/
theorem exists_settled {t : List Char} (breaks : Breaks t) :
    ∀ {text : List Char}, Scanned text → ∃ out, Settled t text out
  | [], _ => ⟨[], settled_nil t⟩
  | c :: u, h => by
      obtain ⟨lexeme, s, taken, scanned, ended⟩ := exists_taken h
      obtain ⟨short, -⟩ := taken.takes
      obtain ⟨out, settled⟩ := exists_settled breaks scanned
      exact ⟨_, settled.cons breaks taken ended⟩
termination_by text => text.length

end ZkCommand.Relaxed
