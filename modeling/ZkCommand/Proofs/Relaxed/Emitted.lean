import ZkCommand.Proofs.Relaxed.Scan

/-!
# ZkCommand.Proofs.Relaxed.Emitted

**What is written for the lexemes of a text.** A text is a list of lexemes (`lexemes`), some of
which matter for what is read (`significant`). `Emits` has one rule for each way in which a
significant lexeme gets into the normalised text; everything else leaves white space behind, or
nothing. So the characters at the front of a normalised text tell which lexemes they come from: a
bracket is a symbol, a string is a lexeme that is written in quotes, and a number or a word comes
from a run of lexemes, as a comment between two of them may leave nothing behind.
-/

namespace ZkCommand.Relaxed

open Text Grammar
open Json (isTokenPart isTokenPart_of_isSpace isSpace AllSpace Leads leads_part)

/-! ### Lexemes of a text -/

/-- The lexemes of a text. -/
def lexemes : List Char → Except Unclosed (List Lexeme)
  | [] => .ok []
  | c :: s => do
      let lexeme ← Lexeme.first c s
      let others ← lexemes lexeme.rest
      .ok (lexeme.value :: others)
termination_by s => s.length
decreasing_by exact lexeme.rest_lt

/-- A lexeme that is neither white space nor a comment. -/
def Lexeme.isSignificant : Lexeme → Bool
  | .lineComment _ => false
  | .blockComment _ => false
  | .symbol c => !isBlank c
  | _ => true

/-- Lexemes, white space and comments aside. -/
def significant (all : List Lexeme) : List Lexeme := all.filter Lexeme.isSignificant

theorem lexemes_nil : lexemes [] = .ok [] := by rw [lexemes]

theorem lexemes_cons {c : Char} {t s : List Char} {lexeme : Lexeme} (h : Taken c t lexeme s) :
    lexemes (c :: t) = (lexemes s).map (lexeme :: ·) := by
  obtain ⟨short, first⟩ := h.takes
  rw [lexemes, first]
  rfl

theorem exists_taken_of_lexemes {c : Char} {t : List Char} {all : List Lexeme}
    (h : lexemes (c :: t) = .ok all) :
    ∃ lexeme s others, Taken c t lexeme s ∧ lexemes s = .ok others ∧ all = lexeme :: others := by
  rw [lexemes] at h
  obtain ⟨p, first, h⟩ := bind_eq_ok_iff.mp h
  obtain ⟨others, rest, h⟩ := bind_eq_ok_iff.mp h
  cases h
  exact ⟨p.value, p.rest, others, takes_iff.mp ⟨p.rest_lt, first⟩, rest, rfl⟩

/-- The sources of its lexemes make the text. -/
theorem flatMap_source : ∀ {s : List Char} {all : List Lexeme}, lexemes s = .ok all →
    all.flatMap Lexeme.source = s
  | [], all, h => by
      rw [lexemes_nil] at h
      cases h
      rfl
  | c :: t, all, h => by
      obtain ⟨lexeme, s, others, taken, rest, rfl⟩ := exists_taken_of_lexemes h
      obtain ⟨short, -⟩ := taken.takes
      rw [List.flatMap_cons, flatMap_source rest, taken.source]
termination_by s => s.length

/-- What is looked ahead for is the next significant lexeme, if it is a closing bracket or brace. -/
theorem exists_significant {c : Char} (closing : Closing c) : ∀ {s : List Char} {all : List Lexeme},
    lexemes s = .ok all → nextSignificant s = some c →
      ∃ others, significant all = .symbol c :: others
  | [], all, h, next => by
      rw [nextSignificant] at next
      cases next
  | d :: t, all, h, next => by
      obtain ⟨lexeme, s, others, taken, rest, rfl⟩ := exists_taken_of_lexemes h
      obtain ⟨short, -⟩ := taken.takes
      have apart : isTokenPart c = false := by rcases closing with rfl | rfl <;> rfl
      rw [taken.nextSignificant_eq] at next
      cases taken with
      | quoted quote =>
          obtain rfl : d = c := Option.some.inj next
          rcases closing with rfl | rfl <;> exact absurd quote (by decide)
      | lineComment =>
          obtain ⟨behind, first⟩ := exists_significant closing rest next
          exact ⟨behind, first⟩
      | blockComment =>
          obtain ⟨behind, first⟩ := exists_significant closing rest next
          exact ⟨behind, first⟩
      | comma =>
          obtain rfl : ',' = c := Option.some.inj next
          exact absurd closing (by simp [Closing])
      | number start =>
          obtain rfl : d = c := Option.some.inj next
          rw [isTokenPart_of_start start] at apart
          cases apart
      | big start =>
          obtain rfl : d = c := Option.some.inj next
          rw [isTokenPart_of_start start] at apart
          cases apart
      | word start =>
          obtain rfl : d = c := Option.some.inj next
          rw [isTokenPart_of_isWordPart (isWordPart_of_isWordStart start)] at apart
          cases apart
      | symbol =>
          by_cases blank : isBlank d = true
          · rw [Lexeme.ahead, if_pos blank] at next
            obtain ⟨others, first⟩ := exists_significant closing rest next
            refine ⟨others, ?_⟩
            rw [significant, List.filter_cons_of_neg (by simp [Lexeme.isSignificant, blank])]
            exact first
          · rw [Lexeme.ahead, if_neg blank] at next
            obtain rfl := Option.some.inj next
            exact ⟨significant others,
              List.filter_cons_of_pos (by simp [Lexeme.isSignificant, blank])⟩
termination_by s => s.length

/-! ### The rules -/

/-- A lexeme that is written as it is, as a number, a word or a piece of one. -/
def Lexeme.IsPlain : Lexeme → Prop
  | .number _ _ => True
  | .word _ => True
  | .symbol c => isTokenPart c = true
  | _ => False

/-- A lexeme that may be written in quotes. -/
def Lexeme.IsLabel : Lexeme → Prop
  | .quoted _ _ => True
  | .word _ => True
  | _ => False

/-- What may be written for significant lexemes. -/
inductive Emits : List Lexeme → List Char → Prop
  | nil : Emits [] []
  | blank {c : Char} {all : List Lexeme} {json : List Char} (blank : isBlank c = true)
      (more : Emits all json) : Emits all (c :: json)
  | mark {c : Char} {others : List Lexeme} {json : List Char} (visible : isBlank c = false)
      (apart : isTokenPart c = false) (double : c ≠ '"') (comma : c ≠ ',')
      (more : Emits others json) : Emits (.symbol c :: others) (c :: json)
  | trailing {c : Char} {others : List Lexeme} {json : List Char} (closing : Closing c)
      (more : Emits others json) : Emits (.comma :: .symbol c :: others) (c :: json)
  | comma {others : List Lexeme} {json : List Char} (more : Emits others json) :
      Emits (.comma :: others) (',' :: json)
  | text {lexeme : Lexeme} {others : List Lexeme} {body json : List Char}
      (label : lexeme.IsLabel) (closing : Json.Closing body) (more : Emits others json) :
      Emits (lexeme :: others) ('"' :: (body ++ json))
  | piece {c : Char} {lexeme : Lexeme} {others : List Lexeme} {run json : List Char}
      (plain : lexeme.IsPlain) (part : isTokenPart c = true)
      (parts : ∀ d ∈ run, isTokenPart d = true) (more : Emits others json) :
      Emits (lexeme :: others) (c :: (run ++ json))

theorem Emits.blanks {all : List Lexeme} {json : List Char} (h : Emits all json) {gap : List Char}
    (blanks : ∀ c ∈ gap, isBlank c = true) : Emits all (gap ++ json) := by
  induction gap with
  | nil => exact h
  | cons c gap ih =>
      obtain ⟨blank, blanks⟩ := List.forall_mem_cons.mp blanks
      exact .blank blank (ih blanks)

theorem Emits.parts {lexeme : Lexeme} {others : List Lexeme} {run json : List Char}
    (h : Emits others json) (plain : lexeme.IsPlain) (nonempty : run ≠ [])
    (parts : ∀ d ∈ run, isTokenPart d = true) : Emits (lexeme :: others) (run ++ json) := by
  cases run with
  | nil => exact absurd rfl nonempty
  | cons c run =>
      obtain ⟨part, parts⟩ := List.forall_mem_cons.mp parts
      exact .piece plain part parts h

theorem visible_of_closing {c : Char} (h : Closing c) : isBlank c = false := by
  rcases h with rfl | rfl <;> rfl

theorem apart_of_closing {c : Char} (h : Closing c) : isTokenPart c = false := by
  rcases h with rfl | rfl <;> rfl

/-- A comma that is dropped is found again at the closing bracket or brace behind it. -/
theorem Emits.trails {c : Char} {others all : List Lexeme} {json : List Char} (closing : Closing c)
    (h : Emits all json) (first : all = .symbol c :: others) : Emits (.comma :: all) json := by
  induction h with
  | nil => cases first
  | blank blank more ih => exact .blank blank (ih first)
  | mark visible apart double comma more =>
      cases first
      exact .trailing closing more
  | trailing closing' => cases first
  | comma => cases first
  | text label =>
      cases first
      cases label
  | piece plain =>
      cases first
      have part : isTokenPart c = true := plain
      rw [apart_of_closing closing] at part
      cases part

/-! ### What is normalised -/

theorem closing_strictBody {delimiter : Char} {body : List Char} (h : Body delimiter body) :
    Json.Closing (strictBody body ++ ['"']) := by
  induction h with
  | nil => exact .quote
  | @plain c body bare other more ih =>
      by_cases double : c = '"'
      · obtain rfl := double
        exact .escape '"' ih
      · rw [strictBody.eq_5 _ _ (fun _ same => absurd same bare) (fun _ _ same => absurd same bare)
          double]
        exact .plain double bare ih
  | @escape c body more ih =>
      by_cases single : c = '\''
      · obtain rfl := single
        exact .plain (by decide) (by decide) ih
      · rw [strictBody.eq_3 _ _ single]
        exact .escape c ih

theorem closing_parts {run : List Char} (parts : ∀ d ∈ run, isTokenPart d = true) :
    Json.Closing (run ++ ['"']) := by
  induction run with
  | nil => exact .quote
  | cons c run ih =>
      obtain ⟨part, parts⟩ := List.forall_mem_cons.mp parts
      have other {d : Char} (apart : isTokenPart d = false) : c ≠ d := fun same => by
        rw [same, apart] at part
        cases part
      exact .plain (other rfl) (other rfl) (ih parts)

theorem emits_word {c : Char} {name s : List Char} {others : List Lexeme} {json : List Char}
    (parts : ∀ d ∈ c :: name, isTokenPart d = true) (h : Emits others json) :
    Emits (.word (c :: name) :: others) (strictWord (c :: name) s ++ json) := by
  unfold strictWord
  split
  · rw [List.cons_append]
    exact .text trivial (closing_parts parts) h
  split
  · exact h.parts trivial (by decide) (List.all_eq_true.mp rfl)
  · exact h.parts trivial (List.cons_ne_nil c name) parts

theorem exists_closing {next : Option Char} (h : Trails next) : ∃ c, Closing c ∧ next = some c := by
  rcases h with brace | bracket
  · exact ⟨_, .inr rfl, brace⟩
  · exact ⟨_, .inl rfl, bracket⟩

/-- One lexeme more. -/
theorem Taken.emits {c : Char} {t s : List Char} {lexeme : Lexeme} {others : List Lexeme}
    {json : List Char} (h : Taken c t lexeme s) (rest : lexemes s = .ok others)
    (more : Emits (significant others) json) :
    Emits (significant (lexeme :: others)) (lexeme.strict s ++ json) := by
  obtain ⟨literals, names⟩ := h.parts
  cases h with
  | quoted quote closed =>
      rw [Lexeme.strict, List.cons_append]
      exact .text trivial (closing_strictBody closed) more
  | lineComment => exact more
  | blockComment =>
      refine more.blanks fun d hd => ?_
      rw [of_decide_eq_true (List.mem_filter.mp hd).2]
      rfl
  | comma =>
      rw [Lexeme.strict]
      split
      · rename_i trails
        obtain ⟨d, closing, next⟩ := exists_closing trails
        obtain ⟨behind, first⟩ := exists_significant closing rest next
        exact more.trails closing first
      · exact .comma more
  | number => exact more.parts trivial (List.cons_ne_nil _ _) (literals _ _ rfl)
  | big => exact more.parts trivial (List.cons_ne_nil _ _) (literals _ _ rfl)
  | word => exact emits_word (names _ rfl) more
  | symbol quote line block comma =>
      by_cases blank : isBlank c = true
      · rw [significant, List.filter_cons_of_neg (by simp [Lexeme.isSignificant, blank])]
        exact .blank blank more
      rw [significant, List.filter_cons_of_pos (by simp [Lexeme.isSignificant, blank])]
      by_cases part : isTokenPart c = true
      · exact .piece part part (fun d hd => absurd hd List.not_mem_nil) more
      · exact .mark (Bool.not_eq_true _ ▸ blank) (Bool.not_eq_true _ ▸ part)
          (fun double => quote (.inl double)) comma more

/-- **What is normalised is written for the significant lexemes.** -/
theorem exists_emits : ∀ {s json : List Char}, normalise s = .ok json →
    ∃ all, lexemes s = .ok all ∧ Emits (significant all) json
  | [], json, h => by
      rw [normalise] at h
      cases h
      exact ⟨[], lexemes_nil, .nil⟩
  | c :: t, json, h => by
      obtain ⟨lexeme, s, tail, taken, rest, rfl⟩ := normalise_cons_eq_ok h
      obtain ⟨short, -⟩ := taken.takes
      obtain ⟨others, scanned, more⟩ := exists_emits rest
      refine ⟨lexeme :: others, ?_, taken.emits scanned more⟩
      rw [lexemes_cons taken, scanned]
      rfl
termination_by s => s.length

/-! ### What a front comes from -/

section
variable {all : List Lexeme} {c : Char} {s : List Char}

theorem Emits.of_space (h : Emits all (c :: s)) (space : isSpace c = true) : Emits all s := by
  have apart := isTokenPart_of_isSpace space
  have blank : isBlank c = true := by
    simp only [isSpace, Bool.or_eq_true, decide_eq_true_eq] at space
    rcases space with ((rfl | rfl) | rfl) | rfl <;> rfl
  cases h with
  | blank blank more => exact more
  | mark visible => simp [visible] at blank
  | trailing closing => simp [visible_of_closing closing] at blank
  | comma => cases space
  | text => cases space
  | piece plain part => simp [part] at apart

theorem Emits.of_spaces {sp : List Char} (spaces : AllSpace sp) (h : Emits all (sp ++ s)) :
    Emits all s := by
  induction sp with
  | nil => exact h
  | cons c sp ih =>
      obtain ⟨space, spaces⟩ := List.forall_mem_cons.mp spaces
      exact ih spaces (h.of_space space)

theorem Emits.lead {r : List Char} (h : Emits all s) (lead : Leads s c r) : Emits all (c :: r) := by
  obtain ⟨sp, spaces, -, rfl⟩ := lead
  exact h.of_spaces spaces

theorem Emits.eq_nil (h : Emits all s) (spaces : AllSpace s) : all = [] := by
  have none : Emits all [] := by
    rw [← List.append_nil s] at h
    exact h.of_spaces spaces
  cases none
  rfl

/-- A mark is a symbol, behind a comma that is dropped if it closes a list or mapping. -/
theorem Emits.of_mark (h : Emits all (c :: s)) (visible : isBlank c = false)
    (apart : isTokenPart c = false) (double : c ≠ '"') (comma : c ≠ ',') :
    ∃ others, Emits others s ∧
      (all = .symbol c :: others ∨ Closing c ∧ all = .comma :: .symbol c :: others) := by
  cases h with
  | blank blank => simp [visible] at blank
  | mark _ _ _ _ more => exact ⟨_, more, .inl rfl⟩
  | trailing closing more => exact ⟨_, more, .inr ⟨closing, rfl⟩⟩
  | comma => exact absurd rfl comma
  | text => exact absurd rfl double
  | piece plain part => simp [part] at apart

theorem Emits.of_comma (h : Emits all (c :: s)) (comma : c = ',') :
    ∃ others, Emits others s ∧ all = .comma :: others := by
  subst comma
  generalize same : ',' = d at h
  cases h with
  | blank blank =>
      subst same
      cases blank
  | mark _ _ _ comma => exact absurd same.symm comma
  | trailing closing =>
      subst same
      exact absurd closing (by simp [Closing])
  | comma more => exact ⟨_, more, rfl⟩
  | text => exact absurd same (by decide)
  | piece plain part =>
      subst same
      cases part

theorem Emits.of_quote (h : Emits all (c :: s)) (double : c = '"') :
    ∃ lexeme others body json, all = lexeme :: others ∧ lexeme.IsLabel ∧ s = body ++ json ∧
      Json.Closing body ∧ Emits others json := by
  generalize text : c :: s = front at h
  cases h with
  | nil => cases text
  | blank blank =>
      obtain ⟨rfl, rfl⟩ := List.cons.inj text
      subst double
      cases blank
  | mark _ _ other =>
      obtain ⟨rfl, rfl⟩ := List.cons.inj text
      exact absurd double other
  | trailing closing =>
      obtain ⟨rfl, rfl⟩ := List.cons.inj text
      subst double
      exact absurd closing (by simp [Closing])
  | comma =>
      obtain ⟨rfl, rfl⟩ := List.cons.inj text
      exact absurd double (by decide)
  | text label closing more => exact ⟨_, _, _, _, rfl, label, (List.cons.inj text).2, closing, more⟩
  | piece plain part =>
      obtain ⟨rfl, rfl⟩ := List.cons.inj text
      subst double
      cases part

theorem Emits.of_part (h : Emits all (c :: s)) (part : isTokenPart c = true) :
    ∃ lexeme others run json, all = lexeme :: others ∧ lexeme.IsPlain ∧ s = run ++ json ∧
      (∀ d ∈ run, isTokenPart d = true) ∧ Emits others json := by
  cases h with
  | blank blank => simp [isBlank_of_isTokenPart part] at blank
  | mark _ apart => simp [apart] at part
  | trailing closing => simp [apart_of_closing closing] at part
  | comma => cases part
  | text => cases part
  | piece plain _ parts more => exact ⟨_, _, _, _, rfl, plain, rfl, parts, more⟩

end

/-! ### Tokens -/

/-- Up to what is left of a token, a text is written for significant lexemes. -/
def Behind (all : List Lexeme) (s : List Char) : Prop :=
  ∃ left json, (∀ c ∈ left, isTokenPart c = true) ∧ s = left ++ json ∧ Emits all json

theorem Emits.behind {all : List Lexeme} {s : List Char} (h : Emits all s) : Behind all s :=
  ⟨[], s, by simp, rfl, h⟩

/-- Nothing is left of a token where something else is read next. -/
theorem Behind.lead {all : List Lexeme} {s r : List Char} {c : Char} (h : Behind all s)
    (lead : Leads s c r) (apart : isTokenPart c = false) : Emits all (c :: r) := by
  obtain ⟨left, json, parts, rfl, emits⟩ := h
  cases left with
  | nil => exact emits.lead lead
  | cons d left =>
      have part := parts d List.mem_cons_self
      obtain ⟨rfl, -⟩ := lead.unique (leads_part part _)
      rw [part] at apart
      cases apart

/-- Nothing is left of a token where the rest is white space, and no lexeme either. -/
theorem Behind.eq_nil {all : List Lexeme} {s : List Char} (h : Behind all s) (spaces : AllSpace s) :
    all = [] := by
  obtain ⟨left, json, parts, rfl, emits⟩ := h
  cases left with
  | nil => exact emits.eq_nil spaces
  | cons d left =>
      have apart := isTokenPart_of_isSpace (spaces d (by simp))
      rw [parts d List.mem_cons_self] at apart
      cases apart

/-- A token comes from a run of lexemes. The last one may go on behind it. -/
theorem Emits.run {all : List Lexeme} {token rest : List Char}
    (parts : ∀ c ∈ token, isTokenPart c = true) (h : Emits all (token ++ rest)) :
    ∃ run others, all = run ++ others ∧ (∀ lexeme ∈ run, lexeme.IsPlain) ∧
      (token ≠ [] → run ≠ []) ∧ Behind others rest := by
  induction hn : token.length using Nat.strongRecOn generalizing token all with
  | _ n ih =>
    cases token with
    | nil => exact ⟨[], all, rfl, by simp, fun none => absurd rfl none, h.behind⟩
    | cons c token =>
        obtain ⟨part, parts⟩ := List.forall_mem_cons.mp parts
        obtain ⟨lexeme, others, run, json, rfl, plain, text, runParts, more⟩ := h.of_part part
        rcases List.append_eq_append_iff.mp text with ⟨left, rfl, rfl⟩ | ⟨token, rfl, rfl⟩
        · have leftParts := fun d hd => runParts d (List.mem_append_right _ hd)
          exact ⟨[lexeme], others, rfl, by simpa using plain, fun _ => List.cons_ne_nil _ _,
            left, json, leftParts, rfl, more⟩
        · have less : token.length < n := by
            rw [← hn, List.length_cons, List.length_append]
            omega
          have tokenParts := fun d hd => parts d (List.mem_append_right _ hd)
          obtain ⟨next, behind, rfl, plains, -, left⟩ := ih _ less tokenParts more rfl
          exact ⟨lexeme :: next, behind, rfl, List.forall_mem_cons.mpr ⟨plain, plains⟩,
            fun _ => List.cons_ne_nil _ _, left⟩

end ZkCommand.Relaxed
