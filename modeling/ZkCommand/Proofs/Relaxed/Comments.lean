import Mathlib
import ZkCommand.Proofs.Relaxed.Reading
import ZkCommand.Proofs.Relaxed.Scan

/-!
# ZkCommand.Proofs.Relaxed.Comments

**Comments and white space.** Normalising leaves the line breaks of a block comment in its place,
and nothing else. So a comment is as good as a blank, unless it has no line break, a token ends
right before it and another one starts right behind it (`Joins`). A blank keeps two tokens apart
there that no text can have next to each other, and the comment makes one token of them
(`readTree_comment`).
-/

namespace ZkCommand.Relaxed

open Text Grammar
open Json (AllSpace Apart Ends EndsInToken Leads isSpace isMark isTokenPart)

/-! ### Where tokens resume -/

/-- A text with a block comment in front of it. -/
def commented (body rest : List Char) : List Char := '/' :: '*' :: (body ++ '*' :: '/' :: rest)

theorem nextSignificant_commented {body : List Char} (unclosed : closesBlock body = false)
    (s : List Char) : nextSignificant (commented body s) = nextSignificant s :=
  (Taken.blockComment unclosed s).nextSignificant_eq

/-- The line breaks of a comment stay. -/
theorem normalise_commented {body : List Char} (unclosed : closesBlock body = false)
    (s : List Char) : normalise (commented body s) =
      (normalise s).map fun tail => body.filter (· = '\n') ++ tail :=
  Normalises.lexeme (takes_blockComment unclosed s)

theorem lineBreaks_eq_nil_iff {body : List Char} :
    body.filter (· = '\n') = [] ↔ '\n' ∉ body := by
  rw [List.filter_eq_nil_iff]
  constructor
  · exact fun none broken => none _ broken rfl
  · rintro oneLine c hc same
    rw [of_decide_eq_true same] at hc
    exact oneLine hc

theorem allSpace_lineBreaks (body : List Char) : AllSpace (body.filter (· = '\n')) := by
  intro c hc
  rw [of_decide_eq_true (List.mem_filter.mp hc).2]
  rfl

/-- A text starts with a character of a token, or does behind block comments without line breaks. -/
inductive Resumes : List Char → Prop
  | token {c : Char} {s : List Char} (part : isTokenPart c = true) : Resumes (c :: s)
  | comment {body s : List Char} (unclosed : closesBlock body = false) (oneLine : '\n' ∉ body)
      (more : Resumes s) : Resumes (commented body s)

theorem Resumes.next {s : List Char} (h : Resumes s) :
    ∃ c, isTokenPart c = true ∧ nextSignificant s = some c := by
  induction h with
  | token part => exact ⟨_, part, nextSignificant_token part _⟩
  | comment unclosed oneLine more ih => rwa [nextSignificant_commented unclosed]

theorem Resumes.next_ne {s : List Char} (h : Resumes s) {d : Char} (other : isTokenPart d = false) :
    nextSignificant s ≠ some d := by
  obtain ⟨c, part, next⟩ := h.next
  intro same
  obtain rfl : c = d := Option.some.inj (next.symm.trans same)
  rw [part] at other
  cases other

theorem Resumes.not_trails {s : List Char} (h : Resumes s) : ¬ Trails (nextSignificant s) := by
  rintro (same | same) <;> exact h.next_ne rfl same

theorem leads_token {d : Char} (h : isTokenPart d = true) (r : List Char) :
    Leads (d :: r) d r ∧ isMark d = false := by
  refine ⟨Json.leads_part h r, ?_⟩
  by_contra mark
  rw [Json.isTokenPart_of_isMark (by simpa using mark)] at h
  cases h

/-- What is written where a token resumes opens, closes and separates nothing. -/
theorem Resumes.leads {s json : List Char} (h : Resumes s) (read : normalise s = .ok json) :
    ∃ d r, Leads json d r ∧ isMark d = false := by
  induction h generalizing json with
  | @token c u part =>
      obtain ⟨lexeme, s, tail, taken, -, rfl⟩ := normalise_cons_eq_ok read
      cases taken with
      | quoted quote => rcases quote with rfl | rfl <;> cases part
      | lineComment => cases part
      | blockComment => cases part
      | comma => cases part
      | number => exact ⟨c, _, leads_token part _⟩
      | big => exact ⟨c, _, leads_token part _⟩
      | symbol => exact ⟨c, _, leads_token part _⟩
      | word =>
          rw [Lexeme.strict, strictWord]
          split
          · exact ⟨'"', _, Json.leads_cons rfl _, rfl⟩
          split
          · exact ⟨'n', _, leads_token rfl _⟩
          · exact ⟨c, _, leads_token part _⟩
  | @comment body s unclosed oneLine more ih =>
      rw [normalise_commented unclosed, lineBreaks_eq_nil_iff.mpr oneLine] at read
      obtain ⟨tail, rest, rfl⟩ := map_eq_ok_iff.mp read
      exact ih rest

/-- Where a token is written it resumes. -/
theorem resumes_of_head : ∀ {s json : List Char}, normalise s = .ok json →
    json.head?.any isTokenPart = true → Resumes s
  | [], json, read, head => by
      rw [normalise] at read
      cases read
      cases head
  | c :: u, json, read, head => by
      obtain ⟨lexeme, s, tail, taken, rest, rfl⟩ := normalise_cons_eq_ok read
      obtain ⟨short, -⟩ := taken.takes
      have ih (head : tail.head?.any isTokenPart = true) : Resumes s := resumes_of_head rest head
      cases taken with
      | quoted => cases head
      | lineComment oneLine stops =>
          -- A line comment ends in front of a line break, where no token resumes.
          cases ih head with
          | token part =>
              rw [of_decide_eq_false stops |> not_not.mp] at part
              cases part
          | comment => cases stops
      | @blockComment body unclosed =>
          by_cases oneLine : '\n' ∈ body
          · obtain ⟨d, r, filled⟩ := List.exists_cons_of_ne_nil
              (mt lineBreaks_eq_nil_iff.mp (not_not.mpr oneLine))
            have space := allSpace_lineBreaks body d (filled ▸ List.mem_cons_self)
            rw [Lexeme.strict, filled] at head
            have part : isTokenPart d = true := head
            rw [Json.isTokenPart_of_isSpace space] at part
            cases part
          · rw [Lexeme.strict, lineBreaks_eq_nil_iff.mpr oneLine] at head
            exact .comment unclosed oneLine (ih head)
      | comma =>
          rw [Lexeme.strict] at head
          split at head
          · rename_i trails
            exact absurd trails (ih head).not_trails
          · cases head
      | number start => exact .token (isTokenPart_of_start start)
      | big start => exact .token (isTokenPart_of_start start)
      | word start =>
          exact .token (isTokenPart_of_isWordPart (isWordPart_of_isWordStart start))
      | symbol => exact .token head
termination_by s => s.length

/-! ### Comments -/

/-- A comment leaves nothing between a character of a token before it and one behind it. -/
def Joins (front body rest : List Char) : Prop :=
  '\n' ∉ body ∧ EndsInToken front ∧ Resumes rest

theorem allSpace_blank : AllSpace [' '] := by simp [AllSpace, isSpace]

section
variable {front body rest out json : List Char} (unclosed : closesBlock body = false)
  (settled : Settled (commented body rest) front out)
include unclosed settled

/-- The texts with the comment and with the blank are written the same but for what is left of the
comment and the blank. -/
theorem normalise_around :
    (normalise (front ++ commented body rest) =
      (normalise rest).map fun tail => out ++ (body.filter (· = '\n') ++ tail)) ∧
    normalise (front ++ ' ' :: rest) =
      (normalise rest).map fun tail => out ++ ([' '] ++ tail) := by
  have comment : Normalises front out (commented body rest) := settled.normalises ⟨rfl, rfl⟩
  have blank : Normalises front out (' ' :: rest) := settled.normalises ⟨rfl,
    (nextSignificant_blank rfl rest).trans (nextSignificant_commented unclosed rest).symm⟩
  have space : normalise (' ' :: rest) = _ := normalises_symbol (c := ' ') (by decide) rest
  unfold Normalises at comment blank
  rw [comment, blank, normalise_commented unclosed, space]
  cases normalise rest <;> exact ⟨rfl, rfl⟩

/-- Where the comment joins nothing, what is left of it is apart from tokens where the blank is. -/
theorem apart_of_not_joins (joins : ¬ Joins front body rest) (read : normalise rest = .ok json) :
    Apart (body.filter (· = '\n')) [' '] json out := by
  intro last head
  refine ⟨fun none => joins ?_, List.cons_ne_nil ' ' []⟩
  have resumes := resumes_of_head read head
  refine ⟨lineBreaks_eq_nil_iff.mp none, (settled.last last).resolve_right ?_, resumes⟩
  rw [nextSignificant_commented unclosed]
  exact resumes.not_trails

theorem readTree_around_iff (joins : ¬ Joins front body rest) (read : normalise rest = .ok json)
    (t : Tree) :
    Json.readTree (out ++ (body.filter (· = '\n') ++ json)) = .ok t ↔
      Json.readTree (out ++ ([' '] ++ json)) = .ok t := by
  have apart := apart_of_not_joins unclosed settled joins read
  have lineBreaks := allSpace_lineBreaks body
  constructor
  · exact Json.readTree_of_meets lineBreaks allSpace_blank (.before settled.closed apart)
  · exact Json.readTree_of_meets allSpace_blank lineBreaks (.before settled.closed apart.symm)

/-- Where it joins two tokens, the blank stands between a token and what is no mark. -/
theorem readTree_blank_ne (joins : Joins front body rest) (read : normalise rest = .ok json)
    (t : Tree) : Json.readTree (out ++ ([' '] ++ json)) ≠ .ok t := by
  obtain ⟨-, last, resumes⟩ := joins
  obtain ⟨d, r, leads, other⟩ := resumes.leads read
  have next : nextSignificant (commented body rest) ≠ some ':' := by
    rw [nextSignificant_commented unclosed]
    exact resumes.next_ne rfl
  have ends : Ends out := ⟨settled.closed, settled.ends last next⟩
  exact Json.readTree_ne_of_ends allSpace_blank (List.cons_ne_nil ' ' [])
    (leads.of_allSpace allSpace_blank) other ends t

end

/-- **A block comment is as good as a blank**: the same tree is read, or none is. It may not be only
where it joins two tokens, and nothing is read with the blank there. -/
theorem readTree_comment {front body : String} (scanned : Scanned front.toList)
    (unclosed : closesBlock body.toList = false) (rest : String) :
    (¬ Joins front.toList body.toList rest.toList →
      ∀ t, readTree (front ++ "/*" ++ body ++ "*/" ++ rest) = .ok t ↔
        readTree (front ++ " " ++ rest) = .ok t) ∧
    (Joins front.toList body.toList rest.toList →
      ∃ fault, readTree (front ++ " " ++ rest) = .error fault) := by
  have comment : (front ++ "/*" ++ body ++ "*/" ++ rest).toList
      = front.toList ++ commented body.toList rest.toList := by
    simp [commented]
  have blank : (front ++ " " ++ rest).toList = front.toList ++ ' ' :: rest.toList := by
    simp
  have breaks : Breaks (commented body.toList rest.toList) := rfl
  obtain ⟨out, settled⟩ := exists_settled breaks scanned
  obtain ⟨withComment, withBlank⟩ := normalise_around unclosed settled
  constructor
  · intro joins t
    rw [readTree_eq_ok_iff, readTree_eq_ok_iff, comment, blank, withComment, withBlank]
    cases read : normalise rest.toList with
    | error => simp [Except.map]
    | ok json => simpa [Except.map] using readTree_around_iff unclosed settled joins read t
  · intro joins
    cases found : readTree (front ++ " " ++ rest) with
    | error fault => exact ⟨fault, rfl⟩
    | ok t =>
        rw [readTree_eq_ok_iff, blank, withBlank] at found
        obtain ⟨_, written, found⟩ := found
        obtain ⟨json, read, rfl⟩ := map_eq_ok_iff.mp written
        exact absurd found (readTree_blank_ne unclosed settled joins read t)

theorem readTree_comment_between :
    Scanned "[1".toList ∧ closesBlock " one ".toList = false ∧
      ¬ Joins "[1".toList " one ".toList ",2]".toList ∧
      (∀ t, readTree ("[1" ++ "/*" ++ " one " ++ "*/" ++ ",2]") = .ok t ↔
        readTree ("[1" ++ " " ++ ",2]") = .ok t) ∧
      readTree ("[1" ++ " " ++ ",2]") = .ok (.list [.num "1", .num "2"]) ∧
      ∃ fault, readTree ("1" ++ " " ++ "2") = .error fault := by
  have list : Scanned "[1".toList := ⟨by decide, by decide⟩
  have one : closesBlock " one ".toList = false := rfl
  have apart : ¬ Joins "[1".toList " one ".toList ",2]".toList := by
    intro joins
    cases joins.2.2 with
    | token part => cases part
  have number : Scanned "1".toList := ⟨by decide, by decide⟩
  have nothing : closesBlock "".toList = false := rfl
  have joined : Joins "1".toList "".toList "2".toList := ⟨List.not_mem_nil, rfl, .token rfl⟩
  exact ⟨list, one, apart, (readTree_comment list one ",2]").1 apart, by cbv,
    (readTree_comment number nothing "2").2 joined⟩

/-- Two numbers become one. -/
theorem readTree_comment_within :
    Scanned "1".toList ∧ closesBlock "".toList = false ∧
      readTree ("1" ++ "/*" ++ "" ++ "*/" ++ "2") = .ok (.num "12") ∧
      readTree ("1" ++ " " ++ "2") = .error (.malformed ⟨1, 3⟩ .trailingCharacters) :=
  ⟨⟨by decide, by decide⟩, rfl, by cbv, by cbv⟩

end ZkCommand.Relaxed
