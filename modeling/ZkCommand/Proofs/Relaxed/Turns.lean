import Mathlib
import ZkCommand.Proofs.Json.Failures
import ZkCommand.Proofs.Relaxed.Read
import ZkCommand.Proofs.Relaxed.Scan
import ZkCommand.Proofs.Text.Position

/-!
# ZkCommand.Proofs.Relaxed.Turns

**Normalising keeps the lines of a text.** The scanner goes through a text in turns: in each one it
reads a token, or one character of a string or a comment, and writes what stands for that (`turns`).
A turn writes as many line breaks as it reads, and only as the last character (`Turn.Level`). So
after every turn as many line breaks have been written as read, and what is written stands on the
line of what it is written for (`normalise_keeps_lines`). A number in a text of its own is the
exception: its lines are those of that text, with the breaks that its escapes stand for.
-/

namespace ZkCommand.Relaxed

open Text
open Json (isTokenPart)

/-- What the scanner reads in one turn of its loops, and what it writes for that. -/
structure Turn where
  read : List Char
  written : List Char
  deriving DecidableEq, Repr

/-- The turns through the body of a string. -/
def bodyTurns : List Char → List Turn
  | [] => []
  | '\\' :: '\'' :: rest => ⟨['\\', '\''], ['\'']⟩ :: bodyTurns rest
  | '\\' :: c :: rest => ⟨['\\', c], ['\\', c]⟩ :: bodyTurns rest
  | '"' :: rest => ⟨['"'], ['\\', '"']⟩ :: bodyTurns rest
  | c :: rest => ⟨[c], [c]⟩ :: bodyTurns rest

/-- One character of a block comment. -/
def commentTurn (c : Char) : Turn := ⟨[c], if c = '\n' then ['\n'] else []⟩

/-- The turns through a lexeme that is followed by `rest`. -/
def Lexeme.turns (rest : List Char) : Lexeme → List Turn
  | .quoted delimiter body => ⟨[delimiter], ['"']⟩ :: (bodyTurns body ++ [⟨[delimiter], ['"']⟩])
  | .lineComment body => ('/' :: '/' :: body).map fun c => ⟨[c], []⟩
  | .blockComment body => ⟨['/', '*'], []⟩ :: (body.map commentTurn ++ [⟨['*', '/'], []⟩])
  | .comma => [⟨[','], strict rest .comma⟩]
  | .number literal suffixed => ⟨literal, literal⟩ :: if suffixed then [⟨['n'], []⟩] else []
  | .word name => [⟨name, strictWord name rest⟩]
  | .symbol c => [⟨[c], [c]⟩]

/-- The turns through a text. -/
def turns : List Char → Except Unclosed (List Turn)
  | [] => .ok []
  | c :: s => do
      let lexeme ← Lexeme.first c s
      let others ← turns lexeme.rest
      .ok (lexeme.value.turns lexeme.rest ++ others)
termination_by s => s.length
decreasing_by exact lexeme.rest_lt

/-- All that is read in some turns. -/
def readIn (all : List Turn) : List Char := all.flatMap Turn.read

/-- All that is written in some turns. -/
def writtenIn (all : List Turn) : List Char := all.flatMap Turn.written

theorem readIn_append (all others : List Turn) :
    readIn (all ++ others) = readIn all ++ readIn others :=
  List.flatMap_append

theorem writtenIn_append (all others : List Turn) :
    writtenIn (all ++ others) = writtenIn all ++ writtenIn others := List.flatMap_append

/-! ### The turns are the scan -/

theorem readIn_bodyTurns (body : List Char) : readIn (bodyTurns body) = body := by
  induction body using bodyTurns.induct with
  | case1 => rfl
  | case2 rest ih => exact congrArg ('\\' :: '\'' :: ·) ih
  | case3 c rest other ih =>
      rw [bodyTurns.eq_3 _ _ other]
      exact congrArg ('\\' :: c :: ·) ih
  | case4 rest ih => exact congrArg ('"' :: ·) ih
  | case5 c rest single pair double ih =>
      rw [bodyTurns.eq_5 _ _ single pair double]
      exact congrArg (c :: ·) ih

theorem writtenIn_bodyTurns (body : List Char) : writtenIn (bodyTurns body) = strictBody body := by
  induction body using bodyTurns.induct with
  | case1 => rfl
  | case2 rest ih => exact congrArg ('\'' :: ·) ih
  | case3 c rest other ih =>
      rw [bodyTurns.eq_3 _ _ other, strictBody.eq_3 _ _ other]
      exact congrArg ('\\' :: c :: ·) ih
  | case4 rest ih => exact congrArg ('\\' :: '"' :: ·) ih
  | case5 c rest single pair double ih =>
      rw [bodyTurns.eq_5 _ _ single pair double, strictBody.eq_5 _ _ single pair double]
      exact congrArg (c :: ·) ih

theorem readIn_commentTurns (body : List Char) : readIn (body.map commentTurn) = body := by
  induction body with
  | nil => rfl
  | cons c body ih => exact congrArg (c :: ·) ih

theorem writtenIn_commentTurns (body : List Char) :
    writtenIn (body.map commentTurn) = body.filter (· = '\n') := by
  induction body with
  | nil => rfl
  | cons c body ih =>
      by_cases broken : c = '\n'
      · obtain rfl := broken
        exact congrArg ('\n' :: ·) ih
      · rw [List.filter_cons_of_neg (by simpa using broken), ← ih, List.map_cons, commentTurn,
          if_neg broken]
        rfl

theorem Lexeme.readIn_turns (rest : List Char) (lexeme : Lexeme) :
    readIn (lexeme.turns rest) = lexeme.source := by
  cases lexeme with
  | quoted delimiter body =>
      show delimiter :: readIn (bodyTurns body ++ _) = _
      rw [readIn_append, readIn_bodyTurns]
      rfl
  | lineComment body =>
      show '/' :: '/' :: (body.map fun c => Turn.mk [c] []).flatMap Turn.read = _
      rw [List.flatMap_map]
      exact congrArg ('/' :: '/' :: ·) (List.flatMap_singleton' body)
  | blockComment body =>
      show '/' :: '*' :: readIn (body.map commentTurn ++ _) = _
      rw [readIn_append, readIn_commentTurns]
      rfl
  | comma => rfl
  | number literal suffixed => cases suffixed <;> rfl
  | word name => exact List.append_nil name
  | symbol c => rfl

theorem Lexeme.writtenIn_turns (rest : List Char) (lexeme : Lexeme) :
    writtenIn (lexeme.turns rest) = lexeme.strict rest := by
  cases lexeme with
  | quoted delimiter body =>
      show '"' :: writtenIn (bodyTurns body ++ _) = _
      rw [writtenIn_append, writtenIn_bodyTurns]
      rfl
  | lineComment body =>
      refine List.flatMap_eq_nil_iff.mpr fun turn member => ?_
      obtain ⟨c, -, rfl⟩ := List.mem_map.mp member
      rfl
  | blockComment body =>
      show writtenIn (body.map commentTurn ++ _) = _
      rw [writtenIn_append, writtenIn_commentTurns]
      exact List.append_nil _
  | comma => exact List.append_nil _
  | number literal suffixed => cases suffixed <;> exact List.append_nil literal
  | word name => exact List.append_nil _
  | symbol c => rfl

theorem turns_nil : turns [] = .ok [] := by rw [turns]

theorem turns_cons {c : Char} {t s : List Char} {lexeme : Lexeme} (h : Taken c t lexeme s) :
    turns (c :: t) = (turns s).map (lexeme.turns s ++ ·) := by
  obtain ⟨short, first⟩ := h.takes
  rw [turns, first]
  rfl

/-! ### One turn -/

/-- As many line breaks are written as are read, and only at the end. -/
structure Turn.Level (turn : Turn) : Prop where
  breaks : turn.written.count '\n' = turn.read.count '\n'
  read : '\n' ∉ turn.read.dropLast
  written : '\n' ∉ turn.written.dropLast

theorem Turn.level_of_notMem {read written : List Char} (oneLine : '\n' ∉ read)
    (oneLine' : '\n' ∉ written) : Level ⟨read, written⟩ where
  breaks := by rw [List.count_eq_zero_of_not_mem oneLine, List.count_eq_zero_of_not_mem oneLine']
  read := fun broken => oneLine (List.dropLast_subset _ broken)
  written := fun broken => oneLine' (List.dropLast_subset _ broken)

theorem Turn.level_copy (c : Char) : Level ⟨[c], [c]⟩ := ⟨rfl, List.not_mem_nil, List.not_mem_nil⟩

theorem level_of_mem_bodyTurns {body : List Char} : ∀ turn ∈ bodyTurns body, turn.Level := by
  induction body using bodyTurns.induct with
  | case1 => exact fun turn member => absurd member List.not_mem_nil
  | case2 rest ih =>
      exact List.forall_mem_cons.mpr ⟨Turn.level_of_notMem (by decide) (by decide), ih⟩
  | case3 c rest other ih =>
      rw [bodyTurns.eq_3 _ _ other]
      have backslash : '\n' ∉ ['\\'] := by decide
      exact List.forall_mem_cons.mpr ⟨⟨rfl, backslash, backslash⟩, ih⟩
  | case4 rest ih =>
      exact List.forall_mem_cons.mpr ⟨Turn.level_of_notMem (by decide) (by decide), ih⟩
  | case5 c rest single pair double ih =>
      rw [bodyTurns.eq_5 _ _ single pair double]
      exact List.forall_mem_cons.mpr ⟨Turn.level_copy c, ih⟩

theorem level_commentTurn (c : Char) : (commentTurn c).Level := by
  by_cases broken : c = '\n'
  · obtain rfl := broken
    exact Turn.level_copy '\n'
  · rw [commentTurn, if_neg broken]
    exact Turn.level_of_notMem (by simpa using Ne.symm broken) List.not_mem_nil

theorem notMem_break_of_parts {run : List Char} (parts : ∀ c ∈ run, isTokenPart c = true) :
    '\n' ∉ run := fun broken => by cases parts _ broken

theorem notMem_break_strictWord {name : List Char} (rest : List Char)
    (parts : ∀ c ∈ name, isTokenPart c = true) : '\n' ∉ strictWord name rest := by
  have oneLine := notMem_break_of_parts parts
  unfold strictWord
  split
  · simp [oneLine]
  split
  · decide
  · exact oneLine

/-- **One lexeme.** -/
theorem Taken.level {c : Char} {t s : List Char} {lexeme : Lexeme} (h : Taken c t lexeme s) :
    ∀ turn ∈ lexeme.turns s, turn.Level := by
  obtain ⟨literals, names⟩ := h.parts
  cases h with
  | quoted quote =>
      have mark : Turn.Level ⟨[c], ['"']⟩ := by
        rcases quote with rfl | rfl <;> exact Turn.level_of_notMem (by decide) (by decide)
      refine List.forall_mem_cons.mpr ⟨mark, List.forall_mem_append.mpr ⟨?_, ?_⟩⟩
      · exact level_of_mem_bodyTurns
      · exact List.forall_mem_singleton.mpr mark
  | @lineComment body s oneLine =>
      intro turn member
      obtain ⟨d, found, rfl⟩ := List.mem_map.mp member
      refine Turn.level_of_notMem (fun broken => ?_) List.not_mem_nil
      rw [← List.mem_singleton.mp broken] at found
      simp [oneLine] at found
  | blockComment =>
      have mark : Turn.Level ⟨['/', '*'], []⟩ ∧ Turn.Level ⟨['*', '/'], []⟩ :=
        ⟨Turn.level_of_notMem (by decide) (by decide), Turn.level_of_notMem (by decide) (by decide)⟩
      refine List.forall_mem_cons.mpr ⟨mark.1, List.forall_mem_append.mpr ⟨?_, ?_⟩⟩
      · exact List.forall_mem_map.mpr fun d _ => level_commentTurn d
      · exact List.forall_mem_singleton.mpr mark.2
  | comma =>
      refine List.forall_mem_singleton.mpr (Turn.level_of_notMem (by decide) ?_)
      rw [Lexeme.strict]
      split <;> decide
  | number =>
      have oneLine := notMem_break_of_parts (literals _ _ rfl)
      exact List.forall_mem_singleton.mpr (Turn.level_of_notMem oneLine oneLine)
  | big =>
      have oneLine := notMem_break_of_parts (literals _ _ rfl)
      refine List.forall_mem_cons.mpr ⟨Turn.level_of_notMem oneLine oneLine, ?_⟩
      exact List.forall_mem_singleton.mpr (Turn.level_of_notMem (by decide) (by decide))
  | word =>
      have parts := names _ rfl
      exact List.forall_mem_singleton.mpr
        (Turn.level_of_notMem (notMem_break_of_parts parts) (notMem_break_strictWord s parts))
  | symbol => exact List.forall_mem_singleton.mpr (Turn.level_copy c)

/-! ### The whole scan -/

/-- **What is normalised has been scanned in turns**, each of which keeps the lines. -/
theorem exists_turns : ∀ {s json : List Char}, normalise s = .ok json →
    ∃ all, turns s = .ok all ∧ readIn all = s ∧ writtenIn all = json ∧ ∀ turn ∈ all, turn.Level
  | [], json, h => by
      rw [normalise] at h
      cases h
      exact ⟨[], turns_nil, rfl, rfl, fun turn member => absurd member List.not_mem_nil⟩
  | c :: t, json, h => by
      obtain ⟨lexeme, s, tail, taken, rest, rfl⟩ := normalise_cons_eq_ok h
      obtain ⟨short, -⟩ := taken.takes
      obtain ⟨others, scanned, read, written, levels⟩ := exists_turns rest
      refine ⟨lexeme.turns s ++ others, ?_, ?_, ?_,
        List.forall_mem_append.mpr ⟨taken.level, levels⟩⟩
      · rw [turns_cons taken, scanned]
        rfl
      · rw [readIn_append, lexeme.readIn_turns, read, taken.source]
      · rw [writtenIn_append, lexeme.writtenIn_turns, written]
termination_by s => s.length

theorem count_writtenIn {all : List Turn} (levels : ∀ turn ∈ all, turn.Level) :
    (writtenIn all).count '\n' = (readIn all).count '\n' := by
  induction all with
  | nil => rfl
  | cons turn all ih =>
      obtain ⟨level, levels⟩ := List.forall_mem_cons.mp levels
      rw [writtenIn, readIn, List.flatMap_cons, List.flatMap_cons, List.count_append,
        List.count_append, level.breaks]
      exact congrArg _ (ih levels)

theorem lineNumber_of_notMem_dropLast {before l front back : List Char} {c : Char}
    (oneLine : '\n' ∉ l.dropLast) (split : l = front ++ c :: back) :
    lineNumber (before ++ front) = lineNumber before := by
  have inner : '\n' ∉ front := fun broken => by
    refine oneLine ?_
    rw [split, List.dropLast_append_cons]
    exact List.mem_append_left _ broken
  rw [lineNumber_append, List.count_eq_zero_of_not_mem inner, Nat.add_zero]

/-- **Line numbers are kept.** After every turn of the scanner as many line breaks have been written
as read. So each character that a turn writes is on the line of each character that it reads, the
normalised text has as many lines as the source, and a syntax error is on a line of the source, or
on one of a string that holds a number. -/
theorem normalise_keeps_lines (text : String) :
    (∀ json, strictText text.toList = .ok json →
      ∃ all, turns text.toList = .ok all ∧ readIn all = text.toList ∧ writtenIn all = json ∧
        (∀ before after, all = before ++ after →
          (writtenIn before).count '\n' = (readIn before).count '\n') ∧
        (∀ before turn after, all = before ++ turn :: after →
          ∀ front c back front' d back', turn.read = front ++ c :: back →
            turn.written = front' ++ d :: back' →
              lineNumber (writtenIn before ++ front') = lineNumber (readIn before ++ front)) ∧
        (lines json).length = (lines text.toList).length) ∧
    ∀ place cause, readTree text = .error (.malformed place cause) →
      1 ≤ place.line ∧ (place.line ≤ (lines text.toList).length ∨
        ∃ json number, strictText text.toList = .ok json ∧ Json.NumberIn json number ∧
          place.line ≤ (lines number).length) := by
  have scan {json : List Char} (h : strictText text.toList = .ok json) :=
    exists_turns (strictText_eq_ok_iff.mp h)
  have same {json : List Char} (h : strictText text.toList = .ok json) :
      (lines json).length = (lines text.toList).length := by
    obtain ⟨all, -, read, written, levels⟩ := scan h
    rw [length_lines, length_lines, lineNumber, lineNumber, ← read, ← written,
      count_writtenIn levels]
  constructor
  · intro json h
    obtain ⟨all, scanned, read, written, levels⟩ := scan h
    refine ⟨all, scanned, read, written, ?_, ?_, same h⟩
    · rintro before after rfl
      exact count_writtenIn (List.forall_mem_append.mp levels).1
    · rintro before turn after rfl front c back front' d back' reads writes
      obtain ⟨levels, level, -⟩ := List.forall_mem_append.mp levels |>.imp_right
        List.forall_mem_cons.mp
      rw [lineNumber_of_notMem_dropLast level.written writes,
        lineNumber_of_notMem_dropLast level.read reads, lineNumber, lineNumber,
        count_writtenIn levels]
  · intro place cause h
    rcases readTree_eq_error_iff.mp h with unclosed | ⟨json, failure, normalised, refused, fault⟩
    · obtain ⟨⟨construct, unread⟩, -, fault⟩ := strictText_eq_error_iff.mp unclosed
      cases construct <;> cases fault
    · cases fault
      obtain ⟨low, high, -⟩ :=
        Position.within_ofByteCount (Nat.sub_le (Utf8.size (failure.text.getD json)) _)
      refine ⟨low, ?_⟩
      cases own : failure.text with
      | none =>
          rw [own, Option.getD_none, same normalised] at high
          exact .inl high
      | some number =>
          rw [own, Option.getD_some] at high
          exact .inr ⟨json, number, normalised, (Json.in_of_readTree refused).text number own, high⟩

/-- Comments and a comma leave their line breaks behind, and an error behind a comment its line. -/
theorem normalise_keeps_lines_comments :
    (lines "\n\n [1\n]".toList).length = (lines "// one\n/* two\n*/ [1n,\n]".toList).length ∧
      1 ≤ 3 ∧ (3 ≤ (lines "/*\n*/\n]".toList).length ∨
        ∃ json number, strictText "/*\n*/\n]".toList = .ok json ∧ Json.NumberIn json number ∧
          3 ≤ (lines number).length) := by
  have strict : strictText "// one\n/* two\n*/ [1n,\n]".toList = .ok "\n\n [1\n]".toList := by cbv
  have failed : readTree "/*\n*/\n]" = .error (.malformed ⟨3, 1⟩ .expectedValue) := by cbv
  obtain ⟨all, -, -, -, -, -, same⟩ := (normalise_keeps_lines _).1 _ strict
  exact ⟨same, (normalise_keeps_lines _).2 _ _ failed⟩

/-- A syntax error behind the last line of its text: the break in the string is escaped. -/
theorem readTree_line_of_number :
    readTree "\x7b\"$serde_json::private::Number\":\"\\n\"\x7d"
        = .error (.malformed ⟨2, 0⟩ .invalidNumber) ∧
      (lines "\x7b\"$serde_json::private::Number\":\"\\n\"\x7d".toList).length = 1 ∧
      ¬ ∀ text place cause, readTree text = .error (.malformed place cause) →
        place.line ≤ (lines text.toList).length := by
  have failed : readTree "\x7b\"$serde_json::private::Number\":\"\\n\"\x7d"
      = .error (.malformed ⟨2, 0⟩ .invalidNumber) := by cbv
  have oneLine : (lines "\x7b\"$serde_json::private::Number\":\"\\n\"\x7d".toList).length = 1 := by
    cbv
  refine ⟨failed, oneLine, fun bounded => ?_⟩
  have line := bounded _ _ _ failed
  rw [oneLine] at line
  exact absurd line (by decide)

end ZkCommand.Relaxed
