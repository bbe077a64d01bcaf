import ZkCommand.Proofs.Relaxed.Read
import ZkCommand.Proofs.Relaxed.Scan
import ZkCommand.Proofs.Text.Position

/-!
# ZkCommand.Proofs.Relaxed.Openers

**What a text leaves open.** Whether a text ends in a string or a block comment, and where that was
opened, can be told character by character (`Place`, `OpenFrom`). The scanner takes whole lexemes
instead, and fails where it finds no end of one. Behind each lexeme both are outside again
(`Taken.outside`), and a lexeme without an end is open up to the end of the text
(`openFrom_of_first`). So normalising fails exactly at what is open, and names its opener
(`strictText_open_iff`).
-/

namespace ZkCommand.Relaxed

open Text Grammar

/-- The string or block comment in which a place is. -/
def Place.inside : Place → Option Construct
  | .string _ => some .string
  | .escape _ => some .string
  | .block => some .comment
  | .star => some .comment
  | .code => none
  | .slash => none
  | .line => none

/-- What a string or a block comment starts with. -/
inductive Construct.OpenedBy : Construct → List Char → Prop
  | string {delimiter : Char} (quote : delimiter = '"' ∨ delimiter = '\'') :
      OpenedBy .string [delimiter]
  | comment : OpenedBy .comment ['/', '*']

/-- Outside strings and comments behind `front`, a text opens a string or a block comment, and it
stays inside that up to its end. -/
structure OpenFrom (construct : Construct) (front opener back : List Char) : Prop where
  opens : construct.OpenedBy opener
  outside : (Place.code.after front).IsOutside
  inside : ∀ inner, inner <+: back →
    (Place.code.after (front ++ opener ++ inner)).inside = some construct

theorem Place.IsOutside.inside_eq_none {place : Place} (h : place.IsOutside) :
    place.inside = none := by
  rcases h with rfl | rfl <;> rfl

/-! ### Lexemes without an end -/

theorem inside_of_quotedSpan_eq_none {delimiter : Char} {t inner : List Char}
    (h : quotedSpan delimiter t = none) (cut : inner <+: t) :
    ((Place.string delimiter).after inner).inside = some .string := by
  induction t using quotedSpan.induct delimiter generalizing inner with
  | case1 =>
      obtain rfl := List.prefix_nil.mp cut
      rfl
  | case2 =>
      rcases List.prefix_cons_iff.mp cut with rfl | ⟨inner, rfl, within⟩
      · rfl
      · obtain rfl := List.prefix_nil.mp within
        rfl
  | case3 c t ih =>
      rw [quotedSpan] at h
      rcases List.prefix_cons_iff.mp cut with rfl | ⟨inner, rfl, behind⟩
      · rfl
      rcases List.prefix_cons_iff.mp behind with rfl | ⟨inner, rfl, within⟩
      · rfl
      · have rest := ih (Option.map_eq_none_iff.mp h) within
        exact rest
  | case4 t single pair =>
      rw [quotedSpan.eq_4 _ _ _ single pair, if_pos rfl] at h
      cases h
  | case5 c t single pair other ih =>
      rw [quotedSpan.eq_4 _ _ _ single pair, if_neg other] at h
      rcases List.prefix_cons_iff.mp cut with rfl | ⟨inner, rfl, within⟩
      · rfl
      · rw [Place.after_cons, Place.step, if_neg (ne_backslash single pair), if_neg other]
        exact ih (Option.map_eq_none_iff.mp h) within

theorem inside_of_blockSpan_eq_none {t inner : List Char} (h : blockSpan t = none)
    (cut : inner <+: t) : (Place.block.after inner).inside = some .comment := by
  induction t using blockSpan.induct generalizing inner with
  | case1 =>
      obtain rfl := List.prefix_nil.mp cut
      rfl
  | case2 => cases h
  | case3 c t mark ih =>
      rw [blockSpan.eq_3 c t mark] at h
      rcases List.prefix_cons_iff.mp cut with rfl | ⟨inner, rfl, within⟩
      · rfl
      have rest := ih (Option.map_eq_none_iff.mp h) within
      rw [Place.after_cons, Place.step]
      split
      · rename_i star
        obtain rfl := star
        by_cases last : inner = []
        · obtain rfl := last
          rfl
        rw [Place.star_after ?_ last]
        · exact rest
        · -- A slash would end the comment.
          intro head
          obtain ⟨others, rfl⟩ := List.head?_eq_some_iff.mp head
          obtain ⟨others', rfl⟩ := within
          exact mark _ rfl rfl
      · exact rest

/-- A text that has no first lexeme starts with a string or a block comment that does not end. -/
theorem first_eq_error {c : Char} {t : List Char} {u : Unclosed}
    (h : Lexeme.first c t = .error u) :
    (u = ⟨.string, t.length + 1⟩ ∧ (c = '"' ∨ c = '\'') ∧ quotedSpan c t = none) ∨
      (u = ⟨.comment, t.length + 1⟩ ∧ c = '/' ∧ ∃ s, t = '*' :: s ∧ blockSpan s = none) := by
  unfold Lexeme.first at h
  split at h
  · rename_i quote
    cases span : quotedSpan c t with
    | some p =>
        simp only [span] at h
        cases h
    | none =>
        simp only [span] at h
        cases h
        exact .inl ⟨rfl, quote, rfl⟩
  split at h
  · cases h
  split at h
  · rename_i block
    obtain ⟨rfl, head⟩ := block
    obtain ⟨s, rfl⟩ := List.head?_eq_some_iff.mp head
    cases span : blockSpan (List.drop 1 ('*' :: s)) with
    | some p =>
        simp only [span] at h
        cases h
    | none =>
        simp only [span] at h
        cases h
        exact .inr ⟨rfl, rfl, s, rfl, span⟩
  split at h
  · cases h
  split at h
  · cases h
  split at h <;> cases h

/-- **A lexeme without an end** is open up to the end of the text. -/
theorem openFrom_of_first {c : Char} {t : List Char} {u : Unclosed}
    (h : Lexeme.first c t = .error u) :
    ∃ opener back, c :: t = opener ++ back ∧ u.unread = (c :: t).length ∧
      OpenFrom u.construct [] opener back := by
  rcases first_eq_error h with ⟨rfl, quote, span⟩ | ⟨rfl, rfl, s, rfl, span⟩
  · have opened : Place.code.step c = .string c := if_pos quote
    refine ⟨[c], t, rfl, rfl, .string quote, .inl rfl, fun inner cut => ?_⟩
    show ((Place.code.step c).after inner).inside = _
    rw [opened]
    exact inside_of_quotedSpan_eq_none span cut
  · exact ⟨['/', '*'], s, rfl, rfl, .comment, .inl rfl,
      fun inner cut => inside_of_blockSpan_eq_none span cut⟩

/-! ### Lexemes with an end -/

theorem Body.string_after {delimiter : Char} {body : List Char} (h : Body delimiter body) :
    (Place.string delimiter).after body = .string delimiter := by
  induction h with
  | nil => rfl
  | plain bare other more ih =>
      rw [Place.after_cons, Place.step, if_neg bare, if_neg other]
      exact ih
  | escape c more ih => exact ih

theorem Place.line_after {body : List Char} (oneLine : '\n' ∉ body) : line.after body = line := by
  induction body with
  | nil => rfl
  | cons c body ih =>
      obtain ⟨other, oneLine⟩ := not_or.mp (mt List.mem_cons.mpr oneLine)
      rw [after_cons, step, if_neg (Ne.symm other)]
      exact ih oneLine

theorem Place.block_after {body : List Char} (unclosed : closesBlock body = false) :
    block.after (body ++ ['*', '/']) = code := by
  induction body with
  | nil => rfl
  | cons c body ih =>
      obtain ⟨unclosed, unmarked⟩ := closesBlock_cons unclosed
      rw [List.cons_append, after_cons, step]
      split
      · rename_i star
        rw [star_after ?_ (by simp)]
        · exact ih unclosed
        · cases body with
          | nil => decide
          | cons d body => exact fun slash => unmarked ⟨star, slash⟩
      · exact ih unclosed

/-- A place at which `s` is scanned as it is outside strings and comments. -/
inductive Place.ReadyFor : Place → List Char → Prop
  | code (s : List Char) : ReadyFor code s
  | slash {s : List Char} (line : s.head? ≠ some '/') (block : s.head? ≠ some '*') :
      ReadyFor slash s
  | line {s : List Char} (stops : s.head?.any (fun c => decide (c ≠ '\n')) = false) :
      ReadyFor line s

theorem Place.ReadyFor.inside_eq_none {place : Place} {s : List Char} (h : place.ReadyFor s) :
    place.inside = none := by
  cases h <;> rfl

theorem Place.ReadyFor.after_eq {place : Place} {c : Char} {s : List Char}
    (h : place.ReadyFor (c :: s)) : place.after (c :: s) = Place.code.after (c :: s) := by
  rw [after_cons, after_cons]
  cases h with
  | code => rfl
  | slash line block =>
      have same : Place.slash.step c = Place.code.step c :=
        (if_neg fun same => line (congrArg some same)).trans
          (if_neg fun same => block (congrArg some same))
      rw [same]
  | line stops =>
      obtain rfl : c = '\n' := by simpa using stops
      rfl

/-- A part of what is left of a text starts as it does. -/
theorem Place.ReadyFor.of_prefix {place : Place} {c : Char} {s t : List Char}
    (h : place.ReadyFor t) (cut : c :: s <+: t) : place.ReadyFor (c :: s) := by
  obtain ⟨back, rfl⟩ := cut
  cases h with
  | code => exact .code _
  | slash line block => exact .slash line block
  | line stops => exact .line stops

/-- **A lexeme with an end** is over behind it. -/
theorem Taken.outside {c : Char} {t s : List Char} {lexeme : Lexeme} (h : Taken c t lexeme s) :
    (Place.code.after lexeme.source).ReadyFor s := by
  have plain {run : List Char} (parts : ∀ d ∈ run, Json.isTokenPart d = true) :
      (Place.code.after run).ReadyFor s := by
    rw [Place.after_parts parts]
    exact .code s
  have numbers := h.number_parts
  obtain ⟨-, names⟩ := h.parts
  cases h with
  | quoted quote closed =>
      have opened : Place.code.step c = .string c := if_pos quote
      have closes : (Place.string c).step c = .code := by
        rcases quote with rfl | rfl <;> rfl
      rw [Lexeme.source, Place.after_cons, opened, Place.after_append, closed.string_after]
      show ((Place.string c).step c).ReadyFor _
      rw [closes]
      exact .code _
  | lineComment oneLine stops =>
      show (Place.line.after _).ReadyFor _
      rw [Place.line_after oneLine]
      exact .line stops
  | blockComment unclosed =>
      show (Place.block.after _).ReadyFor _
      rw [Place.block_after unclosed]
      exact .code _
  | comma => exact .code _
  | number => exact plain (numbers _ _ rfl)
  | big => exact plain (numbers _ _ rfl)
  | word => exact plain (names _ rfl)
  | symbol quote line block =>
      show (Place.ofCode c).ReadyFor _
      rw [Place.ofCode, if_neg quote]
      split
      · rename_i slash
        exact .slash (fun head => line ⟨slash, head⟩) (fun head => block ⟨slash, head⟩)
      · exact .code _

theorem Taken.after_source_append {c d : Char} {t s front : List Char} {lexeme : Lexeme}
    (h : Taken c t lexeme s) (cut : d :: front <+: s) :
    Place.code.after (lexeme.source ++ d :: front) = Place.code.after (d :: front) := by
  rw [Place.after_append]
  exact (h.outside.of_prefix cut).after_eq

/-! ### The whole text -/

theorem inside_of_normalise : ∀ {s json : List Char}, normalise s = .ok json →
    (Place.code.after s).inside = none
  | [], _, _ => rfl
  | c :: t, json, h => by
      obtain ⟨lexeme, s, tail, taken, rest, -⟩ := normalise_cons_eq_ok h
      obtain ⟨short, -⟩ := taken.takes
      have outside := inside_of_normalise rest
      rw [taken.source]
      cases s with
      | nil =>
          rw [List.append_nil]
          exact taken.outside.inside_eq_none
      | cons d s =>
          rw [taken.after_source_append List.prefix_rfl]
          exact outside
termination_by s => s.length

theorem normalise_cons_eq_error_iff {c : Char} {t : List Char} {u : Unclosed} :
    normalise (c :: t) = .error u ↔
      Lexeme.first c t = .error u ∨ ∃ lexeme s, Taken c t lexeme s ∧ normalise s = .error u := by
  rw [normalise, bind_eq_error_iff]
  refine or_congr_right ⟨?_, ?_⟩
  · rintro ⟨p, first, h⟩
    refine ⟨p.value, p.rest, takes_iff.mp ⟨p.rest_lt, first⟩, ?_⟩
    rcases bind_eq_error_iff.mp h with rest | ⟨tail, -, none⟩
    · exact rest
    · cases none
  · rintro ⟨lexeme, s, taken, rest⟩
    obtain ⟨short, first⟩ := taken.takes
    exact ⟨_, first, bind_eq_error_iff.mpr (.inl rest)⟩

/-- What is open behind a lexeme is open in the whole text. -/
theorem OpenFrom.behind {c : Char} {t front opener back : List Char} {construct : Construct}
    {lexeme : Lexeme} (taken : Taken c t lexeme (front ++ opener ++ back))
    (h : OpenFrom construct front opener back) :
    OpenFrom construct (lexeme.source ++ front) opener back where
  opens := h.opens
  outside := by
    cases front with
    | nil =>
        rw [List.append_nil]
        have place := taken.outside
        generalize Place.code.after lexeme.source = place at place
        cases place with
        | code => exact .inl rfl
        | slash => exact .inr rfl
        | line stops => cases h.opens with
          | string quote => rcases quote with rfl | rfl <;> cases stops
          | comment => cases stops
    | cons d front =>
        rw [taken.after_source_append ⟨opener ++ back, (List.append_assoc _ _ _).symm⟩]
        exact h.outside
  inside := by
    intro inner cut
    obtain ⟨d, others, same⟩ : ∃ d others, front ++ opener ++ inner = d :: others := by
      refine List.exists_cons_of_ne_nil fun none => ?_
      simp only [List.append_eq_nil_iff] at none
      cases h.opens <;> cases none.1.2
    have within : front ++ opener ++ inner <+: front ++ opener ++ back :=
      (List.prefix_append_right_inj _).mpr cut
    have outside := h.inside inner cut
    rw [List.append_assoc lexeme.source, List.append_assoc lexeme.source, same]
    rw [same] at within outside
    rw [taken.after_source_append within]
    exact outside

/-- **An error names what is open.** -/
theorem openFrom_of_normalise : ∀ {s : List Char} {u : Unclosed}, normalise s = .error u →
    ∃ front opener back, s = front ++ opener ++ back ∧ u.unread = (opener ++ back).length ∧
      OpenFrom u.construct front opener back
  | [], u, h => by
      rw [normalise] at h
      cases h
  | c :: t, u, h => by
      rcases normalise_cons_eq_error_iff.mp h with first | ⟨lexeme, s, taken, rest⟩
      · obtain ⟨opener, back, text, unread, opened⟩ := openFrom_of_first first
        exact ⟨[], opener, back, text, text ▸ unread, opened⟩
      · obtain ⟨short, -⟩ := taken.takes
        obtain ⟨front, opener, back, rfl, unread, opened⟩ := openFrom_of_normalise rest
        refine ⟨lexeme.source ++ front, opener, back, ?_, unread, opened.behind taken⟩
        rw [taken.source]
        simp only [List.append_assoc]
termination_by s => s.length

theorem OpenFrom.inside_whole {construct : Construct} {front opener back : List Char}
    (h : OpenFrom construct front opener back) :
    (Place.code.after (front ++ opener ++ back)).inside = some construct :=
  h.inside back List.prefix_rfl

/-- Nothing is opened in what is open. -/
theorem OpenFrom.eq_nil_of_append {construct construct' : Construct}
    {front opener back more opener' back' : List Char} (h : OpenFrom construct front opener back)
    (h' : OpenFrom construct' (front ++ more) opener' back')
    (same : opener ++ back = more ++ (opener' ++ back')) : more = [] := by
  have outside {inner : List Char} (cut : inner <+: back) (text : more = opener ++ inner) :
      False := by
    have open' := h.inside inner cut
    rw [List.append_assoc, ← text, h'.outside.inside_eq_none] at open'
    cases open'
  rcases List.append_eq_append_iff.mp same with ⟨inner, text, rest⟩ | ⟨others, text, rest⟩
  · exact absurd text fun text => outside ⟨_, rest.symm⟩ text
  · -- Only the star of the opener of a comment could be an opener of its own.
    cases h.opens with
    | string quote =>
        rcases List.append_eq_singleton_iff.mp text.symm with ⟨none, -⟩ | ⟨whole, -⟩
        · exact none
        · exact (outside List.nil_prefix whole).elim
    | comment =>
        cases more with
        | nil => rfl
        | cons c more =>
            obtain ⟨rfl, star⟩ := List.cons.inj text
            rcases List.append_eq_singleton_iff.mp star.symm with ⟨rfl, rfl⟩ | ⟨rfl, -⟩
            · cases h'.opens with
              | string quote =>
                  obtain ⟨rfl, -⟩ := List.cons.inj rest
                  rcases quote with star | star <;> exact absurd star (by decide)
              | comment => exact absurd (List.cons.inj rest).1 (by decide)
            · exact (outside List.nil_prefix rfl).elim

/-- A text opens what is open at its end in one place. -/
theorem OpenFrom.front_unique {construct construct' : Construct}
    {front opener back front' opener' back' : List Char} (h : OpenFrom construct front opener back)
    (h' : OpenFrom construct' front' opener' back')
    (same : front ++ opener ++ back = front' ++ opener' ++ back') : front = front' := by
  rw [List.append_assoc, List.append_assoc] at same
  rcases List.append_eq_append_iff.mp same with ⟨more, rfl, text⟩ | ⟨more, rfl, text⟩
  · rw [h.eq_nil_of_append h' text, List.append_nil]
  · rw [h'.eq_nil_of_append h text, List.append_nil]

theorem exists_openFrom {text : List Char} {fault : Fault} (h : strictText text = .error fault) :
    ∃ construct front opener back, text = front ++ opener ++ back ∧
      OpenFrom construct front opener back ∧
      fault = construct.fault ⟨lineNumber front, (lastLine front).length + 1⟩ := by
  obtain ⟨u, failed, rfl⟩ := strictText_eq_error_iff.mp h
  obtain ⟨front, opener, back, rfl, unread, opened⟩ := openFrom_of_normalise failed
  refine ⟨_, front, opener, back, rfl, opened, congrArg _ ?_⟩
  rw [unread, List.append_assoc, List.length_append, Nat.add_sub_cancel, List.take_left,
    Position.ofCharAfter_eq]

theorem strictText_of_inside {text : List Char} (h : (Place.code.after text).inside ≠ none) :
    ∃ fault, strictText text = .error fault := by
  cases read : strictText text with
  | error fault => exact ⟨fault, rfl⟩
  | ok json => exact absurd (inside_of_normalise (strictText_eq_ok_iff.mp read)) h

theorem exists_fault_iff {text : List Char} {construct : Construct} :
    (∃ place, strictText text = .error (construct.fault place)) ↔
      (Place.code.after text).inside = some construct := by
  constructor
  · rintro ⟨place, h⟩
    obtain ⟨construct', front, opener, back, rfl, opened, fault⟩ := exists_openFrom h
    obtain ⟨rfl, -⟩ := Construct.fault_inj.mp fault
    exact opened.inside_whole
  · intro inside
    obtain ⟨fault, h⟩ := strictText_of_inside (inside.trans_ne nofun)
    obtain ⟨construct', front, opener, back, rfl, opened, rfl⟩ := exists_openFrom h
    obtain rfl := Option.some.inj (inside.symm.trans opened.inside_whole)
    exact ⟨_, h⟩

theorem strictText_eq_fault_iff {source : List Char} {construct : Construct} {place : Position} :
    strictText source = .error (construct.fault place) ↔
      ∃ front opener back, source = front ++ opener ++ back ∧ OpenFrom construct front opener back ∧
        place = ⟨lineNumber front, (lastLine front).length + 1⟩ := by
  constructor
  · intro h
    obtain ⟨construct', front, opener, back, text, opened, fault⟩ := exists_openFrom h
    obtain ⟨rfl, rfl⟩ := Construct.fault_inj.mp fault
    exact ⟨front, opener, back, text, opened, rfl⟩
  · rintro ⟨front, opener, back, rfl, opened, rfl⟩
    obtain ⟨place, h⟩ := exists_fault_iff.mpr opened.inside_whole
    obtain ⟨construct', front', opener', back', text, opened', fault⟩ := exists_openFrom h
    obtain rfl := opened.front_unique opened' text
    obtain ⟨rfl, rfl⟩ := Construct.fault_inj.mp fault
    exact h

/-- **A text is normalised unless it ends in a string or a block comment**, and the failure is at
the opener of that: its line, and its column in characters, both counted from one. -/
theorem strictText_open_iff (source : List Char) :
    (∀ place, strictText source = .error (.unterminatedString place) ↔
      ∃ front opener back, source = front ++ opener ++ back ∧
        OpenFrom .string front opener back ∧
        place = ⟨lineNumber front, (lastLine front).length + 1⟩) ∧
    (∀ place, strictText source = .error (.unterminatedComment place) ↔
      ∃ front opener back, source = front ++ opener ++ back ∧
        OpenFrom .comment front opener back ∧
        place = ⟨lineNumber front, (lastLine front).length + 1⟩) ∧
    ((∃ place, strictText source = .error (.unterminatedString place)) ↔
      (Place.code.after source).inside = some .string) ∧
    ((∃ place, strictText source = .error (.unterminatedComment place)) ↔
      (Place.code.after source).inside = some .comment) ∧
    ((∃ json, strictText source = .ok json) ↔ (Place.code.after source).inside = none) := by
  refine ⟨fun place => @strictText_eq_fault_iff source .string place,
    fun place => @strictText_eq_fault_iff source .comment place,
    @exists_fault_iff source .string, @exists_fault_iff source .comment, ?_⟩
  constructor
  · rintro ⟨json, read⟩
    exact inside_of_normalise (strictText_eq_ok_iff.mp read)
  · intro outside
    cases read : strictText source with
    | ok json => exact ⟨json, rfl⟩
    | error fault =>
        obtain ⟨construct, front, opener, back, rfl, opened, -⟩ := exists_openFrom read
        rw [opened.inside_whole] at outside
        cases outside

end ZkCommand.Relaxed
