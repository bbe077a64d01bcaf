import Mathlib
import ZkCommand.Proofs.Relaxed.Emitted
import ZkCommand.Proofs.Relaxed.Reading

/-!
# ZkCommand.Proofs.Relaxed.Commas

**Where commas stand in a text that is read.** The significant lexemes of such a text are an element
(`derives_of_readTree`): a string, a run of numbers and words, or members between brackets, with
commas between them and one behind the last. The only other comma is one between brackets with
nothing else in them, which is dropped as well. So a comma outside strings and comments follows a
member of the list or mapping around it, or it stands alone in there (`readTree_comma`).
-/

namespace ZkCommand.Relaxed

open Text
open Json (AllSpace Front Gives Leads isTokenPart parts_of_words stable_number)

/-! ### Elements -/

/-- The brackets around the members of a list, or the braces around those of a mapping. -/
inductive Bracket
  | list
  | mapping

/-- The character in front of the members. -/
def Bracket.opening : Bracket → Char
  | .list => '['
  | .mapping => '\x7b'

/-- The character behind the members. -/
def Bracket.closing : Bracket → Char
  | .list => ']'
  | .mapping => '\x7d'

theorem Bracket.closes (b : Bracket) : Closing b.closing := by
  cases b
  · exact .inl rfl
  · exact .inr rfl

/-- What lexemes are read as. -/
inductive Phrase
  | element
  | member (b : Bracket)
  | members (b : Bracket)

/-- The rules for significant lexemes that are read. -/
inductive Derives : Phrase → List Lexeme → Prop
  | text (delimiter : Char) (body : List Char) : Derives .element [.quoted delimiter body]
  | run {run : List Lexeme} (nonempty : run ≠ []) (plain : ∀ lexeme ∈ run, lexeme.IsPlain) :
      Derives .element run
  | empty (b : Bracket) : Derives .element [.symbol b.opening, .symbol b.closing]
  | lone (b : Bracket) : Derives .element [.symbol b.opening, .comma, .symbol b.closing]
  | bracketed {b : Bracket} {inside : List Lexeme} (members : Derives (.members b) inside) :
      Derives .element (.symbol b.opening :: (inside ++ [.symbol b.closing]))
  | trailing {b : Bracket} {inside : List Lexeme} (members : Derives (.members b) inside) :
      Derives .element (.symbol b.opening :: (inside ++ [.comma, .symbol b.closing]))
  | item {m : List Lexeme} (element : Derives .element m) : Derives (.member .list) m
  | entry {key : Lexeme} {m : List Lexeme} (label : key.IsLabel) (element : Derives .element m) :
      Derives (.member .mapping) (key :: .symbol ':' :: m)
  | first {b : Bracket} {m : List Lexeme} (member : Derives (.member b) m) : Derives (.members b) m
  | more {b : Bracket} {before m : List Lexeme} (members : Derives (.members b) before)
      (member : Derives (.member b) m) : Derives (.members b) (before ++ .comma :: m)

/-- No phrase is empty or ends in a comma. -/
theorem Derives.exists_last {phrase : Phrase} {all : List Lexeme} (h : Derives phrase all) :
    ∃ init last, all = init ++ [last] ∧ last ≠ .comma := by
  induction h with
  | text delimiter body => exact ⟨[], _, rfl, by simp⟩
  | run nonempty plain =>
      obtain ⟨init, last, rfl⟩ := (List.eq_nil_or_concat _).resolve_left nonempty
      refine ⟨init, last, by simp, ?_⟩
      rintro rfl
      exact plain .comma (by simp)
  | empty b => exact ⟨[.symbol b.opening], _, rfl, by simp⟩
  | lone b => exact ⟨[.symbol b.opening, .comma], _, rfl, by simp⟩
  | @bracketed b inside => exact ⟨.symbol b.opening :: inside, _, rfl, by simp⟩
  | @trailing b inside =>
      exact ⟨.symbol b.opening :: (inside ++ [.comma]), .symbol b.closing, by simp, by simp⟩
  | item element ih => exact ih
  | @entry key m label element ih =>
      obtain ⟨init, last, rfl, other⟩ := ih
      exact ⟨key :: .symbol ':' :: init, last, rfl, other⟩
  | first member ih => exact ih
  | @more b before m members member _ ih =>
      obtain ⟨init, last, rfl, other⟩ := ih
      exact ⟨before ++ .comma :: init, last, by simp, other⟩

/-! ### What is read is an element -/

/-- What stands at the front of a text comes from the lexemes of a phrase. -/
def Reads {α : Type} (phrase : Phrase) (one : Front α) : Prop :=
  ∀ ⦃all : List Lexeme⦄ ⦃s rest : List Char⦄ ⦃a : α⦄, Emits all s → one s a rest →
    ∃ m others, all = m ++ others ∧ Derives phrase m ∧ Behind others rest

theorem Behind.close {all : List Lexeme} {s rest : List Char} {c : Char} (h : Behind all s)
    (closing : Closing c) (lead : Leads s c rest) : ∃ others, Emits others rest ∧
      (all = .symbol c :: others ∨ all = .comma :: .symbol c :: others) := by
  have emits := h.lead lead (apart_of_closing closing)
  have other {d : Char} (ne : ¬ Closing d) : c ≠ d := fun same => ne (same ▸ closing)
  obtain ⟨others, more, mark⟩ := emits.of_mark (visible_of_closing closing)
    (apart_of_closing closing) (other (by simp [Closing])) (other (by simp [Closing]))
  exact ⟨others, more, mark.imp_right And.right⟩

theorem Emits.mark_eq {all : List Lexeme} {s : List Char} {c : Char} (h : Emits all (c :: s))
    (mark : c = '[' ∨ c = '\x7b' ∨ c = ':') :
    ∃ others, all = .symbol c :: others ∧ Emits others s := by
  have known : isBlank c = false ∧ isTokenPart c = false ∧ c ≠ '"' ∧ c ≠ ',' ∧ ¬ Closing c := by
    rcases mark with rfl | rfl | rfl <;> simp [Closing] <;> decide
  obtain ⟨visible, apart, double, comma, opens⟩ := known
  obtain ⟨others, more, rfl | ⟨closing, -⟩⟩ := h.of_mark visible apart double comma
  · exact ⟨others, rfl, more⟩
  · exact absurd closing opens

/-- The lexeme of a string and what is behind it. -/
theorem Emits.of_string {all : List Lexeme} {r body rest : List Char} (h : Emits all ('"' :: r))
    (read : Gives (Json.quotedBody r) body rest) :
    ∃ lexeme others, all = lexeme :: others ∧ lexeme.IsLabel ∧ Emits others rest := by
  obtain ⟨lexeme, others, source, json, rfl, label, rfl, closing, more⟩ := h.of_quote rfl
  obtain ⟨front, closing', text, -⟩ := Json.exists_closing_of_quotedBody read
  obtain ⟨rfl, rfl⟩ := closing.unique closing' text
  exact ⟨lexeme, others, rfl, label, more⟩

/-- A number or a word comes from a run. -/
theorem Emits.of_token {all : List Lexeme} {c : Char} {token rest : List Char}
    (parts : ∀ d ∈ c :: token, isTokenPart d = true) (h : Emits all (c :: token ++ rest)) :
    ∃ m others, all = m ++ others ∧ Derives .element m ∧ Behind others rest := by
  obtain ⟨run, others, rfl, plain, nonempty, behind⟩ := h.run parts
  exact ⟨run, others, rfl, .run (nonempty (List.cons_ne_nil c token)) plain, behind⟩

theorem reads_scalar {all : List Lexeme} {c : Char} {r rest : List Char} {t : Tree}
    (h : Emits all (c :: r)) (scalar : Front.ScalarAt c r t rest) :
    ∃ m others, all = m ++ others ∧ Derives .element m ∧ Behind others rest := by
  cases scalar with
  | word word text =>
      subst text
      exact h.of_token (parts_of_words word)
  | number start read =>
      obtain ⟨front, text, parts, -⟩ := stable_number read
      obtain ⟨short, -⟩ := read
      cases front with
      | nil =>
          rw [List.nil_append] at text
          rw [text] at short
          exact absurd short (Nat.lt_irrefl _)
      | cons d front =>
          rw [text] at h
          exact h.of_token parts
  | string read =>
      obtain ⟨lexeme, others, rfl, label, more⟩ := h.of_string read
      refine ⟨[lexeme], others, rfl, ?_, more.behind⟩
      cases lexeme with
      | quoted delimiter body => exact .text delimiter body
      | word name => exact .run (List.cons_ne_nil _ _) (by simp [Lexeme.IsPlain])
      | _ => cases label

section Members
variable {α : Type} {b : Bracket} {one : Front α} (reads : Reads (.member b) one)
include reads

/-- What follows the members read so far, up to the closing bracket. -/
theorem exists_more {s rest : List Char} {others : List α}
    (h : Front.More b.closing one s others rest) {all inside : List Lexeme} (behind : Behind all s)
    (members : Derives (.members b) inside) :
    ∃ tail left, all = tail ++ left ∧ Derives .element (.symbol b.opening :: (inside ++ tail)) ∧
      Behind left rest := by
  induction h generalizing all inside with
  | close lead =>
      obtain ⟨left, more, rfl | rfl⟩ := behind.close b.closes lead
      · exact ⟨[_], left, rfl, .bracketed members, more.behind⟩
      · exact ⟨[_, _], left, rfl, .trailing members, more.behind⟩
  | comma lead member more ih =>
      obtain ⟨behindComma, emits, rfl⟩ := (behind.lead lead rfl).of_comma rfl
      obtain ⟨m, left, rfl, derives, behind⟩ := reads emits member
      obtain ⟨tail, left, rfl, element, behind⟩ := ih behind (.more members derives)
      refine ⟨.comma :: (m ++ tail), left, by simp, ?_, behind⟩
      simpa using element

theorem exists_listed {s rest : List Char} {members : List α}
    (h : Front.Listed b.closing one s members rest) {all : List Lexeme} (emits : Emits all s) :
    ∃ inside left, all = inside ++ left ∧ Derives .element (.symbol b.opening :: inside) ∧
      Behind left rest := by
  cases h with
  | empty lead =>
      obtain ⟨left, more, rfl | rfl⟩ := emits.behind.close b.closes lead
      · exact ⟨[_], left, rfl, .empty b, more.behind⟩
      · exact ⟨[_, _], left, rfl, .lone b, more.behind⟩
  | first member more =>
      obtain ⟨m, left, rfl, derives, behind⟩ := reads emits member
      obtain ⟨tail, left, rfl, element, behind⟩ := exists_more reads more behind (.first derives)
      exact ⟨m ++ tail, left, by simp, element, behind⟩

end Members

theorem reads_item {one : Front Tree} (reads : Reads .element one) :
    Reads (.member .list) one := by
  intro all s rest t emits front
  obtain ⟨m, others, rfl, element, behind⟩ := reads emits front
  exact ⟨m, others, rfl, .item element, behind⟩

theorem reads_entry {one : Front Tree} (reads : Reads .element one) :
    Reads (.member .mapping) (Front.Led (Front.EntryAt one)) := by
  intro all s rest entry emits front
  obtain ⟨c, r, lead, front⟩ := front
  cases front with
  | mk read colon value =>
      obtain ⟨key, afterKey, rfl, label, emitsKey⟩ := (emits.lead lead).of_string read
      obtain ⟨afterColon, rfl, emitsColon⟩ := (emitsKey.lead colon).mark_eq (.inr (.inr rfl))
      obtain ⟨m, others, rfl, element, behind⟩ := reads emitsColon value
      exact ⟨key :: .symbol ':' :: m, others, rfl, .entry label element, behind⟩

theorem reads_valueAt {inner : Option (Front Tree)} (deeper : ∀ one ∈ inner, Reads .element one) :
    Reads .element (Front.Led (Front.ValueAt inner)) := by
  intro all s rest t emits front
  obtain ⟨c, r, lead, front⟩ := front
  have emits := emits.lead lead
  cases front with
  | scalar scalar => exact reads_scalar emits scalar
  | list level members =>
      obtain ⟨others, rfl, more⟩ := emits.mark_eq (.inl rfl)
      obtain ⟨inside, left, rfl, element, behind⟩ :=
        exists_listed (b := .list) (reads_item (deeper _ level)) members more
      exact ⟨_ :: inside, left, rfl, element, behind⟩
  | mapping level members _ =>
      obtain ⟨others, rfl, more⟩ := emits.mark_eq (.inr (.inl rfl))
      obtain ⟨inside, left, rfl, element, behind⟩ :=
        exists_listed (b := .mapping) (reads_entry (deeper _ level)) members more
      exact ⟨_ :: inside, left, rfl, element, behind⟩

theorem reads_value (levels : Nat) : Reads .element (Front.Value levels) := by
  induction levels with
  | zero => exact reads_valueAt fun one none => by cases none
  | succ levels ih =>
      refine reads_valueAt fun one level => ?_
      obtain rfl := Option.some.inj level
      exact ih

/-- **The significant lexemes of a text that is read are an element.** -/
theorem derives_of_readTree {text : String} {t : Tree} (h : readTree text = .ok t) :
    ∃ all, lexemes text.toList = .ok all ∧ Derives .element (significant all) := by
  obtain ⟨json, normalised, read⟩ := readTree_eq_ok_iff.mp h
  obtain ⟨rest, front, spaces⟩ := Json.readTree_eq_ok_iff.mp read
  obtain ⟨all, scanned, emits⟩ := exists_emits normalised
  obtain ⟨m, others, whole, element, behind⟩ := reads_value _ emits front
  rw [behind.eq_nil spaces, List.append_nil] at whole
  exact ⟨all, scanned, whole ▸ element⟩

/-! ### Places of commas -/

/-- The lexemes end with a member of the list or mapping that is open at their end. -/
def AfterMember (before : List Lexeme) : Prop :=
  ∃ outer b members, before = outer ++ .symbol (Bracket.opening b) :: members ∧
    Derives (.members b) members

/-- A list or mapping is opened right before a place and closed right behind it. -/
def Alone (before after : List Lexeme) : Prop :=
  ∃ outer b rest, before = outer ++ [.symbol (Bracket.opening b)] ∧
    after = .symbol (Bracket.closing b) :: rest

theorem AfterMember.within {before : List Lexeme} (h : AfterMember before) (front : List Lexeme) :
    AfterMember (front ++ before) := by
  obtain ⟨outer, b, members, rfl, derives⟩ := h
  exact ⟨front ++ outer, b, members, by simp, derives⟩

theorem Alone.within {before after : List Lexeme} (h : Alone before after)
    (front back : List Lexeme) : Alone (front ++ before) (after ++ back) := by
  obtain ⟨outer, b, rest, rfl, rfl⟩ := h
  exact ⟨front ++ outer, b, rest ++ back, by simp, rfl⟩

/-- A comma between these lexemes follows a member or stands alone. -/
def Placed (before after : List Lexeme) : Prop := AfterMember before ∨ Alone before after

theorem Placed.within {before after : List Lexeme} (h : Placed before after)
    (front back : List Lexeme) : Placed (front ++ before) (after ++ back) :=
  h.imp (·.within front) (·.within front back)

theorem Placed.getLast?_ne {before after : List Lexeme} (h : Placed before after) :
    before.getLast? ≠ some .comma := by
  obtain ⟨outer, b, members, rfl, derives⟩ | ⟨outer, b, rest, rfl, -⟩ := h
  · obtain ⟨init, last, rfl, other⟩ := derives.exists_last
    rw [← List.cons_append, ← List.append_assoc, List.getLast?_concat]
    simpa using other
  · simp

/-- A comma in two lists of lexemes in a row is in one of them. -/
theorem comma_cases {front back before after : List Lexeme}
    (h : front ++ back = before ++ .comma :: after) :
    (∃ between, front = before ++ .comma :: between ∧ after = between ++ back) ∨
      ∃ between, before = front ++ between ∧ back = between ++ .comma :: after := by
  rcases List.append_eq_append_iff.mp h with ⟨between, rfl, rfl⟩ | ⟨between, rfl, text⟩
  · exact .inr ⟨between, rfl, rfl⟩
  · cases between with
    | nil => exact .inr ⟨[], by simp, text.symm⟩
    | cons lexeme between =>
        obtain ⟨rfl, rfl⟩ := List.cons.inj text
        exact .inl ⟨between, rfl, rfl⟩

theorem comma_cons {lexeme : Lexeme} (other : lexeme ≠ .comma) {all before after : List Lexeme}
    (h : lexeme :: all = before ++ .comma :: after) :
    ∃ between, before = lexeme :: between ∧ all = between ++ .comma :: after := by
  cases before with
  | nil => exact absurd (List.cons.inj h).1 other
  | cons first between =>
      obtain ⟨rfl, rfl⟩ := List.cons.inj h
      exact ⟨between, rfl, rfl⟩

theorem comma_absent {all before after : List Lexeme} (none : Lexeme.comma ∉ all)
    (h : all = before ++ .comma :: after) : False := none (by simp [h])

/-- A comma behind the opening bracket is one of the members, or it is behind them. -/
theorem placed_inside {b : Bracket} {inside tail before after : List Lexeme}
    (members : Derives (.members b) inside)
    (within : ∀ {before after}, inside = before ++ .comma :: after →
      Placed before after ∨ Derives (.members b) before)
    (trailing : ∀ between, tail = between ++ .comma :: after → between = [])
    (h : .symbol b.opening :: (inside ++ tail) = before ++ .comma :: after) :
    Placed before after := by
  obtain ⟨between, rfl, text⟩ := comma_cons (by simp) h
  obtain ⟨front, rfl, rfl⟩ | ⟨between, rfl, last⟩ := comma_cases text
  · rcases within rfl with placed | derives
    · exact placed.within [_] tail
    · exact .inl ⟨[], b, _, rfl, derives⟩
  · obtain rfl := trailing _ last
    rw [List.append_nil]
    exact .inl ⟨[], b, inside, rfl, members⟩

/-- Where a comma of a phrase stands. One between members follows those in front of it. -/
def Phrase.Allows : Phrase → List Lexeme → List Lexeme → Prop
  | .members b, before, after => Placed before after ∨ Derives (.members b) before
  | _, before, after => Placed before after

/-- **Every comma of a phrase is placed.** -/
theorem Derives.placed {phrase : Phrase} {all : List Lexeme} (h : Derives phrase all)
    {before after : List Lexeme} (comma : all = before ++ .comma :: after) :
    phrase.Allows before after := by
  induction h generalizing before after with
  | text => exact (comma_absent (by simp) comma).elim
  | run nonempty plain => exact (comma_absent (fun found => plain _ found) comma).elim
  | empty => exact (comma_absent (by simp) comma).elim
  | lone b =>
      obtain ⟨between, rfl, text⟩ := comma_cons (by simp) comma
      cases between with
      | nil =>
          obtain ⟨-, rfl⟩ := List.cons.inj text
          exact .inr ⟨[], b, [], rfl, rfl⟩
      | cons lexeme between => exact (comma_absent (by simp) (List.cons.inj text).2).elim
  | bracketed members ih =>
      refine placed_inside members ih (fun between text => ?_) comma
      exact (comma_absent (by simp) text).elim
  | trailing members ih =>
      refine placed_inside members ih (fun between text => ?_) comma
      cases between with
      | nil => rfl
      | cons lexeme between => exact (comma_absent (by simp) (List.cons.inj text).2).elim
  | item element ih => exact ih comma
  | @entry key m label element ih =>
      have other : key ≠ .comma := fun same => by
        rw [same] at label
        exact label
      obtain ⟨behind, rfl, text⟩ := comma_cons other comma
      obtain ⟨between, rfl, inside⟩ := comma_cons (by simp) text
      have placed := Placed.within (ih inside) [key, .symbol ':'] []
      rwa [List.append_nil] at placed
  | @first b m member ih =>
      cases b <;> exact .inl (ih comma)
  | @more b members m derives member ihMembers ihMember =>
      obtain ⟨between, rfl, rfl⟩ | ⟨between, rfl, text⟩ := comma_cases comma
      · exact (ihMembers rfl).imp_left (·.within [] _)
      · cases between with
        | nil =>
            rw [List.append_nil]
            exact .inr derives
        | cons lexeme between =>
            obtain ⟨rfl, inside⟩ := List.cons.inj text
            have placed := Placed.within (ihMember inside) (members ++ [.comma]) []
            rw [List.append_nil, List.append_assoc] at placed
            exact .inl placed

/-! ### Commas of a text -/

/-- A comma outside strings and comments is a lexeme. -/
theorem exists_lexemes_around : ∀ {front rest : List Char} {all : List Lexeme},
    (Place.code.after front).IsOutside → lexemes (front ++ ',' :: rest) = .ok all →
      ∃ before after, all = before ++ .comma :: after ∧ before.flatMap Lexeme.source = front ∧
        after.flatMap Lexeme.source = rest
  | [], rest, all, _, h => by
      have comma := lexemes_cons (Taken.comma rest)
      rw [List.nil_append, comma] at h
      obtain ⟨others, scanned, rfl⟩ := map_eq_ok_iff.mp h
      exact ⟨[], others, rfl, rfl, flatMap_source scanned⟩
  | c :: t, rest, all, outside, h => by
      obtain ⟨lexeme, s, taken, place, line⟩ := exists_taken_outside outside
      obtain ⟨short, -⟩ := taken.takes
      have longer := taken.append_of_ended (u := ',' :: rest) rfl line fun _ _ => by simp
      have outside' : (Place.code.after s).IsOutside := by
        rcases place with rfl | same
        · exact .inl rfl
        · rwa [same]
      rw [List.cons_append, lexemes_cons longer] at h
      obtain ⟨others, scanned, rfl⟩ := map_eq_ok_iff.mp h
      obtain ⟨before, after, rfl, left, right⟩ := exists_lexemes_around outside' scanned
      refine ⟨lexeme :: before, after, rfl, ?_, right⟩
      rw [List.flatMap_cons, left, taken.source]
termination_by front => front.length

/-- **Where commas stand.** In a text that is read, a comma outside strings and comments is a lexeme
of its own. White space and comments aside, it follows a member of the list or mapping around it,
or it stands alone between the brackets or braces. No comma follows another one. -/
theorem readTree_comma {text : String} {t : Tree} {front rest : List Char}
    (read : readTree text = .ok t) (comma : text.toList = front ++ ',' :: rest)
    (outside : (Place.code.after front).IsOutside) :
    ∃ before after, lexemes text.toList = .ok (before ++ .comma :: after) ∧
      before.flatMap Lexeme.source = front ∧ after.flatMap Lexeme.source = rest ∧
      (AfterMember (significant before) ∨ Alone (significant before) (significant after)) ∧
      (significant before).getLast? ≠ some .comma := by
  obtain ⟨all, scanned, element⟩ := derives_of_readTree read
  obtain ⟨before, after, rfl, left, right⟩ := exists_lexemes_around outside (comma ▸ scanned)
  have split : significant (before ++ .comma :: after)
      = significant before ++ .comma :: significant after := by
    rw [significant, List.filter_append, List.filter_cons_of_pos rfl]
    rfl
  have placed : Placed (significant before) (significant after) := element.placed split
  exact ⟨before, after, scanned, left, right, placed, placed.getLast?_ne⟩

/-- The last comma of a list with a comment. -/
theorem readTree_comma_trailing :
    ∃ before after,
      lexemes "[1 /* one, */, 'a',]".toList = .ok (before ++ .comma :: after) ∧
      before.flatMap Lexeme.source = "[1 /* one, */, 'a'".toList ∧
      after.flatMap Lexeme.source = [']'] ∧
      (AfterMember (significant before) ∨ Alone (significant before) (significant after)) ∧
      (significant before).getLast? ≠ some .comma := by
  have read : readTree "[1 /* one, */, 'a',]" = .ok (.list [.num "1", .str "a"]) := by
    cbv
  have outside : (Place.code.after "[1 /* one, */, 'a'".toList).IsOutside := .inl (by decide)
  exact readTree_comma read rfl outside

/-- A comma is read as trailing also where nothing is in front of it. -/
theorem lone_comma_read :
    readTree "[,]" = .ok (.list []) ∧
      lexemes "[,]".toList = .ok ([.symbol '['] ++ .comma :: [.symbol ']']) ∧
      ¬ AfterMember (significant [.symbol '[']) := by
  refine ⟨by cbv, by cbv, ?_⟩
  intro h
  obtain ⟨outer, b, members, same, derives⟩ := h
  obtain ⟨init, last, rfl, -⟩ := derives.exists_last
  have lengths : 1 = (outer ++ Lexeme.symbol b.opening :: (init ++ [last])).length :=
    congrArg List.length same
  simp only [List.length_append, List.length_cons, List.length_nil] at lengths
  omega

end ZkCommand.Relaxed
