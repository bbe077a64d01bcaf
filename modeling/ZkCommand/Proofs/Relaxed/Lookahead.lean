import Mathlib
import ZkCommand.Proofs.Relaxed.Openers

/-!
# ZkCommand.Proofs.Relaxed.Lookahead

**The lookahead sees what the scanner will see.** The scanner takes every character of a text for a
part of a string, of a comment or of neither (`sightings`). The lookahead goes over the same text on
its own, index by index (`lookahead`), with its own ways past the end of a comment. It finds the
first character that is neither white space nor taken for a part of a comment, from every index at
which the scanner is outside strings and comments, and nothing where it comes into a comment that
does not end (`lookahead_exact`).
-/

namespace ZkCommand.Relaxed

open Text Grammar
open Json (isTokenPart)

/-! ### Looking ahead by indices -/

/-- The index of the next line break from an index on, or of the end of the text. -/
def lineEnd (source : List Char) (i : Nat) : Nat :=
  if h : i < source.length then
    if source[i] = '\n' then i else lineEnd source (i + 1)
  else i
termination_by source.length - i

/-- The index of the next end mark of a comment from an index on, or of the end of the text. -/
def blockEnd (source : List Char) (i : Nat) : Nat :=
  if h : i < source.length then
    if source[i] = '*' ∧ source[i + 1]? = some '/' then i else blockEnd source (i + 1)
  else i
termination_by source.length - i

theorem le_lineEnd (source : List Char) (i : Nat) : i ≤ lineEnd source i := by
  fun_induction lineEnd source i with
  | case1 => exact Nat.le_refl _
  | case2 i h other ih => exact Nat.le_of_succ_le ih
  | case3 => exact Nat.le_refl _

theorem le_blockEnd (source : List Char) (i : Nat) : i ≤ blockEnd source i := by
  fun_induction blockEnd source i with
  | case1 => exact Nat.le_refl _
  | case2 i h other ih => exact Nat.le_of_succ_le ih
  | case3 => exact Nat.le_refl _

theorem lt_lineEnd {source : List Char} {i : Nat} (h : i < source.length)
    (other : source[i] ≠ '\n') : i < lineEnd source i := by
  rw [lineEnd, dif_pos h, if_neg other]
  exact le_lineEnd source (i + 1)

/-- The first character from an index on that is neither white space nor in a comment. From a
comment the walk goes on at the line break that ends it, or two characters behind its last one,
which may be past the end of the text. -/
def lookahead (source : List Char) (i : Nat) : Option Char :=
  if h : i < source.length then
    if isBlank source[i] then lookahead source (i + 1)
    else if slashes : source[i] = '/' ∧ source[i + 1]? = some '/' then
      lookahead source (lineEnd source i)
    else if source[i] = '/' ∧ source[i + 1]? = some '*' then
      lookahead source (blockEnd source (i + 2) + 2)
    else some source[i]
  else none
termination_by source.length - i
decreasing_by
  · omega
  · have := lt_lineEnd h (by rw [slashes.1]; decide)
    omega
  · have := le_blockEnd source (i + 2)
    omega

theorem drop_lineEnd (source : List Char) (i : Nat) :
    source.drop (lineEnd source i) = (source.drop i).dropWhile (· ≠ '\n') := by
  fun_induction lineEnd source i with
  | case1 i h broken =>
      rw [List.drop_eq_getElem_cons h, List.dropWhile_cons_of_neg (by simpa using broken)]
  | case2 i h other ih =>
      rw [List.drop_eq_getElem_cons h, List.dropWhile_cons_of_pos (by simpa using other)]
      exact ih
  | case3 i h =>
      rw [List.drop_eq_nil_of_le (Nat.le_of_not_lt h)]
      rfl

theorem afterBlock_cons {c : Char} {s : List Char} (inner : ¬ (c = '*' ∧ s.head? = some '/')) :
    afterBlock (c :: s) = afterBlock s := by
  rw [afterBlock, afterBlock, blockSpan_cons inner]
  cases blockSpan s <;> rfl

/-- Behind the end mark, or past the end of the text, there is what follows the comment. -/
theorem drop_blockEnd (source : List Char) (i : Nat) :
    source.drop (blockEnd source i + 2) = afterBlock (source.drop i) := by
  fun_induction blockEnd source i with
  | case1 i h mark =>
      obtain ⟨star, slash⟩ := mark
      obtain ⟨h', slash⟩ := List.getElem?_eq_some_iff.mp slash
      rw [List.drop_eq_getElem_cons h, List.drop_eq_getElem_cons h', star, slash]
      rfl
  | case2 i h other ih =>
      rw [← List.head?_drop] at other
      rw [List.drop_eq_getElem_cons h, afterBlock_cons other]
      exact ih
  | case3 i h =>
      rw [List.drop_eq_nil_of_le (by omega), List.drop_eq_nil_of_le (by omega)]
      rfl

/-- **The walk by indices** finds what is looked ahead for in the rest of the text. -/
theorem lookahead_eq (source : List Char) (i : Nat) :
    lookahead source i = nextSignificant (source.drop i) := by
  fun_induction lookahead source i with
  | case1 i h blank ih =>
      rw [List.drop_eq_getElem_cons h, nextSignificant_blank blank]
      exact ih
  | case2 i h visible slashes ih =>
      have span : (lineSpan (source.drop (i + 1))).rest = source.drop (lineEnd source i) := by
        rw [drop_lineEnd, List.drop_eq_getElem_cons h, slashes.1,
          List.dropWhile_cons_of_pos (by decide)]
        rfl
      rw [← List.head?_drop] at slashes
      rw [List.drop_eq_getElem_cons h, nextSignificant, if_neg visible, if_pos slashes, span]
      exact ih
  | case3 i h visible line block ih =>
      rw [← List.head?_drop] at line block
      rw [List.drop_eq_getElem_cons h, nextSignificant, if_neg visible, if_neg line, if_pos block,
        List.drop_drop, ← drop_blockEnd]
      exact ih
  | case4 i h visible line block =>
      rw [← List.head?_drop] at line block
      rw [List.drop_eq_getElem_cons h, nextSignificant, if_neg visible, if_neg line, if_neg block]
  | case5 i h =>
      rw [List.drop_eq_nil_of_le (Nat.le_of_not_lt h), nextSignificant]

/-! ### What the scanner takes characters for -/

/-- A character of a text as the scanner comes to it: the string or the comment that it is part of,
whether it is the first one of that, and whether that has an end. -/
structure Sighting where
  char : Char
  construct : Option Construct
  first : Bool
  ended : Bool
  deriving DecidableEq, Repr

/-- In front of the character the scanner is outside strings and comments. -/
def Sighting.isOutside (x : Sighting) : Bool := x.first || x.construct.isNone

/-- Neither white space nor part of a comment. -/
def Sighting.isSignificant (x : Sighting) : Bool :=
  !isBlank x.char && x.construct ≠ some .comment

/-- Part of a block comment that does not end. -/
def Sighting.IsUnended (x : Sighting) : Prop := x.construct = some .comment ∧ x.ended = false

instance (x : Sighting) : Decidable x.IsUnended := inferInstanceAs (Decidable (_ ∧ _))

/-- The characters of a lexeme, or of one without an end. -/
def sight (construct : Option Construct) (ended : Bool) : List Char → List Sighting
  | [] => []
  | c :: s => ⟨c, construct, true, ended⟩ :: s.map fun d => ⟨d, construct, false, ended⟩

/-- The string or comment that a lexeme is. -/
def Lexeme.construct : Lexeme → Option Construct
  | .quoted _ _ => some .string
  | .lineComment _ => some .comment
  | .blockComment _ => some .comment
  | _ => none

/-- The characters of a text as the scanner comes to them: lexeme by lexeme, and at once up to the
end of the text where a string or a block comment has none. -/
def sightings : List Char → List Sighting
  | [] => []
  | c :: s =>
      match Lexeme.first c s with
      | .ok lexeme =>
          sight lexeme.value.construct true lexeme.value.source ++ sightings lexeme.rest
      | .error u => sight (some u.construct) false (c :: s)
termination_by s => s.length
decreasing_by exact lexeme.rest_lt

theorem map_char_sight (construct : Option Construct) (ended : Bool) (s : List Char) :
    (sight construct ended s).map Sighting.char = s := by
  cases s with
  | nil => rfl
  | cons c s =>
      rw [sight, List.map_cons, List.map_map]
      exact congrArg (c :: ·) (List.map_id s)

theorem mem_sight {construct : Option Construct} {ended : Bool} {s : List Char} {x : Sighting}
    (h : x ∈ sight construct ended s) : x.construct = construct ∧ x.ended = ended := by
  cases s with
  | nil => cases h
  | cons c s =>
      rcases List.mem_cons.mp h with rfl | inner
      · exact ⟨rfl, rfl⟩
      · obtain ⟨d, -, rfl⟩ := List.mem_map.mp inner
        exact ⟨rfl, rfl⟩

theorem sightings_nil : sightings [] = [] := by rw [sightings]

theorem sightings_of_taken {c : Char} {t s : List Char} {lexeme : Lexeme}
    (h : Taken c t lexeme s) :
    sightings (c :: t) = sight lexeme.construct true lexeme.source ++ sightings s := by
  obtain ⟨short, first⟩ := h.takes
  rw [sightings, first]

theorem sightings_of_error {c : Char} {t : List Char} {u : Unclosed}
    (h : Lexeme.first c t = .error u) :
    sightings (c :: t) = sight (some u.construct) false (c :: t) := by
  rw [sightings, h]

theorem map_char_sightings (s : List Char) : (sightings s).map Sighting.char = s := by
  induction s using scan_induction with
  | nil =>
      rw [sightings_nil]
      rfl
  | taken taken ih =>
      rw [sightings_of_taken taken, List.map_append, map_char_sight, ih, ← taken.source]
  | unclosed first => rw [sightings_of_error first, map_char_sight]

/-! ### Looking ahead is scanning -/

theorem find?_sight_comment (ended : Bool) (s : List Char) :
    (sight (some .comment) ended s).find? Sighting.isSignificant = none := by
  refine List.find?_eq_none.mpr fun x member significant => ?_
  rw [Sighting.isSignificant, (mem_sight member).1] at significant
  simp at significant

theorem find?_sight_visible {construct : Option Construct} {c : Char} (ended : Bool) (s : List Char)
    (code : construct ≠ some .comment) (visible : isBlank c = false) :
    (sight construct ended (c :: s)).find? Sighting.isSignificant
      = some ⟨c, construct, true, ended⟩ :=
  List.find?_cons_of_pos (by simp [Sighting.isSignificant, code, visible])

theorem isBlank_quote {c : Char} (quote : c = '"' ∨ c = '\'') : isBlank c = false := by
  rcases quote with rfl | rfl <;> rfl

theorem Taken.find?_sight {c : Char} {t s : List Char} {lexeme : Lexeme} (h : Taken c t lexeme s)
    (next : Option Char) :
    (((sight lexeme.construct true lexeme.source).find? Sighting.isSignificant).map
      Sighting.char).or next = lexeme.ahead next := by
  have token {construct : Option Construct} (rest : List Char)
      (code : construct ≠ some .comment) (visible : isBlank c = false) :
      (((sight construct true (c :: rest)).find? Sighting.isSignificant).map Sighting.char).or next
        = some c := by
    rw [find?_sight_visible true rest code visible]
    rfl
  cases h with
  | quoted quote => exact token _ (by simp [Lexeme.construct]) (isBlank_quote quote)
  | lineComment =>
      rw [Lexeme.construct, find?_sight_comment]
      rfl
  | blockComment =>
      rw [Lexeme.construct, find?_sight_comment]
      rfl
  | comma => exact token _ (by simp [Lexeme.construct]) rfl
  | number start =>
      exact token _ (by simp [Lexeme.construct])
        (isBlank_of_isTokenPart (isTokenPart_of_start start))
  | big start =>
      exact token _ (by simp [Lexeme.construct])
        (isBlank_of_isTokenPart (isTokenPart_of_start start))
  | word start =>
      have part := isTokenPart_of_isWordPart (isWordPart_of_isWordStart start)
      exact token _ (by simp [Lexeme.construct]) (isBlank_of_isTokenPart part)
  | symbol =>
      rw [Lexeme.ahead]
      split
      · rename_i blank
        have none : (sight (Lexeme.symbol c).construct true (Lexeme.symbol c).source).find?
            Sighting.isSignificant = none :=
          List.find?_cons_of_neg (by simp [Sighting.isSignificant, blank])
        rw [none]
        rfl
      · rename_i visible
        exact token _ (by simp [Lexeme.construct]) (by simpa using visible)

/-- **Looking ahead** finds the first character that the scanner takes for code. -/
theorem nextSignificant_eq_find? (s : List Char) :
    nextSignificant s = ((sightings s).find? Sighting.isSignificant).map Sighting.char := by
  induction s using scan_induction with
  | nil =>
      rw [sightings_nil, nextSignificant]
      rfl
  | taken taken ih =>
      rw [sightings_of_taken taken, List.find?_append, Option.map_or, ← ih, taken.find?_sight,
        taken.nextSignificant_eq]
  | @unclosed c t u first =>
      rw [sightings_of_error first]
      rcases first_eq_error first with ⟨rfl, quote, -⟩ | ⟨rfl, rfl, s, rfl, span⟩
      · rw [find?_sight_visible false t (by simp) (isBlank_quote quote)]
        refine nextSignificant_visible (isBlank_quote quote) ?_ t
        rcases quote with rfl | rfl <;> decide
      · rw [find?_sight_comment, nextSignificant, if_neg (by decide),
          if_neg fun both => by simp at both, if_pos ⟨rfl, rfl⟩]
        show nextSignificant (afterBlock s) = none
        rw [afterBlock, span, nextSignificant]

/-- A lexeme of more than one character that is no string and no comment is a number or a word. -/
theorem Taken.isTokenPart_of_mem {c : Char} {t s : List Char} {lexeme : Lexeme}
    (h : Taken c t lexeme s) (code : lexeme.construct = none) (long : 1 < lexeme.source.length) :
    ∀ d ∈ lexeme.source, isTokenPart d = true := by
  have numbers := h.number_parts
  obtain ⟨-, names⟩ := h.parts
  cases h with
  | quoted => cases code
  | lineComment => cases code
  | blockComment => cases code
  | comma => exact absurd long (Nat.lt_irrefl 1)
  | number => exact numbers _ _ rfl
  | big => exact numbers _ _ rfl
  | word => exact names _ rfl
  | symbol => exact absurd long (Nat.lt_irrefl 1)

theorem length_sight (construct : Option Construct) (ended : Bool) (s : List Char) :
    (sight construct ended s).length = s.length := by
  rw [← List.length_map Sighting.char, map_char_sight]

theorem drop_sight (construct : Option Construct) (ended : Bool) (s : List Char) (i : Nat) :
    (sight construct ended s).drop (i + 1)
      = (s.drop (i + 1)).map fun d => ⟨d, construct, false, ended⟩ := by
  cases s with
  | nil => rfl
  | cons c s => exact List.map_drop.symm

/-- From behind the first character of a lexeme that is code there is the next one to see. -/
theorem Taken.nextSignificant_drop {c : Char} {t s : List Char} {lexeme : Lexeme} {i : Nat}
    (h : Taken c t lexeme s) (within : i + 1 < lexeme.source.length)
    (outside : ∀ x ∈ ((sightings (c :: t)).drop (i + 1)).head?, x.isOutside = true) :
    nextSignificant ((c :: t).drop (i + 1))
      = (((sightings (c :: t)).drop (i + 1)).find? Sighting.isSignificant).map Sighting.char := by
  obtain ⟨others, sights⟩ : ∃ others, (sightings (c :: t)).drop (i + 1)
      = ⟨lexeme.source[i + 1], lexeme.construct, false, true⟩ :: others := by
    rw [sightings_of_taken h, List.drop_append_of_le_length, drop_sight,
      List.drop_eq_getElem_cons within]
    · exact ⟨_, rfl⟩
    · rw [length_sight]
      exact within.le
  rw [sights] at outside ⊢
  have code : lexeme.construct = none := by
    simpa [Sighting.isOutside] using outside _ rfl
  have part : isTokenPart lexeme.source[i + 1] = true :=
    h.isTokenPart_of_mem code (by omega) _ (List.getElem_mem within)
  have significant : Sighting.isSignificant
      ⟨lexeme.source[i + 1], lexeme.construct, false, true⟩ = true := by
    simp [Sighting.isSignificant, code, isBlank_of_isTokenPart part]
  rw [h.source, List.drop_append_of_le_length within.le, List.drop_eq_getElem_cons within,
    List.cons_append, nextSignificant_token part, List.find?_cons_of_pos significant]
  rfl

/-- **Looking ahead from within a text,** where the scanner is outside strings and comments. -/
theorem nextSignificant_drop_eq_find? {s : List Char} {start : Nat}
    (outside : ∀ x ∈ ((sightings s).drop start).head?, x.isOutside = true) :
    nextSignificant (s.drop start)
      = (((sightings s).drop start).find? Sighting.isSignificant).map Sighting.char := by
  induction s using scan_induction generalizing start with
  | nil =>
      rw [sightings_nil, List.drop_nil, List.drop_nil, nextSignificant]
      rfl
  | @taken c t lexeme s taken ih =>
      rcases Nat.lt_or_ge start lexeme.source.length with within | behind
      · cases start with
        | zero => exact nextSignificant_eq_find? (c :: t)
        | succ i => exact taken.nextSignificant_drop within outside
      · obtain ⟨more, rfl⟩ := Nat.exists_eq_add_of_le behind
        have sights : (sightings (c :: t)).drop (lexeme.source.length + more)
            = (sightings s).drop more := by
          rw [sightings_of_taken taken, ← length_sight lexeme.construct true lexeme.source,
            List.drop_length_add_append]
        rw [sights] at outside ⊢
        rw [taken.source, List.drop_length_add_append]
        exact ih outside
  | @unclosed c t u first =>
      cases start with
      | zero => exact nextSignificant_eq_find? (c :: t)
      | succ i =>
          -- The text is a string or a comment to its end.
          rw [sightings_of_error first, drop_sight] at outside ⊢
          cases rest : (c :: t).drop (i + 1) with
          | nil =>
              rw [nextSignificant]
              rfl
          | cons d others =>
              rw [rest] at outside
              cases outside _ rfl

/-! ### Comments without an end -/

/-- A text in which the scanner takes a character for a part of what has no end is not normalised.
-/
theorem normalise_of_unended {s : List Char} {x : Sighting} (member : x ∈ sightings s)
    (unended : x.ended = false) :
    ∃ u, normalise s = .error u ∧ x.construct = some u.construct := by
  induction s using scan_induction with
  | nil =>
      rw [sightings_nil] at member
      cases member
  | taken taken ih =>
      rw [sightings_of_taken taken] at member
      rcases List.mem_append.mp member with member | member
      · rw [(mem_sight member).2] at unended
        cases unended
      · obtain ⟨u, failed, construct⟩ := ih member
        exact ⟨u, normalise_cons_eq_error_iff.mpr (.inr ⟨_, _, taken, failed⟩), construct⟩
  | unclosed first =>
      rw [sightings_of_error first] at member
      exact ⟨_, normalise_cons_eq_error_iff.mpr (.inl first), (mem_sight member).1⟩

/-- What has no end goes on to the end of the text. -/
theorem pairwise_sightings (s : List Char) : (sightings s).Pairwise fun x y =>
    x.ended = false → y.construct = x.construct ∧ y.ended = false := by
  induction s using scan_induction with
  | nil =>
      rw [sightings_nil]
      exact .nil
  | @taken c t lexeme s taken ih =>
      rw [sightings_of_taken taken]
      have ended {x : Sighting} (member : x ∈ sight lexeme.construct true lexeme.source) :
          x.ended ≠ false := by
        rw [(mem_sight member).2]
        exact nofun
      refine List.pairwise_append.mpr ⟨?_, ih, ?_⟩
      · exact List.pairwise_of_forall_mem_list fun x member y _ => (absurd · (ended member))
      · exact fun x member y _ => (absurd · (ended member))
  | unclosed first =>
      rw [sightings_of_error first]
      refine List.pairwise_of_forall_mem_list fun x member y member' _ => ?_
      rw [(mem_sight member).1, (mem_sight member').1]
      exact ⟨rfl, (mem_sight member').2⟩

/-- Nothing follows a comment without an end. -/
theorem find?_eq_none_of_unended {source : List Char} {start : Nat} {x : Sighting}
    (member : x ∈ ((sightings source).drop start).takeWhile (!·.isSignificant))
    (unended : x.IsUnended) :
    ((sightings source).drop start).find? Sighting.isSignificant = none := by
  have later := (pairwise_sightings source).drop (i := start)
  rw [← List.takeWhile_append_dropWhile (p := (!·.isSignificant))
    (l := (sightings source).drop start)] at later ⊢
  refine List.find?_eq_none.mpr fun y among significant => ?_
  rcases List.mem_append.mp among with front | back
  · simpa [significant] using List.mem_takeWhile_imp front
  · obtain ⟨same, -⟩ := (List.pairwise_append.mp later).2.2 x member y back unended.2
    rw [Sighting.isSignificant, same, unended.1] at significant
    simp at significant

/-! ### The lookahead -/

/-- **The lookahead sees what the scanner will see.** From an index at which the scanner is outside
strings and comments it finds the first character that is neither white space nor part of a comment
as the scanner takes it. Where a block comment that has no end comes first, it finds none, and the
text is not normalised. -/
theorem lookahead_exact (source : List Char) (start : Nat)
    (outside : ∀ x ∈ (sightings source)[start]?, x.isOutside = true) :
    (sightings source).map Sighting.char = source ∧
    lookahead source start = nextSignificant (source.drop start) ∧
    ((∀ x ∈ ((sightings source).drop start).takeWhile (!·.isSignificant), ¬ x.IsUnended) →
      lookahead source start
        = (((sightings source).drop start).find? Sighting.isSignificant).map Sighting.char) ∧
    ((∃ x ∈ ((sightings source).drop start).takeWhile (!·.isSignificant), x.IsUnended) →
      lookahead source start = none ∧
        ∃ place, strictText source = .error (.unterminatedComment place)) := by
  rw [← List.head?_drop] at outside
  have found : lookahead source start
      = (((sightings source).drop start).find? Sighting.isSignificant).map Sighting.char :=
    (lookahead_eq source start).trans (nextSignificant_drop_eq_find? outside)
  refine ⟨map_char_sightings source, lookahead_eq source start, fun _ => found, ?_⟩
  rintro ⟨x, member, unended⟩
  refine ⟨?_, ?_⟩
  · rw [found, find?_eq_none_of_unended member unended]
    rfl
  · have whole : x ∈ sightings source :=
      List.mem_of_mem_drop ((List.takeWhile_sublist _).subset member)
    obtain ⟨⟨construct, unread⟩, failed, same⟩ := normalise_of_unended whole unended.2
    obtain rfl : construct = .comment := Option.some.inj (same.symm.trans unended.1)
    exact ⟨_, strictText_eq_error_iff.mpr ⟨_, failed, rfl⟩⟩

/-- The star of an opener is no part of an end mark: the comment behind the key goes on to the
second slash after it, and without that one it has no end. -/
theorem lookahead_exact_opener :
    (∀ x ∈ (sightings "a /*/,*/:".toList)[1]?, x.isOutside = true) ∧
      lookahead "a /*/,*/:".toList 1 = some ':' ∧
      (∀ x ∈ (sightings "a /*/,".toList)[1]?, x.isOutside = true) ∧
      lookahead "a /*/,".toList 1 = none ∧
      ∃ place, strictText "a /*/,".toList = .error (.unterminatedComment place) := by
  have ended : sightings "a /*/,*/:".toList = ⟨'a', none, true, true⟩ :: ⟨' ', none, true, true⟩ ::
      (sight (some .comment) true "/*/,*/".toList ++ [⟨':', none, true, true⟩]) := by cbv
  have unended : sightings "a /*/,".toList = ⟨'a', none, true, true⟩ :: ⟨' ', none, true, true⟩ ::
      sight (some .comment) false "/*/,".toList := by cbv
  have outside : ∀ x ∈ (sightings "a /*/,*/:".toList)[1]?, x.isOutside = true := by
    rw [ended]
    rintro x ⟨⟩
    rfl
  have outside' : ∀ x ∈ (sightings "a /*/,".toList)[1]?, x.isOutside = true := by
    rw [unended]
    rintro x ⟨⟩
    rfl
  obtain ⟨-, -, found, -⟩ := lookahead_exact _ 1 outside
  obtain ⟨-, -, -, none⟩ := lookahead_exact _ 1 outside'
  refine ⟨outside, (found ?_).trans ?_, outside',
    none ⟨⟨'/', some .comment, true, false⟩, ?_, rfl, rfl⟩⟩
  · rw [ended]
    decide
  · rw [ended]
    rfl
  · rw [unended]
    decide

end ZkCommand.Relaxed
