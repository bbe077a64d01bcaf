import ZkCommand.Proofs.Json.Consumed

/-!
# ZkCommand.Proofs.Json.Seams

**White space between tokens.** Two texts that differ in the white space at one place, the seam,
denote the same tree, unless the seam is inside a string or the white space is all that keeps two
tokens apart (`readTree_of_meets`). Where it does keep two tokens apart, no text denotes a tree at
all (`readTree_ne_of_ends`): two tokens that are made of letters and digits never follow each other.
Both are proved for everything that stands at a front, rule by rule.
-/

namespace ZkCommand.Json

open Text

/-! ### Open strings -/

/-- Where a text stands with respect to strings. -/
inductive Quoting
  | outside
  | inside
  | escaped
  deriving DecidableEq

/-- One character on. -/
def Quoting.step : Quoting → Char → Quoting
  | outside, c => if c = '"' then inside else outside
  | inside, c => if c = '"' then outside else if c = '\\' then escaped else inside
  | escaped, _ => inside

/-- A text on. -/
def Quoting.after (quoting : Quoting) (s : List Char) : Quoting := s.foldl step quoting

/-- No string is open at the end of a text. -/
def Closed (s : List Char) : Prop := Quoting.outside.after s = .outside

theorem Quoting.after_append (quoting : Quoting) (s t : List Char) :
    quoting.after (s ++ t) = (quoting.after s).after t := List.foldl_append

theorem Quoting.after_outside {s : List Char} (h : '"' ∉ s) : outside.after s = outside := by
  induction s with
  | nil => rfl
  | cons c s ih =>
      have other : c ≠ '"' := fun same => h (same ▸ List.mem_cons_self)
      rw [after, List.foldl_cons, step, if_neg other]
      exact ih fun hs => h (List.mem_cons_of_mem c hs)

theorem Closed.append {s t : List Char} (h : Closed s) (h' : Closed t) : Closed (s ++ t) := by
  rw [Closed, Quoting.after_append, h]
  exact h'

theorem closed_append_iff {s : List Char} (h : '"' ∉ s) (t : List Char) :
    Closed (s ++ t) ↔ Closed t := by
  rw [Closed, Quoting.after_append, Quoting.after_outside h, Closed]

/-- A string that is closed in a text ends there. -/
theorem exists_append_of_closing {t p x rest : List Char} (h : Closing t)
    (closed : Quoting.inside.after p = .outside) (text : p ++ x = t ++ rest) :
    ∃ q, p = t ++ q ∧ rest = q ++ x ∧ Closed q := by
  induction h generalizing p with
  | quote =>
      cases p with
      | nil => cases closed
      | cons c p =>
          obtain ⟨rfl, rfl⟩ := List.cons.inj text
          exact ⟨p, rfl, rfl, closed⟩
  | @plain c t double bare more ih =>
      cases p with
      | nil => cases closed
      | cons d p =>
          obtain ⟨rfl, left⟩ := List.cons.inj text
          rw [Quoting.after, List.foldl_cons, Quoting.step, if_neg double, if_neg bare] at closed
          obtain ⟨q, rfl, rfl, outside⟩ := ih closed left
          exact ⟨q, rfl, rfl, outside⟩
  | @escape c t more ih =>
      match p with
      | [] => cases closed
      | [d] =>
          obtain ⟨rfl, -⟩ := List.cons.inj text
          cases closed
      | d :: e :: p =>
          obtain ⟨rfl, left⟩ := List.cons.inj text
          obtain ⟨rfl, leftAfter⟩ := List.cons.inj left
          obtain ⟨q, rfl, rfl, outside⟩ := ih (p := p) closed leftAfter
          exact ⟨q, rfl, rfl, outside⟩

/-! ### Leading characters -/

theorem isTokenPart_of_isSpace {c : Char} (h : isSpace c = true) : isTokenPart c = false := by
  simp only [isSpace, Bool.or_eq_true, decide_eq_true_eq] at h
  rcases h with ((rfl | rfl) | rfl) | rfl <;> decide

theorem leads_part {c : Char} (part : isTokenPart c = true) (r : List Char) :
    Leads (c :: r) c r := by
  refine leads_cons ?_ r
  by_contra space
  rw [isTokenPart_of_isSpace (by simpa using space)] at part
  cases part

theorem Leads.of_allSpace {sp s r : List Char} {c : Char} (spaces : AllSpace sp)
    (h : Leads s c r) : Leads (sp ++ s) c r := by
  obtain ⟨sp', spaces', visible, rfl⟩ := h
  exact ⟨sp ++ sp', spaces.append spaces', visible, (List.append_assoc _ _ _).symm⟩

/-- The first visible character of two texts in a row is in the first one, unless that is white
space. -/
theorem Leads.append_cases {front s r : List Char} {c : Char} (h : Leads (front ++ s) c r) :
    (∃ sp p, AllSpace sp ∧ front = sp ++ c :: p ∧ r = p ++ s) ∨ (AllSpace front ∧ Leads s c r) := by
  obtain ⟨sp, spaces, visible, text⟩ := h
  rcases List.append_eq_append_iff.mp text with ⟨sp', rfl, left⟩ | ⟨p, rfl, left⟩
  · refine .inr ⟨fun d hd => spaces d (List.mem_append_left _ hd), sp', ?_, visible, left⟩
    exact fun d hd => spaces d (List.mem_append_right _ hd)
  · cases p with
    | nil =>
        rw [List.append_nil]
        exact .inr ⟨spaces, [], AllSpace.nil, visible, left.symm⟩
    | cons d p =>
        obtain ⟨rfl, rfl⟩ := List.cons.inj left
        exact .inl ⟨sp, p, spaces, rfl, rfl⟩

theorem not_leads_of_allSpace {s r : List Char} {c : Char} (spaces : AllSpace s)
    (h : Leads s c r) : False := by
  obtain ⟨sp, -, visible, rfl⟩ := h
  have := spaces c (List.mem_append_right _ List.mem_cons_self)
  rw [visible] at this
  cases this

/-! ### Seams -/

section
variable {gap gap' tail : List Char}

/-- White space is all that keeps a token before the seam and one after it apart, or there is no
such pair of tokens. -/
def Apart (gap gap' tail front : List Char) : Prop :=
  EndsInToken front → tail.head?.any isTokenPart = true → gap ≠ [] ∧ gap' ≠ []

theorem Apart.symm {front : List Char} (h : Apart gap gap' tail front) :
    Apart gap' gap tail front := fun last head => (h last head).symm

theorem getLast?_append_of_ne_nil {s : List Char} (nonempty : s ≠ []) (front : List Char) :
    (front ++ s).getLast? = s.getLast? := by
  obtain ⟨init, last, rfl⟩ := (List.eq_nil_or_concat s).resolve_left nonempty
  simp

theorem endsInToken_append_iff {s : List Char} (nonempty : s ≠ []) (front : List Char) :
    EndsInToken (front ++ s) ↔ EndsInToken s := by
  rw [EndsInToken, getLast?_append_of_ne_nil nonempty, EndsInToken]

theorem Apart.of_append {front s : List Char} (h : Apart gap gap' tail (front ++ s)) :
    Apart gap gap' tail s := by
  intro last
  refine h ?_
  cases s with
  | nil => cases last
  | cons c s => rwa [endsInToken_append_iff (List.cons_ne_nil c s)]

variable (gap gap' tail) in
/-- Two texts are the same but for the white space at the seam, or are past it and the same. -/
inductive Meets : List Char → List Char → Prop
  | before {front : List Char} (closed : Closed front) (apart : Apart gap gap' tail front) :
      Meets (front ++ (gap ++ tail)) (front ++ (gap' ++ tail))
  | after (s : List Char) : Meets s s

/-- The same character leads both texts, before the seam or after it. -/
theorem Leads.of_meets (spaces : AllSpace gap) (spaces' : AllSpace gap') {s s' r : List Char}
    {c : Char} (h : Leads s c r) (meets : Meets gap gap' tail s s') :
    (∃ p, r = p ++ (gap ++ tail) ∧ Closed (c :: p) ∧ Apart gap gap' tail (c :: p) ∧
      Leads s' c (p ++ (gap' ++ tail))) ∨ Leads s' c r := by
  cases meets with
  | after => exact .inr h
  | @before front closed apart =>
      obtain ⟨-, -, visible, -⟩ := id h
      rcases h.append_cases with ⟨sp, p, blank, rfl, rfl⟩ | ⟨blank, lead⟩
      · have noQuote : '"' ∉ sp := fun hq => by cases blank _ hq
        refine .inl ⟨p, rfl, (closed_append_iff noQuote _).mp closed, apart.of_append, ?_⟩
        exact ⟨sp, blank, visible, List.append_assoc _ _ _⟩
      · rcases lead.append_cases with ⟨sp, p, -, rfl, -⟩ | ⟨-, lead⟩
        · cases visible.symm.trans (spaces c (List.mem_append_right _ List.mem_cons_self))
        · exact .inr ((lead.of_allSpace spaces').of_allSpace blank)

theorem meets_behind {c : Char} {p : List Char} (closed : Closed (c :: p))
    (apart : Apart gap gap' tail (c :: p)) (other : c ≠ '"') :
    Meets gap gap' tail (p ++ (gap ++ tail)) (p ++ (gap' ++ tail)) := by
  have single : '"' ∉ [c] := fun hq => other (List.mem_singleton.mp hq).symm
  have apart : Apart gap gap' tail ([c] ++ p) := apart
  exact .before ((closed_append_iff single p).mp closed) apart.of_append

/-- Behind a leading character that opens no string the texts still meet. -/
theorem Leads.meets (spaces : AllSpace gap) (spaces' : AllSpace gap') {s s' r : List Char}
    {c : Char} (h : Leads s c r) (other : c ≠ '"') (meets : Meets gap gap' tail s s') :
    ∃ r', Leads s' c r' ∧ Meets gap gap' tail r r' := by
  rcases h.of_meets spaces spaces' meets with ⟨p, rfl, closed, apart, lead⟩ | lead
  · exact ⟨_, lead, meets_behind closed apart other⟩
  · exact ⟨r, lead, .after r⟩

/-! ### Tokens at a seam -/

/-- A token that starts before the seam ends there or before it. -/
theorem exists_append_of_token (spaces : AllSpace gap) {front token rest : List Char}
    (parts : ∀ c ∈ token, isTokenPart c = true) (nonempty : front ≠ [])
    (apart : Apart gap gap' tail front) (text : front ++ (gap ++ tail) = token ++ rest) :
    ∃ q, front = token ++ q ∧ rest = q ++ (gap ++ tail) := by
  rcases List.append_eq_append_iff.mp text with ⟨q, rfl, across⟩ | ⟨q, rfl, left⟩
  · cases q with
    | nil => exact ⟨[], by simp, across.symm⟩
    | cons d q =>
        have part : isTokenPart d = true := parts d (by simp)
        have before := fun c hc => parts c (List.mem_append_left _ hc)
        have last := endsInToken_of_parts before nonempty
        cases gap with
        | nil =>
            obtain rfl : tail = d :: (q ++ rest) := across
            exact absurd rfl (apart last (by simpa using part)).1
        | cons e gap =>
            obtain ⟨rfl, -⟩ := List.cons.inj across
            rw [isTokenPart_of_isSpace (spaces e List.mem_cons_self)] at part
            cases part
  · exact ⟨q, rfl, left⟩

/-- What follows a token stops it in one text if it does in the other. -/
theorem Apart.stops (spaces' : AllSpace gap') {token q : List Char}
    (parts : ∀ c ∈ token, isTokenPart c = true) (nonempty : token ≠ [])
    (apart : Apart gap gap' tail (token ++ q)) :
    Stops (q ++ (gap ++ tail)) (q ++ (gap' ++ tail)) := by
  cases q with
  | cons c q => exact .inl rfl
  | nil =>
      refine .inr ?_
      cases gap' with
      | cons d gap' => exact isTokenPart_of_isSpace (spaces' d List.mem_cons_self)
      | nil =>
          rw [List.append_nil] at apart
          by_contra part
          exact (apart (endsInToken_of_parts parts nonempty) (Bool.not_eq_false _ ▸ part)).2 rfl

/-! ### A seam in everything that stands at a front -/

variable (gap gap' tail) in
/-- What stands at the front of a text stands at the front of every text that meets it. -/
def Carries {α : Type} (one : Front α) : Prop :=
  ∀ ⦃s s' rest : List Char⦄ ⦃a : α⦄, one s a rest → Meets gap gap' tail s s' →
    ∃ rest', one s' a rest' ∧ Meets gap gap' tail rest rest'

variable (gap gap' tail) in
/-- The same of what is led by a character before the seam. -/
def CarriesAt {α : Type} (at_ : Char → Front α) : Prop :=
  ∀ ⦃c : Char⦄ ⦃p rest : List Char⦄ ⦃a : α⦄, Closed (c :: p) → Apart gap gap' tail (c :: p) →
    at_ c (p ++ (gap ++ tail)) a rest →
      ∃ rest', at_ c (p ++ (gap' ++ tail)) a rest' ∧ Meets gap gap' tail rest rest'

theorem notMem_of_parts {token : List Char} (parts : ∀ c ∈ token, isTokenPart c = true) :
    '"' ∉ token := fun hq => by cases parts _ hq

theorem parts_of_words {c : Char} {letters : List Char} {t : Tree}
    (word : (c, letters, t) ∈ words) : ∀ d ∈ c :: letters, isTokenPart d = true := by
  simp only [words, List.mem_cons, Prod.mk.injEq, List.not_mem_nil, or_false] at word
  rcases word with ⟨rfl, rfl, -⟩ | ⟨rfl, rfl, -⟩ | ⟨rfl, rfl, -⟩ <;> exact List.all_eq_true.mp rfl

variable (spaces : AllSpace gap) (spaces' : AllSpace gap')
include spaces spaces'

theorem carries_led {α : Type} {at_ : Char → Front α} (h : CarriesAt gap gap' tail at_) :
    Carries gap gap' tail (Front.Led at_) := by
  rintro s s' rest a ⟨c, r, lead, front⟩ meets
  rcases lead.of_meets spaces spaces' meets with ⟨p, rfl, closed, apart, lead⟩ | lead
  · obtain ⟨rest', front, meets⟩ := h closed apart front
    exact ⟨rest', ⟨c, _, lead, front⟩, meets⟩
  · exact ⟨rest, ⟨c, r, lead, front⟩, .after rest⟩

omit spaces spaces' in
/-- A string before the seam ends there or before it. -/
theorem exists_string {p body rest : List Char} (closed : Closed ('"' :: p))
    (apart : Apart gap gap' tail ('"' :: p))
    (read : Gives (quotedBody (p ++ (gap ++ tail))) body rest) :
    ∃ rest', Gives (quotedBody (p ++ (gap' ++ tail))) body rest' ∧
      Meets gap gap' tail rest rest' := by
  obtain ⟨front, closing, text, again⟩ := exists_closing_of_quotedBody read
  obtain ⟨q, rfl, rfl, outside⟩ := exists_append_of_closing closing closed text
  refine ⟨q ++ (gap' ++ tail), ?_, .before outside ?_⟩
  · rw [List.append_assoc]
    exact again _
  · have apart : Apart gap gap' tail (('"' :: front) ++ q) := apart
    exact apart.of_append

theorem carriesAt_scalar : CarriesAt gap gap' tail Front.ScalarAt := by
  intro c p rest t closed apart scalar
  cases scalar with
  | @word _ letters _ _ _ word text =>
      have parts := parts_of_words word
      have whole : (c :: p) ++ (gap ++ tail) = (c :: letters) ++ rest := congrArg (c :: ·) text
      obtain ⟨q, same, rfl⟩ :=
        exists_append_of_token spaces parts (List.cons_ne_nil c p) apart whole
      obtain ⟨-, rfl⟩ := List.cons.inj same
      rw [same] at closed apart
      refine ⟨q ++ (gap' ++ tail), .word word (List.append_assoc _ _ _), ?_⟩
      exact .before ((closed_append_iff (notMem_of_parts parts) q).mp closed) apart.of_append
  | number start read =>
      obtain ⟨token, text, parts, again⟩ := stable_number read
      have nonempty : token ≠ [] := by
        rintro rfl
        obtain ⟨short, -⟩ := read
        rw [text] at short
        exact Nat.lt_irrefl _ short
      obtain ⟨q, same, rfl⟩ := exists_append_of_token spaces parts (List.cons_ne_nil c p) apart text
      rw [same] at closed apart
      refine ⟨q ++ (gap' ++ tail), .number start ?_, ?_⟩
      · rw [← List.cons_append, same, List.append_assoc]
        exact again (apart.stops spaces' parts nonempty)
      · exact .before ((closed_append_iff (notMem_of_parts parts) q).mp closed) apart.of_append
  | string read =>
      obtain ⟨rest', read, meets⟩ := exists_string closed apart read
      exact ⟨rest', .string read, meets⟩

section
variable {α : Type} {close : Char} {one : Front α}

theorem carries_more (other : close ≠ '"') (h : Carries gap gap' tail one) :
    Carries gap gap' tail (Front.More close one) := by
  intro s s' rest as more meets
  induction more generalizing s' with
  | close lead =>
      obtain ⟨r', lead, meets⟩ := lead.meets spaces spaces' other meets
      exact ⟨r', .close lead, meets⟩
  | comma lead member more ih =>
      obtain ⟨r', lead, meets⟩ := lead.meets spaces spaces' (by decide) meets
      obtain ⟨mid', member, meets⟩ := h member meets
      obtain ⟨rest', more, meets⟩ := ih meets
      exact ⟨rest', .comma lead member more, meets⟩

theorem carries_listed (other : close ≠ '"') (h : Carries gap gap' tail one) :
    Carries gap gap' tail (Front.Listed close one) := by
  intro s s' rest as listed meets
  cases listed with
  | empty lead =>
      obtain ⟨r', lead, meets⟩ := lead.meets spaces spaces' other meets
      exact ⟨r', .empty lead, meets⟩
  | first member more =>
      obtain ⟨mid', member, meets⟩ := h member meets
      obtain ⟨rest', more, meets⟩ := carries_more spaces spaces' other h more meets
      exact ⟨rest', .first member more, meets⟩

end

theorem carriesAt_entry {one : Front Tree} (h : Carries gap gap' tail one) :
    CarriesAt gap gap' tail (Front.EntryAt one) := by
  intro c p rest e closed apart entry
  cases entry with
  | mk read colon value =>
      obtain ⟨afterKey, read, meets⟩ := exists_string closed apart read
      obtain ⟨v, colon, meets⟩ := colon.meets spaces spaces' (by decide) meets
      obtain ⟨rest', value, meets⟩ := h value meets
      exact ⟨rest', .mk read colon value, meets⟩

theorem carriesAt_value {inner : Option (Front Tree)}
    (h : ∀ one ∈ inner, Carries gap gap' tail one) :
    CarriesAt gap gap' tail (Front.ValueAt inner) := by
  intro c p rest t closed apart front
  cases front with
  | scalar scalar =>
      obtain ⟨rest', scalar, meets⟩ := carriesAt_scalar spaces spaces' closed apart scalar
      exact ⟨rest', .scalar scalar, meets⟩
  | list level members =>
      obtain ⟨rest', members, meets⟩ :=
        carries_listed spaces spaces' (by decide) (h _ level) members
          (meets_behind closed apart (by decide))
      exact ⟨rest', .list level members, meets⟩
  | mapping level members denotes =>
      have entry := carries_led spaces spaces' (carriesAt_entry spaces spaces' (h _ level))
      obtain ⟨rest', members, meets⟩ :=
        carries_listed spaces spaces' (by decide) entry members
          (meets_behind closed apart (by decide))
      exact ⟨rest', .mapping level members denotes, meets⟩

theorem carries_value (levels : Nat) : Carries gap gap' tail (Front.Value levels) := by
  induction levels with
  | zero =>
      have none_ : ∀ one ∈ (none : Option (Front Tree)), Carries gap gap' tail one := nofun
      exact carries_led spaces spaces' (carriesAt_value spaces spaces' none_)
  | succ levels ih =>
      refine carries_led spaces spaces' (carriesAt_value spaces spaces' fun one level => ?_)
      obtain rfl := Option.some.inj level
      exact ih

/-- **White space at a seam between tokens makes no difference** to the tree of a text. -/
theorem readTree_of_meets {text text' : List Char} (meets : Meets gap gap' tail text text')
    {t : Tree} (h : readTree text = .ok t) : readTree text' = .ok t := by
  obtain ⟨rest, value, ends⟩ := readTree_eq_ok_iff.mp h
  obtain ⟨rest', value', meets⟩ := carries_value spaces spaces' maxLevels value meets
  refine readTree_eq_ok_iff.mpr ⟨rest', value', ?_⟩
  cases meets with
  | after => exact ends
  | @before front =>
      have outer : AllSpace front := fun c hc => ends c (List.mem_append_left _ hc)
      have inner : AllSpace tail := fun c hc =>
        ends c (List.mem_append_right _ (List.mem_append_right _ hc))
      exact outer.append (spaces'.append inner)

end

/-! ### Two tokens in a row -/

/-- A text ends in a token. -/
structure Ends (s : List Char) : Prop where
  closed : Closed s
  last : EndsInToken s

theorem Ends.ne_nil {s : List Char} (h : Ends s) : s ≠ [] := by
  rintro rfl
  cases h.last

/-- What is left behind a piece of a text that ends in a token. -/
theorem Ends.of_append {front q : List Char} (h : Ends (front ++ q)) (closed : Closed q) :
    q = [] ∨ Ends q := by
  cases q with
  | nil => exact .inl rfl
  | cons c q =>
      refine .inr ⟨closed, ?_⟩
      rw [← endsInToken_append_iff (List.cons_ne_nil c q) front]
      exact h.last

/-- The characters of JSON outside tokens and strings. -/
def isMark (c : Char) : Bool := c ∈ [',', ':', '[', ']', '\x7b', '\x7d']

theorem isTokenPart_of_isMark {c : Char} (h : isMark c = true) : isTokenPart c = false := by
  simp only [isMark, List.mem_cons, List.not_mem_nil, or_false, decide_eq_true_eq] at h
  rcases h with rfl | rfl | rfl | rfl | rfl | rfl <;> decide

theorem Ends.behind {c : Char} {p : List Char} (h : Ends (c :: p)) (mark : isMark c = true) :
    Ends p := by
  have single : '"' ∉ [c] := fun hq => by
    rw [← List.mem_singleton.mp hq] at mark
    cases mark
  have whole : Ends ([c] ++ p) := h
  refine (whole.of_append ((closed_append_iff single p).mp h.closed)).resolve_left ?_
  rintro rfl
  have part : isTokenPart c = true := h.last
  rw [isTokenPart_of_isMark mark] at part
  cases part

section
variable {gap tail r : List Char} {d : Char}

/-- A character in front of white space and a token is in the text that ends in a token. -/
theorem Leads.of_ends {front s : List Char} {c : Char} (h : Leads (front ++ s) c r)
    (ends : Ends front) : ∃ p, r = p ++ s ∧ Ends (c :: p) := by
  rcases h.append_cases with ⟨sp, p, blank, rfl, rfl⟩ | ⟨blank, -⟩
  · have noQuote : '"' ∉ sp := fun hq => by cases blank _ hq
    have closed := (closed_append_iff noQuote _).mp ends.closed
    exact ⟨p, rfl, (ends.of_append closed).resolve_left (List.cons_ne_nil c p)⟩
  · obtain ⟨init, c, rfl⟩ := (List.eq_nil_or_concat front).resolve_left ends.ne_nil
    have part : isTokenPart c = true := by simpa [EndsInToken] using ends.last
    rw [isTokenPart_of_isSpace (blank c (by simp))] at part
    cases part

variable (gap tail) in
/-- A reader stops in front of the white space at the latest. -/
def Halted (rest : List Char) : Prop := ∃ q, rest = q ++ (gap ++ tail) ∧ (q = [] ∨ Ends q)

variable (gap tail) in
/-- What stands at the front of a text that ends in a token and white space ends there or before. -/
def Halts {α : Type} (one : Front α) : Prop :=
  ∀ ⦃front rest : List Char⦄ ⦃a : α⦄, Ends front → one (front ++ (gap ++ tail)) a rest →
    Halted gap tail rest

/-- A string that starts in front of the white space ends there. -/
theorem halted_string {p body rest : List Char} (ends : Ends ('"' :: p))
    (read : Gives (quotedBody (p ++ (gap ++ tail))) body rest) : Halted gap tail rest := by
  obtain ⟨front, closing, text, -⟩ := exists_closing_of_quotedBody read
  obtain ⟨q, rfl, rfl, outside⟩ := exists_append_of_closing closing ends.closed text
  have whole : Ends (('"' :: front) ++ q) := ends
  exact ⟨q, rfl, whole.of_append outside⟩

variable (spaces : AllSpace gap) (filled : gap ≠ []) (next : Leads (gap ++ tail) d r)
  (other : isMark d = false)
include spaces filled next other

omit spaces filled in
theorem Halted.lead {rest r' : List Char} {c : Char} (h : Halted gap tail rest)
    (lead : Leads rest c r') (mark : isMark c = true) :
    ∃ p, r' = p ++ (gap ++ tail) ∧ Ends p := by
  obtain ⟨q, rfl, rfl | ends⟩ := h
  · obtain ⟨rfl, -⟩ := lead.unique next
    rw [mark] at other
    cases other
  · obtain ⟨p, rfl, ends⟩ := lead.of_ends ends
    exact ⟨p, rfl, ends.behind mark⟩

omit next other in
theorem halted_scalar {c : Char} {p rest : List Char} {t : Tree} (ends : Ends (c :: p))
    (scalar : Front.ScalarAt c (p ++ (gap ++ tail)) t rest) : Halted gap tail rest := by
  have apart : Apart gap gap tail (c :: p) := fun _ _ => ⟨filled, filled⟩
  have stop {token : List Char} (parts : ∀ c ∈ token, isTokenPart c = true)
      (text : (c :: p) ++ (gap ++ tail) = token ++ rest) : Halted gap tail rest := by
    obtain ⟨q, same, rfl⟩ :=
      exists_append_of_token spaces parts (List.cons_ne_nil c p) apart text
    rw [same] at ends
    exact ⟨q, rfl, ends.of_append ((closed_append_iff (notMem_of_parts parts) q).mp ends.closed)⟩
  cases scalar with
  | word word text => exact stop (parts_of_words word) (congrArg (c :: ·) text)
  | number start read =>
      obtain ⟨token, text, parts, -⟩ := stable_number read
      exact stop parts text
  | string read => exact halted_string ends read

section
variable {α : Type} {close : Char} {one : Front α}

omit spaces filled in
theorem halted_more (mark : isMark close = true) (h : Halts gap tail one)
    {s rest : List Char} {as : List α} (halted : Halted gap tail s)
    (more : Front.More close one s as rest) : Halted gap tail rest := by
  induction more with
  | close lead =>
      obtain ⟨p, rfl, ends⟩ := halted.lead next other lead mark
      exact ⟨p, rfl, .inr ends⟩
  | comma lead member more ih =>
      obtain ⟨p, rfl, ends⟩ := halted.lead next other lead (by decide)
      exact ih (h ends member)

omit spaces filled in
theorem halts_listed (mark : isMark close = true) (h : Halts gap tail one) :
    Halts gap tail (Front.Listed close one) := by
  intro front rest as ends listed
  cases listed with
  | empty lead =>
      have halted : Halted gap tail (front ++ (gap ++ tail)) := ⟨front, rfl, .inr ends⟩
      obtain ⟨p, rfl, ends⟩ := halted.lead next other lead mark
      exact ⟨p, rfl, .inr ends⟩
  | first member more => exact halted_more next other mark h (h ends member) more

end

omit spaces filled in
theorem halts_entry {one : Front Tree} (h : Halts gap tail one) :
    Halts gap tail (Front.Led (Front.EntryAt one)) := by
  rintro front rest e ends ⟨c, r, lead, entry⟩
  obtain ⟨p, rfl, ends⟩ := lead.of_ends ends
  cases entry with
  | mk read colon value =>
      obtain ⟨v, rfl, ends⟩ := (halted_string ends read).lead next other colon (by decide)
      exact h ends value

theorem halts_valueAt {inner : Option (Front Tree)} (h : ∀ one ∈ inner, Halts gap tail one) :
    Halts gap tail (Front.Led (Front.ValueAt inner)) := by
  rintro front rest t ends ⟨c, r, lead, value⟩
  obtain ⟨p, rfl, ends⟩ := lead.of_ends ends
  cases value with
  | scalar scalar => exact halted_scalar spaces filled ends scalar
  | list level members =>
      exact halts_listed next other (by decide) (h _ level) (ends.behind (by decide)) members
  | mapping level members =>
      exact halts_listed next other (by decide) (halts_entry next other (h _ level))
        (ends.behind (by decide)) members

theorem halts_value (levels : Nat) : Halts gap tail (Front.Value levels) := by
  induction levels with
  | zero => exact halts_valueAt spaces filled next other fun one none => by cases none
  | succ levels ih =>
      refine halts_valueAt spaces filled next other fun one level => ?_
      obtain rfl := Option.some.inj level
      exact ih

/-- **A token is followed by nothing but a mark**: a text in which another token or a string follows
it denotes no tree. -/
theorem readTree_ne_of_ends {front : List Char} (ends : Ends front) (t : Tree) :
    readTree (front ++ (gap ++ tail)) ≠ .ok t := by
  intro h
  obtain ⟨rest, value, blank⟩ := readTree_eq_ok_iff.mp h
  obtain ⟨q, rfl, -⟩ := halts_value spaces filled next other maxLevels ends value
  exact not_leads_of_allSpace (fun c hc => blank c (List.mem_append_right q hc)) next

end

end ZkCommand.Json
