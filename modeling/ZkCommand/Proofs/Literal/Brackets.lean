import ZkCommand.Literal.Inline
import ZkCommand.Proofs.Decimal
import ZkCommand.Proofs.Text.Embedded

/-!
# ZkCommand.Proofs.Literal.Brackets

**Brackets outside texts and comments.** A scanner goes over a struct literal and keeps the brackets
that are still to be closed; what stands in a text or a comment is skipped, and a bracket that
closes another than the innermost one is an error. Every value on one line is *closed*: behind it
the scanner is where it was in front of it, whatever is open around it and whatever characters the
value has. None has a line break.
-/

namespace ZkCommand.Literal

/-! ### The scanner -/

/-- What a character is part of. Behind a first slash there may be a second. -/
inductive Mode
  | code
  | slash
  | text
  | escape
  | comment
  deriving DecidableEq

/-- Where a scanner is, and the brackets that it waits for, the innermost first. -/
structure Scan where
  mode : Mode
  pending : List Char
  deriving DecidableEq

/-- The bracket that closes another. -/
def partner? (c : Char) : Option Char :=
  if c = '(' then some ')' else if c = '[' then some ']' else if c = '\x7b' then some '\x7d'
  else none

/-- The character is a closing bracket. -/
def isClosing (c : Char) : Bool := c = ')' || c = ']' || c = '\x7d'

/-- What is still open behind a closing bracket, if it closes the innermost. -/
def outer? : List Char → Char → Option (List Char)
  | [], _ => none
  | closing :: outer, c => if c = closing then some outer else none

namespace Scan

/-- Nothing has been scanned. -/
def start : Scan := ⟨.code, []⟩

/-- A character of code. -/
def code (pending : List Char) (c : Char) : Option Scan :=
  match partner? c with
  | some closing => some ⟨.code, closing :: pending⟩
  | none =>
      if isClosing c then (outer? pending c).map (Scan.mk .code)
      else some ⟨if c = '"' then .text else if c = '/' then .slash else .code, pending⟩

/-- One character. -/
def step (s : Scan) (c : Char) : Option Scan :=
  match s.mode with
  | .code => code s.pending c
  | .slash => if c = '/' then some ⟨.comment, s.pending⟩ else code s.pending c
  | .text => some ⟨if c = '"' then .code else if c = '\\' then .escape else .text, s.pending⟩
  | .escape => some ⟨.text, s.pending⟩
  | .comment => some ⟨if c = '\n' then .code else .comment, s.pending⟩

/-- The characters of a text; nothing if a bracket closes none or another one. -/
def through (s : Scan) (text : List Char) : Option Scan := text.foldlM step s

/-- The same place with more brackets open around it. -/
def within (s : Scan) (outer : List Char) : Scan := ⟨s.mode, s.pending ++ outer⟩

theorem through_cons (s : Scan) (c : Char) (text : List Char) :
    s.through (c :: text) = (s.step c).bind fun s' => s'.through text := List.foldlM_cons

theorem through_append (s : Scan) (text text' : List Char) :
    s.through (text ++ text') = (s.through text).bind fun s' => s'.through text' :=
  List.foldlM_append

theorem outer?_append {pending rest : List Char} {c : Char} (h : outer? pending c = some rest)
    (outer : List Char) : outer? (pending ++ outer) c = some (rest ++ outer) := by
  cases pending with
  | nil => cases h
  | cons closing pending =>
      rw [outer?] at h
      split_ifs at h with same
      cases h
      exact if_pos same

theorem code_append {s : Scan} {pending : List Char} {c : Char} (h : code pending c = some s)
    (outer : List Char) : code (pending ++ outer) c = some (s.within outer) := by
  unfold code at h ⊢
  cases opens : partner? c with
  | some closing =>
      rw [opens] at h
      cases h
      rfl
  | none =>
      simp only [opens] at h ⊢
      by_cases closes : isClosing c = true
      · rw [if_pos closes] at h ⊢
        obtain ⟨rest, popped, rfl⟩ := Option.map_eq_some_iff.mp h
        rw [outer?_append popped]
        rfl
      · rw [if_neg closes] at h ⊢
        cases h
        rfl

/-- A step does not depend on brackets that it leaves open. -/
theorem step_within {s s' : Scan} {c : Char} (h : s.step c = some s') (outer : List Char) :
    (s.within outer).step c = some (s'.within outer) := by
  obtain ⟨mode, pending⟩ := s
  cases mode with
  | code => exact code_append h outer
  | slash =>
      change (if c = '/' then _ else _) = _ at h
      change (if c = '/' then _ else _) = _
      split_ifs at h ⊢
      · cases h
        rfl
      · exact code_append h outer
  | text | escape | comment =>
      cases h
      rfl

theorem through_within {s s' : Scan} {text : List Char} (h : s.through text = some s')
    (outer : List Char) : (s.within outer).through text = some (s'.within outer) := by
  induction text generalizing s with
  | nil =>
      cases h
      rfl
  | cons c text ih =>
      rw [through_cons] at h ⊢
      obtain ⟨next, first, rest⟩ := Option.bind_eq_some_iff.mp h
      rw [step_within first outer, Option.bind_some, ih rest]

theorem through_of_forall {s : Scan} {text : List Char} (h : ∀ c ∈ text, s.step c = some s) :
    s.through text = some s := by
  induction text with
  | nil => rfl
  | cons c text ih =>
      rw [through_cons, h c List.mem_cons_self, Option.bind_some]
      exact ih fun d hd => h d (List.mem_cons_of_mem c hd)

end Scan

/-! ### Texts on one line -/

/-- Over a text without a line break, a scanner gets from one place to another. -/
structure Leads (s : Scan) (text : String) (s' : Scan) : Prop where
  scans : s.through text.toList = some s'
  oneLine : '\n' ∉ text.toList

/-- Behind a text on one line, a scanner is where it was. -/
def Closed (text : String) : Prop := Leads .start text .start

section
variable {s s' s'' : Scan} {text text' : String}

/-- A computation that a text leads from one place to another. -/
def leads (s : Scan) (text : String) (s' : Scan) : Bool :=
  decide (s.through text.toList = some s') && !text.toList.contains '\n'

theorem Leads.of_leads (h : leads s text s' = true) : Leads s text s' := by
  rw [leads, Bool.and_eq_true, decide_eq_true_iff, Bool.not_eq_true', List.contains_eq_mem,
    decide_eq_false_iff_not] at h
  exact ⟨h.1, h.2⟩

theorem Leads.append (h : Leads s text s') (h' : Leads s' text' s'') :
    Leads s (text ++ text') s'' := by
  refine ⟨?_, ?_⟩
  · rw [String.toList_append, Scan.through_append, h.scans, Option.bind_some, h'.scans]
  · rw [String.toList_append, List.mem_append]
    exact not_or.mpr ⟨h.oneLine, h'.oneLine⟩

theorem Leads.within (h : Leads s text s') (outer : List Char) :
    Leads (s.within outer) text (s'.within outer) :=
  ⟨Scan.through_within h.scans outer, h.oneLine⟩

/-- A text of characters each of which leaves a scanner where it is. -/
theorem Leads.of_forall (h : ∀ c ∈ text.toList, s.step c = some s ∧ c ≠ '\n') :
    Leads s text s :=
  ⟨Scan.through_of_forall fun c hc => (h c hc).1, fun inside => (h _ inside).2 rfl⟩

theorem Closed.inside (h : Closed text) (pending : List Char) :
    Leads ⟨.code, pending⟩ text ⟨.code, pending⟩ := Leads.within h pending

theorem Closed.append (h : Closed text) (h' : Closed text') : Closed (text ++ text') :=
  Leads.append h h'

/-- A text between two others, of which the second closes what the first opens. -/
theorem Leads.between {first last : String} (h : Leads s text s)
    (opens : leads .start first s = true) (closes : leads s last .start = true) :
    Closed (first ++ text ++ last) :=
  ((Leads.of_leads opens).append h).append (.of_leads closes)

/-- A closed text between two others. -/
theorem Closed.between (pending : List Char) {first last : String} (h : Closed text)
    (opens : leads .start first ⟨.code, pending⟩ = true)
    (closes : leads ⟨.code, pending⟩ last .start = true) :
    Closed (first ++ text ++ last) :=
  (h.inside pending).between opens closes

/-- Two closed texts between three others. -/
theorem Closed.both (pending : List Char) {first middle last : String} (h : Closed text)
    (h' : Closed text') (opens : leads .start first ⟨.code, pending⟩ = true)
    (sets : leads .start middle .start = true)
    (closes : leads ⟨.code, pending⟩ last .start = true) :
    Closed (first ++ text ++ middle ++ text' ++ last) := by
  have inner : Closed (text ++ middle ++ text') := (h.append (.of_leads sets)).append h'
  rw [show first ++ text ++ middle ++ text' ++ last = first ++ (text ++ middle ++ text') ++ last by
    simp only [String.append_assoc]]
  exact inner.between pending opens closes

end

/-! ### Numerals, words and texts -/

/-- The characters at which code is more than passed over. -/
def marks : List Char := ['(', ')', '[', ']', '\x7b', '\x7d', '"', '/']

theorem step_code {pending : List Char} {c : Char} (h : c ∉ marks) :
    Scan.step ⟨.code, pending⟩ c = some ⟨.code, pending⟩ := by
  obtain ⟨h₁, h₂, h₃, h₄, h₅, h₆, h₇, h₈⟩ : c ≠ '(' ∧ c ≠ ')' ∧ c ≠ '[' ∧ c ≠ ']' ∧ c ≠ '\x7b' ∧
      c ≠ '\x7d' ∧ c ≠ '"' ∧ c ≠ '/' := by simpa [marks] using h
  simp [Scan.step, Scan.code, partner?, isClosing, h₁, h₂, h₃, h₄, h₅, h₆, h₇, h₈]

theorem step_text {pending : List Char} {c : Char} (quote : c ≠ '"') (backslash : c ≠ '\\') :
    Scan.step ⟨.text, pending⟩ c = some ⟨.text, pending⟩ := by
  simp [Scan.step, quote, backslash]

/-- No mark is a character of a class that has none of them. -/
theorem notMem_marks {test : Char → Bool} (apart : marks.any test = false) {c : Char}
    (h : test c = true) : c ∉ marks := fun mark => List.any_eq_false.mp apart c mark h

theorem step_of_isDigit {s : Scan} (mode : s.mode = .code ∨ s.mode = .text) {c : Char}
    (digit : c.isDigit = true) : s.step c = some s := by
  obtain ⟨m, pending⟩ := s
  obtain rfl | rfl : m = .code ∨ m = .text := mode
  · exact step_code (notMem_marks rfl digit)
  · exact step_text (Text.ne_of_isDigit digit rfl) (Text.ne_of_isDigit digit rfl)

theorem leads_numeral {s : Scan} (mode : s.mode = .code ∨ s.mode = .text) (n : Nat) :
    Leads s (Decimal.text n) s := by
  refine .of_forall fun c hc => ?_
  rw [Decimal.toList_text] at hc
  have digit := Decimal.isDigit_of_mem_write hc
  exact ⟨step_of_isDigit mode digit, Text.ne_of_isDigit digit rfl⟩

/-- Embedded text does not end the text that it is part of. -/
theorem through_embed (pending s : List Char) :
    Scan.through ⟨.text, pending⟩ (Text.embed s) = some ⟨.text, pending⟩ := by
  have code (n : Nat) : Scan.through ⟨.text, pending⟩ ('\x7b' :: (Text.Hex.ofCode n ++ ['\x7d']))
      = some ⟨.text, pending⟩ := by
    refine Scan.through_of_forall fun d hd => ?_
    obtain rfl | hd | rfl : d = '\x7b' ∨ d ∈ Text.Hex.ofCode n ∨ d = '\x7d' := by simpa using hd
    · exact step_text (by decide) (by decide)
    · obtain ⟨digit, small, rfl⟩ := Text.Hex.exists_digit_of_mem_ofCode hd
      interval_cases digit <;> exact step_text (by decide) (by decide)
    · exact step_text (by decide) (by decide)
  have one (c : Char) :
      Scan.through ⟨.text, pending⟩ (Text.embedChar c) = some ⟨.text, pending⟩ := by
    rw [Text.embedChar]
    split_ifs with backslash quote feed carriage tab control
    · rfl
    · rfl
    · rfl
    · rfl
    · rfl
    · exact code c.toNat
    · rw [Scan.through_cons, step_text quote backslash]
      rfl
  induction s with
  | nil => rfl
  | cons c s ih =>
      rw [Text.embed, List.flatMap_cons, Scan.through_append, one, Option.bind_some]
      exact ih

/-- Embedded text has no line break, whatever the text has. -/
theorem leads_embedded (text : String) (pending : List Char) :
    Leads ⟨.text, pending⟩ (Text.embedded text) ⟨.text, pending⟩ := by
  refine ⟨by rw [Text.embedded, String.toList_ofList, through_embed], fun inside => ?_⟩
  rw [Text.embedded, String.toList_ofList] at inside
  obtain ⟨c, -, inside⟩ := List.mem_flatMap.mp inside
  exact absurd (Text.isControl_of_mem_embedChar inside) (by decide)

/-- What is written for a value is closed. -/
class Closing {α : Type} (write : α → String) : Prop where
  closed : ∀ a, Closed (write a)

export Closing (closed)

instance : Closing quoted := ⟨fun text => (leads_embedded text []).between rfl rfl⟩
instance {width : Nat} : Closing (@word width) := ⟨fun w => leads_numeral (.inl rfl) w.toNat⟩

instance : Closing bool := ⟨fun b => by cases b <;> exact .of_leads rfl⟩
instance : Closing auth := ⟨fun level => by cases level <;> exact .of_leads rfl⟩
instance : Closing sign := ⟨fun s => by cases s <;> exact .of_leads rfl⟩
instance : Closing network := ⟨fun n => by cases n <;> exact .of_leads rfl⟩

/-! ### Composite values -/

/-- The digits of an element stand in a text. -/
instance : Closing parsedElement where
  closed x := (leads_numeral (s := ⟨.text, [')']⟩) (.inr rfl) x.val).between rfl rfl

instance : Closing element := ⟨fun x => (closed x).between [')'] rfl rfl⟩
instance : Closing textBytes := ⟨fun text => (closed text).append (.of_leads rfl)⟩
instance : Closing ownedText := ⟨fun text => (closed text).append (.of_leads rfl)⟩
instance : Closing uri := ⟨fun u => (closed u.text).between [')'] rfl rfl⟩
instance : Closing tokenSymbol := ⟨fun s => (closed s.text).between [')'] rfl rfl⟩
instance : Closing actionState := ⟨fun s => (closed s.hash).between [')'] rfl rfl⟩

instance {width : Nat} : Closing (@range width) where
  closed r := (closed r.lower).both ['\x7d'] (closed r.upper) rfl rfl rfl

instance : Closing publicKey where
  closed key := by
    cases key with
    | address text => exact (closed text).between [')', ')'] rfl rfl
    | point x isOdd => exact (closed x).both ['\x7d', ')'] (closed isOdd) rfl rfl rfl

/-! ### Values that may be absent, and lists -/

section
variable {α : Type} {write : α → String} [Closing write]

instance : Closing (optional write) where
  closed value := by
    rcases value with (_ | value) | ⟨present, payload⟩
    · show Closed "None"
      exact .of_leads rfl
    · exact (closed value).between [')'] rfl rfl
    · exact (closed present).both ['\x7d'] (closed payload) rfl rfl rfl

theorem closed_commaSeparated (values : List α) : Closed (commaSeparated (values.map write)) := by
  induction values with
  | nil => exact .of_leads rfl
  | cons a values ih =>
      cases values with
      | nil => exact closed a
      | cons b values => exact ((closed a).append (.of_leads rfl)).append ih

end

instance : Closing slots :=
  ⟨fun values => (closed_commaSeparated values.toList).between [']'] rfl rfl⟩

theorem closed_inlineVector (xs : List Fp) : Closed (inlineVector (xs.map element)) :=
  (closed_commaSeparated xs).between [']'] rfl rfl

end ZkCommand.Literal
