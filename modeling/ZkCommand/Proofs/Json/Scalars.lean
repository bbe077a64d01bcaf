import ZkCommand.Proofs.Relaxed.Strict

/-!
# ZkCommand.Proofs.Json.Scalars

**Reading the scalars of a normalised text.** A string in its JSON text is read as the characters
that its pieces denote, and a number as the digits in which it is kept, whatever follows that does
not go on with it.
-/

namespace ZkCommand.Json

open Text Relaxed Relaxed.Grammar

/-- A reader hands back a value and the rest of its text. -/
def Gives {α : Type} {bound : Nat} (result : Except Failure (Parsed α bound)) (a : α)
    (rest : List Char) : Prop :=
  ∃ short, result = .ok ⟨a, rest, short⟩

theorem Gives.unique {α : Type} {bound : Nat} {result : Except Failure (Parsed α bound)} {a b : α}
    {rest rest' : List Char} (h : Gives result a rest) (h' : Gives result b rest') :
    a = b ∧ rest = rest' := by
  obtain ⟨short, same⟩ := h
  obtain ⟨short', same'⟩ := h'
  have := same.symm.trans same'
  grind

/-! ### Codes -/

theorem digitValue?_source (d : HexDigit) : Hex.digitValue? d.source = some d.value.val := by
  obtain ⟨value, capital⟩ := d
  revert value capital
  decide

theorem utf8Size_source (d : HexDigit) : d.source.utf8Size = 1 := by
  obtain ⟨value, capital⟩ := d
  revert value capital
  decide

theorem gives_hexQuad (code : Code) (s : List Char) :
    Gives (hexQuad (code.source ++ s)) code.value s := by
  obtain ⟨a, b, c, d⟩ := code
  have four : ¬ Utf8.size ((a.source :: b.source :: c.source :: d.source :: s).take 4) < 4 := by
    simp [Utf8.size, utf8Size_source]
  have value : hexValue? a.source b.source c.source d.source = some (Code.value ⟨a, b, c, d⟩) := by
    simp [hexValue?, digitValue?_source, Code.value]
  refine ⟨length_afterQuad_lt _ _ _ _ s, ?_⟩
  show hexQuad (a.source :: b.source :: c.source :: d.source :: s) = _
  rw [hexQuad, if_neg four]
  simp only [value]
  rfl

theorem isLowSurrogate_iff {n : Nat} : isLowSurrogate n = true ↔ 0xdc00 ≤ n ∧ n ≤ 0xdfff := by
  simp [isLowSurrogate]

theorem isHighSurrogate_iff {n : Nat} : isHighSurrogate n = true ↔ 0xd800 ≤ n ∧ n ≤ 0xdbff := by
  simp [isHighSurrogate]

/-- A code outside the surrogates stands for itself. -/
theorem gives_codeEscape {code : Code} (scalar : code.value < 0xd800 ∨ 0xdfff < code.value)
    (s : List Char) : Gives (codeEscape (code.source ++ s)) (Char.ofNat code.value) s := by
  obtain ⟨short, read⟩ := gives_hexQuad code s
  have notLow : ¬ isLowSurrogate code.value = true := by
    rw [isLowSurrogate_iff]
    omega
  have notHigh : ¬ isHighSurrogate code.value = true := by
    rw [isHighSurrogate_iff]
    omega
  refine ⟨short, ?_⟩
  rw [codeEscape, read]
  show (if isLowSurrogate code.value = true then _ else _) = _
  rw [if_neg notLow, if_neg notHigh]

theorem gives_lowSurrogate {low : Code} (isLow : 0xdc00 ≤ low.value ∧ low.value ≤ 0xdfff)
    (s : List Char) : Gives (lowSurrogate ('\\' :: 'u' :: (low.source ++ s))) low.value s := by
  obtain ⟨short, read⟩ := gives_hexQuad low s
  refine ⟨length_afterLow_lt _ _ _ ⟨low.value, s, short⟩, ?_⟩
  rw [lowSurrogate, if_pos rfl]
  show (if 'u' = 'u' then _ else _) = _
  rw [if_pos rfl, read]
  show (if isLowSurrogate low.value = true then _ else _) = _
  rw [if_pos (isLowSurrogate_iff.mpr isLow)]

/-- A code for the first half of a pair is completed by one for the second half. -/
theorem gives_codeEscape_pair {high low : Code}
    (isHigh : 0xd800 ≤ high.value ∧ high.value ≤ 0xdbff)
    (isLow : 0xdc00 ≤ low.value ∧ low.value ≤ 0xdfff) (s : List Char) :
    Gives (codeEscape (high.source ++ '\\' :: 'u' :: (low.source ++ s)))
      (surrogatePair high.value low.value) s := by
  obtain ⟨short, read⟩ := gives_hexQuad high ('\\' :: 'u' :: (low.source ++ s))
  obtain ⟨shorter, readLow⟩ := gives_lowSurrogate isLow s
  have notLow : ¬ isLowSurrogate high.value = true := by
    rw [isLowSurrogate_iff]
    omega
  refine ⟨Nat.lt_trans shorter short, ?_⟩
  rw [codeEscape, read]
  show (if isLowSurrogate high.value = true then _ else _) = _
  rw [if_neg notLow, if_pos (isHighSurrogate_iff.mpr isHigh)]
  show (lowSurrogate ('\\' :: 'u' :: (low.source ++ s)) >>= _) = _
  rw [readLow]
  rfl

/-! ### Strings -/

theorem gives_escape_letter (e : Letter) (s : List Char) :
    Gives (escape (e.source :: s)) e.char s := by
  cases e <;> exact ⟨_, rfl⟩

theorem gives_escape_code {t : List Char} {c : Char} {s : List Char}
    (h : Gives (codeEscape t) c s) : Gives (escape ('u' :: t)) c s := by
  obtain ⟨short, read⟩ := h
  refine ⟨Nat.lt_succ_of_lt short, ?_⟩
  have unfolded : escape ('u' :: t) = (do
      let code ← codeEscape t
      .ok ⟨code.value, code.rest, length_afterCode_lt 'u' t code⟩) := rfl
  rw [unfolded, read]
  rfl

theorem gives_quotedBody_close (s : List Char) : Gives (quotedBody ('"' :: s)) [] s := by
  refine ⟨length_lt_cons _ s, ?_⟩
  rw [quotedBody, if_pos rfl]

theorem gives_quotedBody_plain {c : Char} {t cs s : List Char} (double : c ≠ '"')
    (bare : c ≠ '\\') (printable : 0x20 ≤ c.toNat) (h : Gives (quotedBody t) cs s) :
    Gives (quotedBody (c :: t)) (c :: cs) s := by
  obtain ⟨short, read⟩ := h
  refine ⟨Nat.lt_succ_of_lt short, ?_⟩
  rw [quotedBody, if_neg double, if_neg bare, if_neg (Nat.not_lt.mpr printable), read]
  rfl

theorem gives_quotedBody_escape {t r cs s : List Char} {c : Char} (hc : Gives (escape t) c r)
    (h : Gives (quotedBody r) cs s) : Gives (quotedBody ('\\' :: t)) (c :: cs) s := by
  obtain ⟨short, escaped⟩ := hc
  obtain ⟨shorter, read⟩ := h
  refine ⟨Nat.lt_succ_of_lt (Nat.lt_trans shorter short), ?_⟩
  rw [quotedBody, if_neg (by decide), if_pos rfl, escaped]
  show (quotedBody r >>= _) = _
  rw [read]
  rfl

/-- The JSON text of a piece is read as the character that the piece denotes. -/
theorem gives_quotedBody_piece {delimiter : Char} (p : Piece delimiter) {t cs s : List Char}
    (h : Gives (quotedBody t) cs s) :
    Gives (quotedBody (p.strict ++ t)) (p.char :: cs) s := by
  cases p with
  | plain c printable ordinary =>
      by_cases double : c = '"'
      · obtain rfl := double
        exact gives_quotedBody_escape (gives_escape_letter .quote t) h
      · rw [Piece.strict, if_neg double]
        exact gives_quotedBody_plain double ordinary.1 printable h
  | letter e => exact gives_quotedBody_escape (gives_escape_letter e t) h
  | apostrophe => exact gives_quotedBody_plain (by decide) (by decide) (by decide) h
  | code digits scalar =>
      exact gives_quotedBody_escape (gives_escape_code (gives_codeEscape scalar t)) h
  | pair high low isHigh isLow =>
      have escaped := gives_escape_code (gives_codeEscape_pair isHigh isLow t)
      have text : (Piece.pair high low isHigh isLow : Piece delimiter).strict ++ t
          = '\\' :: 'u' :: (high.source ++ '\\' :: 'u' :: (low.source ++ t)) := by
        simp [Piece.strict, Piece.source]
      rw [text]
      exact gives_quotedBody_escape escaped h

theorem gives_quotedBody_pieces {delimiter : Char} (pieces : List (Piece delimiter))
    (s : List Char) :
    Gives (quotedBody (pieces.flatMap Piece.strict ++ '"' :: s)) (pieces.map Piece.char) s := by
  induction pieces with
  | nil => exact gives_quotedBody_close s
  | cons p rest ih =>
      rw [List.flatMap_cons, List.append_assoc, List.map_cons]
      exact gives_quotedBody_piece p ih

theorem isWordPart_visible {c : Char} (h : isWordPart c = true) :
    c ≠ '"' ∧ c ≠ '\\' ∧ 0x20 ≤ c.toNat := by
  refine ⟨?_, ?_, ?_⟩
  · intro same
    subst same
    revert h
    decide
  · intro same
    subst same
    revert h
    decide
  · simp only [isWordPart, Char.isAlphanum, Bool.or_eq_true, decide_eq_true_eq] at h
    rcases h with ((alpha | digit) | rfl) | rfl
    · have range := toNat_of_isWordStart (c := c) (by simp [isWordStart, alpha])
      omega
    · have range := toNat_of_isDigit digit
      omega
    · decide
    · decide

/-- The characters of a name need no escapes. -/
theorem gives_quotedBody_name {name : List Char} (h : ∀ c ∈ name, isWordPart c = true)
    (s : List Char) : Gives (quotedBody (name ++ '"' :: s)) name s := by
  induction name with
  | nil => exact gives_quotedBody_close s
  | cons c rest ih =>
      obtain ⟨double, bare, printable⟩ := isWordPart_visible (h c List.mem_cons_self)
      have tail := ih fun d hd => h d (List.mem_cons_of_mem c hd)
      exact gives_quotedBody_plain double bare printable tail

/-! ### Numbers -/

/-- A text does not start with a digit. -/
def NoDigit (s : List Char) : Prop := s.head?.any Char.isDigit = false

theorem digits_append {ds s : List Char} (all : ∀ c ∈ ds, c.isDigit = true) (h : NoDigit s) :
    ∃ short, digits (ds ++ s) = ⟨ds, s, short⟩ := by
  obtain ⟨taken, left⟩ := takeWhile_append_of_head all h
  have short : s.length < (ds ++ s).length + 1 := by
    rw [List.length_append]
    omega
  refine ⟨short, ?_⟩
  unfold digits
  congr

theorem integer_cons {c : Char} (zero : c ≠ '0') (digit : c.isDigit = true) (s : List Char) :
    integer (c :: s) = .ok ⟨c :: (digits s).value, (digits s).rest, digits_rest_lt s⟩ := by
  show (if c = '0' then _ else if c.isDigit = true then _ else _) = _
  rw [if_neg zero, if_pos digit]

theorem gives_integer (n : Integer) {s : List Char} (h : NoDigit s) :
    Gives (integer (n.digits.chars ++ s)) n.digits.chars s := by
  obtain ⟨negative, ⟨chars, nonempty, areDigits⟩, noLeadingZero⟩ := n
  cases chars with
  | nil => exact absurd rfl nonempty
  | cons d ds =>
      have digit : d.isDigit = true := areDigits d List.mem_cons_self
      by_cases zero : d = '0'
      · obtain rfl := zero
        have alone : '0' :: ds = ['0'] := noLeadingZero rfl
        obtain rfl : ds = [] := List.cons.inj alone |>.2
        cases s with
        | nil => exact ⟨_, rfl⟩
        | cons c r =>
            have other : ¬ c.isDigit = true := by simpa [NoDigit] using h
            refine ⟨length_cons_lt_cons _ c r, ?_⟩
            show (if c.isDigit = true then _ else _) = _
            rw [if_neg other]
      · have others : ∀ c ∈ ds, c.isDigit = true := fun c hc =>
          areDigits c (List.mem_cons_of_mem d hc)
        obtain ⟨short, span⟩ := digits_append others h
        refine ⟨short, (integer_cons zero digit (ds ++ s)).trans ?_⟩
        simp only [span]

theorem gives_fraction (f : Option Digits) {s : List Char} (h : f ≠ none → NoDigit s)
    (point : f = none → s.head? ≠ some '.') :
    Gives (fraction (fractionSource f ++ s)) (fractionSource f) s := by
  cases f with
  | none =>
      refine ⟨length_lt_succ s, ?_⟩
      show fraction s = _
      rw [fraction.eq_2 s fun r same => point rfl (by rw [same]; rfl)]
      rfl
  | some ds =>
      obtain ⟨short, span⟩ := digits_append ds.areDigits (h (Option.some_ne_none ds))
      have filled : ds.chars.isEmpty = false := List.isEmpty_eq_false_iff.mpr ds.nonempty
      refine ⟨Nat.lt_succ_of_lt short, ?_⟩
      show fraction ('.' :: (ds.chars ++ s)) = _
      rw [fraction]
      simp only [span, filled]
      rfl

theorem exponentSign_source (sign : Option Bool) (ds : Digits) (s : List Char) :
    (exponentSign ((sign.map signChar).toList ++ (ds.chars ++ s))).value
        = (sign.map signChar).getD '+' ∧
      (exponentSign ((sign.map signChar).toList ++ (ds.chars ++ s))).rest = ds.chars ++ s := by
  cases sign with
  | some negative => cases negative <;> exact ⟨rfl, rfl⟩
  | none =>
      obtain ⟨chars, nonempty, areDigits⟩ := ds
      cases chars with
      | nil => exact absurd rfl nonempty
      | cons d rest =>
          have digit : d.isDigit = true := areDigits d List.mem_cons_self
          have plus : d ≠ '+' := by
            intro same
            subst same
            revert digit
            decide
          have minus : d ≠ '-' := by
            intro same
            subst same
            revert digit
            decide
          have unsigned : exponentSign (d :: (rest ++ s)) = ⟨'+', d :: (rest ++ s), _⟩ :=
            exponentSign.eq_3 _ (fun r same => plus (List.cons.inj same).1)
              fun r same => minus (List.cons.inj same).1
          exact ⟨congrArg Parsed.value unsigned, congrArg Parsed.rest unsigned⟩

/-- An exponent whose sign has been read has at least one digit. -/
theorem gives_exponent_cons {c d : Char} {r t ds s : List Char} (mark : c = 'e' ∨ c = 'E')
    (after : (exponentSign r).rest = d :: t) (digit : d.isDigit = true)
    (span : ∃ short, digits t = ⟨ds, s, short⟩) :
    Gives (exponent (c :: r)) ('e' :: (exponentSign r).value :: d :: ds) s := by
  obtain ⟨short, span⟩ := span
  have within : (d :: t).length < r.length + 1 := after ▸ exponentSign_rest_lt r
  have shorter : (digits t).rest.length < (c :: r).length + 1 :=
    length_afterExponent_lt c r d t within
  rw [span] at shorter
  refine ⟨shorter, ?_⟩
  rw [exponent, if_pos mark]
  dsimp only
  split
  · rename_i ended _
    rw [after] at ended
    cases ended
  · rename_i left _
    rw [after] at left
    cases left
    rw [if_pos digit]
    simp only [span]

theorem gives_exponent (e : Option Exponent) {s : List Char} (h : e ≠ none → NoDigit s)
    (mark : e = none → s.head? ≠ some 'e' ∧ s.head? ≠ some 'E') :
    Gives (exponent ((e.map Exponent.source).getD [] ++ s)) ((e.map Exponent.kept).getD []) s := by
  cases e with
  | none =>
      cases s with
      | nil => exact ⟨_, rfl⟩
      | cons c r =>
          have other : ¬ (c = 'e' ∨ c = 'E') := by
            intro same
            obtain ⟨small, capital⟩ := mark rfl
            rcases same with rfl | rfl
            · exact small rfl
            · exact capital rfl
          exact ⟨length_cons_lt_succ c r, if_neg other⟩
  | some e =>
      obtain ⟨capital, sign, ⟨chars, nonempty, areDigits⟩⟩ := e
      cases chars with
      | nil => exact absurd rfl nonempty
      | cons d ds =>
          have digit : d.isDigit = true := areDigits d List.mem_cons_self
          have others : ∀ c ∈ ds, c.isDigit = true := fun c hc =>
            areDigits c (List.mem_cons_of_mem d hc)
          obtain ⟨kept, left⟩ := exponentSign_source sign ⟨d :: ds, nonempty, areDigits⟩ s
          -- Both spellings of the mark are read, and the one that is kept is small.
          have small : (if capital then 'E' else 'e') = 'e'
              ∨ (if capital then 'E' else 'e') = 'E' := by
            cases capital <;> decide
          have read := gives_exponent_cons small left digit
            (digits_append others (h (Option.some_ne_none _)))
          rw [kept] at read
          have text : (Exponent.source ⟨capital, sign, ⟨d :: ds, nonempty, areDigits⟩⟩) ++ s
              = (if capital then 'E' else 'e')
                :: ((sign.map signChar).toList ++ (d :: ds ++ s)) := by
            simp [Exponent.source]
          show Gives (exponent (Exponent.source _ ++ s)) (Exponent.kept _) s
          rw [text]
          exact read

theorem noDigit_of_bounded {s : List Char} (h : Bounded s) : NoDigit s := by
  refine h.head_eq_false fun c hc => ?_
  rcases eq_of_isBoundary hc with rfl | rfl | rfl | rfl | rfl | rfl | rfl | rfl | rfl <;> rfl

theorem head_ne_of_bounded {s : List Char} (h : Bounded s) {c : Char} (hc : isBoundary c = false) :
    s.head? ≠ some c := by
  intro head
  rw [h c head] at hc
  cases hc

/-- What may follow a fraction goes on with neither its digits nor another point. -/
theorem exponent_stops (e : Option Exponent) {s : List Char} (h : Bounded s) :
    NoDigit ((e.map Exponent.source).getD [] ++ s) ∧
      ((e.map Exponent.source).getD [] ++ s).head? ≠ some '.' := by
  cases e with
  | none => exact ⟨noDigit_of_bounded h, head_ne_of_bounded h rfl⟩
  | some e =>
      obtain ⟨capital, sign, ds⟩ := e
      refine ⟨?_, fun same => ?_⟩
      · cases capital <;> rfl
      · have mark : (if capital then 'E' else 'e') = '.' := Option.some.inj same
        cases capital <;> exact absurd mark (by decide)

theorem gives_unsignedNumber (whole : Integer) (part : Option Digits) (power : Option Exponent)
    {s : List Char} (h : Bounded s) :
    Gives (unsignedNumber (whole.digits.chars ++ fractionSource part
        ++ (power.map Exponent.source).getD [] ++ s))
      (whole.digits.chars ++ fractionSource part ++ (power.map Exponent.kept).getD []) s := by
  obtain ⟨afterPart, noPoint⟩ := exponent_stops power h
  have afterWhole :
      NoDigit (fractionSource part ++ ((power.map Exponent.source).getD [] ++ s)) := by
    cases part with
    | none => exact afterPart
    | some ds => rfl
  have small := head_ne_of_bounded (c := 'e') h rfl
  have capital := head_ne_of_bounded (c := 'E') h rfl
  obtain ⟨short₁, read₁⟩ := gives_integer whole afterWhole
  obtain ⟨short₂, read₂⟩ := gives_fraction part (fun _ => afterPart) fun _ => noPoint
  obtain ⟨short₃, read₃⟩ := gives_exponent power (fun _ => noDigit_of_bounded h)
    fun _ => ⟨small, capital⟩
  have text : whole.digits.chars ++ fractionSource part ++ (power.map Exponent.source).getD [] ++ s
      = whole.digits.chars
        ++ (fractionSource part ++ ((power.map Exponent.source).getD [] ++ s)) := by
    simp only [List.append_assoc]
  rw [text]
  -- Each of the three readers starts where the one before it stops.
  refine ⟨by omega, ?_⟩
  rw [unsignedNumber, read₁]
  show (fraction _ >>= _) = _
  rw [read₂]
  show (exponent _ >>= _) = _
  rw [read₃]
  rfl

theorem gives_number_minus {t kept s : List Char} (h : Gives (unsignedNumber t) kept s) :
    Gives (number ('-' :: t)) ('-' :: kept) s := by
  obtain ⟨short, read⟩ := h
  refine ⟨Nat.lt_succ_of_lt short, ?_⟩
  show (unsignedNumber t >>= _) = _
  rw [read]
  rfl

/-- A number is kept in its digits. -/
theorem gives_number (n : Number) {s : List Char} (h : Bounded s) :
    Gives (number (n.source ++ s)) n.kept s := by
  obtain ⟨⟨negative, ds, noLeadingZero⟩, part, power⟩ := n
  have unsigned := gives_unsignedNumber ⟨negative, ds, noLeadingZero⟩ part power h
  cases negative with
  | true =>
      exact gives_number_minus unsigned
  | false =>
      have noSign : ∀ r, ds.chars ++ fractionSource part
          ++ (power.map Exponent.source).getD [] ++ s = '-' :: r → False := by
        intro r same
        obtain ⟨chars, nonempty, areDigits⟩ := ds
        cases chars with
        | nil => exact nonempty rfl
        | cons d rest =>
            obtain rfl : d = '-' := (List.cons.inj same).1
            exact absurd (areDigits '-' List.mem_cons_self) (by decide)
      have read := number.eq_2 _ noSign
      rw [← read] at unsigned
      exact unsigned

/-- A zero keeps its sign. -/
example : Gives (number ['-', '0']) ['-', '0'] [] := ⟨by decide, rfl⟩

end ZkCommand.Json
