import ZkCommand.Proofs.Json.Fronts

/-!
# ZkCommand.Proofs.Json.Consumed

**What the scalar readers consume.** A reader of a number or of a string takes a piece of syntax off
the front of a text: what it consumes is spelled as the grammar says, and it returns what that piece
denotes. How it reads the piece does not depend on the rest: a string ends at its closing quote,
whatever follows it, and a number where no character of a token goes on with it. So the same piece
in front of another rest is read as the same value.
-/

namespace ZkCommand.Json

open Text Relaxed Relaxed.Grammar

/-! ### Tokens -/

/-- A character that numbers and words are made of. -/
def isTokenPart (c : Char) : Bool := isWordPart c || c = '.' || c = '+' || c = '-'

theorem isTokenPart_of_isDigit {c : Char} (h : c.isDigit = true) : isTokenPart c = true := by
  simp [isTokenPart, isWordPart, Char.isAlphanum, h]

/-- The last character of a text is one of a token. -/
def EndsInToken (s : List Char) : Prop := s.getLast?.any isTokenPart = true

theorem endsInToken_of_parts {run : List Char} (parts : ∀ c ∈ run, isTokenPart c = true)
    (nonempty : run ≠ []) : EndsInToken run := by
  obtain ⟨init, c, rfl⟩ := (List.eq_nil_or_concat run).resolve_left nonempty
  simpa [EndsInToken] using parts c (by simp)

/-- The second text stops a token where the first one does: it starts with the same character, or
with one that no token has. -/
def Stops (rest rest' : List Char) : Prop :=
  rest'.head? = rest.head? ∨ rest'.head?.any isTokenPart = false

theorem Stops.append {rest rest' : List Char} (h : Stops rest rest') (front : List Char) :
    Stops (front ++ rest) (front ++ rest') := by
  cases front with
  | nil => exact h
  | cons c front => exact .inl rfl

/-- Neither text goes on with a run of characters that tokens are made of. -/
theorem Stops.head {rest rest' : List Char} (h : Stops rest rest') {test : Char → Bool}
    (part : ∀ c, test c = true → isTokenPart c = true) (stop : rest.head?.any test = false) :
    rest'.head?.any test = false := by
  rcases h with same | other
  · rw [same]
    exact stop
  · cases hc : rest'.head? with
    | none => rfl
    | some c =>
        rw [hc] at other
        by_contra goes
        have := part c (by simpa using goes)
        simp [this] at other

theorem Stops.head_ne {rest rest' : List Char} (h : Stops rest rest') {c : Char}
    (part : isTokenPart c = true) (ne : rest.head? ≠ some c) : rest'.head? ≠ some c := by
  rcases h with same | other
  · rw [same]
    exact ne
  · intro head
    rw [head] at other
    simp [part] at other

/-! ### Numbers -/

/-- What the reader takes off a text is made of characters of tokens, and is read the same in front
of every text that stops it. -/
def Stable {bound : List Char → Nat}
    (read : (s : List Char) → Except Failure (Parsed (List Char) (bound s))) : Prop :=
  ∀ {s kept rest : List Char}, Gives (read s) kept rest →
    ∃ front, s = front ++ rest ∧ (∀ c ∈ front, isTokenPart c = true) ∧
      ∀ {rest' : List Char}, Stops rest rest' → Gives (read (front ++ rest')) kept rest'

/-- The run of digits at the front of a text that starts with one. -/
def digitsFrom (c : Char) (digit : c.isDigit = true) (s : List Char) : Digits where
  chars := c :: s.takeWhile Char.isDigit
  nonempty := List.cons_ne_nil c _
  areDigits := by
    intro d hd
    rcases List.mem_cons.mp hd with rfl | hd
    · exact digit
    · exact List.mem_takeWhile_imp hd

theorem chars_digitsFrom_append {c : Char} (digit : c.isDigit = true) (s : List Char) :
    (digitsFrom c digit s).chars ++ s.dropWhile Char.isDigit = c :: s :=
  congrArg (c :: ·) List.takeWhile_append_dropWhile

theorem isTokenPart_of_mem_chars {ds : Digits} {c : Char} (h : c ∈ ds.chars) :
    isTokenPart c = true :=
  isTokenPart_of_isDigit (ds.areDigits c h)

theorem gives_integer_zero {s : List Char} (h : NoDigit s) :
    Gives (integer ('0' :: s)) ['0'] s := by
  cases s with
  | nil => exact ⟨_, rfl⟩
  | cons d r =>
      have other : ¬ d.isDigit = true := by simpa [NoDigit] using h
      exact ⟨length_cons_lt_cons _ d r, if_neg other⟩

theorem noDigit_of_integer_zero {s kept rest : List Char}
    (h : Gives (integer ('0' :: s)) kept rest) : NoDigit s := by
  cases s with
  | nil => rfl
  | cons d r =>
      obtain ⟨short, h⟩ := h
      by_contra digit
      have refused : integer ('0' :: d :: r) = .error (.peek .invalidNumber (d :: r)) :=
        if_pos (by simpa [NoDigit] using digit)
      rw [refused] at h
      cases h

theorem spelled_integer {s whole rest : List Char} (h : Gives (integer s) whole rest) :
    ∃ ds : Digits, (ds.chars.head? = some '0' → ds.chars = ['0']) ∧ s = ds.chars ++ rest ∧
      whole = ds.chars ∧ NoDigit rest := by
  cases s with
  | nil =>
      obtain ⟨short, h⟩ := h
      cases h
  | cons c s =>
      by_cases zero : c = '0'
      · obtain rfl := zero
        have stop := noDigit_of_integer_zero h
        obtain ⟨rfl, rfl⟩ := h.unique (gives_integer_zero stop)
        exact ⟨⟨['0'], by decide, List.all_eq_true.mp rfl⟩, fun _ => rfl, rfl, rfl, stop⟩
      · by_cases digit : c.isDigit = true
        · have read : Gives (integer (c :: s)) (c :: s.takeWhile Char.isDigit)
              (s.dropWhile Char.isDigit) := ⟨_, integer_cons zero digit s⟩
          obtain ⟨rfl, rfl⟩ := h.unique read
          exact ⟨digitsFrom c digit s, fun head => absurd (Option.some.inj head) zero,
            (chars_digitsFrom_append digit s).symm, rfl, head?_dropWhile s⟩
        · obtain ⟨short, h⟩ := h
          have refused : integer (c :: s) = .error (.taking 1 .invalidNumber (c :: s)) := by
            show (if c = '0' then _ else if c.isDigit = true then _ else _) = _
            rw [if_neg zero, if_neg digit]
          rw [refused] at h
          cases h

theorem stable_integer : Stable integer := by
  intro s kept rest h
  obtain ⟨ds, noLeadingZero, rfl, rfl, stop⟩ := spelled_integer h
  refine ⟨ds.chars, rfl, fun c => isTokenPart_of_mem_chars, fun {rest'} stops => ?_⟩
  exact gives_integer ⟨false, ds, noLeadingZero⟩
    (stops.head (fun _ => isTokenPart_of_isDigit) stop)

theorem spelled_fraction {s part rest : List Char} (h : Gives (fraction s) part rest) :
    ∃ f : Option Digits, s = fractionSource f ++ rest ∧ part = fractionSource f ∧
      (f ≠ none → NoDigit rest) ∧ (f = none → rest.head? ≠ some '.') := by
  by_cases point : s.head? = some '.'
  · obtain ⟨r, rfl⟩ := List.head?_eq_some_iff.mp point
    obtain ⟨short, h⟩ := h
    rw [fraction] at h
    by_cases none : (digits r).value.isEmpty = true
    · rw [if_pos none] at h
      cases h
    · rw [if_neg none] at h
      cases h
      have filled : r.takeWhile Char.isDigit ≠ [] := mt List.isEmpty_iff.mpr none
      refine ⟨some ⟨r.takeWhile Char.isDigit, filled, fun c hc => List.mem_takeWhile_imp hc⟩, ?_,
        rfl, fun _ => head?_dropWhile r, fun absent => by cases absent⟩
      exact congrArg ('.' :: ·) List.takeWhile_append_dropWhile.symm
  · have alone := gives_fraction none (s := s) (fun given => absurd rfl given) fun _ => point
    obtain ⟨rfl, rfl⟩ := h.unique alone
    exact ⟨none, rfl, rfl, fun given => absurd rfl given, fun _ => point⟩

theorem isTokenPart_of_mem_fraction {f : Option Digits} {c : Char} (h : c ∈ fractionSource f) :
    isTokenPart c = true := by
  cases f with
  | none => cases h
  | some ds =>
      rcases List.mem_cons.mp h with rfl | h
      · decide
      · exact isTokenPart_of_mem_chars h

theorem stable_fraction : Stable fraction := by
  intro s kept rest h
  obtain ⟨f, rfl, rfl, stop, point⟩ := spelled_fraction h
  refine ⟨fractionSource f, rfl, fun c => isTokenPart_of_mem_fraction, fun {rest'} stops => ?_⟩
  exact gives_fraction f
    (fun given => stops.head (fun _ => isTokenPart_of_isDigit) (stop given))
    (fun absent => stops.head_ne rfl (point absent))

theorem exponent_cons_inv {c : Char} {r kept rest : List Char} (mark : c = 'e' ∨ c = 'E')
    (h : Gives (exponent (c :: r)) kept rest) :
    ∃ d t, (exponentSign r).rest = d :: t ∧ d.isDigit = true ∧
      kept = 'e' :: (exponentSign r).value :: d :: t.takeWhile Char.isDigit ∧
      rest = t.dropWhile Char.isDigit := by
  obtain ⟨short, h⟩ := h
  rw [exponent, if_pos mark] at h
  dsimp only at h
  split at h
  · cases h
  · rename_i d t _ left _
    split at h
    · rename_i digit
      cases h
      exact ⟨d, t, left, digit, rfl, rfl⟩
    · cases h

theorem spelled_sign (r : List Char) : ∃ sign : Option Bool,
    r = (sign.map signChar).toList ++ (exponentSign r).rest ∧
      (exponentSign r).value = (sign.map signChar).getD '+' := by
  unfold exponentSign
  split
  · exact ⟨some false, rfl, rfl⟩
  · exact ⟨some true, rfl, rfl⟩
  · exact ⟨none, rfl, rfl⟩

theorem spelled_exponent {s power rest : List Char} (h : Gives (exponent s) power rest) :
    ∃ e : Option Exponent, s = (e.map Exponent.source).getD [] ++ rest ∧
      power = (e.map Exponent.kept).getD [] ∧ (e ≠ none → NoDigit rest) ∧
      (e = none → rest.head? ≠ some 'e' ∧ rest.head? ≠ some 'E') := by
  by_cases head : s.head? = some 'e' ∨ s.head? = some 'E'
  · obtain ⟨c, r, rfl, mark⟩ : ∃ c r, s = c :: r ∧ (c = 'e' ∨ c = 'E') := by
      rcases head with small | capital
      · obtain ⟨r, rfl⟩ := List.head?_eq_some_iff.mp small
        exact ⟨'e', r, rfl, Or.inl rfl⟩
      · obtain ⟨r, rfl⟩ := List.head?_eq_some_iff.mp capital
        exact ⟨'E', r, rfl, Or.inr rfl⟩
    obtain ⟨d, t, after, digit, rfl, rfl⟩ := exponent_cons_inv mark h
    obtain ⟨sign, text, kept⟩ := spelled_sign r
    have spelled : c = if decide (c = 'E') = true then 'E' else 'e' := by
      rcases mark with rfl | rfl <;> rfl
    refine ⟨some ⟨decide (c = 'E'), sign, digitsFrom d digit t⟩, ?_, ?_,
      fun _ => head?_dropWhile t, fun absent => by cases absent⟩
    · rw [after] at text
      rw [Option.map_some, Option.getD_some, Exponent.source, ← spelled, List.cons_append,
        List.append_assoc, chars_digitsFrom_append, ← text]
    · rw [kept]
      rfl
  · have stop : s.head? ≠ some 'e' ∧ s.head? ≠ some 'E' := not_or.mp head
    have alone := gives_exponent none (s := s) (fun given => absurd rfl given) fun _ => stop
    obtain ⟨rfl, rfl⟩ := h.unique alone
    exact ⟨none, rfl, rfl, fun given => absurd rfl given, fun _ => stop⟩

theorem isTokenPart_of_mem_exponent {e : Option Exponent} {c : Char}
    (h : c ∈ (e.map Exponent.source).getD []) : isTokenPart c = true := by
  cases e with
  | none => cases h
  | some e =>
      obtain ⟨capital, sign, ds⟩ := e
      rcases List.mem_cons.mp h with rfl | h
      · cases capital <;> rfl
      · rcases List.mem_append.mp h with h | h
        · cases sign with
          | none => cases h
          | some negative =>
              obtain rfl := List.mem_singleton.mp h
              cases negative <;> decide
        · exact isTokenPart_of_mem_chars h

theorem stable_exponent : Stable exponent := by
  intro s kept rest h
  obtain ⟨e, rfl, rfl, stop, mark⟩ := spelled_exponent h
  refine ⟨_, rfl, fun c => isTokenPart_of_mem_exponent, fun {rest'} stops => ?_⟩
  exact gives_exponent e
    (fun given => stops.head (fun _ => isTokenPart_of_isDigit) (stop given))
    (fun absent => ⟨stops.head_ne rfl (mark absent).1, stops.head_ne rfl (mark absent).2⟩)

theorem gives_unsignedNumber_iff {s kept rest : List Char} :
    Gives (unsignedNumber s) kept rest ↔ ∃ whole part power r t, kept = whole ++ part ++ power ∧
      Gives (integer s) whole r ∧ Gives (fraction r) part t ∧ Gives (exponent t) power rest := by
  constructor
  · rintro ⟨short, h⟩
    obtain ⟨whole, readWhole, h⟩ := bind_eq_ok_iff.mp h
    obtain ⟨part, readPart, h⟩ := bind_eq_ok_iff.mp h
    obtain ⟨power, readPower, h⟩ := bind_eq_ok_iff.mp h
    cases h
    exact ⟨_, _, _, _, _, rfl, ⟨whole.rest_lt, readWhole⟩, ⟨part.rest_lt, readPart⟩,
      ⟨power.rest_lt, readPower⟩⟩
  · rintro ⟨whole, part, power, r, t, rfl, ⟨short, readWhole⟩, ⟨shorter, readPart⟩,
      ⟨shortest, readPower⟩⟩
    refine ⟨by omega, ?_⟩
    rw [unsignedNumber, readWhole]
    show (fraction r >>= _) = _
    rw [readPart]
    show (exponent t >>= _) = _
    rw [readPower]
    rfl

theorem spelled_unsignedNumber {s kept rest : List Char} (h : Gives (unsignedNumber s) kept rest)
    (negative : Bool) : ∃ n : Number, n.whole.negative = negative ∧
      minus negative ++ s = n.source ++ rest ∧ minus negative ++ kept = n.kept := by
  obtain ⟨_, _, _, r, t, rfl, readWhole, readPart, readPower⟩ := gives_unsignedNumber_iff.mp h
  obtain ⟨ds, noLeadingZero, rfl, rfl, -⟩ := spelled_integer readWhole
  obtain ⟨part, rfl, rfl, -⟩ := spelled_fraction readPart
  obtain ⟨power, rfl, rfl, -⟩ := spelled_exponent readPower
  refine ⟨⟨⟨negative, ds, noLeadingZero⟩, part, power⟩, rfl, ?_, ?_⟩
  · simp only [Number.source, Integer.source, List.append_assoc]
  · simp only [Number.kept, Integer.source, List.append_assoc]

theorem unsigned_of_head {s : List Char} (minus : s.head? ≠ some '-') :
    number s = unsignedNumber s :=
  number.eq_2 s fun r same => minus (by rw [same]; rfl)

theorem stable_unsignedNumber : Stable unsignedNumber := by
  intro s kept rest h
  obtain ⟨whole, part, power, r, t, rfl, readWhole, readPart, readPower⟩ :=
    gives_unsignedNumber_iff.mp h
  obtain ⟨front₁, rfl, parts₁, again₁⟩ := stable_integer readWhole
  obtain ⟨front₂, rfl, parts₂, again₂⟩ := stable_fraction readPart
  obtain ⟨front₃, rfl, parts₃, again₃⟩ := stable_exponent readPower
  refine ⟨front₁ ++ (front₂ ++ front₃), ?_, ?_, fun {rest'} stops => ?_⟩
  · simp only [List.append_assoc]
  · intro c hc
    rcases List.mem_append.mp hc with hc | hc
    · exact parts₁ c hc
    · exact (List.mem_append.mp hc).elim (parts₂ c) (parts₃ c)
  · rw [List.append_assoc, List.append_assoc]
    exact gives_unsignedNumber_iff.mpr ⟨whole, part, power, _, _, rfl,
      again₁ ((stops.append front₃).append front₂), again₂ (stops.append front₃), again₃ stops⟩

theorem stable_number : Stable number := by
  intro s kept rest h
  by_cases minus : s.head? = some '-'
  · obtain ⟨s, rfl⟩ := List.head?_eq_some_iff.mp minus
    obtain ⟨short, h⟩ := h
    obtain ⟨n, read, h⟩ := bind_eq_ok_iff.mp h
    cases h
    obtain ⟨front, text, parts, again⟩ := stable_unsignedNumber ⟨n.rest_lt, read⟩
    refine ⟨'-' :: front, congrArg ('-' :: ·) text, ?_, fun stops =>
      gives_number_minus (again stops)⟩
    intro c hc
    rcases List.mem_cons.mp hc with rfl | hc
    · decide
    · exact parts c hc
  · rw [unsigned_of_head minus] at h
    obtain ⟨front, rfl, parts, again⟩ := stable_unsignedNumber h
    refine ⟨front, rfl, parts, fun {rest'} stops => ?_⟩
    rw [unsigned_of_head]
    · exact again stops
    · -- A number consumes a character, so it is the first character of the piece that is no sign.
      obtain ⟨short, -⟩ := h
      cases front with
      | nil => exact absurd short (Nat.lt_irrefl _)
      | cons c front => exact minus

/-- **What is read as a number is spelled as one**, and is kept in its digits. -/
theorem spelled_number {s kept rest : List Char} (h : Gives (number s) kept rest) :
    ∃ n : Number, s = n.source ++ rest ∧ kept = n.kept := by
  by_cases minus : s.head? = some '-'
  · obtain ⟨s, rfl⟩ := List.head?_eq_some_iff.mp minus
    obtain ⟨short, h⟩ := h
    obtain ⟨n, read, h⟩ := bind_eq_ok_iff.mp h
    cases h
    obtain ⟨m, -, source, kept⟩ := spelled_unsignedNumber ⟨n.rest_lt, read⟩ true
    exact ⟨m, source, kept⟩
  · rw [unsigned_of_head minus] at h
    obtain ⟨m, -, source, kept⟩ := spelled_unsignedNumber h false
    exact ⟨m, source, kept⟩

/-! ### Escapes -/

/-- The character that a hexadecimal digit is read from is the text of that digit. -/
theorem spelled_hexDigit {c : Char} {n : Nat} (h : Hex.digitValue? c = some n) :
    ∃ d : HexDigit, d.source = c ∧ d.value.val = n := by
  have back : ∀ first, first ≤ c.toNat → Char.ofNat (first + (c.toNat - first)) = c := by
    intro first within
    rw [Nat.add_sub_cancel' within, Char.ofNat_toNat]
  unfold Hex.digitValue? at h
  split_ifs at h with decimal lower upper
  · obtain ⟨least, most⟩ := toNat_of_isDigit decimal
    obtain rfl := Option.some.inj h
    refine ⟨⟨⟨c.toNat - 48, by omega⟩, false⟩, ?_, rfl⟩
    simp only [HexDigit.source, if_pos (show c.toNat - 48 < 10 by omega), back 48 least]
  · obtain ⟨least, most⟩ : 97 ≤ c.toNat ∧ c.toNat ≤ 102 := lower
    obtain rfl := Option.some.inj h
    refine ⟨⟨⟨c.toNat - 87, by omega⟩, false⟩, ?_, rfl⟩
    have letter : ¬ c.toNat - 87 < 10 := by omega
    simp only [HexDigit.source, if_neg letter]
    exact back 87 (by omega)
  · obtain ⟨least, most⟩ : 65 ≤ c.toNat ∧ c.toNat ≤ 70 := upper
    obtain rfl := Option.some.inj h
    refine ⟨⟨⟨c.toNat - 55, by omega⟩, true⟩, ?_, rfl⟩
    have letter : ¬ c.toNat - 55 < 10 := by omega
    simp only [HexDigit.source, if_neg letter]
    exact back 55 (by omega)
theorem spelled_hexQuad {s rest : List Char} {n : Nat} (h : Gives (hexQuad s) n rest) :
    ∃ code : Code, s = code.source ++ rest ∧ code.value = n := by
  obtain ⟨short, h⟩ := h
  unfold hexQuad at h
  split at h
  · cases h
  · split at h
    · rename_i a b c d r _
      split at h
      · rename_i m value
        cases h
        obtain ⟨w, hw, value⟩ := Option.bind_eq_some_iff.mp value
        obtain ⟨x, hx, value⟩ := Option.bind_eq_some_iff.mp value
        obtain ⟨y, hy, value⟩ := Option.bind_eq_some_iff.mp value
        obtain ⟨z, hz, value⟩ := Option.bind_eq_some_iff.mp value
        obtain ⟨first, rfl, rfl⟩ := spelled_hexDigit hw
        obtain ⟨second, rfl, rfl⟩ := spelled_hexDigit hx
        obtain ⟨third, rfl, rfl⟩ := spelled_hexDigit hy
        obtain ⟨fourth, rfl, rfl⟩ := spelled_hexDigit hz
        exact ⟨⟨first, second, third, fourth⟩, rfl, Option.some.inj value⟩
      · cases h
    · cases h

theorem spelled_lowSurrogate {s rest : List Char} {n : Nat} (h : Gives (lowSurrogate s) n rest) :
    ∃ low : Code, s = '\\' :: 'u' :: (low.source ++ rest) ∧ low.value = n ∧
      0xdc00 ≤ low.value ∧ low.value ≤ 0xdfff := by
  obtain ⟨short, h⟩ := h
  unfold lowSurrogate at h
  split at h
  · cases h
  · split at h
    · rename_i escaped
      split at h
      · cases h
      · split at h
        · rename_i mark
          obtain ⟨⟨m, r, shorter⟩, read, h⟩ := bind_eq_ok_iff.mp h
          split at h
          · rename_i isLow
            cases h
            obtain ⟨low, rfl, rfl⟩ := spelled_hexQuad ⟨shorter, read⟩
            exact ⟨low, by rw [escaped, mark], rfl, isLowSurrogate_iff.mp isLow⟩
          · cases h
        · cases h
    · cases h

/-- A piece of a string is the one that an escape is read from, and JSON as it stands. -/
def Spelled (p : Piece '"') (s : List Char) (c : Char) (rest : List Char) : Prop :=
  s = p.source ++ rest ∧ p.char = c ∧ p.strict = p.source

theorem spelled_codeEscape {s rest : List Char} {c : Char} (h : Gives (codeEscape s) c rest) :
    ∃ p, Spelled p ('\\' :: 'u' :: s) c rest := by
  obtain ⟨short, h⟩ := h
  obtain ⟨⟨n, r, shorter⟩, read, h⟩ := bind_eq_ok_iff.mp h
  obtain ⟨code, rfl, rfl⟩ := spelled_hexQuad ⟨shorter, read⟩
  split at h
  · cases h
  · rename_i notLow
    rw [isLowSurrogate_iff] at notLow
    split at h
    · rename_i high
      obtain ⟨⟨m, u, shortest⟩, readLow, h⟩ := bind_eq_ok_iff.mp h
      obtain ⟨low, rfl, rfl, isLow⟩ := spelled_lowSurrogate ⟨shortest, readLow⟩
      obtain ⟨char, rfl⟩ := Gives.unique ⟨_, rfl⟩ ⟨short, h⟩
      refine ⟨.pair code low (isHighSurrogate_iff.mp high) isLow, ?_, char, rfl⟩
      simp [Piece.source]
    · rename_i notHigh
      rw [isHighSurrogate_iff] at notHigh
      dsimp only at h notLow notHigh
      cases h
      exact ⟨.code code (by omega), rfl, rfl, rfl⟩

theorem spelled_shortEscape {c d : Char} (h : shortEscape? c = some d) :
    ∃ e : Letter, e.source = c ∧ e.char = d := by
  unfold shortEscape? at h
  split_ifs at h with quote backslash slash b f n r t
  · exact ⟨.quote, quote.symm, Option.some.inj h⟩
  · exact ⟨.backslash, backslash.symm, Option.some.inj h⟩
  · exact ⟨.slash, slash.symm, Option.some.inj h⟩
  · exact ⟨.b, b.symm, Option.some.inj h⟩
  · exact ⟨.f, f.symm, Option.some.inj h⟩
  · exact ⟨.n, n.symm, Option.some.inj h⟩
  · exact ⟨.r, r.symm, Option.some.inj h⟩
  · exact ⟨.t, t.symm, Option.some.inj h⟩

theorem spelled_escape {s rest : List Char} {d : Char} (h : Gives (escape s) d rest) :
    ∃ p, Spelled p ('\\' :: s) d rest := by
  obtain ⟨short, h⟩ := h
  cases s with
  | nil => cases h
  | cons c s =>
      rw [escape] at h
      cases letter : shortEscape? c with
      | some e =>
          obtain ⟨l, rfl, rfl⟩ := spelled_shortEscape letter
          rw [letter] at h
          cases h
          exact ⟨.letter l, rfl, rfl, rfl⟩
      | none =>
          rw [letter] at h
          dsimp only at h
          split at h
          · rename_i mark
            obtain ⟨code, read, h⟩ := bind_eq_ok_iff.mp h
            cases h
            rw [mark]
            exact spelled_codeEscape ⟨code.rest_lt, read⟩
          · cases h

/-! ### Strings -/

/-- **What is read as a string is spelled as one** that is JSON as it stands, and denotes what is
read. -/
theorem spelled_quotedBody {s body rest : List Char} (h : Gives (quotedBody s) body rest) :
    ∃ pieces : List (Piece '"'), s = pieces.flatMap Piece.source ++ '"' :: rest ∧
      body = pieces.map Piece.char ∧ ∀ p ∈ pieces, p.strict = p.source := by
  induction hn : s.length using Nat.strongRecOn generalizing s body with
  | _ n ih =>
    obtain ⟨short, h⟩ := h
    cases s with
    | nil =>
        rw [quotedBody] at h
        cases h
    | cons c s =>
        rw [quotedBody] at h
        split at h
        · rename_i quote
          cases h
          exact ⟨[], by rw [quote]; rfl, rfl, by simp⟩
        · rename_i double
          split at h
          · rename_i backslash
            obtain ⟨⟨d, r, shorter⟩, escaped, h⟩ := bind_eq_ok_iff.mp h
            obtain ⟨⟨tail, u, shortest⟩, read, h⟩ := bind_eq_ok_iff.mp h
            dsimp only at h read shortest
            cases h
            obtain ⟨p, source, rfl, strict⟩ := spelled_escape ⟨shorter, escaped⟩
            have less : r.length < n := by grind
            obtain ⟨pieces, rfl, rfl, stricts⟩ := ih _ less ⟨shortest, read⟩ rfl
            refine ⟨p :: pieces, ?_, rfl, List.forall_mem_cons.mpr ⟨strict, stricts⟩⟩
            rw [backslash, source, List.flatMap_cons, List.append_assoc]
          · rename_i bare
            split at h
            · cases h
            · rename_i printable
              obtain ⟨⟨tail, u, shortest⟩, read, h⟩ := bind_eq_ok_iff.mp h
              dsimp only at h
              cases h
              have less : s.length < n := by grind
              obtain ⟨pieces, rfl, rfl, stricts⟩ := ih _ less ⟨shortest, read⟩ rfl
              exact ⟨.plain c (Nat.not_lt.mp printable) ⟨bare, double⟩ :: pieces, rfl, rfl,
                List.forall_mem_cons.mpr ⟨if_neg double, stricts⟩⟩

theorem flatMap_strict {pieces : List (Piece '"')} (h : ∀ p ∈ pieces, p.strict = p.source) :
    pieces.flatMap Piece.strict = pieces.flatMap Piece.source := by
  rw [List.flatMap_def, List.flatMap_def, List.map_congr_left h]

/-- The rest of a string with its closing quote, as far as quotes and backslashes tell. -/
inductive Closing : List Char → Prop
  | quote : Closing ['"']
  | plain {c : Char} {t : List Char} (double : c ≠ '"') (bare : c ≠ '\\') (more : Closing t) :
      Closing (c :: t)
  | escape (c : Char) {t : List Char} (more : Closing t) : Closing ('\\' :: c :: t)

/-- A string is closed once. -/
theorem Closing.unique {t t' s s' : List Char} (h : Closing t) (h' : Closing t')
    (same : t ++ s = t' ++ s') : t = t' ∧ s = s' := by
  induction h generalizing t' with
  | quote =>
      cases h' with
      | quote => exact ⟨rfl, (List.cons.inj same).2⟩
      | plain double => exact absurd (List.cons.inj same).1.symm double
      | escape => exact absurd (List.cons.inj same).1 (by decide)
  | plain double bare more ih =>
      cases h' with
      | quote => exact absurd (List.cons.inj same).1 double
      | plain _ _ more' =>
          obtain ⟨rfl, tails⟩ := List.cons.inj same
          obtain ⟨rfl, rfl⟩ := ih more' tails
          exact ⟨rfl, rfl⟩
      | escape => exact absurd (List.cons.inj same).1 bare
  | escape c more ih =>
      cases h' with
      | quote => exact absurd (List.cons.inj same).1 (by decide)
      | plain _ bare => exact absurd (List.cons.inj same).1.symm bare
      | escape _ more' =>
          obtain ⟨rfl, tails⟩ := List.cons.inj (List.cons.inj same).2
          obtain ⟨rfl, rfl⟩ := ih more' tails
          exact ⟨rfl, rfl⟩

/-- The four digits of a code do not close a string. -/
theorem Closing.code (code : Code) {t : List Char} (h : Closing t) :
    Closing (code.source ++ t) := by
  have digit : ∀ (d : HexDigit) {t : List Char}, Closing t → Closing (d.source :: t) := by
    intro d t more
    obtain ⟨bare, double, -⟩ := d.source_ne
    exact .plain double bare more
  exact digit _ (digit _ (digit _ (digit _ h)))

theorem Closing.piece (p : Piece '"') {t : List Char} (h : Closing t) :
    Closing (p.source ++ t) := by
  cases p with
  | plain c printable ordinary => exact .plain ordinary.2 ordinary.1 h
  | letter e => exact .escape _ h
  | apostrophe => exact .escape _ h
  | code digits scalar => exact .escape _ (.code digits h)
  | pair high low isHigh isLow =>
      have second : Closing ('\\' :: 'u' :: (low.source ++ t)) := .escape _ (.code low h)
      have first : Closing ('\\' :: 'u' :: (high.source ++ '\\' :: 'u' :: (low.source ++ t))) :=
        .escape _ (.code high second)
      simpa [Piece.source] using first

theorem closing_pieces (pieces : List (Piece '"')) :
    Closing (pieces.flatMap Piece.source ++ ['"']) := by
  induction pieces with
  | nil => exact .quote
  | cons p rest ih =>
      rw [List.flatMap_cons, List.append_assoc]
      exact ih.piece p

/-- A string is read up to its closing quote, the same in front of every text. -/
theorem exists_closing_of_quotedBody {s body rest : List Char}
    (h : Gives (quotedBody s) body rest) :
    ∃ front, Closing front ∧ s = front ++ rest ∧
      ∀ rest', Gives (quotedBody (front ++ rest')) body rest' := by
  obtain ⟨pieces, rfl, rfl, stricts⟩ := spelled_quotedBody h
  refine ⟨pieces.flatMap Piece.source ++ ['"'], closing_pieces pieces, ?_, fun rest' => ?_⟩
  · rw [List.append_assoc, List.singleton_append]
  · rw [List.append_assoc, List.singleton_append, ← flatMap_strict stricts]
    exact gives_quotedBody_pieces pieces rest'

end ZkCommand.Json
