import ZkCommand.Proofs.Text
import ZkCommand.Radix
import ZkCommand.Text.Embedded

/-!
# ZkCommand.Proofs.Text.Embedded

**Text inside a literal is read back.** `nextChar?` reads one character of a double-quoted literal:
the short escapes, a code point between braces, and every other character as itself; the closing
quote is none. What is embedded in a literal is read back character by character, so it tells the
text and where the literal ends. `literal?` reads a whole literal, and `embedded_exact` says what it
makes of an embedded text.
-/

namespace ZkCommand.Text

/-! ### One character of a literal -/

/-- The character with a code point of one to six hexadecimal digits. -/
def scalar? (digits : List Char) : Option Char :=
  match digits.mapM Hex.digitValue? with
  | some values =>
      let code := Radix.value 16 values.reverse
      if 0 < values.length ∧ values.length ≤ 6 ∧ code.isValidChar then some (Char.ofNat code)
      else none
  | none => none

/-- The character of an escape, and what is behind it. -/
def escaped? : List Char → Option (Char × List Char)
  | 'n' :: s => some ('\n', s)
  | 'r' :: s => some ('\r', s)
  | 't' :: s => some ('\t', s)
  | '\\' :: s => some ('\\', s)
  | '"' :: s => some ('"', s)
  | 'u' :: '\x7b' :: s =>
      match scalar? (s.takeWhile (· ≠ '\x7d')), s.dropWhile (· ≠ '\x7d') with
      | some c, _ :: rest => some (c, rest)
      | _, _ => none
  | _ => none

/-- The first character of what stands in a literal, and what is behind it. -/
def nextChar? : List Char → Option (Char × List Char)
  | [] => none
  | c :: s => if c = '"' then none else if c = '\\' then escaped? s else some (c, s)

/-! ### Embedded texts -/

theorem Hex.mapM_ofCode {n : Nat} :
    (ofCode n).mapM digitValue?
      = some [n / 4096 % 16, n / 256 % 16, n / 16 % 16, n % 16] := by
  have small (m : Nat) : m % 16 < 16 := Nat.mod_lt m (by decide)
  simp [ofCode, digitValue?_digitChar (small _)]

theorem scalar?_ofCode {c : Char} (h : c.toNat < 0x10000) :
    scalar? (Hex.ofCode c.toNat) = some c := by
  have value : Radix.value 16 [c.toNat / 4096 % 16, c.toNat / 256 % 16, c.toNat / 16 % 16,
      c.toNat % 16].reverse = c.toNat := by
    show Radix.value 16 [_, _, _, _] = _
    simp only [Radix.value]
    omega
  simp only [scalar?, Hex.mapM_ofCode, value]
  rw [if_pos ⟨by simp, by simp, c.valid⟩, Char.ofNat_toNat]

theorem Hex.exists_digit_of_mem_ofCode {n : Nat} {c : Char} (h : c ∈ ofCode n) :
    ∃ d < 16, digitChar d = c := by
  simp only [ofCode, List.mem_cons, List.not_mem_nil, or_false] at h
  obtain h | h | h | h := h <;> exact ⟨_, Nat.mod_lt _ (by decide), h.symm⟩

theorem ne_brace_of_mem_ofCode {n : Nat} {c : Char} (h : c ∈ Hex.ofCode n) : c ≠ '\x7d' := by
  obtain ⟨d, small, rfl⟩ := Hex.exists_digit_of_mem_ofCode h
  interval_cases d <;> decide

/-- A character is read back from its spelling. -/
theorem nextChar?_embedChar (c : Char) (s : List Char) :
    nextChar? (embedChar c ++ s) = some (c, s) := by
  rw [embedChar]
  split_ifs with backslash quote feed carriage tab control
  · rw [backslash]; rfl
  · rw [quote]; rfl
  · rw [feed]; rfl
  · rw [carriage]; rfl
  · rw [tab]; rfl
  · have low : c.toNat < 0xa0 := by
      simp only [isControl, Bool.or_eq_true, Bool.and_eq_true, decide_eq_true_eq] at control
      omega
    have digits (d : Char) (hd : d ∈ Hex.ofCode c.toNat) : decide (d ≠ '\x7d') = true :=
      decide_eq_true (ne_brace_of_mem_ofCode hd)
    have stops : ('\x7d' :: s).head?.any (fun d => decide (d ≠ '\x7d')) = false := rfl
    obtain ⟨run, behind⟩ := takeWhile_append_of_head digits stops
    show escaped? ('u' :: '\x7b' :: (Hex.ofCode c.toNat ++ '\x7d' :: s)) = some (c, s)
    rw [escaped?, run, behind, scalar?_ofCode (by omega)]
  · show nextChar? (c :: s) = some (c, s)
    rw [nextChar?, if_neg quote, if_neg backslash]

theorem embed_cons_append (c : Char) (s x : List Char) :
    embed (c :: s) ++ x = embedChar c ++ (embed s ++ x) := by
  rw [embed, List.flatMap_cons, List.append_assoc]
  rfl

/-- What is embedded in a literal tells the text, and where the literal ends. -/
theorem embed_append_inj {s t x y : List Char} (h : embed s ++ '"' :: x = embed t ++ '"' :: y) :
    s = t ∧ x = y := by
  have read := congrArg nextChar? h
  induction s generalizing t with
  | nil =>
      cases t with
      | nil => exact ⟨rfl, (List.cons.inj h).2⟩
      | cons d t =>
          rw [embed_cons_append, nextChar?_embedChar] at read
          cases read
  | cons c s ih =>
      rw [embed_cons_append, nextChar?_embedChar] at read
      cases t with
      | nil => cases read
      | cons d t =>
          rw [embed_cons_append, nextChar?_embedChar] at read
          obtain ⟨rfl, rest⟩ : c = d ∧ embed s ++ '"' :: x = embed t ++ '"' :: y := by
            simpa using read
          obtain ⟨rfl, behind⟩ := ih rest (congrArg nextChar? rest)
          exact ⟨rfl, behind⟩

/-! ### Literals -/

/-- An escape is read off a word of its own, whatever follows that word. -/
theorem exists_word_of_escaped? {s rest : List Char} {c : Char} (h : escaped? s = some (c, rest)) :
    ∃ word, s = word ++ rest ∧ ∀ x, escaped? (word ++ x) = some (c, x) := by
  rw [escaped?.eq_def] at h
  split at h
  case h_6 s =>
    split at h
    · rename_i scalar brace after read behind
      obtain ⟨rfl, rfl⟩ : scalar = c ∧ after = rest := by simpa using h
      have digits : ∀ d ∈ s.takeWhile (· ≠ '\x7d'), decide (d ≠ '\x7d') = true :=
        fun _ => List.mem_takeWhile_imp (p := fun d => decide (d ≠ '\x7d'))
      have stops : (brace :: after).head?.any (fun d => decide (d ≠ '\x7d')) = false :=
        behind ▸ head?_dropWhile s
      refine ⟨'u' :: '\x7b' :: (s.takeWhile (· ≠ '\x7d') ++ [brace]), ?_, fun x => ?_⟩
      · have whole := List.takeWhile_append_dropWhile (p := fun d => decide (d ≠ '\x7d')) (l := s)
        rw [behind] at whole
        show 'u' :: '\x7b' :: s = 'u' :: '\x7b' :: (s.takeWhile (· ≠ '\x7d') ++ [brace] ++ after)
        rw [List.append_assoc, List.singleton_append, whole]
      · obtain ⟨run, left⟩ := takeWhile_append_of_head digits (s := brace :: x) stops
        show escaped? ('u' :: '\x7b' :: (s.takeWhile (· ≠ '\x7d') ++ [brace] ++ x))
          = some (scalar, x)
        rw [List.append_assoc, List.singleton_append, escaped?, run, left, read]
    · cases h
  case h_7 => cases h
  all_goals
    rename_i s
    obtain ⟨rfl, rfl⟩ := Prod.mk.inj (Option.some.inj h)
    exact ⟨[_], rfl, fun _ => rfl⟩

/-- A character is read off a word of its own, whatever follows that word. -/
theorem exists_word_of_nextChar? {s rest : List Char} {c : Char}
    (h : nextChar? s = some (c, rest)) :
    ∃ d word, s = d :: word ++ rest ∧ d ≠ '"' ∧
      ∀ x, nextChar? (d :: word ++ x) = some (c, x) := by
  cases s with
  | nil => cases h
  | cons d s =>
      rw [nextChar?] at h
      split_ifs at h with quote backslash
      · obtain ⟨word, rfl, read⟩ := exists_word_of_escaped? h
        refine ⟨d, word, rfl, quote, fun x => ?_⟩
        rw [List.cons_append, nextChar?, if_neg quote, if_pos backslash, read]
      · obtain ⟨rfl, rfl⟩ := Prod.mk.inj (Option.some.inj h)
        refine ⟨d, [], rfl, quote, fun x => ?_⟩
        rw [List.cons_append, List.nil_append, nextChar?, if_neg quote, if_neg backslash]

theorem length_lt_of_nextChar? {s rest : List Char} {c : Char}
    (h : nextChar? s = some (c, rest)) : rest.length < s.length := by
  obtain ⟨d, word, rfl, -, -⟩ := exists_word_of_nextChar? h
  simp only [List.cons_append, List.length_cons, List.length_append]
  omega

/-- The text from inside a literal up to its closing quote, and what is behind that quote. -/
def contents? (s : List Char) : Option (List Char × List Char) :=
  if s.head? = some '"' then some ([], s.tail)
  else
    match _next : nextChar? s with
    | none => none
    | some (c, rest) => (contents? rest).map fun read => (c :: read.1, read.2)
termination_by s.length
decreasing_by exact length_lt_of_nextChar? _next

/-- The text of a literal at the front, and what is behind the literal. -/
def literal? : List Char → Option (List Char × List Char)
  | [] => none
  | c :: s => if c = '"' then contents? s else none

theorem contents?_quote (s : List Char) : contents? ('"' :: s) = some ([], s) := by
  rw [contents?, List.head?_cons, if_pos rfl, List.tail_cons]

theorem contents?_next {s rest : List Char} {c : Char} (h : nextChar? s = some (c, rest)) :
    contents? s = (contents? rest).map fun read => (c :: read.1, read.2) := by
  obtain ⟨d, word, rfl, quote, -⟩ := exists_word_of_nextChar? h
  rw [contents?, if_neg (by simpa using quote)]
  split
  · rename_i none
    rw [h] at none
    cases none
  · rename_i next
    rw [h] at next
    obtain ⟨rfl, rfl⟩ := Prod.mk.inj (Option.some.inj next)
    rfl

/-- A text is read back from inside a literal, and the literal ends at the quote behind it. -/
theorem contents?_embed (s behind : List Char) :
    contents? (embed s ++ '"' :: behind) = some (s, behind) := by
  induction s with
  | nil => exact contents?_quote behind
  | cons c s ih =>
      rw [embed_cons_append, contents?_next (nextChar?_embedChar c _), ih]
      rfl

/-- What is read as a literal is read so whatever follows. -/
theorem contents?_append {s text rest : List Char} (h : contents? s = some (text, rest))
    (x : List Char) : contents? (s ++ x) = some (text, rest ++ x) := by
  fun_induction contents? s generalizing text with
  | case1 s quote =>
      obtain ⟨rfl, rfl⟩ := Prod.mk.inj (Option.some.inj h)
      obtain ⟨s, rfl⟩ := List.head?_eq_some_iff.mp quote
      exact contents?_quote (s ++ x)
  | case2 => cases h
  | case3 s quote c next found ih =>
      obtain ⟨⟨text', rest'⟩, inner, same⟩ := Option.map_eq_some_iff.mp h
      obtain ⟨rfl, rfl⟩ := Prod.mk.inj same
      obtain ⟨d, word, rfl, -, read⟩ := exists_word_of_nextChar? found
      rw [List.append_assoc, contents?_next (read (next ++ x)), ih inner]
      rfl

theorem literal?_quote (s : List Char) : literal? ('"' :: s) = contents? s := by
  rw [literal?, if_pos rfl]

/-- A literal that is cut short is none. -/
theorem literal?_cut {s front rest : List Char} (cut : front ++ rest = '"' :: (embed s ++ ['"']))
    (short : rest ≠ []) : literal? front = none := by
  cases front with
  | nil => rfl
  | cons c front =>
      obtain ⟨rfl, inside⟩ := List.cons.inj cut
      rw [literal?_quote]
      by_contra read
      obtain ⟨⟨text, behind⟩, read⟩ := Option.ne_none_iff_exists'.mp read
      have whole := contents?_append read rest
      rw [show front ++ rest = embed s ++ ['"'] from inside, contents?_embed] at whole
      have nothing : [] = behind ++ rest := (Prod.mk.inj (Option.some.inj whole)).2
      exact short (List.append_eq_nil_iff.mp nothing.symm).2

/-! ### Control characters -/

theorem isControl_of_mem_ofCode {n : Nat} {c : Char} (h : c ∈ Hex.ofCode n) :
    isControl c = false := by
  obtain ⟨d, small, rfl⟩ := Hex.exists_digit_of_mem_ofCode h
  interval_cases d <;> decide

/-- No spelling has a control character. -/
theorem isControl_of_mem_embedChar {c d : Char} (h : d ∈ embedChar c) : isControl d = false := by
  have short (letter : Char) (visible : isControl letter = false) (h : d ∈ ['\\', letter]) :
      isControl d = false := by
    obtain rfl | rfl : d = '\\' ∨ d = letter := by simpa using h
    · decide
    · exact visible
  rw [embedChar] at h
  split_ifs at h with backslash quote feed carriage tab control
  · exact short _ (by decide) h
  · exact short _ (by decide) h
  · exact short _ (by decide) h
  · exact short _ (by decide) h
  · exact short _ (by decide) h
  · obtain rfl | rfl | rfl | h | rfl :
        d = '\\' ∨ d = 'u' ∨ d = '\x7b' ∨ d ∈ Hex.ofCode c.toNat ∨ d = '\x7d' := by simpa using h
    · decide
    · decide
    · decide
    · exact isControl_of_mem_ofCode h
    · decide
  · obtain rfl := List.mem_singleton.mp h
    exact Bool.eq_false_iff.mpr control

/-- **Embedded text is safe, and is read back.** It has no control character, and between two quotes
it is a literal that stands for the text and ends at the second quote, whatever follows, and not
earlier: no proper front of it is a literal. -/
theorem embedded_exact (text : String) :
    (embedded text).toList.any isControl = false ∧
    (∀ behind, literal? ('"' :: ((embedded text).toList ++ '"' :: behind))
      = some (text.toList, behind)) ∧
    (∀ front rest, front ++ rest = '"' :: ((embedded text).toList ++ ['"']) → rest ≠ [] →
      literal? front = none) := by
  rw [embedded, String.toList_ofList]
  refine ⟨?_, fun behind => ?_, fun front rest cut short => literal?_cut cut short⟩
  · rw [List.any_eq_false]
    intro d hd
    obtain ⟨c, -, hd⟩ := List.mem_flatMap.mp hd
    rw [isControl_of_mem_embedChar hd]
    exact Bool.false_ne_true
  · rw [literal?_quote, contents?_embed]

/-- The quote of an escape does not end a literal. -/
theorem embedded_exact_quote :
    ['"', '\\', '"'] ++ ['"'] = '"' :: ((embedded "\"").toList ++ ['"']) ∧ ['"'] ≠ [] ∧
      literal? ['"', '\\', '"'] = none := by
  obtain ⟨-, -, cut⟩ := embedded_exact "\""
  exact ⟨by decide, by decide, cut _ ['"'] (by decide) (by decide)⟩

end ZkCommand.Text
