import ZkCommand.Proofs.Json.Fronts

/-!
# ZkCommand.Proofs.Json.Failures

**Where the JSON readers fail.** A reader leaves an end of its text, and it fails at a place behind
the first byte of its text, unless the text is empty (`Located`). That is so for each reader if it
is so for the readers that it calls, as each of those starts in an end of the same text
(`Located.bind`). A number in a text of its own is refused at a place in that text, which is a
string under the key of a number (`NumberIn`).
-/

namespace ZkCommand.Json

open Text

variable {α β : Type}

/-- A failure is in a text, or in one of the texts of numbers: it has read or looked at a byte
there, if there is one. -/
structure Failure.In (numbers : List Char → Prop) (s : List Char) (f : Failure) : Prop where
  text : ∀ t, f.text = some t → numbers t
  left : f.left ≤ Utf8.size (f.text.getD s)
  unread : f.unread ≤ Utf8.size (f.text.getD s) - 1

/-- What a reader leaves is an end of its text, and its failures are in the text or in a number. -/
structure Located {bound : Nat} (numbers : List Char → Prop) (s : List Char)
    (result : Except Failure (Parsed α bound)) : Prop where
  rest : ∀ p, result = .ok p → p.rest <:+ s
  failure : ∀ f, result = .error f → f.In numbers s

theorem size_le_of_suffix {r s : List Char} (h : r <:+ s) : Utf8.size r ≤ Utf8.size s := by
  obtain ⟨front, rfl⟩ := h
  rw [Utf8.size_append]
  exact Nat.le_add_left _ _

theorem size_lt_of_suffix {r s : List Char} (h : r <:+ s) (short : r.length < s.length) :
    Utf8.size r < Utf8.size s := by
  obtain ⟨front, rfl⟩ := h
  cases front with
  | nil => exact absurd short (lt_irrefl _)
  | cons c front =>
      have := c.utf8Size_pos
      rw [Utf8.size_append, Utf8.size]
      omega

namespace Failure

variable {numbers : List Char → Prop} {s r : List Char}

theorem in_peek (cause : Cause) (h : r <:+ s) : (peek cause r).In numbers s where
  text := nofun
  left := size_le_of_suffix h
  unread := Nat.sub_le_sub_right (size_le_of_suffix h) 1

theorem in_taking {count : Nat} (some : 0 < count) (cause : Cause) (h : r <:+ s) :
    (taking count cause r).In numbers s where
  text := nofun
  left := (Nat.sub_le _ _).trans (size_le_of_suffix h)
  unread := (Nat.sub_le_sub_left some _).trans (Nat.sub_le_sub_right (size_le_of_suffix h) 1)

theorem in_before (cause : Cause) (h : r <:+ s) (short : r.length < s.length) :
    (before cause r).In numbers s where
  text := nofun
  left := size_le_of_suffix h
  unread := Nat.le_sub_one_of_lt (size_lt_of_suffix h short)

theorem in_atEnd (cause : Cause) : (atEnd cause).In numbers s :=
  ⟨nofun, Nat.zero_le _, Nat.zero_le _⟩

theorem In.mono {numbers' : List Char → Prop} {f : Failure} (h : f.In numbers r) (cut : r <:+ s)
    (more : ∀ t, numbers t → numbers' t) : f.In numbers' s := by
  have within : Utf8.size (f.text.getD r) ≤ Utf8.size (f.text.getD s) := by
    cases f.text with
    | none => exact size_le_of_suffix cut
    | some t => exact Nat.le_refl _
  exact ⟨fun t own => more t (h.text t own), h.left.trans within,
    h.unread.trans (Nat.sub_le_sub_right within 1)⟩

end Failure

namespace Located

variable {bound bound' : Nat} {numbers : List Char → Prop} {s r : List Char}

theorem ok {p : Parsed α bound} (h : p.rest <:+ s) : Located numbers s (.ok p) where
  rest := by
    intro q same
    obtain rfl := Except.ok.inj same
    exact h
  failure := nofun

theorem error {f : Failure} (h : f.In numbers s) :
    Located numbers s (.error f : Except Failure (Parsed α bound)) where
  rest := nofun
  failure := by
    intro g same
    obtain rfl := Except.error.inj same
    exact h

theorem atEnd (cause : Cause) :
    Located numbers s (.error (.atEnd cause) : Except Failure (Parsed α bound)) :=
  error (Failure.in_atEnd cause)

theorem peek (cause : Cause) (h : r <:+ s) :
    Located numbers s (.error (.peek cause r) : Except Failure (Parsed α bound)) :=
  error (Failure.in_peek cause h)

theorem taking {count : Nat} (some : 0 < count) (cause : Cause) (h : r <:+ s) :
    Located numbers s (.error (.taking count cause r) : Except Failure (Parsed α bound)) :=
  error (Failure.in_taking some cause h)

theorem before (cause : Cause) (h : r <:+ s) (short : r.length < s.length) :
    Located numbers s (.error (.before cause r) : Except Failure (Parsed α bound)) :=
  error (Failure.in_before cause h short)

/-- A reader of an end of a text reads the text. -/
theorem mono {result : Except Failure (Parsed α bound)} (h : Located numbers r result)
    (cut : r <:+ s) : Located numbers s result where
  rest := fun p read => (h.rest p read).trans cut
  failure := fun f failed => (h.failure f failed).mono cut fun _ => id

section
variable {result : Except Failure (Parsed α bound)}
  {next : Parsed α bound → Except Failure (Parsed β bound')}

theorem bind_of_ok (h : Located numbers s result)
    (more : ∀ p, result = .ok p → Located numbers s (next p)) :
    Located numbers s (result >>= next) := by
  cases read : result with
  | ok p => exact more p read
  | error f => exact error (h.failure f read)

/-- **Two readers, one behind the other.** -/
theorem bind (h : Located numbers s result)
    (more : ∀ p, p.rest <:+ s → Located numbers s (next p)) :
    Located numbers s (result >>= next) :=
  h.bind_of_ok fun p read => more p (h.rest p read)

end

end Located

/-! ### Words and numbers -/

theorem suffix_skipSpace (s : List Char) : (skipSpace s).rest <:+ s := List.dropWhile_suffix _

theorem suffix_digits (s : List Char) : (digits s).rest <:+ s := List.dropWhile_suffix _

theorem suffix_of_skipSpace {s r : List Char} {c : Char} (h : (skipSpace s).rest = c :: r) :
    c :: r <:+ s := h ▸ suffix_skipSpace s

section
variable {numbers : List Char → Prop}

theorem located_wordTail (letters s : List Char) : Located numbers s (wordTail letters s) := by
  induction letters generalizing s with
  | nil => exact .ok List.suffix_rfl
  | cons l letters ih =>
      cases s with
      | nil => exact .atEnd _
      | cons c r =>
          change Located numbers (c :: r) (if c = l then _ else _)
          split
          · exact (ih r).mono (List.suffix_cons c r) |>.bind fun p cut => .ok cut
          · exact .taking Nat.one_pos _ List.suffix_rfl

theorem located_integer (s : List Char) : Located numbers s (integer s) := by
  unfold integer
  split
  · exact .atEnd _
  · rename_i c s
    split
    · split
      · exact .ok List.nil_suffix
      · rename_i d r
        split
        · exact .peek _ (List.suffix_cons c _)
        · exact .ok (List.suffix_cons c _)
    split
    · exact .ok ((suffix_digits s).trans (List.suffix_cons c s))
    · exact .taking Nat.one_pos _ List.suffix_rfl

theorem located_fraction (s : List Char) : Located numbers s (fraction s) := by
  unfold fraction
  split
  · rename_i r
    have cut : r <:+ '.' :: r := List.suffix_cons '.' r
    simp only
    split
    · exact .peek _ cut
    · exact .ok ((suffix_digits r).trans cut)
  · exact .ok List.suffix_rfl

theorem suffix_exponentSign (s : List Char) : (exponentSign s).rest <:+ s := by
  unfold exponentSign
  split
  · exact List.suffix_cons _ _
  · exact List.suffix_cons _ _
  · exact List.suffix_rfl

theorem located_exponent (s : List Char) : Located numbers s (exponent s) := by
  unfold exponent
  split
  · exact .ok List.suffix_rfl
  · rename_i c r
    have behind : r <:+ c :: r := List.suffix_cons c r
    split
    · simp only
      split
      · exact .atEnd _
      · rename_i d t short left _
        have cut : d :: t <:+ c :: r := (left ▸ suffix_exponentSign r).trans behind
        split
        · exact .ok ((suffix_digits t).trans ((List.suffix_cons d t).trans cut))
        · exact .taking Nat.one_pos _ cut
    · exact .ok List.suffix_rfl

theorem located_unsignedNumber (s : List Char) : Located numbers s (unsignedNumber s) :=
  (located_integer s).bind fun _ cut => ((located_fraction _).mono cut).bind fun _ cut =>
    ((located_exponent _).mono cut).bind fun _ cut => .ok cut

theorem located_number (s : List Char) : Located numbers s (number s) := by
  unfold number
  split
  · exact ((located_unsignedNumber _).mono (List.suffix_cons _ _)).bind fun _ cut => .ok cut
  · exact located_unsignedNumber s

/-! ### Strings -/

/-- Four bytes are read at once if there are so many. -/
theorem located_hexQuad (s : List Char) : Located numbers s (hexQuad s) := by
  unfold hexQuad
  split
  · exact .atEnd _
  split
  · rename_i a b c d r _
    split
    · exact .ok (List.suffix_append [a, b, c, d] r)
    · exact .taking (by decide) _ List.suffix_rfl
  · exact .taking (by decide) _ List.suffix_rfl

theorem located_lowSurrogate (s : List Char) : Located numbers s (lowSurrogate s) := by
  unfold lowSurrogate
  split
  · exact .atEnd _
  rename_i c s
  split
  · split
    · exact .atEnd _
    rename_i d r
    have cut : d :: r <:+ c :: d :: r := List.suffix_cons c _
    have behind : r <:+ c :: d :: r := (List.suffix_cons d r).trans cut
    split
    · refine ((located_hexQuad r).mono behind).bind fun code left => ?_
      split
      · exact .ok left
      · exact .before _ left (length_afterLow_lt c d r code)
    · exact .taking Nat.one_pos _ cut
  · exact .taking Nat.one_pos _ List.suffix_rfl

theorem located_codeEscape (s : List Char) : Located numbers s (codeEscape s) := by
  refine (located_hexQuad s).bind fun code left => ?_
  split
  · exact .before _ left code.rest_lt
  split
  · exact ((located_lowSurrogate code.rest).mono left).bind fun _ cut => .ok cut
  · exact .ok left

theorem located_escape (s : List Char) : Located numbers s (escape s) := by
  unfold escape
  split
  · exact .atEnd _
  rename_i c s
  have cut : s <:+ c :: s := List.suffix_cons c s
  split
  · exact .ok cut
  split
  · exact ((located_codeEscape s).mono cut).bind fun _ left => .ok left
  · exact .taking Nat.one_pos _ List.suffix_rfl

theorem located_quotedBody : ∀ s : List Char, Located numbers s (quotedBody s)
  | [] => by
      rw [quotedBody]
      exact .atEnd _
  | c :: s => by
      have cut : s <:+ c :: s := List.suffix_cons c s
      rw [quotedBody]
      split
      · exact .ok cut
      split
      · refine ((located_escape s).mono cut).bind fun d behind => ?_
        exact ((located_quotedBody d.rest).mono behind).bind fun _ left => .ok left
      split
      · exact .before _ cut (length_lt_cons c s)
      · exact ((located_quotedBody s).mono cut).bind fun _ left => .ok left
termination_by s => s.length
decreasing_by all_goals grind

theorem located_scalar (s : List Char) : Located numbers s (scalar s) := by
  unfold scalar
  split
  · exact .atEnd _
  rename_i c r
  have behind : r <:+ c :: r := List.suffix_cons c r
  have word (letters : List Char) : Located numbers (c :: r) (wordTail letters r) :=
    (located_wordTail letters r).mono behind
  split
  · exact (word _).bind fun _ last => .ok last
  split
  · exact (word _).bind fun _ last => .ok last
  split
  · exact (word _).bind fun _ last => .ok last
  split
  · exact (located_number (c :: r)).bind fun _ last => .ok last
  split
  · exact ((located_quotedBody r).mono behind).bind fun _ last => .ok last
  · exact .peek _ List.suffix_rfl

/-! ### Numbers in a text of their own -/

theorem in_of_wholeNumber {t : List Char} {f : Failure} (h : wholeNumber t = .error f) :
    f.In numbers t := by
  unfold wholeNumber at h
  split at h
  · exact Except.error.inj h ▸ Failure.in_atEnd _
  rename_i c r
  split at h
  · have located : Located numbers (c :: r) (number (c :: r)) := located_number (c :: r)
    rcases bind_eq_error_iff.mp h with failed | ⟨literal, read, h⟩
    · exact located.failure f failed
    · split at h
      · cases h
      · exact Except.error.inj h ▸ Failure.in_peek _ (located.rest literal read)
  · exact Except.error.inj h ▸ Failure.in_peek _ List.suffix_rfl

/-- A number is refused in its own text. -/
theorem in_of_numeral {s t : List Char} {f : Failure} (own : numbers t)
    (h : numeral t = .error f) : f.In numbers s := by
  obtain ⟨g, failed, rfl⟩ := mapError_eq_error_iff.mp h
  have inside : g.In (fun _ => False) t := in_of_wholeNumber failed
  obtain ⟨plain, left, -⟩ := inside
  have whole : g.text = none := Option.eq_none_iff_forall_not_mem.mpr plain
  rw [whole] at left
  have text : ∀ t', some t = some t' → numbers t' := fun t' same => Option.some.inj same ▸ own
  unfold Failure.inNumeral
  split
  · exact ⟨text, Nat.zero_le _, by simp [Failure.unread]⟩
  · exact ⟨text, left, Nat.sub_le_sub_right left 1⟩

theorem located_numberText {s v : List Char} (cut : v <:+ s) (short : v.length < s.length)
    (own : ∀ t rest, Front.Quoted v t rest → numbers t) :
    Located numbers s (numberText v) := by
  unfold numberText
  split
  · exact .atEnd _
  rename_i c r within left
  have skip : (skipSpace v).rest = c :: r := congrArg Parsed.rest left
  have start : c :: r <:+ s := (suffix_of_skipSpace skip).trans cut
  have behind : (c :: r).length < s.length :=
    Nat.lt_of_le_of_lt (suffix_of_skipSpace skip).length_le short
  split
  · exact .before _ start behind
  split
  · exact .before _ start behind
  have located : Located numbers s (scalar (c :: r)) := (located_scalar (c :: r)).mono start
  refine located.bind_of_ok fun leaf read => ?_
  have last : leaf.rest <:+ s := located.rest leaf read
  split
  · rename_i text found
    have scalar : Gives (scalar (c :: r)) leaf.value leaf.rest := ⟨leaf.rest_lt, read⟩
    have quoted := quoted_of_scalar (leads_of_skipSpace skip) (found ▸ scalar)
    cases number : numeral text.toList with
    | ok literal => exact .ok last
    | error f => exact .error (in_of_numeral (own _ _ quoted) number)
  · exact .before _ last (Nat.lt_trans leaf.rest_lt behind)

end

/-! ### Lists and mappings -/

/-- A mapping in a text starts with the key of a number and a string under it. -/
def NumberIn (s t : List Char) : Prop :=
  ∃ r key afterKey v rest, '\x7b' :: r <:+ s ∧ Front.Quoted r key afterKey ∧
    String.ofList key = numberKey ∧ Leads afterKey ':' v ∧ Front.Quoted v t rest

theorem NumberIn.mono {r s t : List Char} (h : NumberIn r t) (cut : r <:+ s) : NumberIn s t := by
  obtain ⟨r', key, afterKey, v, rest, brace, label⟩ := h
  exact ⟨r', key, afterKey, v, rest, brace.trans cut, label⟩

/-- A reader of an end of a text reads the text, with the numbers in it. -/
theorem Located.within {bound : Nat} {r s : List Char}
    {result : Except Failure (Parsed α bound)} (h : Located (NumberIn r) r result) (cut : r <:+ s) :
    Located (NumberIn s) s result where
  rest := fun p read => (h.rest p read).trans cut
  failure := fun f failed => (h.failure f failed).mono cut fun _ number => number.mono cut

/-- The value of an entry is read behind its key and a colon. -/
theorem located_entry {numbers : List Char → Prop} {item : Reader Tree} {s : List Char}
    (located : ∀ {k key afterKey v}, s = '"' :: k → Gives (quotedBody k) key afterKey →
      Leads afterKey ':' v → v <:+ k → Located numbers s (item v)) :
    Located numbers s (entry item s) := by
  unfold entry
  split
  · exact .atEnd _
  rename_i c k
  have behind : k <:+ c :: k := List.suffix_cons c k
  split
  · rename_i quote
    have string : Located numbers k (quotedBody k) := located_quotedBody k
    refine (string.mono behind).bind_of_ok fun key read => ?_
    have next : key.rest <:+ k := string.rest key read
    split
    · exact .atEnd _
    rename_i d v short left
    have skip : (skipSpace key.rest).rest = d :: v := congrArg Parsed.rest left
    have cut : d :: v <:+ k := (suffix_of_skipSpace skip).trans next
    split
    · rename_i colon
      have label : Leads key.rest ':' v := colon ▸ leads_of_skipSpace skip
      have value := located (by rw [quote]) ⟨key.rest_lt, read⟩ label
        ((List.suffix_cons d v).trans cut)
      exact value.bind fun _ last => .ok last
    · exact .peek _ (cut.trans behind)
  · exact .peek _ List.suffix_rfl

/-- What stands for a number is refused in itself or in the string under its key. -/
theorem located_numberEntry {r : List Char} (opens : opensNumber r = true) :
    Located (NumberIn ('\x7b' :: r)) ('\x7b' :: r) (numberEntry r) := by
  obtain ⟨key, after, quoted, same⟩ := opensNumber_eq_true_iff.mp opens
  have behind : r <:+ '\x7b' :: r := List.suffix_cons _ r
  unfold numberEntry
  split
  rename_i t within left
  have skip : (skipSpace r).rest = t := congrArg Parsed.rest left
  have start : t <:+ '\x7b' :: r := (skip ▸ suffix_skipSpace r).trans behind
  have only : Located (NumberIn ('\x7b' :: r)) t (entry numberText t) := by
    refine located_entry fun {k key' after' v} whole read label cut => ?_
    subst whole
    refine located_numberText (cut.trans (List.suffix_cons _ k))
      (Nat.lt_succ_of_le cut.length_le) fun text rest string => ?_
    have first : Front.Quoted r key' after' := ⟨k, leads_of_skipSpace skip, read⟩
    obtain ⟨rfl, -⟩ := first.unique quoted
    exact ⟨r, key', after', v, rest, List.suffix_rfl, first, same, label, string⟩
  refine (only.mono start).bind fun entry next => ?_
  split
  · exact .atEnd _
  rename_i c rest short left'
  have cut : c :: rest <:+ '\x7b' :: r :=
    (suffix_of_skipSpace (congrArg Parsed.rest left')).trans next
  split
  · exact .ok ((List.suffix_cons c rest).trans cut)
  split
  · exact .peek _ cut
  · exact .peek _ cut

section
variable {item : Reader Tree} (located : ∀ s, Located (NumberIn s) s (item s))

include located

theorem located_moreItems (s : List Char) : Located (NumberIn s) s (moreItems item s) := by
  rw [moreItems]
  split
  · exact .atEnd _
  rename_i c r short left
  have cut : c :: r <:+ s := suffix_of_skipSpace (congrArg Parsed.rest left)
  have behind : r <:+ s := (List.suffix_cons c r).trans cut
  split
  · exact .ok behind
  split
  · split
    · exact .peek _ ((suffix_skipSpace r).trans behind)
    · refine ((located r).within behind).bind fun first next => ?_
      exact ((located_moreItems first.rest).within next).bind fun _ last => .ok last
  · exact .peek _ cut
termination_by s.length
decreasing_by grind

theorem located_items (s : List Char) : Located (NumberIn s) s (items item s) := by
  unfold items
  split
  · exact .atEnd _
  rename_i c r short left
  have cut : c :: r <:+ s := suffix_of_skipSpace (congrArg Parsed.rest left)
  split
  · exact .ok ((List.suffix_cons c r).trans cut)
  · refine ((located (c :: r)).within cut).bind fun first next => ?_
    exact ((located_moreItems located first.rest).within next).bind fun _ last => .ok last

theorem located_entry_item (s : List Char) : Located (NumberIn s) s (entry item s) := by
  refine located_entry fun same _ _ cut => (located _).within ?_
  exact same ▸ cut.trans (List.suffix_cons _ _)

theorem located_moreEntries (s : List Char) : Located (NumberIn s) s (moreEntries item s) := by
  rw [moreEntries]
  split
  · exact .atEnd _
  rename_i c r short left
  have cut : c :: r <:+ s := suffix_of_skipSpace (congrArg Parsed.rest left)
  have behind : r <:+ s := (List.suffix_cons c r).trans cut
  split
  · exact .ok behind
  split
  · split
    rename_i t within space
    have start : t <:+ s := by
      have := suffix_skipSpace r
      rw [space] at this
      exact this.trans behind
    split
    · exact .peek _ start
    · refine ((located_entry_item located t).within start).bind fun first next => ?_
      exact ((located_moreEntries first.rest).within next).bind fun _ last => .ok last
  · exact .peek _ cut
termination_by s.length
decreasing_by grind

theorem located_entries (s : List Char) : Located (NumberIn s) s (entries item s) := by
  unfold entries
  split
  · exact .atEnd _
  rename_i c r short left
  have cut : c :: r <:+ s := suffix_of_skipSpace (congrArg Parsed.rest left)
  split
  · exact .ok ((List.suffix_cons c r).trans cut)
  · refine ((located_entry_item located (c :: r)).within cut).bind fun first next => ?_
    exact ((located_moreEntries located first.rest).within next).bind fun _ last => .ok last

/-- A mapping with the key of a number is refused in it or in the text under the key. -/
theorem located_mapping (r : List Char) :
    Located (NumberIn ('\x7b' :: r)) ('\x7b' :: r) (mapping item r) := by
  have behind : r <:+ '\x7b' :: r := List.suffix_cons _ r
  unfold mapping
  split
  · rename_i opens
    exact located_numberEntry opens
  · exact ((located_entries located r).within behind).bind fun _ last => .ok last

end

/-! ### Values -/

theorem located_valueWith {inner : Option (Reader Tree)}
    (located : ∀ item ∈ inner, ∀ s, Located (NumberIn s) s (item s)) (s : List Char) :
    Located (NumberIn s) s (valueWith inner s) := by
  unfold valueWith
  split
  · exact .atEnd _
  rename_i c r short left
  have cut : c :: r <:+ s := suffix_of_skipSpace (congrArg Parsed.rest left)
  have behind : r <:+ s := (List.suffix_cons c r).trans cut
  split
  · split
    · exact .peek _ cut
    · rename_i item
      exact ((located_items (located item rfl) r).within behind).bind fun _ last => .ok last
  split
  · rename_i brace
    split
    · exact .peek _ cut
    · rename_i item
      subst brace
      exact ((located_mapping (located item rfl) r).within cut).bind fun _ last => .ok last
  · exact ((located_scalar (c :: r)).mono cut).bind fun _ last => .ok last

theorem located_value (levels : Nat) (s : List Char) : Located (NumberIn s) s (value levels s) := by
  induction levels generalizing s with
  | zero =>
      refine located_valueWith ?_ s
      intro item none
      cases none
  | succ levels ih =>
      refine located_valueWith ?_ s
      intro item level
      obtain rfl := Option.some.inj level
      exact ih

/-- **A text is refused in it or in a number that it holds as a string**: behind the first byte
there, if there is one. -/
theorem in_of_readTree {s : List Char} {f : Failure} (h : readTree s = .error f) :
    f.In (NumberIn s) s := by
  rcases bind_eq_error_iff.mp h with failed | ⟨top, read, h⟩
  · exact (located_value maxLevels s).failure f failed
  · split at h
    · cases h
    · rename_i c r left
      obtain rfl := Except.error.inj h
      exact Failure.in_peek _
        ((suffix_of_skipSpace left).trans ((located_value maxLevels s).rest top read))

end ZkCommand.Json
