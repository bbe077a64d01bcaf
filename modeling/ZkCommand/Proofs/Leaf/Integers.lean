import ZkCommand.Leaf.Read
import ZkCommand.Proofs.Fp

/-!
# ZkCommand.Proofs.Leaf.Integers

**Integers are read exactly.** An integer may be written as a number or as a string, in digits only
and with any number of leading zeros (`Integer`). Words and field elements are read from nothing
else, but for the null that is the zero of the field, and always as the number that is written:
one that does not fit is refused, and not cut down to size.
-/

namespace ZkCommand.Leaf

/-! ### What is written -/

/-- The text of a number or of a string. -/
inductive Written : Tree → String → Prop
  | number (literal : String) : Written (.num literal) literal
  | string (text : String) : Written (.str text) text

/-- A value is written as an integer: it is a number or a string, and its text spells the integer.
-/
def Integer (t : Tree) (n : Nat) : Prop := ∃ text, Written t text ∧ Decimal.Spells text.toList n

section
variable {t : Tree} {text : String} {n : Nat}

theorem Written.unique {text' : String} (h : Written t text) (h' : Written t text') :
    text = text' := by
  cases h <;> cases h' <;> rfl

theorem Written.not_null (h : Written t text) : t.isNull = false := by
  cases h <;> rfl

/-- A value with any other character is no integer. -/
theorem Written.not_integer (h : Written t text) {c : Char} (hc : c ∈ text.toList)
    (other : ¬ ('0' ≤ c ∧ c ≤ '9')) : ¬ Integer t n := by
  intro integer
  obtain ⟨text', written, spells⟩ := integer
  rw [← h.unique written] at spells
  exact other (spells.digits c hc)

theorem not_integer_null : ¬ Integer .null n := by
  intro h
  obtain ⟨_, written, -⟩ := h
  cases written

/-! ### Digits -/

/-- A text that starts with a sign is not in digits, so that the test for a sign takes nothing away
from the test for digits. -/
theorem isNumeral_of_minus {s : List Char} (h : s.head? = some '-') :
    Decimal.isNumeral s = false := by
  rw [Bool.eq_false_iff]
  intro numeral
  have digit := (Decimal.isNumeral_iff.mp numeral).2 '-' (List.mem_of_head? h)
  exact absurd digit (by decide)

/-- The digits of a value are all that it is written with. -/
theorem numeral_eq_ok_iff {digits : String} : numeral t = .ok digits ↔
    Written t digits ∧ Decimal.isNumeral digits.toList = true := by
  constructor
  · intro h
    cases t with
    | num literal =>
        rw [numeral] at h
        split_ifs at h with minus inDigits
        obtain rfl := Except.ok.inj h
        exact ⟨.number _, inDigits⟩
    | str text =>
        rw [numeral] at h
        split_ifs at h with inDigits
        obtain rfl := Except.ok.inj h
        exact ⟨.string _, inDigits⟩
    | null | bool _ | list _ | map _ => cases h
  · intro h
    obtain ⟨written, inDigits⟩ := h
    cases written with
    | number =>
        have unsigned : digits.toList.head? ≠ some '-' := fun minus => by
          rw [isNumeral_of_minus minus] at inDigits
          cases inDigits
        rw [numeral, if_neg unsigned, if_pos inDigits]
    | string => rw [numeral, if_pos inDigits]

theorem Written.numeral (h : Written t text) (spells : Decimal.Spells text.toList n) :
    numeral t = .ok text :=
  numeral_eq_ok_iff.mpr ⟨h, (Decimal.spells_iff.mp spells).1⟩

/-- An integer is what the digits of a value are read as. -/
theorem integer_iff :
    Integer t n ↔ ∃ digits, numeral t = .ok digits ∧ Decimal.read digits.toList = n := by
  refine exists_congr fun digits => ?_
  rw [numeral_eq_ok_iff, Decimal.spells_iff, and_assoc]

/-! ### Words -/

/-- A word is read from what is written as its number. -/
theorem word_eq_ok_iff {width : Nat} {w : BitVec width} :
    word width t = .ok w ↔ Integer t w.toNat := by
  rw [word, Text.bind_eq_ok_iff, integer_iff]
  refine exists_congr fun digits => and_congr_right fun _ => ?_
  split_ifs with fits
  · have fits : Decimal.read digits.toList < 2 ^ width := fits
    rw [Except.ok.injEq, ← BitVec.toNat_inj, BitVec.toNat_ofNat, Nat.mod_eq_of_lt fits]
  · exact iff_of_false (fun h => by cases h) fun value => fits (value ▸ w.isLt)

theorem exists_word_iff {width : Nat} : (∃ w : BitVec width, word width t = .ok w ∧ w.toNat = n) ↔
    Integer t n ∧ n < 2 ^ width := by
  constructor
  · intro h
    obtain ⟨w, read, rfl⟩ := h
    exact ⟨word_eq_ok_iff.mp read, w.isLt⟩
  · intro h
    obtain ⟨integer, fits⟩ := h
    have value : (BitVec.ofNat width n).toNat = n :=
      (BitVec.toNat_ofNat _ _).trans (Nat.mod_eq_of_lt fits)
    exact ⟨BitVec.ofNat width n, word_eq_ok_iff.mpr (value.symm ▸ integer), value⟩

theorem Written.word_refused (h : Written t text) {c : Char} (hc : c ∈ text.toList)
    (other : ¬ ('0' ≤ c ∧ c ≤ '9')) (width : Nat) : ∃ fault, word width t = .error fault := by
  cases read : Leaf.word width t with
  | ok w => exact absurd (word_eq_ok_iff.mp read) (h.not_integer hc other)
  | error fault => exact ⟨fault, rfl⟩

/-- A number that does not fit a word is no word. -/
theorem Written.word (h : Written t text) (spells : Decimal.Spells text.toList n) (width : Nat) :
    word width t =
      if n < 2 ^ width then .ok (BitVec.ofNat width n) else .error (.outOfRange text width) := by
  rw [Leaf.word, h.numeral spells, ← (Decimal.spells_iff.mp spells).2]
  rfl

/-! ### Field elements -/

theorem field_of_not_null (h : t.isNull = false) :
    field t = numeral t >>= fun digits => (Fp.ofDecimal digits).mapError .field := by
  cases t <;> first | rfl | cases h

/-- A field element is read from what is written as its number, and zero from null as well. -/
theorem field_eq_ok_iff {x : Fp} :
    field t = .ok x ↔ t = .null ∧ x = Fp.zero ∨ Integer t x.val := by
  cases null : t.isNull with
  | true =>
      obtain rfl : t = .null := by
        cases t <;> first | rfl | cases null
      rw [field, Except.ok.injEq, eq_comm, and_iff_right rfl, or_iff_left not_integer_null]
  | false =>
      have given : ¬ (t = .null ∧ x = Fp.zero) := fun h => by
        rw [h.1] at null
        cases null
      rw [field_of_not_null null, Text.bind_eq_ok_iff, or_iff_right given]
      refine exists_congr fun digits => ?_
      rw [Text.mapError_eq_ok_iff, Fp.ofDecimal_eq_ok_iff, numeral_eq_ok_iff, Decimal.spells_iff]
      exact and_congr_left fun h => and_iff_left h.1

theorem exists_field_iff : (∃ x : Fp, field t = .ok x ∧ x.val = n) ↔
    t = .null ∧ n = 0 ∨ Integer t n ∧ n < Fp.modulus := by
  constructor
  · intro h
    obtain ⟨x, read, rfl⟩ := h
    obtain ⟨rfl, rfl⟩ | integer := field_eq_ok_iff.mp read
    · exact .inl ⟨rfl, rfl⟩
    · exact .inr ⟨integer, x.val_lt⟩
  · intro h
    obtain ⟨rfl, rfl⟩ | ⟨integer, below⟩ := h
    · exact ⟨Fp.zero, rfl, rfl⟩
    · exact ⟨⟨n, below⟩, field_eq_ok_iff.mpr (.inr integer), rfl⟩

theorem Written.field_refused (h : Written t text) {c : Char} (hc : c ∈ text.toList)
    (other : ¬ ('0' ≤ c ∧ c ≤ '9')) : ∃ fault, field t = .error fault := by
  cases read : Leaf.field t with
  | ok x =>
      obtain ⟨rfl, -⟩ | integer := field_eq_ok_iff.mp read
      · cases h
      · exact absurd integer (h.not_integer hc other)
  | error fault => exact ⟨fault, rfl⟩

/-- A number that is not below the modulus is no field element. -/
theorem Written.field (h : Written t text) (spells : Decimal.Spells text.toList n) :
    field t = (Fp.ofNat n).mapError .field := by
  rw [field_of_not_null h.not_null, h.numeral spells, ← Fp.ofDecimal_eq_ofNat spells]
  rfl

end

/-! ### Exactness -/

/-- **Integers are read exactly.** A word is read as a number if and only if the value is written as
this number and the number fits the word; a field element if and only if the value is written as
this number and the number is below the modulus, or the value is null and the number zero. A number
and the string of the same digits are read alike, also if they are too large, which is then said of
both. Nothing is read from a number or a string with a character that is not one of the ten
digits. -/
theorem integers_exact :
    (∀ (width : Nat) (t : Tree) (n : Nat),
      (∃ w : BitVec width, word width t = .ok w ∧ w.toNat = n) ↔ Integer t n ∧ n < 2 ^ width) ∧
    (∀ (t : Tree) (n : Nat), (∃ x : Fp, field t = .ok x ∧ x.val = n) ↔
      t = .null ∧ n = 0 ∨ Integer t n ∧ n < Fp.modulus) ∧
    (∀ (text : String) (n : Nat), Decimal.Spells text.toList n →
      (∀ width, word width (.num text) = word width (.str text) ∧
        (2 ^ width ≤ n → word width (.num text) = .error (.outOfRange text width))) ∧
      field (.num text) = field (.str text) ∧
        (Fp.modulus ≤ n → field (.num text) = .error (.field (.overflow n)))) ∧
    ∀ (t : Tree) (text : String) (c : Char), Written t text → c ∈ text.toList →
      ¬ ('0' ≤ c ∧ c ≤ '9') →
      (∀ width, ∃ fault, word width t = .error fault) ∧ ∃ fault, field t = .error fault := by
  refine ⟨fun width t n => exists_word_iff, fun t n => exists_field_iff, fun text n spells => ?_,
    fun t text c written hc other =>
      ⟨written.word_refused hc other, written.field_refused hc other⟩⟩
  have number : Written (.num text) text := .number text
  have string : Written (.str text) text := .string text
  refine ⟨fun width => ⟨?_, fun large => ?_⟩, ?_, fun large => ?_⟩
  · rw [number.word spells, string.word spells]
  · rw [number.word spells, if_neg (Nat.not_lt_of_le large)]
  · rw [number.field spells, string.field spells]
  · rw [number.field spells, Fp.ofNat_eq_error_iff.mpr ⟨large, rfl⟩]
    rfl

/-- The numeral of the modulus. -/
def modulusNumeral : String :=
  "28948022309329048855892746252171976963363056481941560715954676764349967630337"

/-- The modulus is neither a word nor a field element, whether it is written as a number or as a
string, and a number with an exponent is no integer. -/
theorem integers_exact_modulus :
    Decimal.Spells modulusNumeral.toList Fp.modulus ∧
    word 64 (.num modulusNumeral) = .error (.outOfRange modulusNumeral 64) ∧
    field (.num modulusNumeral) = .error (.field (.overflow Fp.modulus)) ∧
    field (.str modulusNumeral) = .error (.field (.overflow Fp.modulus)) ∧
    (Written (.num "1e+3") "1e+3" ∧ 'e' ∈ "1e+3".toList ∧ ¬ ('0' ≤ 'e' ∧ 'e' ≤ '9')) ∧
    ∃ fault, field (.num "1e+3") = .error fault := by
  have spells : Decimal.Spells modulusNumeral.toList Fp.modulus :=
    Decimal.spells_iff.mpr ⟨by decide +kernel, by decide +kernel⟩
  have exponent : 'e' ∈ "1e+3".toList ∧ ¬ ('0' ≤ 'e' ∧ 'e' ≤ '9') := by decide
  obtain ⟨-, -, alike, refused⟩ := integers_exact
  obtain ⟨words, same, large⟩ := alike modulusNumeral Fp.modulus spells
  exact ⟨spells, (words 64).2 (by decide), large (by decide), same ▸ large (by decide),
    ⟨.number _, exponent⟩, (refused _ _ 'e' (.number _) exponent.1 exponent.2).2⟩

end ZkCommand.Leaf
