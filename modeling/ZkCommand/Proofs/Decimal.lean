import Mathlib.Tactic.IntervalCases
import ZkCommand.Decimal
import ZkCommand.Proofs.Radix
import ZkCommand.Proofs.Text

/-!
# ZkCommand.Proofs.Decimal

**Numerals are read back.** The numeral of a number is made of digits, starts with zero only if it
is zero, and stands for the number that it was written for. What a text of digits stands for is said
apart from the reader (`Spells`), and the texts that stand for one number differ by their leading
zeros only (`spells_iff_exists_zeros`).
-/

namespace ZkCommand

namespace Decimal

theorem isNumeral_iff {s : List Char} :
    isNumeral s = true ↔ s ≠ [] ∧ ∀ c ∈ s, c.isDigit = true := by
  rw [isNumeral, Bool.and_eq_true_iff, Bool.not_eq_true', List.isEmpty_eq_false_iff,
    List.all_eq_true]

theorem isDigit_digitChar {d : Nat} (h : d < 10) : (digitChar d).isDigit = true := by
  interval_cases d <;> decide

theorem digitValue_digitChar {d : Nat} (h : d < 10) : digitValue (digitChar d) = d := by
  interval_cases d <;> decide

theorem isDigit_of_mem_write {n : Nat} {c : Char} (h : c ∈ write n) : c.isDigit = true := by
  rw [write] at h
  split at h
  · obtain rfl : c = '0' := List.mem_singleton.mp h
    decide
  · obtain ⟨d, hd, rfl⟩ := List.mem_map.mp (List.mem_reverse.mp h)
    exact isDigit_digitChar (Radix.lt_of_mem_digits (by decide) hd)

theorem write_ne_nil (n : Nat) : write n ≠ [] := by
  rw [write]
  split
  · exact List.cons_ne_nil _ _
  · rename_i positive
    have some : Radix.digits 10 n ≠ [] := Radix.digits_ne_nil (by decide) (by omega)
    simpa using some

/-- Every reader of an integer accepts a numeral. -/
theorem isNumeral_write (n : Nat) : isNumeral (write n) = true :=
  isNumeral_iff.mpr ⟨write_ne_nil n, fun _ => isDigit_of_mem_write⟩

/-- **A numeral is read back as its number.** -/
theorem read_write (n : Nat) : read (write n) = n := by
  rw [write]
  split
  · rename_i zero
    rw [zero]
    rfl
  · have values : ((Radix.digits 10 n).map digitChar).map digitValue = Radix.digits 10 n := by
      rw [List.map_map]
      refine (List.map_congr_left fun d hd => ?_).trans (List.map_id _)
      exact digitValue_digitChar (Radix.lt_of_mem_digits (by decide) hd)
    rw [read, List.reverse_reverse, values, Radix.value_digits (by decide)]

/-- A numeral has no leading zero. -/
theorem eq_zero_of_head_write {n : Nat} (h : (write n).head? = some '0') : write n = ['0'] := by
  rw [write] at h ⊢
  split
  · rfl
  · rename_i positive
    rw [if_neg positive, List.head?_reverse, List.getLast?_map] at h
    obtain ⟨d, last, char⟩ := Option.map_eq_some_iff.mp h
    have small : d < 10 := Radix.lt_of_mem_digits (by decide) (List.mem_of_getLast? last)
    have zero : d = 0 := by
      have value := digitValue_digitChar small
      rw [char] at value
      exact value.symm
    rw [zero] at last
    exact absurd last (Radix.getLast?_digits_ne (by decide) n)

@[simp] theorem toList_text (n : Nat) : (text n).toList = write n := String.toList_ofList

/-! ### The number of a text -/

/-- A text spells a number: it has at least one character, all of them are among the ten digits, and
every digit is worth ten times less than the one before it. -/
structure Spells (s : List Char) (n : Nat) : Prop where
  some : s ≠ []
  digits : ∀ c ∈ s, '0' ≤ c ∧ c ≤ '9'
  value : s.foldl (fun m c => 10 * m + (c.toNat - '0'.toNat)) 0 = n

theorem isDigit_iff {c : Char} : c.isDigit = true ↔ '0' ≤ c ∧ c ≤ '9' := by
  rw [Char.isDigit, Bool.and_eq_true_iff, decide_eq_true_iff, decide_eq_true_iff]
  exact Iff.rfl

theorem digitValue_lt {c : Char} (h : c.isDigit = true) : digitValue c < 10 := by
  have range := Text.toNat_of_isDigit h
  rw [digitValue]
  omega

theorem digitChar_digitValue {c : Char} (h : c.isDigit = true) : digitChar (digitValue c) = c := by
  have range := Text.toNat_of_isDigit h
  rw [digitChar, digitValue, Nat.add_sub_cancel' range.1, Char.ofNat_toNat]

theorem read_eq_foldl (s : List Char) :
    read s = s.foldl (fun m c => 10 * m + (c.toNat - '0'.toNat)) 0 := by
  rw [read, List.map_reverse, Radix.value_reverse, List.foldl_map]
  rfl

/-- **The reader of numerals is exact**: it takes what spells a number, as this number. -/
theorem spells_iff {s : List Char} {n : Nat} : Spells s n ↔ isNumeral s = true ∧ read s = n := by
  rw [isNumeral_iff, read_eq_foldl]
  constructor
  · intro h
    exact ⟨⟨h.some, fun c hc => isDigit_iff.mpr (h.digits c hc)⟩, h.value⟩
  · intro h
    obtain ⟨⟨some, digits⟩, value⟩ := h
    exact ⟨some, fun c hc => isDigit_iff.mp (digits c hc), value⟩

/-- A text of digits is that of its number with zeros in front. -/
theorem exists_zeros {s : List Char} (h : isNumeral s = true) :
    ∃ zeros, s = List.replicate zeros '0' ++ write (read s) := by
  obtain ⟨some, digits⟩ := isNumeral_iff.mp h
  have chars : (s.map digitValue).map digitChar = s := by
    rw [List.map_map]
    exact (List.map_congr_left fun c hc => digitChar_digitValue (digits c hc)).trans (List.map_id _)
  -- In base ten the digits of the text are leading zeros and the digits of its number.
  have bound : ∀ d ∈ s.map digitValue, d < 10 := fun d hd => by
    obtain ⟨c, hc, rfl⟩ := List.mem_map.mp hd
    exact digitValue_lt (digits c hc)
  have split := Radix.respell_self (by decide) bound
  have number : Radix.value 10 (s.map digitValue).reverse = read s := by
    rw [← List.map_reverse]
    rfl
  have whole : List.replicate (Radix.leadingZeros (s.map digitValue)) '0'
      ++ ((Radix.digits 10 (read s)).map digitChar).reverse = s := by
    conv_rhs => rw [← chars, ← split]
    rw [Radix.respell, number, List.map_append, List.map_replicate, List.map_reverse]
    rfl
  rw [write]
  split_ifs with zero
  · -- Of the zeros of zero, the last one is its numeral.
    rw [zero, Radix.digits_zero, List.map_nil, List.reverse_nil, List.append_nil] at whole
    cases count : Radix.leadingZeros (s.map digitValue) with
    | zero =>
        rw [count] at whole
        exact absurd whole.symm some
    | succ count' =>
        refine ⟨count', ?_⟩
        rw [← whole, count, ← List.replicate_succ']
  · exact ⟨_, whole.symm⟩

theorem read_zeros_append (zeros n : Nat) :
    read (List.replicate zeros '0' ++ write n) = n := by
  have value : digitValue '0' = 0 := rfl
  rw [read, List.reverse_append, List.reverse_replicate, List.map_append, List.map_replicate, value,
    Radix.value_append_zeros]
  exact read_write n

/-- **All texts of a number** are its numeral with zeros in front. -/
theorem spells_iff_exists_zeros {s : List Char} {n : Nat} :
    Spells s n ↔ ∃ zeros, s = List.replicate zeros '0' ++ write n := by
  rw [spells_iff]
  constructor
  · intro h
    obtain ⟨numeral, rfl⟩ := h
    exact exists_zeros numeral
  · intro h
    obtain ⟨zeros, rfl⟩ := h
    refine ⟨isNumeral_iff.mpr ⟨?_, fun c hc => ?_⟩, read_zeros_append zeros n⟩
    · exact List.append_ne_nil_of_right_ne_nil _ (write_ne_nil n)
    · rcases List.mem_append.mp hc with hc | hc
      · rw [List.eq_of_mem_replicate hc]
        decide
      · exact isDigit_of_mem_write hc

theorem spells_text (n : Nat) : Spells (text n).toList n :=
  spells_iff_exists_zeros.mpr ⟨0, toList_text n⟩

end Decimal

end ZkCommand
