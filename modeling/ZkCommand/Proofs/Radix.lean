import Mathlib.Data.List.TakeWhile
import Mathlib.Data.Nat.Digits.Lemmas
import ZkCommand.Radix

/-!
# ZkCommand.Proofs.Radix

**Numerals in two bases.** The digits of a number are those of the library's positional numerals, so
a digit list without superfluous zeros is the one that is written for its number. `respell` carries
a numeral, most significant digit first, from one base to another and keeps its leading zeros by
their number; doing so and going back changes nothing.
-/

namespace ZkCommand.Radix

variable {base base' : Nat}

/-! ### Digits of a number -/

theorem value_eq_ofDigits (base : Nat) (ds : List Nat) : value base ds = Nat.ofDigits base ds := by
  induction ds with
  | nil => rfl
  | cons d ds ih => rw [value, ih, Nat.ofDigits_cons]

theorem digits_eq (hb : 1 < base) (n : Nat) : digits base n = Nat.digits base n := by
  induction n using Nat.strongRecOn with
  | _ n ih =>
    by_cases hn : 0 < n
    · rw [digits_of_pos hb hn, Nat.digits_def' hb hn, ih _ (Nat.div_lt_self hn hb)]
    · obtain rfl : n = 0 := by omega
      rw [digits_zero, Nat.digits_zero]

theorem digits_ne_nil {n : Nat} (hb : 1 < base) (hn : 0 < n) : digits base n ≠ [] := by
  rw [digits_of_pos hb hn]
  exact List.cons_ne_nil _ _

/-- The most significant digit of a number is not zero. -/
theorem getLast?_digits_ne (hb : 1 < base) (n : Nat) : (digits base n).getLast? ≠ some 0 := by
  rw [digits_eq hb]
  by_cases hn : n = 0
  · rw [hn, Nat.digits_zero]
    simp
  · rw [List.getLast?_eq_getLast_of_ne_nil (Nat.digits_ne_nil_iff_ne_zero.mpr hn)]
    exact fun zero => Nat.getLast_digit_ne_zero base hn (Option.some.inj zero)

/-- Digits whose most significant one is not zero are the digits of their number. -/
theorem digits_value (hb : 1 < base) {ds : List Nat} (bound : ∀ d ∈ ds, d < base)
    (last : ds.getLast? ≠ some 0) : digits base (value base ds) = ds := by
  rw [digits_eq hb, value_eq_ofDigits]
  refine Nat.digits_ofDigits base hb ds bound fun some zero => last ?_
  rw [List.getLast?_eq_getLast_of_ne_nil some, zero]

/-- Superfluous zeros do not count. -/
theorem value_append_zeros (base : Nat) (ds : List Nat) (count : Nat) :
    value base (ds ++ List.replicate count 0) = value base ds := by
  rw [value_eq_ofDigits, Nat.ofDigits_append_replicate_zero, ← value_eq_ofDigits]

/-- Digits that are read from the most significant one on raise what is already there by one
place. -/
theorem value_reverse (base : Nat) (ds : List Nat) :
    value base ds.reverse = ds.foldl (fun n d => base * n + d) 0 := by
  induction ds using List.reverseRecOn with
  | nil => rfl
  | append_singleton ds d ih =>
      rw [List.reverse_append, List.reverse_singleton, List.singleton_append, value, ih,
        List.foldl_append]
      exact Nat.add_comm _ _

/-- A number has no more digits than it takes to stay below a power of the base. -/
theorem length_digits_le_iff (hb : 1 < base) {n count : Nat} :
    (digits base n).length ≤ count ↔ n < base ^ count := by
  rw [digits_eq hb]
  exact Nat.digits_length_le_iff hb n

/-- Of two digit lists of one length, no two have the same number. -/
theorem value_inj (hb : 1 < base) {ds ds' : List Nat} (length : ds.length = ds'.length)
    (bound : ∀ d ∈ ds, d < base) (bound' : ∀ d ∈ ds', d < base)
    (h : value base ds = value base ds') : ds = ds' := by
  rw [value_eq_ofDigits, value_eq_ofDigits] at h
  exact Nat.ofDigits_inj_of_len_eq hb length bound bound' h

/-! ### From base to base -/

/-- The number of leading zeros. -/
def leadingZeros (ds : List Nat) : Nat := (ds.takeWhile (· == 0)).length

/-- A numeral of one base in another one. A leading zero stays a leading zero. -/
def respell (base base' : Nat) (ds : List Nat) : List Nat :=
  List.replicate (leadingZeros ds) 0 ++ (digits base' (value base ds.reverse)).reverse

theorem lt_of_mem_respell (hb : 1 < base') {ds : List Nat} {d : Nat}
    (h : d ∈ respell base base' ds) : d < base' := by
  rcases List.mem_append.mp h with h | h
  · rw [(List.mem_replicate.mp h).2]
    omega
  · exact lt_of_mem_digits hb (List.mem_reverse.mp h)

theorem leadingZeros_respell (hb : 1 < base') (ds : List Nat) :
    leadingZeros (respell base base' ds) = leadingZeros ds := by
  -- Only zeros are put in front, and the digits behind them do not start with one.
  have stops : (digits base' (value base ds.reverse)).reverse.takeWhile (· == 0) = [] := by
    have first := getLast?_digits_ne hb (value base ds.reverse)
    rw [← List.head?_reverse] at first
    cases h : (digits base' (value base ds.reverse)).reverse with
    | nil => rfl
    | cons d rest =>
        rw [h] at first
        exact List.takeWhile_cons_of_neg (by simpa using first)
  rw [leadingZeros, respell, List.takeWhile_append_of_pos (by simp), stops, List.append_nil,
    List.length_replicate]

theorem value_respell (hb : 1 < base') (ds : List Nat) :
    value base' (respell base base' ds).reverse = value base ds.reverse := by
  rw [respell, List.reverse_append, List.reverse_reverse, List.reverse_replicate,
    value_append_zeros, value_digits hb]

/-- A numeral is spelled in its own base as it is. -/
theorem respell_self (hb : 1 < base) {ds : List Nat} (bound : ∀ d ∈ ds, d < base) :
    respell base base ds = ds := by
  have zeros : ds.takeWhile (· == 0) = List.replicate (leadingZeros ds) 0 := by
    refine List.eq_replicate_iff.mpr ⟨rfl, fun d hd => ?_⟩
    simpa using List.mem_takeWhile_imp hd
  have split : List.replicate (leadingZeros ds) 0 ++ ds.dropWhile (· == 0) = ds := by
    rw [← zeros, List.takeWhile_append_dropWhile]
  have last : (ds.dropWhile (· == 0)).reverse.getLast? ≠ some 0 := by
    rw [List.getLast?_reverse]
    intro zero
    have stops := List.head?_dropWhile_not (· == 0) ds
    rw [zero] at stops
    exact absurd stops (by decide)
  have number : value base ds.reverse = value base (ds.dropWhile (· == 0)).reverse := by
    conv_lhs => rw [← split, List.reverse_append, List.reverse_replicate, value_append_zeros]
  have rest : digits base (value base ds.reverse) = (ds.dropWhile (· == 0)).reverse := by
    rw [number, digits_value hb (fun d hd => ?_) last]
    exact bound d ((List.dropWhile_sublist _).subset (List.mem_reverse.mp hd))
  rw [respell, rest, List.reverse_reverse, split]

/-- **Nothing is lost between two bases**, not even the number of leading zeros. -/
theorem respell_respell (hb : 1 < base) (hb' : 1 < base') {ds : List Nat}
    (bound : ∀ d ∈ ds, d < base) : respell base' base (respell base base' ds) = ds := by
  rw [respell, leadingZeros_respell hb', value_respell hb']
  exact respell_self hb bound

end ZkCommand.Radix
