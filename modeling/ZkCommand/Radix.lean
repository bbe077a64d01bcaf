/-!
# ZkCommand.Radix

**Positional numerals.** A number and its digits in a base, the least significant digit first.
`value` reads every digit list; `digits` writes the one without superfluous zeros, so writing
and reading back is the identity, and zero has no digits at all.
-/

namespace ZkCommand.Radix

/-- The number that a digit list stands for. -/
def value (base : Nat) : List Nat → Nat
  | [] => 0
  | d :: ds => d + base * value base ds

/-- The digits of a number, none for zero and none in a base that has no digits to count with. -/
def digits (base n : Nat) : List Nat :=
  if _h : 1 < base ∧ 0 < n then n % base :: digits base (n / base) else []
termination_by n
decreasing_by exact Nat.div_lt_self _h.2 _h.1

/-! ### Writing and reading back -/

@[simp] theorem digits_zero (base : Nat) : digits base 0 = [] := by
  rw [digits]; simp

theorem digits_of_pos {base n : Nat} (hb : 1 < base) (hn : 0 < n) :
    digits base n = n % base :: digits base (n / base) := by
  rw [digits]; simp [hb, hn]

theorem value_digits {base : Nat} (hb : 1 < base) (n : Nat) : value base (digits base n) = n := by
  induction n using Nat.strongRecOn with
  | _ n ih =>
    by_cases hn : 0 < n
    · rw [digits_of_pos hb hn, value, ih _ (Nat.div_lt_self hn hb), Nat.mod_add_div]
    · obtain rfl : n = 0 := by omega
      simp [value]

theorem lt_of_mem_digits {base : Nat} (hb : 1 < base) {n d : Nat} (h : d ∈ digits base n) :
    d < base := by
  induction n using Nat.strongRecOn with
  | _ n ih =>
    by_cases hn : 0 < n
    · rw [digits_of_pos hb hn, List.mem_cons] at h
      rcases h with rfl | h
      · exact Nat.mod_lt _ (by omega)
      · exact ih _ (Nat.div_lt_self hn hb) h
    · obtain rfl : n = 0 := by omega
      simp at h

end ZkCommand.Radix
