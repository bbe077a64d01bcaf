import Mathlib.Data.List.TakeWhile
import Mathlib.Tactic.IntervalCases
import ZkCommand.Text.CodeRange
import ZkCommand.Text.Hex
import ZkCommand.Text.Utf8

/-!
# ZkCommand.Proofs.Text

**Facts about texts** that the proofs about all readers share: where a run of characters ends, that
disjoint tables have no character in common, where a byte offset may cut a text, and how a reader
that consists of two succeeds.
-/

namespace ZkCommand.Text

/-! ### Runs -/

/-- A run of characters is what a scanner takes if what follows does not go on with it. -/
theorem takeWhile_append_of_head {test : Char → Bool} {run s : List Char}
    (all : ∀ c ∈ run, test c = true) (stops : s.head?.any test = false) :
    (run ++ s).takeWhile test = run ∧ (run ++ s).dropWhile test = s := by
  have front : s.takeWhile test = [] ∧ s.dropWhile test = s := by
    cases s with
    | nil => exact ⟨rfl, rfl⟩
    | cons c rest =>
        have fails : ¬ test c = true := by simpa using stops
        exact ⟨List.takeWhile_cons_of_neg fails, List.dropWhile_cons_of_neg fails⟩
  rw [List.takeWhile_append_of_pos all, List.dropWhile_append_of_pos all, front.1, front.2]
  exact ⟨List.append_nil _, rfl⟩

/-- Two texts that are put together in one way come apart in one way. -/
theorem append_inj_of_head {test : Char → Bool} {run run' s s' : List Char}
    (all : ∀ c ∈ run, test c = true) (all' : ∀ c ∈ run', test c = true)
    (stops : s.head?.any test = false) (stops' : s'.head?.any test = false)
    (same : run ++ s = run' ++ s') : run = run' ∧ s = s' := by
  obtain ⟨taken, left⟩ := takeWhile_append_of_head all stops
  obtain ⟨taken', left'⟩ := takeWhile_append_of_head all' stops'
  rw [same] at taken left
  exact ⟨taken.symm.trans taken', left.symm.trans left'⟩

/-- What is left after a run starts with no character of the run. -/
theorem head?_dropWhile {test : Char → Bool} (s : List Char) :
    (s.dropWhile test).head?.any test = false := by
  cases h : (s.dropWhile test).head? with
  | none => rfl
  | some c =>
      have fails := List.head?_dropWhile_not test s
      rw [h] at fails
      exact fails

/-! ### Characters -/

/-- A hexadecimal digit is read back. -/
theorem Hex.digitValue?_digitChar {d : Nat} (h : d < 16) : digitValue? (digitChar d) = some d := by
  interval_cases d <;> decide

theorem toNat_of_isDigit {c : Char} (h : c.isDigit = true) : 48 ≤ c.toNat ∧ c.toNat ≤ 57 := by
  simpa [Char.isDigit, UInt32.le_iff_toNat_le] using h

theorem ne_of_isDigit {c d : Char} (h : c.isDigit = true) (mark : d.isDigit = false) : c ≠ d := by
  intro same
  rw [same, mark] at h
  cases h

/-- No character is in two tables whose ranges lie apart. -/
theorem inRanges_of_disjoint {table table' : List CodeRange} {c : Char}
    (apart : ∀ r ∈ table, ∀ r' ∈ table', r.2 < r'.1 ∨ r'.2 < r.1)
    (h : inRanges table c = true) : inRanges table' c = false := by
  obtain ⟨r, hr, inside⟩ := List.any_eq_true.mp h
  refine List.any_eq_false.mpr fun r' hr' inside' => ?_
  simp only [Bool.and_eq_true, decide_eq_true_iff] at inside inside'
  have := apart r hr r' hr'
  omega

/-! ### Byte offsets -/

/-- A text in two at a byte offset, if the offset is between two characters. -/
def Utf8.cut? : Nat → List Char → Option (List Char × List Char)
  | 0, s => some ([], s)
  | _ + 1, [] => none
  | n + 1, c :: s =>
      if c.utf8Size ≤ n + 1 then
        (cut? (n + 1 - c.utf8Size) s).map fun parts => (c :: parts.1, parts.2)
      else none

/-- The text between two byte offsets, if both are between characters. -/
def Utf8.slice? (s : List Char) (start stop : Nat) : Option (List Char) := do
  let front ← cut? stop s
  let inside ← cut? start front.1
  some inside.2

theorem Utf8.size_append (s t : List Char) : size (s ++ t) = size s + size t := by
  induction s with
  | nil => exact (Nat.zero_add _).symm
  | cons c s ih => rw [List.cons_append, size, size, ih, Nat.add_assoc]

theorem Utf8.cut?_append (s t : List Char) : cut? (size s) (s ++ t) = some (s, t) := by
  induction s with
  | nil => rw [size, cut?, List.nil_append]
  | cons c s ih =>
      obtain ⟨n, hn⟩ : ∃ n, size (c :: s) = n + 1 :=
        ⟨_, (Nat.succ_pred_eq_of_pos (Nat.add_pos_left c.utf8Size_pos _)).symm⟩
      have tail : n + 1 - c.utf8Size = size s := by
        rw [← hn, size, Nat.add_sub_cancel_left]
      rw [hn, List.cons_append, cut?, tail, ih, if_pos (by rw [← hn, size]; omega)]
      rfl

theorem Utf8.slice?_append (before inside after : List Char) :
    slice? (before ++ (inside ++ after)) (size before) (size before + size inside)
      = some inside := by
  have front := cut?_append (before ++ inside) after
  rw [size_append, List.append_assoc] at front
  rw [slice?, front]
  show (cut? (size before) (before ++ inside) >>= fun parts => some parts.2) = some inside
  rw [cut?_append]
  rfl

/-! ### Readers -/

theorem bind_eq_ok_iff {ε α β : Type} {result : Except ε α} {next : α → Except ε β} {b : β} :
    result >>= next = .ok b ↔ ∃ a, result = .ok a ∧ next a = .ok b := by
  cases result <;> simp [bind, Except.bind]

theorem bind_eq_error_iff {ε α β : Type} {result : Except ε α} {next : α → Except ε β} {e : ε} :
    result >>= next = .error e ↔
      result = .error e ∨ ∃ a, result = .ok a ∧ next a = .error e := by
  cases result <;> simp [bind, Except.bind]

theorem map_eq_ok_iff {ε α β : Type} {result : Except ε α} {f : α → β} {b : β} :
    result.map f = .ok b ↔ ∃ a, result = .ok a ∧ f a = b := by
  cases result <;> simp [Except.map]

theorem mapError_eq_ok_iff {ε ε' α : Type} {result : Except ε α} {f : ε → ε'} {a : α} :
    result.mapError f = .ok a ↔ result = .ok a := by
  cases result <;> simp [Except.mapError]

theorem mapError_eq_error_iff {ε ε' α : Type} {result : Except ε α} {f : ε → ε'} {e : ε'} :
    result.mapError f = .error e ↔ ∃ e', result = .error e' ∧ f e' = e := by
  cases result <;> simp [Except.mapError]

end ZkCommand.Text
