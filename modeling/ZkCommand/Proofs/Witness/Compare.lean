import Mathlib.Data.List.Zip
import ZkCommand.Witness.Compare

/-!
# ZkCommand.Proofs.Witness.Compare

**What a comparison tells.** The mismatches are the numbered pairs of both sequences whose two
components differ (`mismatchesFrom_eq`). So they are all differences over the common length and
nothing else, in increasing order, and two sequences match if and only if they are the same.
-/

namespace ZkCommand.Witness

/-! ### Matches -/

/-- Sequences of one length differ nowhere only if they are the same. -/
theorem mismatchesFrom_eq_nil_iff {index : Nat} {decoded reference : List Primitive}
    (same : decoded.length = reference.length) :
    mismatchesFrom index decoded reference = [] ↔ decoded = reference := by
  induction decoded generalizing index reference with
  | nil =>
      obtain rfl := List.length_eq_zero_iff.mp same.symm
      exact iff_of_true rfl rfl
  | cons d ds ih =>
      cases reference with
      | nil => cases same
      | cons r rs =>
          have rest := @ih (index + 1) rs (Nat.succ.inj same)
          rw [mismatchesFrom]
          split
          · rename_i equal
            rw [rest, equal, List.cons_inj_right]
          · rename_i other
            simp [other]

theorem lengthMismatch_compare_iff {decoded reference : List Primitive} :
    (compare decoded reference).lengthMismatch = true ↔ decoded.length ≠ reference.length :=
  bne_iff_ne

/-- **A comparison is a match if and only if the sequences are the same.** -/
theorem isMatch_compare_iff {decoded reference : List Primitive} :
    (compare decoded reference).isMatch = true ↔ decoded = reference := by
  rw [Report.isMatch, Bool.and_eq_true_iff, Bool.not_eq_true', List.isEmpty_iff,
    ← Bool.not_eq_true, lengthMismatch_compare_iff, Decidable.not_not]
  constructor
  · rintro ⟨same, none⟩
    exact (mismatchesFrom_eq_nil_iff same).mp none
  · rintro rfl
    exact ⟨rfl, (mismatchesFrom_eq_nil_iff rfl).mpr rfl⟩

/-! ### Places of mismatches -/

/-- A numbered pair as a mismatch. -/
def Mismatch.ofPair (p : (Primitive × Primitive) × Nat) : Mismatch := ⟨p.2, p.1.1, p.1.2⟩

/-- The same mismatch seen from the reference. -/
def Mismatch.swap (m : Mismatch) : Mismatch := ⟨m.index, m.reference, m.decoded⟩

/-- The pairs are numbered before the equal ones are left out. -/
theorem mismatchesFrom_eq (index : Nat) (decoded reference : List Primitive) :
    mismatchesFrom index decoded reference
      = (((decoded.zip reference).zipIdx index).filter fun p => p.1.1 ≠ p.1.2).map
          Mismatch.ofPair := by
  induction decoded generalizing index reference with
  | nil => rfl
  | cons d ds ih =>
      cases reference with
      | nil => rfl
      | cons r rs =>
          rw [mismatchesFrom, ih, List.zip_cons_cons, List.zipIdx_cons]
          split
          · rename_i equal
            rw [List.filter_cons_of_neg (by simpa using equal)]
          · rename_i other
            rw [List.filter_cons_of_pos (by simpa using other), List.map_cons]
            rfl

theorem mem_mismatchesFrom_zero_iff {decoded reference : List Primitive} {m : Mismatch} :
    m ∈ mismatchesFrom 0 decoded reference ↔
      decoded[m.index]? = some m.decoded ∧ reference[m.index]? = some m.reference ∧
        m.decoded ≠ m.reference := by
  have place (p : (Primitive × Primitive) × Nat) :
      p ∈ (decoded.zip reference).zipIdx ↔
        decoded[p.2]? = some p.1.1 ∧ reference[p.2]? = some p.1.2 :=
    List.mk_mem_zipIdx_iff_getElem?.trans List.getElem?_zip_eq_some
  simp only [mismatchesFrom_eq, List.mem_map, List.mem_filter, decide_eq_true_eq, place]
  constructor
  · rintro ⟨p, ⟨⟨left, right⟩, other⟩, rfl⟩
    exact ⟨left, right, other⟩
  · rintro ⟨left, right, other⟩
    exact ⟨((m.decoded, m.reference), m.index), ⟨⟨left, right⟩, other⟩, rfl⟩

/-- The numbers of the pairs increase, and leaving some out keeps their order. -/
theorem pairwise_mismatchesFrom (index : Nat) (decoded reference : List Primitive) :
    (mismatchesFrom index decoded reference).Pairwise fun m m' => m.index < m'.index := by
  have numbered : ((decoded.zip reference).zipIdx index).Pairwise fun p p' => p.2 < p'.2 := by
    rw [← List.pairwise_map (f := Prod.snd), List.zipIdx_map_snd]
    exact List.pairwise_lt_range' 1
  rw [mismatchesFrom_eq, List.pairwise_map]
  exact numbered.filter _

/-! ### Exchange and common tails -/

theorem mismatchesFrom_swap (index : Nat) (decoded reference : List Primitive) :
    mismatchesFrom index reference decoded
      = (mismatchesFrom index decoded reference).map Mismatch.swap := by
  induction decoded generalizing index reference with
  | nil => cases reference <;> rfl
  | cons d ds ih =>
      cases reference with
      | nil => rfl
      | cons r rs =>
          rw [mismatchesFrom, mismatchesFrom, ih]
          by_cases equal : d = r
          · rw [if_pos equal.symm, if_pos equal]
          · rw [if_neg (Ne.symm equal), if_neg equal, List.map_cons]
            rfl

theorem mismatchesFrom_append {decoded reference : List Primitive}
    (same : decoded.length = reference.length) (index : Nat) (ds rs : List Primitive) :
    mismatchesFrom index (decoded ++ ds) (reference ++ rs)
      = mismatchesFrom index decoded reference
        ++ mismatchesFrom (index + (decoded.zip reference).length) ds rs := by
  simp only [mismatchesFrom_eq, List.zip_append same, List.zipIdx_append, List.filter_append,
    List.map_append]

/-! ### Comparisons -/

/-- **A comparison finds every difference and nothing else.** The mismatches are the positions of
the common length at which value or width differ, each with its own pair, in increasing order.
Exchanging the sequences exchanges the pairs, and a common tail behind sequences of one length adds
nothing. -/
theorem compare_exact (decoded reference : List Primitive) :
    (compare decoded reference).mismatches.Pairwise (fun m m' => m.index < m'.index) ∧
    (∀ m, m ∈ (compare decoded reference).mismatches ↔
      decoded[m.index]? = some m.decoded ∧ reference[m.index]? = some m.reference ∧
        (m.decoded.value ≠ m.reference.value ∨ m.decoded.width ≠ m.reference.width)) ∧
    ((compare decoded reference).lengthMismatch = true ↔
      decoded.length ≠ reference.length) ∧
    (compare decoded reference).compared = min decoded.length reference.length ∧
    ((compare decoded reference).isMatch = true ↔ decoded = reference) ∧
    (compare reference decoded).mismatches
      = (compare decoded reference).mismatches.map Mismatch.swap ∧
    (decoded.length = reference.length → ∀ tail,
      (compare (decoded ++ tail) (reference ++ tail)).mismatches
        = (compare decoded reference).mismatches) := by
  have differ (p q : Primitive) : p ≠ q ↔ p.value ≠ q.value ∨ p.width ≠ q.width := by
    obtain ⟨value, width⟩ := p
    obtain ⟨value', width'⟩ := q
    rw [Ne, Primitive.mk.injEq, Decidable.not_and_iff_or_not]
  refine ⟨pairwise_mismatchesFrom 0 decoded reference, fun m => ?_, lengthMismatch_compare_iff, rfl,
    isMatch_compare_iff, mismatchesFrom_swap 0 decoded reference, fun same tail => ?_⟩
  · rw [← differ]
    exact mem_mismatchesFrom_zero_iff
  · have none : mismatchesFrom (0 + (decoded.zip reference).length) tail tail = [] :=
      (mismatchesFrom_eq_nil_iff rfl).mpr rfl
    exact (mismatchesFrom_append same 0 tail tail).trans (by rw [none, List.append_nil]; rfl)

/-- Equal values of different widths differ, whatever common tail follows them. -/
theorem compare_exact_widths :
    [(⟨3, 32⟩ : Primitive)].length = [(⟨3, 64⟩ : Primitive)].length ∧
    ∀ tail, (compare ([⟨3, 32⟩] ++ tail) ([⟨3, 64⟩] ++ tail)).mismatches
      = [⟨0, ⟨3, 32⟩, ⟨3, 64⟩⟩] := by
  obtain ⟨-, -, -, -, -, -, tails⟩ := compare_exact [⟨3, 32⟩] [⟨3, 64⟩]
  exact ⟨rfl, tails rfl⟩

end ZkCommand.Witness
