import Mathlib.Data.List.Forall2
import ZkCommand.Proofs.Decimal
import ZkCommand.Witness.Reference

/-!
# ZkCommand.Proofs.Witness.Reference

**References are read exactly.** A tree is read as a reference if and only if it is a list of pairs
of components (`Pair`), and otherwise the error names the first entry that is no such pair. A
component is written in digits only, or as a string of digits with the suffix of big integers behind
them. The form that is meant has the suffix at most once (`atMostOnce`); the form that is read has
it any number of times.
-/

namespace ZkCommand.Witness

open Text

/-! ### The form of a reference -/

/-- A component of a pair and the number that it stands for: a number written in digits only, or a
string of digits with the suffix behind them, as often as `times` allows. -/
inductive Component (times : Nat → Prop) : Tree → Nat → Prop
  | number {literal : String} (isNumeral : Decimal.isNumeral literal.toList = true) :
      Component times (.num literal) (Decimal.read literal.toList)
  | string {digits : List Char} (isNumeral : Decimal.isNumeral digits = true) {count : Nat}
      (allowed : times count) :
      Component times (.str (String.ofList (digits ++ List.replicate count 'n')))
        (Decimal.read digits)

/-- An entry of a reference and its primitive. -/
inductive Pair (times : Nat → Prop) : Tree → Primitive → Prop
  | intro {value width : Tree} {p : Primitive} (hvalue : Component times value p.value)
      (hwidth : Component times width p.width) (narrow : p.width < 2 ^ 32) :
      Pair times (.list [value, width]) p

/-- The suffix may be written once or not at all. -/
def atMostOnce (count : Nat) : Prop := count ≤ 1

/-- The suffix may be written any number of times. -/
def anyTimes (_count : Nat) : Prop := True

/-- The index at which a tree is not the list of pairs that it should be: that of the first entry
that is no pair, and zero if it is no list. -/
inductive Offends (times : Nat → Prop) : Tree → Nat → Prop
  | noList {t : Tree} (other : t.kind ≠ .list) : Offends times t 0
  | entry {before after : List Tree} {t : Tree} (fine : ∀ u ∈ before, ∃ p, Pair times u p)
      (bad : ∀ p, ¬ Pair times t p) : Offends times (.list (before ++ t :: after)) before.length

/-! ### The suffix -/

theorem dropSuffix_append {digits : List Char} (h : Decimal.isNumeral digits = true)
    (count : Nat) : dropSuffix (digits ++ List.replicate count 'n') = digits := by
  have stops : digits.reverse.head?.any (fun c => decide (c = 'n')) = false := by
    rw [List.head?_reverse]
    cases last : digits.getLast? with
    | none => rfl
    | some c =>
        have digit : c.isDigit = true :=
          (Decimal.isNumeral_iff.mp h).2 c (List.mem_of_getLast? last)
        have other : c ≠ 'n' := ne_of_isDigit digit (by decide)
        simpa using other
  have suffix : ∀ c ∈ List.replicate count 'n', decide (c = 'n') = true := by
    intro c hc
    simpa using List.eq_of_mem_replicate hc
  rw [dropSuffix, List.reverse_append, List.reverse_replicate,
    (takeWhile_append_of_head suffix stops).2, List.reverse_reverse]

/-- What is dropped from a text is the suffix, some number of times. -/
theorem exists_suffixes (s : List Char) :
    ∃ count, dropSuffix s ++ List.replicate count 'n' = s := by
  refine ⟨(s.reverse.takeWhile (· = 'n')).length, ?_⟩
  have run : s.reverse.takeWhile (· = 'n')
      = List.replicate (s.reverse.takeWhile (· = 'n')).length 'n' := by
    refine List.eq_replicate_iff.mpr ⟨rfl, fun c hc => ?_⟩
    simpa using List.mem_takeWhile_imp hc
  rw [dropSuffix, ← List.reverse_replicate, ← run, ← List.reverse_append,
    List.takeWhile_append_dropWhile, List.reverse_reverse]

/-! ### Components and pairs -/

section
variable {times : Nat → Prop}

theorem Component.of_str {text : String} {n : Nat} (h : Component times (.str text) n) :
    ∃ digits count, Decimal.isNumeral digits = true ∧ times count ∧
      text.toList = digits ++ List.replicate count 'n' := by
  generalize whole : Tree.str text = t at h
  cases h with
  | number _ => cases whole
  | @string digits isNumeral count allowed =>
      obtain rfl := Tree.str.inj whole
      exact ⟨digits, count, isNumeral, allowed, String.toList_ofList⟩

theorem Pair.value {value width : Tree} {p : Primitive} (h : Pair times (.list [value, width]) p) :
    Component times value p.value := by
  cases h with
  | intro hvalue _ _ => exact hvalue

end

theorem referenceNumeral_eq_ok_iff {text : List Char} {n : Nat} :
    referenceNumeral text = .ok n ↔ Decimal.isNumeral text = true ∧ Decimal.read text = n := by
  rw [referenceNumeral]
  split <;> simp [*]

/-- A component is read as the number that it stands for, and nothing else is read. -/
theorem referenceInteger_eq_ok_iff {t : Tree} {n : Nat} :
    referenceInteger t = .ok n ↔ Component anyTimes t n := by
  constructor
  · intro h
    cases t with
    | num literal =>
        obtain ⟨isNumeral, rfl⟩ := referenceNumeral_eq_ok_iff.mp h
        exact .number isNumeral
    | str text =>
        obtain ⟨isNumeral, rfl⟩ := referenceNumeral_eq_ok_iff.mp h
        obtain ⟨count, whole⟩ := exists_suffixes text.toList
        have component := @Component.string anyTimes _ isNumeral count trivial
        rwa [whole, String.ofList_toList] at component
    | _ => cases h
  · intro h
    cases h with
    | number isNumeral => exact referenceNumeral_eq_ok_iff.mpr ⟨isNumeral, rfl⟩
    | string isNumeral _ =>
        rw [referenceInteger, String.toList_ofList, dropSuffix_append isNumeral]
        exact referenceNumeral_eq_ok_iff.mpr ⟨isNumeral, rfl⟩

theorem referenceEntry_pair_eq_ok_iff {value width : Tree} {p : Primitive} :
    referenceEntry (.list [value, width]) = .ok p ↔
      referenceInteger value = .ok p.value ∧ referenceInteger width = .ok p.width ∧
        p.width < 2 ^ 32 := by
  rw [referenceEntry, bind_eq_ok_iff]
  constructor
  · intro h
    obtain ⟨v, hv, h⟩ := h
    obtain ⟨w, hw, h⟩ := bind_eq_ok_iff.mp h
    split at h
    · rename_i narrow
      obtain rfl := Except.ok.inj h
      exact ⟨hv, hw, narrow⟩
    · cases h
  · intro h
    obtain ⟨hv, hw, narrow⟩ := h
    refine ⟨p.value, hv, bind_eq_ok_iff.mpr ⟨p.width, hw, ?_⟩⟩
    exact if_pos narrow

/-- A pair is read as its primitive, and nothing else is read. -/
theorem referenceEntry_eq_ok_iff {t : Tree} {p : Primitive} :
    referenceEntry t = .ok p ↔ Pair anyTimes t p := by
  constructor
  · intro h
    match t with
    | .list [value, width] =>
        obtain ⟨hv, hw, narrow⟩ := referenceEntry_pair_eq_ok_iff.mp h
        exact .intro (referenceInteger_eq_ok_iff.mp hv) (referenceInteger_eq_ok_iff.mp hw) narrow
    | .list [] | .list [_] | .list (_ :: _ :: _ :: _) => cases h
    | .null | .bool _ | .num _ | .str _ | .map _ => cases h
  · intro h
    obtain ⟨hv, hw, narrow⟩ := h
    exact referenceEntry_pair_eq_ok_iff.mpr
      ⟨referenceInteger_eq_ok_iff.mpr hv, referenceInteger_eq_ok_iff.mpr hw, narrow⟩

theorem exists_cause_iff {t : Tree} :
    (∃ cause, referenceEntry t = .error cause) ↔ ∀ p, ¬ Pair anyTimes t p := by
  simp only [← referenceEntry_eq_ok_iff]
  cases referenceEntry t <;> simp

/-! ### Lists of entries -/

theorem referenceFrom_cons (index : Nat) (t : Tree) (rest : List Tree) :
    referenceFrom index (t :: rest) =
      match referenceEntry t with
      | .error cause => .error (.reference index cause)
      | .ok p => (referenceFrom (index + 1) rest).map (p :: ·) := by
  rw [referenceFrom]
  cases referenceEntry t with
  | error cause => rfl
  | ok p =>
      cases referenceFrom (index + 1) rest <;>
        simp [bind, Except.bind, Except.mapError, Except.map]

theorem referenceFrom_eq_ok_iff {index : Nat} {items : List Tree} {ps : List Primitive} :
    referenceFrom index items = .ok ps ↔ List.Forall₂ (Pair anyTimes) items ps := by
  induction items generalizing index ps with
  | nil => simp [referenceFrom, eq_comm]
  | cons t rest ih =>
      rw [referenceFrom_cons, List.forall₂_cons_left_iff]
      simp only [← @ih (index + 1), ← referenceEntry_eq_ok_iff]
      cases referenceEntry t with
      | error cause => simp
      | ok p =>
          rw [map_eq_ok_iff]
          simp [eq_comm]

/-- An entry that fails behind entries that are read fails the list. -/
theorem referenceFrom_of_fine {before : List Tree} {t : Tree} {cause : ReferenceCause}
    (fine : ∀ u ∈ before, ∃ p, referenceEntry u = .ok p) (bad : referenceEntry t = .error cause)
    (after : List Tree) (index : Nat) :
    referenceFrom index (before ++ t :: after)
      = .error (.reference (index + before.length) cause) := by
  induction before generalizing index with
  | nil =>
      rw [List.nil_append, referenceFrom_cons, bad]
      rfl
  | cons u before ih =>
      obtain ⟨⟨p, hp⟩, others⟩ := List.forall_mem_cons.mp fine
      rw [List.cons_append, referenceFrom_cons, hp, ih others, List.length_cons, Nat.add_right_comm,
        Nat.add_assoc]
      rfl

/-- A list that fails does so at its first entry that does. -/
theorem exists_bad_of_referenceFrom {index : Nat} {items : List Tree} {fault : Fault}
    (h : referenceFrom index items = .error fault) :
    ∃ before t after cause, items = before ++ t :: after ∧
      (∀ u ∈ before, ∃ p, referenceEntry u = .ok p) ∧ referenceEntry t = .error cause ∧
      fault = .reference (index + before.length) cause := by
  induction items generalizing index with
  | nil => cases h
  | cons t rest ih =>
      rw [referenceFrom_cons] at h
      cases entry : referenceEntry t with
      | error cause =>
          rw [entry] at h
          exact ⟨[], t, rest, cause, rfl, by simp, entry, (Except.error.inj h).symm⟩
      | ok p =>
          have later : referenceFrom (index + 1) rest = .error fault := by
            rw [entry] at h
            cases rest : referenceFrom (index + 1) rest with
            | error _ =>
                rw [rest] at h
                exact congrArg _ (Except.error.inj h)
            | ok ps =>
                rw [rest] at h
                cases h
          obtain ⟨before, u, after, cause, rfl, fine, bad, rfl⟩ := ih later
          refine ⟨t :: before, u, after, cause, rfl, ?_, bad, ?_⟩
          · exact List.forall_mem_cons.mpr ⟨⟨p, entry⟩, fine⟩
          · rw [List.length_cons, Nat.add_right_comm, Nat.add_assoc]

/-! ### References -/

theorem ofReference_eq_ok_iff {t : Tree} {ps : List Primitive} :
    ofReference t = .ok ps ↔ ∃ items, t = .list items ∧ List.Forall₂ (Pair anyTimes) items ps := by
  cases t with
  | list items => simp [ofReference, referenceFrom_eq_ok_iff]
  | _ => simp [ofReference]

/-- A tree that is not read offends somewhere, and that place is named. -/
theorem exists_offends {t : Tree} {fault : Fault} (h : ofReference t = .error fault) :
    ∃ index cause, fault = .reference index cause ∧ Offends anyTimes t index := by
  cases t with
  | list items =>
      obtain ⟨before, u, after, cause, rfl, fine, bad, rfl⟩ := exists_bad_of_referenceFrom h
      simp only [referenceEntry_eq_ok_iff] at fine
      refine ⟨_, cause, rfl, ?_⟩
      rw [Nat.zero_add]
      exact .entry fine (exists_cause_iff.mp ⟨cause, bad⟩)
  | null | bool _ | num _ | str _ | map _ =>
      exact ⟨0, _, (Except.error.inj h).symm, .noList Tree.Kind.noConfusion⟩

theorem exists_cause_of_offends {t : Tree} {index : Nat} (h : Offends anyTimes t index) :
    ∃ cause, ofReference t = .error (.reference index cause) := by
  cases h with
  | noList other =>
      cases t with
      | list items => exact absurd rfl other
      | _ => exact ⟨_, rfl⟩
  | @entry before after u fine bad =>
      obtain ⟨cause, bad⟩ := exists_cause_iff.mpr bad
      simp only [← referenceEntry_eq_ok_iff] at fine
      have failed := referenceFrom_of_fine fine bad after 0
      rw [Nat.zero_add] at failed
      exact ⟨cause, failed⟩

/-- **References are read exactly.** A tree is read if and only if it is a list of pairs, as their
primitives in order; the suffix of a string may stand there any number of times. If it is not read,
the error names the first entry that is no pair, or zero for a tree that is no list. -/
theorem ofReference_exact (t : Tree) :
    (∀ ps, ofReference t = .ok ps ↔
      ∃ items, t = .list items ∧ List.Forall₂ (Pair anyTimes) items ps) ∧
    (∀ index, (∃ cause, ofReference t = .error (.reference index cause)) ↔
      Offends anyTimes t index) ∧
    ((∃ ps, ofReference t = .ok ps) ∨
      ∃ index cause, ofReference t = .error (.reference index cause)) := by
  refine ⟨fun ps => ofReference_eq_ok_iff, fun index => ⟨?_, exists_cause_of_offends⟩, ?_⟩
  · intro h
    obtain ⟨cause, h⟩ := h
    obtain ⟨at', cause', same, offends⟩ := exists_offends h
    obtain ⟨rfl, -⟩ := Fault.reference.inj same
    exact offends
  · cases h : ofReference t with
    | ok ps => exact .inl ⟨ps, rfl⟩
    | error fault =>
        obtain ⟨index, cause, rfl, -⟩ := exists_offends h
        exact .inr ⟨index, cause, rfl⟩

/-- A reference whose value has the suffix twice. -/
def doubledSuffix : Tree := .list [.list [.str "1nn", .num "1"]]

/-- It is read, although the suffix is meant to stand there once at most. -/
theorem ofReference_doubledSuffix :
    ¬ ∀ (t : Tree) (ps : List Primitive), ofReference t = .ok ps ↔
      ∃ items, t = .list items ∧ List.Forall₂ (Pair atMostOnce) items ps := by
  intro claim
  obtain ⟨items, whole, each⟩ := (claim doubledSuffix [⟨1, 1⟩]).mp (by decide)
  obtain rfl := Tree.list.inj whole
  obtain ⟨first, -⟩ := List.forall₂_cons.mp each
  obtain ⟨digits, count, isNumeral, allowed, source⟩ := Component.of_str first.value
  have digit : dropSuffix "1nn".toList = digits := by
    rw [source, dropSuffix_append isNumeral]
  -- Three characters, one of which is the digit, leave room for two suffixes.
  have length : 3 = digits.length + count := by
    simpa using congrArg List.length source
  have one : digits.length = 1 := by
    rw [← digit]
    decide
  have once : count ≤ 1 := allowed
  omega

end ZkCommand.Witness
