import Mathlib
import ZkCommand.Proofs.Json.Failures
import ZkCommand.Proofs.Relaxed.Read
import ZkCommand.Proofs.Text.Position

/-!
# ZkCommand.Proofs.Relaxed.Positions

**The place of a failure** is in the text that it is about: in the source, counted in characters, if
a string or a block comment is never closed, and in the normalised text, counted in bytes, if that
is not JSON. If what is refused there is a number in a text of its own, the place is in that text.
Lines count from one. A column tells how many bytes of the line have been read, so it is zero for
the empty text and right behind a line break, and nowhere else (`readTree_place`).
-/

namespace ZkCommand.Relaxed

open Text

/-- Reading stopped at the start of a line: nothing is there to be read, or the last character that
was read is a line break. -/
def StopsAtLineStart (json : List Char) (unread : Nat) : Prop :=
  json = [] ∨ ∃ front back, json = front ++ '\n' :: back ∧ unread = Utf8.size back

theorem place_of_unclosed {source : List Char} {fault : Fault}
    (h : strictText source = .error fault) :
    fault.place.Within List.length source ∧ 1 ≤ fault.place.column := by
  obtain ⟨u, -, rfl⟩ := strictText_eq_error_iff.mp h
  rw [Construct.place_fault]
  constructor
  · have within := Position.within_ofCharAfter (source.take (source.length - u.unread))
      (source.drop (source.length - u.unread))
    rwa [List.take_append_drop] at within
  · rw [Position.ofCharAfter_eq]
    exact Nat.le_add_left 1 _

theorem column_eq_zero_iff {json : List Char} {failure : Json.Failure}
    (h : Json.readTree json = .error failure) :
    (Fault.ofFailure json failure).place.column = 0 ↔
      StopsAtLineStart (failure.text.getD json) failure.unread := by
  have bound := (Json.in_of_readTree h).unread
  rw [Fault.ofFailure, Fault.place]
  generalize failure.text.getD json = text at bound ⊢
  rw [Position.column_ofByteCount_eq_zero_iff (Nat.sub_le _ _)]
  constructor
  · rintro ⟨front, back, rfl, count, start⟩
    rcases lastLine_eq_nil_iff.mp start with rfl | ⟨front, rfl⟩
    · -- Some of a text that is not empty has been read.
      refine .inl (Utf8.size_eq_zero_iff.mp ?_)
      rw [Utf8.size] at count
      omega
    · refine .inr ⟨front, back, ?_, ?_⟩
      · rw [List.append_assoc, List.singleton_append]
      · rw [Utf8.size_append] at count bound
        omega
  · rintro (rfl | ⟨front, back, rfl, unread⟩)
    · exact ⟨[], [], rfl, Nat.zero_sub _, rfl⟩
    · refine ⟨front ++ ['\n'], back, ?_, ?_, lastLine_concat_break front⟩
      · rw [List.append_assoc, List.singleton_append]
      · rw [unread, ← List.singleton_append, ← List.append_assoc, Utf8.size_append,
          Nat.add_sub_cancel]

/-- **Every failure is in a text**: on one of its lines, and not further to the right than one past
the end of that. The text is the source or the normalised text, or a string in that which holds a
number. The column is zero where a syntax error was found at the start of a line, and at least one
elsewhere. -/
theorem readTree_place {text : String} {fault : Fault} (h : readTree text = .error fault) :
    (strictText text.toList = .error fault ∧ fault.place.Within List.length text.toList ∧
      1 ≤ fault.place.column) ∨
    ∃ json failure, strictText text.toList = .ok json ∧ Json.readTree json = .error failure ∧
      fault = .ofFailure json failure ∧
      (∀ number, failure.text = some number → Json.NumberIn json number) ∧
      fault.place.Within Utf8.size (failure.text.getD json) ∧
      (fault.place.column = 0 ↔
        StopsAtLineStart (failure.text.getD json) failure.unread) := by
  rcases readTree_eq_error_iff.mp h with unclosed | ⟨json, failure, normalised, refused, rfl⟩
  · obtain ⟨within, column⟩ := place_of_unclosed unclosed
    exact .inl ⟨unclosed, within, column⟩
  · exact .inr ⟨json, failure, normalised, refused, rfl, (Json.in_of_readTree refused).text,
      Position.within_ofByteCount (Nat.sub_le _ _), column_eq_zero_iff refused⟩

/-- A comma is missing behind two characters of the second line. -/
theorem readTree_place_comma : Position.Within Utf8.size "[1,\n2 3]".toList ⟨2, 3⟩ := by
  have read : readTree "[1n,\n2 3]" = .error (.malformed ⟨2, 3⟩ .expectedListEnd) := by cbv
  have strict : strictText "[1n,\n2 3]".toList = .ok "[1,\n2 3]".toList := by cbv
  have json : Json.readTree "[1,\n2 3]".toList = .error ⟨.expectedListEnd, 2, true, none⟩ := by cbv
  rcases readTree_place read with ⟨unclosed, -⟩ | ⟨_, failure, normalised, refused, -, -, within, -⟩
  · rw [strict] at unclosed
    cases unclosed
  · obtain rfl := Except.ok.inj (strict.symm.trans normalised)
    obtain rfl := Except.error.inj (json.symm.trans refused)
    exact within

/-- Columns are not counted from one: an empty text is refused before its first column, and so is
what stops right behind a line break. -/
theorem readTree_column_zero :
    readTree "" = .error (.malformed ⟨1, 0⟩ .endOfValue) ∧
      readTree "[1,\n" = .error (.malformed ⟨2, 0⟩ .endOfValue) ∧
      ¬ ∀ text fault, readTree text = .error fault → 1 ≤ fault.place.column := by
  have empty : readTree "" = .error (.malformed ⟨1, 0⟩ .endOfValue) := by cbv
  refine ⟨empty, by cbv, fun counted => ?_⟩
  have column : 1 ≤ 0 := counted "" _ empty
  exact absurd column (by decide)

end ZkCommand.Relaxed
