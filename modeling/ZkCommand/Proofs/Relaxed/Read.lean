import ZkCommand.Proofs.Text
import ZkCommand.Relaxed.Read

/-!
# ZkCommand.Proofs.Relaxed.Read

**How a text is read or refused.** It is read if it is normalised to JSON. It is refused for what it
leaves open, with a place in the source (`strictText_eq_error_iff`), or because its normalised text
is not JSON, with a place in that (`readTree_eq_error_iff`).
-/

namespace ZkCommand.Relaxed

open Text

/-- The failure of a text in which a construct is open from a place on. -/
def Construct.fault : Construct → Position → Fault
  | .string => .unterminatedString
  | .comment => .unterminatedComment

@[simp] theorem Construct.place_fault (construct : Construct) (place : Position) :
    (construct.fault place).place = place := by
  cases construct <;> rfl

theorem Construct.fault_inj {construct construct' : Construct} {place place' : Position} :
    construct.fault place = construct'.fault place' ↔ construct = construct' ∧ place = place' := by
  cases construct <;> cases construct' <;> simp [fault]

theorem strictText_eq_ok_iff {source json : List Char} :
    strictText source = .ok json ↔ normalise source = .ok json := mapError_eq_ok_iff

/-- What is open is told of at the place where it is still unread. -/
theorem strictText_eq_error_iff {source : List Char} {fault : Fault} :
    strictText source = .error fault ↔
      ∃ u, normalise source = .error u ∧
        u.construct.fault (Position.ofCharAfter (source.take (source.length - u.unread)))
          = fault := by
  have told (u : Unclosed) : Fault.ofUnclosed source u
      = u.construct.fault (Position.ofCharAfter (source.take (source.length - u.unread))) := by
    rw [Fault.ofUnclosed]
    cases u.construct <;> rfl
  simp only [strictText, mapError_eq_error_iff, told]

/-- A text is read if it is normalised to JSON. -/
theorem readTree_eq_ok_iff {text : String} {t : Tree} :
    readTree text = .ok t ↔
      ∃ json, normalise text.toList = .ok json ∧ Json.readTree json = .ok t := by
  rw [readTree, bind_eq_ok_iff]
  simp only [strictText_eq_ok_iff, mapError_eq_ok_iff]

theorem readTree_eq_error_iff {text : String} {fault : Fault} :
    readTree text = .error fault ↔
      strictText text.toList = .error fault ∨
        ∃ json failure, strictText text.toList = .ok json ∧
          Json.readTree json = .error failure ∧ Fault.ofFailure json failure = fault := by
  rw [readTree, bind_eq_error_iff]
  simp only [mapError_eq_error_iff, exists_and_left]

end ZkCommand.Relaxed
