import ZkCommand.Json.Value
import ZkCommand.Relaxed.Normalise
import ZkCommand.Text.Position
import ZkCommand.Decimal

/-!
# ZkCommand.Relaxed.Read

**Reading relaxed notation.** A text is normalised to JSON and the JSON is read. What is left open
is reported at its opener in the source, a syntax error at the place in the normalised text where
reading stopped, or in the text of a number that the normalised text holds.
-/

namespace ZkCommand.Relaxed

open Text

/-- Why a text denotes no tree. -/
inductive Fault
  | unterminatedString (place : Position)
  | unterminatedComment (place : Position)
  | malformed (place : Position) (cause : Json.Cause)
  deriving DecidableEq, Repr

/-- The place that a failure names. -/
def Fault.place : Fault → Position
  | .unterminatedString place => place
  | .unterminatedComment place => place
  | .malformed place _ => place

/-- The wording of a failure. -/
def Fault.message : Fault → String
  | .unterminatedString p =>
      "unterminated string starting at line " ++ Decimal.text p.line ++ ", column "
        ++ Decimal.text p.column
  | .unterminatedComment p =>
      "unterminated block comment starting at line " ++ Decimal.text p.line ++ ", column "
        ++ Decimal.text p.column
  | .malformed p cause =>
      "malformed input notation: " ++ cause.message ++ " at line " ++ Decimal.text p.line
        ++ " column " ++ Decimal.text p.column

/-- The failure of a text that leaves something open. -/
def Fault.ofUnclosed (source : List Char) (u : Unclosed) : Fault :=
  let place := Position.ofCharAfter (source.take (source.length - u.unread))
  match u.construct with
  | .string => .unterminatedString place
  | .comment => .unterminatedComment place

/-- The failure of a normalised text that is not JSON. The text of a number has lines and columns of
its own. -/
def Fault.ofFailure (json : List Char) (f : Json.Failure) : Fault :=
  let text := f.text.getD json
  .malformed (Position.ofByteCount text (Utf8.size text - f.unread)) f.cause

/-- The JSON text of a relaxed text, or what it leaves open. -/
def strictText (source : List Char) : Except Fault (List Char) :=
  (normalise source).mapError (Fault.ofUnclosed source)

/-- The tree of a relaxed text. -/
def readTree (text : String) : Except Fault Tree := do
  let json ← strictText text.toList
  (Json.readTree json).mapError (Fault.ofFailure json)

end ZkCommand.Relaxed
