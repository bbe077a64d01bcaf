/-!
# ZkCommand.Shape

**Absent values.** A record writes every value that may be absent in one of two shapes: as a
value or nothing, or as a presence flag beside a payload that is there in any case. Which shape
is used is chosen once for a whole record. `Vacant` gives the payload that stands beside a
cleared flag.
-/

namespace ZkCommand

/-- How absent values appear in a record. -/
inductive Shape
  | tagged
  | flagged
  deriving DecidableEq, Repr, Inhabited

/-- The name of a shape. -/
def Shape.name : Shape → String
  | .tagged => "tagged"
  | .flagged => "flagged"

/-- A value that may be absent, in either shape. -/
inductive Optional (α : Type)
  | tagged (value : Option α)
  | flagged (present : Bool) (payload : α)
  deriving DecidableEq, Repr

namespace Optional

variable {α : Type}

/-- The document gave a value. -/
def isPresent : Optional α → Bool
  | .tagged value => value.isSome
  | .flagged present _ => present

/-- The value that the document gave; a payload beside a cleared flag does not count. -/
def value? : Optional α → Option α
  | .tagged value => value
  | .flagged present payload => if present then some payload else none

end Optional

/-- The payload of a type for values that are absent. -/
class Vacant (α : Type) where
  vacant : α

namespace Shape

variable {α : Type}

/-- An absent value. -/
def absent [Vacant α] : Shape → Optional α
  | .tagged => .tagged none
  | .flagged => .flagged false Vacant.vacant

/-- A value that is there. -/
def present (value : α) : Shape → Optional α
  | .tagged => .tagged (some value)
  | .flagged => .flagged true value

end Shape

end ZkCommand
