import ZkCommand.Base58.Check
import ZkCommand.Fp
import ZkCommand.Tree

/-!
# ZkCommand.Leaf.Fault

**Why a value is no leaf.** The causes do not say where the value stands; whoever walks the
document adds that.
-/

namespace ZkCommand.Leaf

/-- What a leaf may be written as. -/
inductive Form
  | integer
  | publicKey
  | boolean
  | authLabel
  | signLabel
  | string
  deriving DecidableEq, Repr

/-- The words for a form in messages. -/
def Form.description : Form → String
  | .integer => "integer or decimal string"
  | .publicKey => "address string or \x7bx, isOdd\x7d"
  | .boolean => "boolean"
  | .authLabel => "auth requirement label"
  | .signLabel => "sign label"
  | .string => "string"

/-- Why a value cannot be read as a leaf. -/
inductive Fault
  | wrongShape (expected : Form) (found : Tree.Kind)
  | missingKey (key : String)
  | notAnInteger (text : String)
  | negative (text : String)
  | fractional (literal : String)
  | outOfRange (digits : String) (width : Nat)
  | field (fault : Fp.Fault)
  | base58 (fault : Base58.CheckFault)
  | tooLong (size limit : Nat)
  deriving DecidableEq, Repr

/-- The wording of a failure. -/
def Fault.message : Fault → String
  | .wrongShape expected found =>
      "expected " ++ expected.description ++ ", found " ++ found.name
  | .missingKey key => "missing key '" ++ key ++ "'"
  | .notAnInteger text => "'" ++ text ++ "' is not an integer"
  | .negative text => "negative value " ++ text ++ " for an unsigned leaf"
  | .fractional literal => "non-integer number " ++ literal
  | .outOfRange digits width =>
      "value " ++ digits ++ " does not fit in " ++ Decimal.text width ++ " bits"
  | .field fault => fault.message
  | .base58 fault => fault.message
  | .tooLong size limit =>
      "token symbol is " ++ Decimal.text size ++ " bytes, at most " ++ Decimal.text limit
        ++ " allowed"

end ZkCommand.Leaf
