import Equate.Value

/-!
# Diagnostics

A diagnostic explains why a node of an expression has no value. Raising one never
stops an evaluation: the node is undetermined and the rest is evaluated as usual.
-/

namespace Equate

inductive Diagnostic where
  /-- A function as operand of an operator that takes none. -/
  | functionOperand (operator : String)
  /-- A zero divisor of a division or remainder. -/
  | divisionByZero
  | notANumeral (text : String)
  | notAFunction (value : Value)
  /-- A builtin called with a wrong number of arguments. -/
  | argumentCount (function : String) (expected : String) (found : Nat)
deriving DecidableEq

def Diagnostic.message : Diagnostic -> String
  | .functionOperand operator =>
      "function operand is not applicable to operator '" ++ operator ++ "'"
  | .divisionByZero => "division by zero"
  | .notANumeral text => "cannot convert string \"" ++ text ++ "\" to float"
  | .notAFunction value =>
      "subject of function call is not a function: " ++ value.toText
  | .argumentCount function expected found =>
      "function '" ++ function ++ "' expects " ++ expected
        ++ " argument(s) but received " ++ toString found

end Equate
