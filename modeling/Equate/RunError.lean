import Equate.Diagnostic

/-!
# Errors of running statements

A statement fails for the first diagnostic that its expression raised, or for a reason
of its own. Definitions from outside a program can be malformed as well; they have
no line.
-/

namespace Equate

inductive RunError where
  | diagnostic (d : Diagnostic) (line : Nat)
  | assertionFailed (line : Nat)
  /-- A definition of a name that has a symbol already. -/
  | redefinition (name : String) (line : Nat)
  /-- A program counter that is not a non-negative integer. -/
  | invalidOrigin (line : Nat)
  /-- A definition that is not of the form `NAME=EXPR`. -/
  | invalidDefinition (definition : String)
deriving DecidableEq

namespace RunError

def onLine (line : Nat) (complaint : String) : String :=
  "Error on line " ++ toString line ++ ": " ++ complaint ++ "."

def message : RunError -> String
  | .diagnostic d line => onLine line d.message
  | .assertionFailed line => onLine line "Assertion failed"
  | .redefinition name line => onLine line ("Symbol '" ++ name ++ "' is already defined")
  | .invalidOrigin line => onLine line "Origin must be a non-negative integer"
  | .invalidDefinition definition =>
      "Invalid definition '" ++ definition ++ "': expected NAME=EXPR."

end RunError
end Equate
