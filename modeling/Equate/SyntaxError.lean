import Equate.Token

/-!
# Syntax errors

What the lexer and the reader of statements refuse, with the line that the message
names. The end of the input has no line of its own: it is reported on the line of
the statement, or on line `0` where there is no statement.
-/

namespace Equate

inductive SyntaxError where
  /-- A token that cannot stand where it stands. -/
  | unexpectedToken (description : String) (line : Nat)
  /-- The end of the input where more was expected. -/
  | unexpectedEnd (line : Nat)
  /-- A parenthesis on the given line that is not closed. -/
  | unclosedParen (line : Nat)
  /-- A bracket on the given line that is not closed. -/
  | unclosedBracket (line : Nat)
  /-- A question mark on the given line without its colon. -/
  | missingColon (line : Nat)
  | trailingToken (description : String) (line : Nat)
  | invalidInput (piece : String) (line : Nat)
deriving DecidableEq, Repr

namespace SyntaxError

def line : SyntaxError -> Nat
  | .unexpectedToken _ line => line
  | .unexpectedEnd line => line
  | .unclosedParen line => line
  | .unclosedBracket line => line
  | .missingColon line => line
  | .trailingToken _ line => line
  | .invalidInput _ line => line

def complaint : SyntaxError -> String
  | .unexpectedToken description _ => "Unexpected token: " ++ description ++ "."
  | .unexpectedEnd _ => "Unexpected end of input."
  | .unclosedParen _ => "Expected closing parenthesis ')' but none found."
  | .unclosedBracket _ => "Expected closing bracket ']' but none found."
  | .missingColon _ => "Expected ':' in conditional expression."
  | .trailingToken description _ =>
      "Extra tokens after expression. Check your input: " ++ description
  | .invalidInput piece _ => "Invalid input '" ++ piece ++ "'."

def message (e : SyntaxError) : String :=
  "Error on line " ++ toString e.line ++ ": " ++ e.complaint

end SyntaxError
end Equate
