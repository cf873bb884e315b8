import Equate.Token.Lexer

/-!
# Origins on the command line

An origin is a numeral in decimal, or in hexadecimal after `0x`, or in binary after
`0b`. A plus sign may stand before the digits. The numeral has to fit into an
unsigned word; of several faults the leftmost one is reported.
-/

namespace Equate
namespace Origin

inductive Fault where
  | noDigits
  | invalidDigit
  | tooLarge
deriving DecidableEq, Repr

def Fault.message : Fault -> String
  | .noDigits => "cannot parse integer from empty string"
  | .invalidDigit => "invalid digit found in string"
  | .tooLarge => "number too large to fit in target type"

def splitRadix : List Char -> Nat × List Char
  | '0' :: 'x' :: digits => (16, digits)
  | '0' :: 'X' :: digits => (16, digits)
  | '0' :: 'b' :: digits => (2, digits)
  | '0' :: 'B' :: digits => (2, digits)
  | digits => (10, digits)

def digit? (radix : Nat) (c : Char) : Option Nat :=
  if Lexer.isHexDigit c && Piece.digitValue c < radix then some (Piece.digitValue c)
  else none

def accumulate (radix : Nat) : Nat -> List Char -> Except Fault Nat
  | n, [] => .ok n
  | n, c :: cs =>
      match digit? radix c with
      | none => .error .invalidDigit
      | some d =>
          if n * radix + d < UInt64.size then accumulate radix (n * radix + d) cs
          else .error .tooLarge

/-- Read the digits of a numeral, which may have a plus sign. -/
def ofDigits (radix : Nat) : List Char -> Except Fault Nat
  | [] => .error .noDigits
  | ['+'] => .error .invalidDigit
  | '+' :: digits => accumulate radix 0 digits
  | digits => accumulate radix 0 digits

def ofText (text : String) : Except Fault UInt64 :=
  let (radix, digits) := splitRadix text.toList
  (ofDigits radix digits).map Nat.toUInt64

end Origin
end Equate
