/-!
# Operators

The binary operators fall into six groups that share their rules of evaluation.
Within arithmetic, addition stands apart, because it alone joins texts. Every binary
operator associates to the left, and a level says how tightly it binds.
-/

namespace Equate

/-!
## Binary operators
-/

inductive ArithmeticOp where
  | mul
  | div
  | mod
  | add
  | sub
deriving DecidableEq, Repr

inductive ShiftOp where
  | left
  | right
deriving DecidableEq, Repr

inductive ComparisonOp where
  | less
  | lessEqual
  | greater
  | greaterEqual
  | equal
  | notEqual
deriving DecidableEq, Repr

/-- Equality without any conversion of the operands. -/
inductive StrictOp where
  | equal
  | notEqual
deriving DecidableEq, Repr

inductive BitwiseOp where
  | and
  | xor
  | or
deriving DecidableEq, Repr

/-- The operators whose first operand alone may decide the result. -/
inductive LogicalOp where
  | and
  | or
deriving DecidableEq, Repr

inductive BinaryOp where
  | arithmetic (op : ArithmeticOp)
  | shift (op : ShiftOp)
  | comparison (op : ComparisonOp)
  | strict (op : StrictOp)
  | bitwise (op : BitwiseOp)
  | logical (op : LogicalOp)
deriving DecidableEq, Repr

inductive Family where
  /-- Addition, which joins texts. -/
  | additive
  /-- The other arithmetic. -/
  | arithmetic
  | shift
  | comparison
  | strictEquality
  | bitwise
  | logical
deriving DecidableEq, Repr

/-- The groups that work on numbers and take no function. -/
def Family.isNumeric : Family -> Bool
  | .additive => true
  | .arithmetic => true
  | .shift => true
  | .bitwise => true
  | _ => false

namespace BinaryOp

def family : BinaryOp -> Family
  | .arithmetic .add => .additive
  | .arithmetic _ => .arithmetic
  | .shift _ => .shift
  | .comparison _ => .comparison
  | .strict _ => .strictEquality
  | .bitwise _ => .bitwise
  | .logical _ => .logical

def symbol : BinaryOp -> String
  | .arithmetic .mul => "*"
  | .arithmetic .div => "/"
  | .arithmetic .mod => "%"
  | .arithmetic .add => "+"
  | .arithmetic .sub => "-"
  | .shift .left => "<<"
  | .shift .right => ">>"
  | .comparison .less => "<"
  | .comparison .lessEqual => "<="
  | .comparison .greater => ">"
  | .comparison .greaterEqual => ">="
  | .comparison .equal => "=="
  | .comparison .notEqual => "!="
  | .strict .equal => "==="
  | .strict .notEqual => "!=="
  | .bitwise .and => "&"
  | .bitwise .xor => "^"
  | .bitwise .or => "|"
  | .logical .and => "&&"
  | .logical .or => "||"

/-- How tightly an operator binds, from `1` for `||` to `10` for multiplication. -/
def level : BinaryOp -> Nat
  | .logical .or => 1
  | .logical .and => 2
  | .bitwise .or => 3
  | .bitwise .xor => 4
  | .bitwise .and => 5
  | .strict _ => 6
  | .comparison .equal => 6
  | .comparison .notEqual => 6
  | .comparison _ => 7
  | .shift _ => 8
  | .arithmetic .add => 9
  | .arithmetic .sub => 9
  | .arithmetic _ => 10

end BinaryOp

/-!
## Unary operators
-/

inductive UnaryOp where
  | plus
  | negate
  | complement
  | not
deriving DecidableEq, Repr

def UnaryOp.symbol : UnaryOp -> String
  | .plus => "+"
  | .negate => "-"
  | .complement => "~"
  | .not => "!"

end Equate
