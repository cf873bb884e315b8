import Equate.Operator
import Equate.Value

/-!
# Expressions

Expressions are trees. Most nodes have a value of their own. A group, a conditional,
an index, a member and a call stand for another expression first, which has the
value in their place; these are the indirect nodes.
-/

namespace Equate

inductive Expr where
  /-- A constant, or nothing at all if it is undetermined. -/
  | constant (value : Option Value)
  | counter
  | name (name : String)
  | unary (op : UnaryOp) (operand : Expr)
  | binary (op : BinaryOp) (left right : Expr)
  | group (inner : Expr)
  /-- The choice `condition ? whenTrue : whenFalse`. -/
  | conditional (condition whenTrue whenFalse : Expr)
  /-- The symbol `subject[index]`. -/
  | index (subject index : Expr)
  /-- The symbol `left.right`. -/
  | member (left right : Expr)
  | call (function : Expr) (arguments : List Expr)

namespace Expr

def undetermined : Expr := .constant none

def isIndirect : Expr -> Bool
  | .group _ => true
  | .conditional .. => true
  | .index .. => true
  | .member .. => true
  | .call .. => true
  | _ => false

end Expr
end Equate
