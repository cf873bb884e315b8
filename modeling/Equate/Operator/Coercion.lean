import Equate.Operator
import Equate.Value

/-!
# Coercions

Before an operator is applied its operands are brought together. How that is done
depends on the operator and on the kinds of the operands alone. This module is the
table; an undetermined operand has no kind. `Equate.Operator.Binary` acts on the
values themselves.

The rows for functions are pinned down at the end: an operand is refused as a function
by the numeric operators alone, and an operator on functions refuses both sides alike.
-/

namespace Equate

inductive Coercion where
  /-- An operand is undetermined, and so is the result. -/
  | undetermined
  /-- A function operand of an operator that takes none. -/
  | rejectFunction
  /-- Join the canonical texts. -/
  | concatenate
  /-- Read text operands as numerals, then look again. -/
  | parseTexts
  | unsigned
  | signed
  | float
  /-- Compare a signed with an unsigned word. -/
  | mixedSign
  /-- Compare the canonical texts. -/
  | text
  | functionIdentity
  /-- A function compared with another value is the greater. -/
  | functionDominates
  /-- Strict equality of values of one kind. -/
  | sameKind
  /-- Strict equality of values of different kinds. -/
  | kindMismatch
  /-- The truth of the first operand decides. -/
  | shortCircuit
deriving DecidableEq, Repr

namespace Coercion

def ofNumbers : Kind -> Kind -> Coercion
  | .float, _ => .float
  | _, .float => .float
  | .unsigned, .unsigned => .unsigned
  | _, _ => .signed

/-- Operators on numbers, `texts` standing for what is done to text operands. -/
def numeric (texts : Coercion) (numbers : Kind -> Kind -> Coercion) (l r : Kind) :
    Coercion :=
  match l, r with
  | .function, _ => .rejectFunction
  | _, .function => .rejectFunction
  | .text, _ => texts
  | _, .text => texts
  | l, r => numbers l r

/-- Shifts go by the left operand. -/
def ofShift : Kind -> Kind -> Coercion
  | .unsigned, _ => .unsigned
  | _, _ => .signed

def ofBits : Kind -> Kind -> Coercion
  | .unsigned, .unsigned => .unsigned
  | _, _ => .signed

def ofComparison : Kind -> Kind -> Coercion
  | .function, .function => .functionIdentity
  | .function, _ => .functionDominates
  | _, .function => .functionDominates
  | .text, _ => .text
  | _, .text => .text
  | .float, _ => .float
  | _, .float => .float
  | .unsigned, .unsigned => .unsigned
  | .signed, .signed => .signed
  | _, _ => .mixedSign

def ofKinds : Family -> Kind -> Kind -> Coercion
  | .logical => fun _ _ => .shortCircuit
  | .strictEquality => fun l r => if l = r then .sameKind else .kindMismatch
  | .comparison => ofComparison
  | .additive => numeric .concatenate ofNumbers
  | .arithmetic => numeric .parseTexts ofNumbers
  | .shift => numeric .parseTexts ofShift
  | .bitwise => numeric .parseTexts ofBits

end Coercion

namespace BinaryOp

def coercion (op : BinaryOp) : Option Kind -> Option Kind -> Coercion
  | some l, some r => Coercion.ofKinds op.family l r
  | _, _ => .undetermined

/-!
## Rows of the table
-/

theorem coercion_some_ne_undetermined (op : BinaryOp) (l r : Kind) :
    op.coercion (some l) (some r) ≠ .undetermined := by
  unfold coercion
  cases op.family <;> cases l <;> cases r <;> decide

theorem coercion_eq_rejectFunction_iff (op : BinaryOp) (l r : Kind) :
    op.coercion (some l) (some r) = .rejectFunction ↔
      op.family.isNumeric = true ∧ (l = .function ∨ r = .function) := by
  unfold coercion
  cases op.family <;> cases l <;> cases r <;> decide

theorem coercion_eq_parseTexts_iff (op : BinaryOp) (l r : Kind) :
    op.coercion (some l) (some r) = .parseTexts ↔
      op.family.isNumeric = true ∧ op.family ≠ .additive ∧
        l ≠ .function ∧ r ≠ .function ∧ (l = .text ∨ r = .text) := by
  unfold coercion
  cases op.family <;> cases l <;> cases r <;> decide

end BinaryOp
end Equate
