import Equate.Decimal.Numeral
import Equate.Function.Arena
import Equate.Operator.Arithmetic
import Equate.Operator.Coercion

/-!
# Operators on values

An operator either gives a value or the one diagnostic that explains why there is
none. Comparing two functions asks the arena for their order and may extend it, so
the binary operators pass the arena along; no other operator touches it.

The lemmas at the end say where the application meets the table of coercions: what
the table refuses as a function is refused, and values of different kinds are never
strictly equal.
-/

namespace Equate

/-!
## Operands of numeric operators
-/

namespace Value

def parseText (s : String) : Except Diagnostic Number :=
  match Numeral.float? s with
  | some x => .ok (.float x)
  | none => .error (.notANumeral s)

def operand (operator : String) : Value -> Except Diagnostic Number
  | .number n => .ok n
  | .text s => parseText s
  | .function _ => .error (.functionOperand operator)

/--
The numbers of two operands. A function on either side is refused before any text
is read, and the left text is read first.
-/
def operands (operator : String) (l r : Value) : Except Diagnostic (Number × Number) :=
  if l.isFunction || r.isFunction then .error (.functionOperand operator)
  else
    match l.operand operator with
    | .error diagnostic => .error diagnostic
    | .ok a =>
        match r.operand operator with
        | .error diagnostic => .error diagnostic
        | .ok b => .ok (a, b)

/-!
## Comparison
-/

/--
The order of two values. Functions rank by the arena and above everything else. A
text on either side makes it a comparison of canonical texts by code points. Numbers
compare as numbers, where NaN leaves them unordered.
-/
def compare? : Value -> Value -> Option Arena -> Option Ordering × Option Arena
  | .function f, .function g, arena =>
      let (order, after) := Arena.compareIn arena f g
      (some order, after)
  | .function _, _, arena => (some .gt, arena)
  | _, .function _, arena => (some .lt, arena)
  | .number a, .number b, arena => (a.compare? b, arena)
  | l, r, arena => (some (compare l.toText r.toText), arena)

end Value

/-- Whether a comparison holds for an order; an unordered pair only differs. -/
def ComparisonOp.holds : ComparisonOp -> Option Ordering -> Bool
  | .less, order => order == some .lt
  | .lessEqual, order => order == some .lt || order == some .eq
  | .greater, order => order == some .gt
  | .greaterEqual, order => order == some .gt || order == some .eq
  | .equal, order => order == some .eq
  | .notEqual, order => order != some .eq

def StrictOp.holds : StrictOp -> Bool -> Bool
  | .equal, identical => identical
  | .notEqual, identical => !identical

def LogicalOp.decides : LogicalOp -> Option Value -> Bool
  | .and, first => !isTrueOption first
  | .or, first => isTrueOption first

/-!
## Application
-/

def Value.sum (l r : Value) : Except Diagnostic Value :=
  if l.isFunction || r.isFunction then
    .error (.functionOperand (BinaryOp.arithmetic .add).symbol)
  else
    match l, r with
    | .number a, .number b => (ArithmeticOp.add.onNumbers a b).map .number
    | l, r => .ok (.text (l.toText ++ r.toText))

def Value.numeric (op : BinaryOp) (f : Number -> Number -> Except Diagnostic Number)
    (l r : Value) : Except Diagnostic Value :=
  match Value.operands op.symbol l r with
  | .error diagnostic => .error diagnostic
  | .ok (a, b) => (f a b).map .number

def BinaryOp.apply (op : BinaryOp) (l r : Value) (arena : Option Arena) :
    Except Diagnostic Value × Option Arena :=
  match op with
  | .arithmetic .add => (l.sum r, arena)
  | .arithmetic o => (Value.numeric op o.onNumbers l r, arena)
  | .shift o => (Value.numeric op (fun a b => .ok (o.onNumbers a b)) l r, arena)
  | .bitwise o => (Value.numeric op (fun a b => .ok (o.onNumbers a b)) l r, arena)
  | .comparison o =>
      let (order, after) := l.compare? r arena
      (.ok (.ofBool (o.holds order)), after)
  | .strict o => (.ok (.ofBool (o.holds (l.identical r))), arena)
  | .logical o => (.ok (if o.decides (some l) then l else r), arena)

/-!
## The rows of the table
-/

namespace BinaryOp

theorem apply_of_isFunction {op : BinaryOp} (hop : op.family.isNumeric = true)
    {l r : Value} (h : (l.isFunction || r.isFunction) = true) (arena : Option Arena) :
    op.apply l r arena = (.error (.functionOperand op.symbol), arena) := by
  rcases op with o | o | o | o | o | o
  · cases o <;> simp only [apply, Value.sum, Value.numeric, Value.operands, h, if_true]
  · simp only [apply, Value.numeric, Value.operands, h, if_true]
  · cases hop
  · cases hop
  · simp only [apply, Value.numeric, Value.operands, h, if_true]
  · cases hop

theorem apply_of_rejectFunction {op : BinaryOp} {l r : Value}
    (h : op.coercion (some l.kind) (some r.kind) = .rejectFunction)
    (arena : Option Arena) :
    op.apply l r arena = (.error (.functionOperand op.symbol), arena) := by
  obtain ⟨hop, hkind⟩ := (op.coercion_eq_rejectFunction_iff l.kind r.kind).mp h
  apply apply_of_isFunction hop
  simpa [Value.isFunction_iff] using hkind

end BinaryOp

/-!
## Unary operators
-/

def UnaryOp.apply : UnaryOp -> Value -> Except Diagnostic Value
  | .not, v => .ok (.ofBool (!v.isTrue))
  | .plus, v => (v.operand UnaryOp.plus.symbol).map fun n => .number n.asSigned
  | .negate, v => (v.operand UnaryOp.negate.symbol).map fun n => .number n.negate
  | .complement, v =>
      (v.operand UnaryOp.complement.symbol).map fun n => .number n.complement

end Equate
