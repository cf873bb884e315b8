import Equate.Diagnostic
import Equate.Operator

/-!
# Operators on numbers

The numeric operators are defined here on numbers, after texts were read. Words wrap
around. Division truncates toward zero and the remainder has the sign of the dividend.
A zero divisor is refused for floats as well, although a quotient would exist.
-/

namespace Equate

/-!
## Arithmetic
-/

namespace ArithmeticOp

/--
Arithmetic on unsigned words. The difference of a smaller and a larger word is the
signed difference.
-/
def onUnsigned (op : ArithmeticOp) (a b : UInt64) : Except Diagnostic Number :=
  match op with
  | .add => .ok (.unsigned (a + b))
  | .sub => .ok (if a < b then .signed (a - b).toInt64 else .unsigned (a - b))
  | .mul => .ok (.unsigned (a * b))
  | .div => if b = 0 then .error .divisionByZero else .ok (.unsigned (a / b))
  | .mod => if b = 0 then .error .divisionByZero else .ok (.unsigned (a % b))

def onSigned (op : ArithmeticOp) (a b : Int64) : Except Diagnostic Number :=
  match op with
  | .add => .ok (.signed (a + b))
  | .sub => .ok (.signed (a - b))
  | .mul => .ok (.signed (a * b))
  | .div => if b = 0 then .error .divisionByZero else .ok (.signed (a / b))
  | .mod => if b = 0 then .error .divisionByZero else .ok (.signed (a % b))

def onFloat (op : ArithmeticOp) (a b : Float) : Except Diagnostic Number :=
  match op with
  | .add => .ok (.float (a + b))
  | .sub => .ok (.float (a - b))
  | .mul => .ok (.float (a * b))
  | .div => if b == 0.0 then .error .divisionByZero else .ok (.float (a / b))
  | .mod =>
      if b == 0.0 then .error .divisionByZero
      else .ok (.float (Binary64.remainder a b))

/-- A float operand makes it float arithmetic, two unsigned words unsigned. -/
def onNumbers (op : ArithmeticOp) : Number -> Number -> Except Diagnostic Number
  | .float x, b => op.onFloat x b.toFloat
  | a, .float y => op.onFloat a.toFloat y
  | .unsigned u, .unsigned v => op.onUnsigned u v
  | a, b => op.onSigned a.toSigned b.toSigned

end ArithmeticOp

/-!
## Shifts
-/

/-- A shift count is read as a signed word, of which the low six bits count. -/
def shiftCount (n : Number) : UInt64 :=
  n.toSigned.toUInt64 % 64

/--
An unsigned word is shifted logically and stays unsigned, everything else is shifted
arithmetically as a signed word.
-/
def ShiftOp.onNumbers (op : ShiftOp) (a b : Number) : Number :=
  let count := shiftCount b
  match a, op with
  | .unsigned u, .left => .unsigned (u <<< count)
  | .unsigned u, .right => .unsigned (u >>> count)
  | a, .left => .signed (a.toSigned <<< count.toInt64)
  | a, .right => .signed (a.toSigned >>> count.toInt64)

/-!
## Bitwise operators
-/

namespace BitwiseOp

def onUnsigned (op : BitwiseOp) (a b : UInt64) : UInt64 :=
  match op with
  | .and => a &&& b
  | .xor => a ^^^ b
  | .or => a ||| b

def onSigned (op : BitwiseOp) (a b : Int64) : Int64 :=
  match op with
  | .and => a &&& b
  | .xor => a ^^^ b
  | .or => a ||| b

def onNumbers (op : BitwiseOp) : Number -> Number -> Number
  | .unsigned u, .unsigned v => .unsigned (op.onUnsigned u v)
  | a, b => .signed (op.onSigned a.toSigned b.toSigned)

end BitwiseOp

/-!
## Unary operators
-/

namespace Number

def asSigned : Number -> Number
  | .unsigned u => .signed u.toInt64
  | n => n

def negate : Number -> Number
  | .unsigned u => .signed (-u.toInt64)
  | .signed i => .signed (-i)
  | .float x => .float (-x)

def complement (n : Number) : Number :=
  .unsigned (~~~n.toUnsigned)

end Number
end Equate
