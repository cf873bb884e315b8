import Equate.Decimal.Layout
import Equate.Function
import Equate.Number

/-!
# Values

A value is a number, a text or a function. That an expression has no value is not a
value but `none` in `Option Value`; such an expression is called undetermined.
-/

namespace Equate

/-!
## Texts of numbers
-/

namespace Number

def toText : Number -> String
  | .float x => Decimal.canonical.text x
  | .signed i => toString i.toInt
  | .unsigned u => toString u.toNat

end Number

/-!
## Values and their kinds
-/

inductive Value where
  | number (n : Number)
  | text (s : String)
  | function (f : Function)
deriving DecidableEq

inductive Kind where
  | float
  | signed
  | unsigned
  | text
  | function
deriving DecidableEq, Repr

namespace Value

def float (x : Float) : Value := .number (.float x)

def signed (i : Int64) : Value := .number (.signed i)

def unsigned (u : UInt64) : Value := .number (.unsigned u)

def ofBool (b : Bool) : Value := .number (.ofBool b)

def kind : Value -> Kind
  | .number (.float _) => .float
  | .number (.signed _) => .signed
  | .number (.unsigned _) => .unsigned
  | .text _ => .text
  | .function _ => .function

def isFunction : Value -> Bool
  | .function _ => true
  | _ => false

def isText : Value -> Bool
  | .text _ => true
  | _ => false

/-- Zero and the empty text are false, everything else is true. -/
def isTrue : Value -> Bool
  | .number n => n.isTrue
  | .text s => !s.isEmpty
  | .function _ => true

def toText : Value -> String
  | .number n => n.toText
  | .text s => s
  | .function f => "<function " ++ f.name ++ ">"

/-- Same kind and same payload, NaN equal to itself and functions by identity. -/
def identical : Value -> Value -> Bool
  | .number a, .number b => a.identical b
  | .text s, .text t => s == t
  | .function f, .function g => f.same g
  | _, _ => false

/-- Same kind and same payload, NaN unequal to itself and functions by identity. -/
def equal : Value -> Value -> Bool
  | .number a, .number b => a.equal b
  | .text s, .text t => s == t
  | .function f, .function g => f.same g
  | _, _ => false

theorem isFunction_iff (v : Value) : v.isFunction = true ↔ v.kind = .function := by
  rcases v with n | s | f
  · cases n <;> simp [isFunction, kind]
  · simp [isFunction, kind]
  · simp [isFunction, kind]

theorem identical_of_kind_ne {l r : Value} (h : l.kind ≠ r.kind) :
    l.identical r = false := by
  rcases l with a | s | f <;> rcases r with b | t | g
  · cases a <;> cases b <;> simp_all [identical, kind, Number.identical]
  all_goals simp_all [identical, kind]

end Value

def isTrueOption : Option Value -> Bool
  | none => false
  | some v => v.isTrue

end Equate
