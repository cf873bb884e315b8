/-!
# Functions

A function value is a handle. Two handles are the same function iff their numbers
agree; name and behaviour do not matter for that, so that every session has builtins
of its own. What a call does is described by the callee: one of the five builtins,
or a function that the host of the language has defined by a rule.
-/

namespace Equate

/-!
## Callees
-/

inductive Builtin where
  /-- The canonical text of its argument. -/
  | str
  /-- The number of characters in the canonical text of its argument. -/
  | len
  | min
  | max
  /-- Whether a symbol of the argument's name exists. -/
  | defined
deriving DecidableEq, Repr

def Builtin.name : Builtin -> String
  | .str => "str"
  | .len => "len"
  | .min => "min"
  | .max => "max"
  | .defined => "defined"

def Builtin.all : List Builtin :=
  [.str, .len, .min, .max, .defined]

/--
What a call of a host function turns into. The arguments arrive unevaluated; a
missing first argument counts as an undetermined constant.
-/
inductive Rule where
  /-- An undetermined constant. -/
  | nothing
  | first
  | last
  /-- A call of the first argument with the remaining ones. -/
  | call
  /-- The first argument indexed by the second one, or by itself. -/
  | index
  /-- The name of the first argument, as a text. -/
  | name
  /-- The first argument simplified by one step. -/
  | simplify
  /-- The first argument, after a diagnostic. -/
  | emit
  /-- The number of arguments. -/
  | count
  /-- The program counter. -/
  | counter
deriving DecidableEq, Repr

inductive Callee where
  | builtin (b : Builtin)
  | host (name : String) (rule : Rule)
deriving DecidableEq, Repr

/-!
## Handles
-/

structure Function where
  id : Nat
  callee : Callee
deriving DecidableEq, Repr

namespace Function

def name (f : Function) : String :=
  match f.callee with
  | .builtin b => b.name
  | .host name _ => name

def same (f g : Function) : Bool :=
  f.id == g.id

def predefined (base : Nat) : List Function :=
  (Builtin.all.zipIdx base).map fun (b, id) => ⟨id, .builtin b⟩

end Function
end Equate
