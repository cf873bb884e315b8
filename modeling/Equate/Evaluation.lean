import Equate.Expr
import Equate.Operator.Binary
import Equate.Symbol

/-!
# Evaluation

An evaluation reads the program counter and the symbols. It writes down the
diagnostics that it raises, and the arena that ranks functions grows with it.

An expression can be asked for its value and for its name. The name is what it
contributes to an index or a member, and only symbols, indices and members have one
that is not the text of their value. The two questions refer to each other, so that
an expression denotes a pair of computations. Functions are called with what their
arguments denote.
-/

namespace Equate

/-!
## The running evaluation
-/

structure Context where
  counter : UInt64 := 0
  symbols : SymbolTable := {}

structure Progress where
  arena : Option Arena := none
  diagnostics : List Diagnostic := []

abbrev Evaluation := ReaderT Context (StateM Progress)

namespace Evaluation

def emit (diagnostic : Diagnostic) : Evaluation Unit :=
  modify fun p => { p with diagnostics := p.diagnostics ++ [diagnostic] }

def lookup (name : String) : Evaluation (Option Symbol) := do
  return (← read).symbols.find? name

def valueOfName (name : String) : Evaluation (Option Value) := do
  return (← lookup name).bind Symbol.value?

def valueOfName? : Option String -> Evaluation (Option Value)
  | some name => valueOfName name
  | none => pure none

def programCounter : Evaluation Value := do
  return .unsigned (← read).counter

def withArena (question : Option Arena -> α × Option Arena) : Evaluation α :=
  modifyGet fun p =>
    let (answer, arena) := question p.arena
    (answer, { p with arena := arena })

def compareFunctions (f g : Function) : Evaluation Ordering :=
  withArena fun arena => Arena.compareIn arena f g

def compareValues (l r : Value) : Evaluation (Option Ordering) :=
  withArena (l.compare? r)

def report : Except Diagnostic Value -> Evaluation (Option Value)
  | .ok v => pure (some v)
  | .error diagnostic => do
      emit diagnostic
      return none

/-!
## Operators on operands that may be undetermined
-/

def applyBinary (op : BinaryOp) (l r : Value) : Evaluation (Except Diagnostic Value) :=
  withArena (op.apply l r)

/--
Apply a binary operator. An undetermined operand leaves the result undetermined, but
the logical operators take an undetermined first operand for false.
-/
def binary (op : BinaryOp) (l r : Option Value) : Evaluation (Option Value) :=
  match op, l, r with
  | .logical o, l, r => pure (if o.decides l then l else r)
  | op, some l, some r => do report (← applyBinary op l r)
  | _, _, _ => pure none

def unary (op : UnaryOp) : Option Value -> Evaluation (Option Value)
  | some v => report (op.apply v)
  | none => pure none

/-!
## Interpretations
-/

end Evaluation

open Evaluation

structure Interpretation where
  value : Evaluation (Option Value)
  name : Evaluation (Option String)

namespace Interpretation

/-- An expression whose name is the canonical text of its value. -/
def ofValue (value : Evaluation (Option Value)) : Interpretation where
  value := value
  name := do return (← value).map Value.toText

def ofName (name : Evaluation (Option String)) : Interpretation where
  value := do valueOfName? (← name)
  name := name

def undetermined : Interpretation :=
  ofValue (pure none)

def indexName (subject index : Interpretation) : Evaluation (Option String) := do
  match ← subject.name, ← index.value with
  | some s, some i => return some (s ++ "[" ++ i.toText ++ "]")
  | _, _ => return none

def memberName (left right : Interpretation) : Evaluation (Option String) := do
  match ← left.name, ← right.name with
  | some l, some r => return some (l ++ "." ++ r)
  | _, _ => return none

/-- The values of a list, ending at the first undetermined one. -/
def values : List Interpretation -> Evaluation (Option (List Value))
  | [] => pure (some [])
  | r :: rs => do
      match ← r.value with
      | none => return none
      | some v => return (← values rs).map (v :: ·)

/-!
## Builtins
-/

def refuseCount (b : Builtin) (found : Nat) : Evaluation (Option Value) := do
  let expected :=
    match b with
    | .min => "at least 1"
    | .max => "at least 1"
    | _ => "1"
  emit (.argumentCount b.name expected found)
  return none

/-- The candidate if it orders as `keep` against the current pick, else the pick. -/
def better (keep : Ordering) (pick candidate : Value) : Evaluation Value := do
  return if (← compareValues candidate pick) = some keep then candidate else pick

def extremum (keep : Ordering) (first : Interpretation) (rest : List Interpretation) :
    Evaluation (Option Value) := do
  match ← values (first :: rest) with
  | some (v :: vs) => return some (← vs.foldlM (better keep) v)
  | _ => return none

def characterCount (v : Value) : Value :=
  .unsigned v.toText.length.toUInt64

def callBuiltin : Builtin -> List Interpretation -> Evaluation (Option Value)
  | .str, [r] => do return (← r.value).map fun v => .text v.toText
  | .len, [r] => do return (← r.value).map characterCount
  | .min, first :: rest => extremum .lt first rest
  | .max, first :: rest => extremum .gt first rest
  | .defined, [r] => do
      match ← r.name with
      | none => return none
      | some n => return some (.ofBool (← lookup n).isSome)
  | b, args => refuseCount b args.length

/-!
## Calls
-/

def firstOf (args : List Interpretation) : Interpretation :=
  args.head?.getD undetermined

def callFunction (f : Function) (args : List Interpretation) : Evaluation (Option Value) :=
  match f.callee with
  | .builtin b => callBuiltin b args
  | .host _ .nothing => pure none
  | .host _ .first => (firstOf args).value
  | .host _ .last => (args.getLast?.getD undetermined).value
  | .host _ .call =>
      match args with
      | [] => pure none
      | callee :: rest => do
          match ← callee.value with
          | some (.function g) => callFunction g rest
          | some v => report (.error (.notAFunction v))
          | none => return none
  | .host _ .index => do
      valueOfName? (← indexName (firstOf args) (args[1]?.getD (firstOf args)))
  | .host _ .name => do return (← (firstOf args).name).map Value.text
  | .host _ .simplify => (firstOf args).value
  | .host _ .emit => do
      emit .divisionByZero
      (firstOf args).value
  | .host _ .count => pure (some (.unsigned args.length.toUInt64))
  | .host _ .counter => do return some (← programCounter)

def call : Option Value -> List Interpretation -> Evaluation (Option Value)
  | some (.function f), args => callFunction f args
  | some v, _ => report (.error (.notAFunction v))
  | none, _ => pure none

end Interpretation

/-!
## Expressions
-/

namespace Expr

mutual

def interpret : Expr -> Interpretation
  | .constant v => .ofValue (pure v)
  | .counter => .ofValue do return some (← programCounter)
  | .name n => .ofName (pure (some n))
  | .unary op e => .ofValue do Evaluation.unary op (← (interpret e).value)
  | .binary (.logical op) l r => .ofValue do
      let first ← (interpret l).value
      if op.decides first then return first else (interpret r).value
  | .binary op l r => .ofValue do
      Evaluation.binary op (← (interpret l).value) (← (interpret r).value)
  | .group e => interpret e
  | .conditional c t f => .ofValue do
      match ← (interpret c).value with
      | none => return none
      | some v => if v.isTrue then (interpret t).value else (interpret f).value
  | .index s i => .ofName (Interpretation.indexName (interpret s) (interpret i))
  | .member l r => .ofName (Interpretation.memberName (interpret l) (interpret r))
  | .call f args => .ofValue do Interpretation.call (← (interpret f).value) (interpretAll args)

def interpretAll : List Expr -> List Interpretation
  | [] => []
  | e :: es => interpret e :: interpretAll es

end

def evaluate (e : Expr) : Evaluation (Option Value) :=
  e.interpret.value

def nameOf (e : Expr) : Evaluation (Option String) :=
  e.interpret.name

theorem interpretAll_eq_map (es : List Expr) : interpretAll es = es.map interpret := by
  induction es with
  | nil => rfl
  | cons e es ih => simp [interpretAll, ih]

end Expr
end Equate
