import Equate.Expr.Draft

/-!
# Statements

A program has one statement per line. A statement defines a symbol, asserts a
condition, moves the program counter, or is an expression whose value is its result.
Empty lines are no statements.
-/

namespace Equate

inductive Statement where
  /-- An expression on its own. -/
  | expression (e : Expr) (line : Nat)
  /-- The statement `let name = value`. -/
  | define (name : String) (value : Expr) (line : Nat)
  | assert (condition : Expr) (line : Nat)
  | origin (value : Expr) (line : Nat)

namespace Statement

def line : Statement -> Nat
  | .expression _ line => line
  | .define _ _ line => line
  | .assert _ line => line
  | .origin _ line => line

/-!
## Reading a statement
-/

def takeName (line : Nat) : List PlacedToken ->
    Except SyntaxError (String × List PlacedToken)
  | [] => .error (.unexpectedEnd line)
  | ⟨.name n, _⟩ :: ts => .ok (n, ts)
  | t :: _ =>
      .error (.unexpectedToken ("Expected symbol name, found " ++ t.token.describe) t.line)

def takeMark (line : Nat) (m : Mark) : List PlacedToken ->
    Except SyntaxError (List PlacedToken)
  | [] => .error (.unexpectedEnd line)
  | t :: ts =>
      if t.token = .mark m then .ok ts
      else
        .error (.unexpectedToken
          ("Expected " ++ m.describe ++ ", found " ++ t.token.describe) t.line)

def complete (s : Statement) : List PlacedToken -> Except SyntaxError Statement
  | [] => .ok s
  | t :: _ => .error (.trailingToken t.token.describe t.line)

def ofTokens (line : Nat) (ts : List PlacedToken) : Except SyntaxError Statement :=
  match ts with
  | ⟨.keyword .let, _⟩ :: ts => do
      let (name, ts) ← takeName line ts
      let ts ← takeMark line .equals ts
      let (value, ts) ← Expr.ofTokens line ts
      complete (.define name value line) ts
  | ⟨.keyword .assert, _⟩ :: ts => do
      let (condition, ts) ← Expr.ofTokens line ts
      complete (.assert condition line) ts
  | ⟨.keyword .org, _⟩ :: ts => do
      let (value, ts) ← Expr.ofTokens line ts
      complete (.origin value line) ts
  | ts => do
      let (e, ts) ← Expr.ofTokens line ts
      complete (.expression e line) ts

/-!
## Programs
-/

def splitLines : List PlacedToken -> List PlacedToken × List (List PlacedToken)
  | [] => ([], [])
  | t :: ts =>
      let (first, others) := splitLines ts
      if t.token = .newLine then ([], first :: others) else (t :: first, others)

/-- One statement per line that is not empty; the first error decides. -/
def ofLines : List (List PlacedToken) -> Except SyntaxError (List Statement)
  | [] => .ok []
  | [] :: lines => ofLines lines
  | (t :: ts) :: lines => do
      let s ← ofTokens t.line (t :: ts)
      return s :: (← ofLines lines)

def programOfTokens (ts : List PlacedToken) : Except SyntaxError (List Statement) :=
  let (first, others) := splitLines ts
  ofLines (first :: others)

end Statement
end Equate
