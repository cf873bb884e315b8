import Equate.Expr
import Equate.SyntaxError

/-!
# Expressions read in part

An expression is read token by token. In between there is a draft: the constructs
that are open, the operators that wait for an operand, and the place that the next
token has. Every token moves the draft on, ends the expression before it, or shows
an error.

Prefix operators bind tighter than binary ones, and calls, indices and members
tighter than both. The right side of a member is a single name, literal or group. A
conditional binds loosest: its condition is a chain of binary operators, its first
branch any expression, and its second branch reaches as far as possible.
-/

namespace Equate

/-!
## Drafts
-/

/-- An operator that waits for the operand to its right. -/
inductive Pending where
  | unary (op : UnaryOp)
  | binary (op : BinaryOp) (left : Expr)

/--
An open construct. Those that are closed by a mark keep the operators that wait
outside of them; outside of an open conditional none can wait.
-/
inductive Enclosure where
  /-- A parenthesis opened on a line, perhaps as the right side of a member. -/
  | paren (line : Nat) (before : List Pending) (qualifier : Option Expr)
  /-- An index opened on a line. -/
  | bracket (subject : Expr) (line : Nat) (before : List Pending)
  /-- A call, with the arguments that are complete. -/
  | arguments (function : Expr) (complete : List Expr) (before : List Pending)
  /-- A condition and the line of its question mark. -/
  | whenTrue (condition : Expr) (line : Nat)
  | whenFalse (condition whenTrue : Expr)

inductive Place where
  | operand
  | member (left : Expr)
  /-- The operand so far may be continued or end. -/
  | after (operand : Expr)

/-- Open constructs and waiting operators stand innermost first. -/
structure Draft where
  enclosures : List Enclosure
  pending : List Pending
  place : Place

def Draft.start : Draft := ⟨[], [], .operand⟩

inductive Draft.Step where
  | next (d : Draft)
  /-- The expression is complete and the token does not belong to it. -/
  | stop (e : Expr)
  | fail (error : SyntaxError)

/-!
## Waiting operators
-/

namespace Pending

def apply : Pending -> Expr -> Expr
  | .unary op, e => .unary op e
  | .binary op l, e => .binary op l e

def applyAll (pending : List Pending) (e : Expr) : Expr :=
  pending.foldl (fun e p => p.apply e) e

/-- Give the operators their operands that bind at least as tightly as a level. -/
def applyFrom (level : Nat) : List Pending -> Expr -> List Pending × Expr
  | [], e => ([], e)
  | .unary op :: pending, e => applyFrom level pending (.unary op e)
  | .binary op l :: pending, e =>
      if level ≤ op.level then applyFrom level pending (.binary op l e)
      else (.binary op l :: pending, e)

end Pending

/-!
## Steps
-/

def Token.atom? : Token -> Option Expr
  | .integer n => some (.constant (some (.unsigned n)))
  | .float x => some (.constant (some (.float x)))
  | .text s => some (.constant (some (.text s)))
  | .name n => some (.name n)
  | .mark .dollar => some .counter
  | _ => none

def Expr.qualify : Option Expr -> Expr -> Expr
  | some l, e => .member l e
  | none, e => e

namespace Draft

def unexpected (t : PlacedToken) : Step :=
  .fail (.unexpectedToken t.token.describe t.line)

def readOperand (enclosures : List Enclosure) (pending : List Pending)
    (t : PlacedToken) : Step :=
  match t.token.atom?, t.token.unary? with
  | some e, _ => .next ⟨enclosures, pending, .after e⟩
  | none, some op => .next ⟨enclosures, .unary op :: pending, .operand⟩
  | none, none =>
      match t.token, pending, enclosures with
      | .mark .lParen, pending, enclosures =>
          .next ⟨.paren t.line pending none :: enclosures, [], .operand⟩
      | .mark .rParen, [], .arguments f [] before :: enclosures =>
          .next ⟨enclosures, before, .after (.call f [])⟩
      | _, _, _ => unexpected t

def readMember (enclosures : List Enclosure) (pending : List Pending) (left : Expr)
    (t : PlacedToken) : Step :=
  match t.token.atom?, t.token with
  | some e, _ => .next ⟨enclosures, pending, .after (.member left e)⟩
  | none, .mark .lParen =>
      .next ⟨.paren t.line pending (some left) :: enclosures, [], .operand⟩
  | none, _ => unexpected t

def conclude : List Enclosure -> Expr -> PlacedToken -> Step
  | [], e, _ => .stop e
  | .whenFalse c t :: enclosures, e, token =>
      conclude enclosures (.conditional c t e) token
  | .whenTrue c line :: enclosures, e, token =>
      match token.token with
      | .mark .colon => .next ⟨.whenFalse c e :: enclosures, [], .operand⟩
      | _ => .fail (.missingColon line)
  | .paren line before qualifier :: enclosures, e, token =>
      match token.token with
      | .mark .rParen =>
          .next ⟨enclosures, before, .after (.qualify qualifier (.group e))⟩
      | _ => .fail (.unclosedParen line)
  | .bracket subject line before :: enclosures, e, token =>
      match token.token with
      | .mark .rBracket => .next ⟨enclosures, before, .after (.index subject e)⟩
      | _ => .fail (.unclosedBracket line)
  | .arguments f complete before :: enclosures, e, token =>
      match token.token with
      | .mark .comma =>
          .next ⟨.arguments f (complete ++ [e]) before :: enclosures, [], .operand⟩
      | .mark .rParen => .next ⟨enclosures, before, .after (.call f (complete ++ [e]))⟩
      | other =>
          .fail (.unexpectedToken
            ("Expected ',' or " ++ Mark.rParen.describe ++ ", found " ++ other.describe)
            token.line)

def readAfter (enclosures : List Enclosure) (pending : List Pending) (operand : Expr)
    (t : PlacedToken) : Step :=
  match t.token with
  | .mark .lParen => .next ⟨.arguments operand [] pending :: enclosures, [], .operand⟩
  | .mark .lBracket => .next ⟨.bracket operand t.line pending :: enclosures, [], .operand⟩
  | .mark .dot => .next ⟨enclosures, pending, .member operand⟩
  | .mark .question =>
      .next ⟨.whenTrue (Pending.applyAll pending operand) t.line :: enclosures, [],
        .operand⟩
  | token =>
      match token.binary? with
      | some op =>
          let (pending, left) := Pending.applyFrom op.level pending operand
          .next ⟨enclosures, .binary op left :: pending, .operand⟩
      | none => conclude enclosures (Pending.applyAll pending operand) t

def step (d : Draft) (t : PlacedToken) : Step :=
  match d.place with
  | .operand => readOperand d.enclosures d.pending t
  | .member left => readMember d.enclosures d.pending left t
  | .after operand => readAfter d.enclosures d.pending operand t

/-!
## The end of the input
-/

def concludeEnd (line : Nat) : List Enclosure -> Expr -> Except SyntaxError Expr
  | [], e => .ok e
  | .whenFalse c t :: enclosures, e => concludeEnd line enclosures (.conditional c t e)
  | .whenTrue _ line :: _, _ => .error (.missingColon line)
  | .paren line _ _ :: _, _ => .error (.unclosedParen line)
  | .bracket _ line _ :: _, _ => .error (.unclosedBracket line)
  | .arguments .. :: _, _ => .error (.unexpectedEnd line)

def finish (d : Draft) (line : Nat) : Except SyntaxError Expr :=
  match d.place with
  | .operand => .error (.unexpectedEnd line)
  | .member _ => .error (.unexpectedEnd line)
  | .after operand =>
      concludeEnd line d.enclosures (Pending.applyAll d.pending operand)

def run (line : Nat) : Draft -> List PlacedToken ->
    Except SyntaxError (Expr × List PlacedToken)
  | d, [] => (d.finish line).map fun e => (e, [])
  | d, t :: ts =>
      match d.step t with
      | .next d => run line d ts
      | .stop e => .ok (e, t :: ts)
      | .fail error => .error error

end Draft

/--
Read an expression from the start of a list of tokens, and give the tokens that are
left. An end of the input where more was expected is reported on the given line.
-/
def Expr.ofTokens (line : Nat) (ts : List PlacedToken) :
    Except SyntaxError (Expr × List PlacedToken) :=
  Draft.run line .start ts

end Equate
