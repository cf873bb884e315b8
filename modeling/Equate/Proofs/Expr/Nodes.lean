import Equate.Proofs.Expr.Simplification

/-!
# Nodes under observation

What an expression is asked for, its node finds out by asking its parts. The share of a node
is stated apart from the expression here, as a function of whatever the parts denote. The same
nodes can then be put together so that each of them leaves a note when it is asked, at the
position where it stands. With nothing to note this is evaluation itself.
-/

namespace Equate
namespace Expr

open Evaluation Interpretation

/-!
## The share of a node
-/

def node : Expr -> List Interpretation -> Interpretation
  | .constant v, _ => .ofValue (pure v)
  | .counter, _ => .ofValue do return some (← programCounter)
  | .name n, _ => .ofName (pure (some n))
  | .unary op _, [r] => .ofValue do Evaluation.unary op (← r.value)
  | .binary (.logical op) _ _, [l, r] => .ofValue do
      let first ← l.value
      if op.decides first then return first else r.value
  | .binary op _ _, [l, r] => .ofValue do Evaluation.binary op (← l.value) (← r.value)
  | .group _, [r] => r
  | .conditional .., [c, t, f] => .ofValue do
      match ← c.value with
      | none => return none
      | some v => if v.isTrue then t.value else f.value
  | .index .., [s, i] => .ofName (indexName s i)
  | .member .., [l, r] => .ofName (memberName l r)
  | .call .., f :: args => .ofValue do Interpretation.call (← f.value) args
  | _, _ => .undetermined

theorem interpret_eq_node (e : Expr) : e.interpret = e.node (interpretAll e.parts) := by
  cases e with
  | binary op l r => cases op <;> rfl
  | _ => rfl

/-- What a node is simplified to. A function of the host is given the arguments themselves. -/
def step : Expr -> List Interpretation -> Evaluation Expr
  | .group e, _ => pure e
  | .conditional _ t f, c :: _ => do
      match ← c.value with
      | none => return undetermined
      | some v => return if v.isTrue then t else f
  | .index .., [s, i] => do return ofName (← indexName s i)
  | .member .., [l, r] => do return ofName (← memberName l r)
  | .call _ args, f :: rs => do
      match ← f.value with
      | some (.function g) =>
          match g.callee with
          | .builtin b => return .constant (← callBuiltin b rs)
          | .host .. => expand g args
      | some v => return .constant (← report (.error (.notAFunction v)))
      | none => return undetermined
  | e, rs => do return .constant (← (e.node rs).value)

theorem simplify_eq_step (e : Expr) : e.simplify = e.step (interpretAll e.parts) := by
  cases e with
  | binary op l r => cases op <;> rfl
  | call f args =>
      unfold simplify
      apply bind_congr
      intro v
      rcases v with _ | (n | s | ⟨id, b | ⟨name, rule⟩⟩)
      · rfl
      · rfl
      · rfl
      · exact expand_builtin rfl args
      · rfl
  | _ => rfl

/-!
## Questions
-/

inductive Answer where
  | step (e : Expr)
  | value (v : Option Value)
  | name (n : Option String)

def ask (e : Expr) : Question -> Evaluation Answer
  | .step => do return .step (← e.simplify)
  | .value => do return .value (← e.evaluate)
  | .name => do return .name (← e.nameOf)

def reply (e : Expr) (rs : List Interpretation) : Question -> Evaluation Answer
  | .step => do return .step (← e.step rs)
  | .value => do return .value (← (e.node rs).value)
  | .name => do return .name (← (e.node rs).name)

theorem ask_eq_reply (e : Expr) (question : Question) :
    e.ask question = e.reply (interpretAll e.parts) question := by
  cases question with
  | step => rw [ask, reply, simplify_eq_step]
  | value => rw [ask, reply, evaluate, interpret_eq_node]
  | name => rw [ask, reply, nameOf, interpret_eq_node]

/-!
## Notes
-/

/-- What is noted at a position, the path that leads there from part to part. -/
abbrev Note := List Nat -> List Diagnostic

def Note.below (note : Note) (i : Nat) : Note :=
  fun position => note (i :: position)

def noted (ds : List Diagnostic) (m : Evaluation α) : Evaluation α := do
  ds.forM emit
  m

theorem yields_noted {m : Evaluation α} {context : Context} {arena after : Option Arena} {a : α}
    {raised : List Diagnostic} (h : Yields m context arena a raised after)
    (ds : List Diagnostic) : Yields (noted ds m) context arena a (ds ++ raised) after := by
  induction ds with
  | nil => exact h
  | cons d ds ih =>
      intro earlier
      have hrest := ih (earlier ++ [d])
      rw [List.append_assoc] at hrest
      exact hrest

def notedBoth (ds : List Diagnostic) (r : Interpretation) : Interpretation where
  value := noted ds r.value
  name := noted ds r.name

mutual

/-- An expression every node of which leaves its note when it is asked. -/
def observe : Note -> Expr -> Interpretation
  | note, .constant v => notedBoth (note []) ((constant v).node [])
  | note, .counter => notedBoth (note []) (counter.node [])
  | note, .name n => notedBoth (note []) ((name n).node [])
  | note, .unary op e => notedBoth (note []) ((unary op e).node [observe (note.below 0) e])
  | note, .binary op l r =>
      notedBoth (note []) ((binary op l r).node
        [observe (note.below 0) l, observe (note.below 1) r])
  | note, .group e => notedBoth (note []) ((group e).node [observe (note.below 0) e])
  | note, .conditional c t f =>
      notedBoth (note []) ((conditional c t f).node
        [observe (note.below 0) c, observe (note.below 1) t, observe (note.below 2) f])
  | note, .index s i =>
      notedBoth (note []) ((index s i).node
        [observe (note.below 0) s, observe (note.below 1) i])
  | note, .member l r =>
      notedBoth (note []) ((member l r).node
        [observe (note.below 0) l, observe (note.below 1) r])
  | note, .call f args =>
      notedBoth (note []) ((call f args).node
        (observe (note.below 0) f :: observeFrom note 1 args))

def observeFrom : Note -> Nat -> List Expr -> List Interpretation
  | _, _, [] => []
  | note, i, e :: es => observe (note.below i) e :: observeFrom note (i + 1) es

end

theorem observe_eq (note : Note) (e : Expr) :
    observe note e = notedBoth (note []) (e.node (observeFrom note 0 e.parts)) := by
  cases e <;> rfl

def observed (note : Note) (e : Expr) (question : Question) : Evaluation Answer :=
  noted (note []) (e.reply (observeFrom note 0 e.parts) question)

def Note.silent : Note := fun _ => []

mutual

theorem observe_silent (e : Expr) : observe .silent e = e.interpret := by
  rw [observe_eq, interpret_eq_node, observeFrom_silent 0 e.parts]
  rfl
termination_by 2 * e.size
decreasing_by
  rw [e.size_eq]
  omega

theorem observeFrom_silent (i : Nat) (es : List Expr) :
    observeFrom .silent i es = interpretAll es := by
  cases es with
  | nil => rfl
  | cons e es =>
      rw [observeFrom, interpretAll, observeFrom_silent (i + 1) es]
      exact congrArg (· :: interpretAll es) (observe_silent e)
termination_by 2 * sizeAll es + 1
decreasing_by
  · have hpos := e.size_pos
    rw [sizeAll]
    omega
  · rw [sizeAll]
    omega

end

theorem observed_silent (e : Expr) (question : Question) :
    observed .silent e question = e.ask question := by
  rw [observed, observeFrom_silent, ← ask_eq_reply]
  rfl

end Expr
end Equate
