import Equate.Evaluation

/-!
# Simplification

A step of simplification replaces an indirect node by the expression that it stands
for: a group by its inside, a conditional by the branch that its condition selects,
an index and a member by the symbol of their name, a call by what the called function
makes of its arguments. Every other node becomes the constant of its value. The step
raises the diagnostics of whatever it evaluates.

The main statement is that a step changes nothing: an expression that is simplified
first and evaluated then has the same value, and leaves the same diagnostics and
arena, as one that is evaluated at once.
-/

namespace Equate
namespace Expr

open Evaluation

def ofName : Option String -> Expr
  | some n => .name n
  | none => undetermined

def firstOf (args : List Expr) : Expr :=
  args.head?.getD undetermined

mutual

def simplify : Expr -> Evaluation Expr
  | .group e => pure e
  | .conditional c t f => do
      match ← c.evaluate with
      | none => return undetermined
      | some v => return if v.isTrue then t else f
  | .index s i => do return ofName (← Interpretation.indexName s.interpret i.interpret)
  | .member l r => do return ofName (← Interpretation.memberName l.interpret r.interpret)
  | .call f args => do
      match ← f.evaluate with
      | some (.function g) => expand g args
      | some v => return .constant (← report (.error (.notAFunction v)))
      | none => return undetermined
  | e => do return .constant (← e.evaluate)

def expand (f : Function) (args : List Expr) : Evaluation Expr :=
  match f.callee with
  | .builtin b => do return .constant (← Interpretation.callBuiltin b (interpretAll args))
  | .host _ .nothing => pure undetermined
  | .host _ .first => pure (firstOf args)
  | .host _ .last => pure (args.getLast?.getD undetermined)
  | .host _ .call =>
      match args with
      | [] => pure (.call undetermined [])
      | callee :: rest => pure (.call callee rest)
  | .host _ .index => pure (.index (firstOf args) (args[1]?.getD (firstOf args)))
  | .host _ .name => do return .constant ((← (firstOf args).nameOf).map Value.text)
  | .host _ .simplify =>
      match args with
      | [] => pure undetermined
      | e :: _ => simplify e
  | .host _ .emit => do
      emit .divisionByZero
      return firstOf args
  | .host _ .count => pure (.constant (some (.unsigned args.length.toUInt64)))
  | .host _ .counter => do return .constant (some (← programCounter))

end

/-!
## A step changes nothing
-/

theorem evaluate_ofName (n : Option String) : (ofName n).evaluate = valueOfName? n := by
  cases n <;> rfl

theorem interpret_firstOf (args : List Expr) :
    (firstOf args).interpret = Interpretation.firstOf (interpretAll args) := by
  cases args <;> rfl

theorem interpret_getLast (args : List Expr) :
    (args.getLast?.getD undetermined).interpret =
      (interpretAll args).getLast?.getD Interpretation.undetermined := by
  rw [interpretAll_eq_map, List.getLast?_map]
  cases args.getLast? <;> rfl

theorem interpret_second (args : List Expr) :
    (args[1]?.getD (firstOf args)).interpret =
      (interpretAll args)[1]?.getD (firstOf args).interpret := by
  rw [interpretAll_eq_map, List.getElem?_map]
  cases args[1]? <;> rfl

theorem length_interpretAll (args : List Expr) :
    (interpretAll args).length = args.length := by
  rw [interpretAll_eq_map, List.length_map]

mutual

/-- Simplifying first does not change the value, the diagnostics or the arena. -/
theorem simplify_bind_evaluate : (e : Expr) -> e.simplify >>= evaluate = e.evaluate
  | .constant _ => rfl
  | .counter => rfl
  | .name _ => rfl
  | .unary .. => rfl
  | .binary .. => rfl
  | .group _ => rfl
  | .conditional c t f => by
      unfold simplify
      rw [bind_assoc]
      apply bind_congr
      intro v
      cases v with
      | none => rfl
      | some v =>
          rw [pure_bind]
          dsimp only
          split <;> rfl
  | .index s i => by
      unfold simplify
      rw [bind_assoc]
      apply bind_congr
      intro n
      rw [pure_bind, evaluate_ofName]
  | .member l r => by
      unfold simplify
      rw [bind_assoc]
      apply bind_congr
      intro n
      rw [pure_bind, evaluate_ofName]
  | .call f args => by
      unfold simplify
      rw [bind_assoc]
      apply bind_congr
      intro v
      rcases v with _ | (n | s | g)
      · rfl
      · rfl
      · rfl
      · exact expand_bind_evaluate g args

theorem expand_bind_evaluate (f : Function) (args : List Expr) :
    expand f args >>= evaluate = Interpretation.callFunction f (interpretAll args) := by
  rcases f with ⟨id, b | ⟨name, rule⟩⟩
  · unfold expand Interpretation.callFunction
    rfl
  · cases rule with
    | call =>
        cases args with
        | nil => rfl
        | cons a rest =>
            unfold expand Interpretation.callFunction
            change (a.interpret.value >>= fun v => Interpretation.call v (interpretAll rest)) =
              a.interpret.value >>= _
            apply bind_congr
            intro v
            rcases v with _ | (n | s | g) <;> rfl
    | simplify =>
        cases args with
        | nil => rfl
        | cons a rest => exact simplify_bind_evaluate a
    | last =>
        unfold expand Interpretation.callFunction
        rw [← interpret_getLast]
        rfl
    | index =>
        unfold expand Interpretation.callFunction
        rw [← interpret_firstOf, ← interpret_second]
        rfl
    | count =>
        unfold expand Interpretation.callFunction
        rw [length_interpretAll]
        rfl
    | nothing =>
        unfold expand Interpretation.callFunction
        rfl
    | counter =>
        unfold expand Interpretation.callFunction
        rfl
    | _ =>
        unfold expand Interpretation.callFunction
        rw [← interpret_firstOf]
        rfl

end

end Expr
end Equate
