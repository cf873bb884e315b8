import Equate.Expr.Simplify
import Equate.Proofs.Evaluation.Predefined

/-!
# Simplifying to the end

Evaluation and simplification lean on each other, and they ask for more than the parts of
an expression: an indirect node hands over to whatever it is simplified to. Among builtins
this comes to an end. A step leaves a constant or a smaller expression, for which there is
no difference between evaluating at once and simplifying step by step.
-/

namespace Equate
namespace Expr

open Evaluation Interpretation

/-!
## Parts and size
-/

def parts : Expr -> List Expr
  | .constant _ => []
  | .counter => []
  | .name _ => []
  | .unary _ e => [e]
  | .binary _ l r => [l, r]
  | .group e => [e]
  | .conditional c t f => [c, t, f]
  | .index s i => [s, i]
  | .member l r => [l, r]
  | .call f args => f :: args

mutual

def size : Expr -> Nat
  | .constant _ => 1
  | .counter => 1
  | .name _ => 1
  | .unary _ e => e.size + 1
  | .binary _ l r => l.size + r.size + 1
  | .group e => e.size + 1
  | .conditional c t f => c.size + t.size + f.size + 1
  | .index s i => s.size + i.size + 1
  | .member l r => l.size + r.size + 1
  | .call f args => f.size + sizeAll args + 1

def sizeAll : List Expr -> Nat
  | [] => 0
  | e :: es => e.size + sizeAll es

end

theorem size_eq (e : Expr) : e.size = sizeAll e.parts + 1 := by
  cases e with
  | conditional c t f =>
      simp only [size, sizeAll, parts]
      omega
  | _ => simp [size, sizeAll, parts]

theorem size_pos (e : Expr) : 0 < e.size := by
  rw [size_eq]
  omega

theorem size_le_sizeAll {e : Expr} {es : List Expr} (h : e ∈ es) : e.size ≤ sizeAll es := by
  induction es with
  | nil => cases h
  | cons head es ih =>
      rw [sizeAll]
      rcases List.mem_cons.mp h with rfl | h
      · omega
      · have htail := ih h
        omega

theorem size_lt_of_mem_parts {part e : Expr} (h : part ∈ e.parts) : part.size < e.size := by
  have hle := size_le_sizeAll h
  rw [e.size_eq]
  omega

section

variable {P : Option Value -> Prop}

theorem eachAllConstants_parts {e : Expr} (h : e.AllConstants P) :
    EachAllConstants P e.parts := by
  cases e with
  | unary op e => exact ⟨h, trivial⟩
  | binary op l r => exact ⟨h.1, h.2, trivial⟩
  | group e => exact ⟨h, trivial⟩
  | conditional c t f => exact ⟨h.1, h.2.1, h.2.2, trivial⟩
  | index s i => exact ⟨h.1, h.2, trivial⟩
  | member l r => exact ⟨h.1, h.2, trivial⟩
  | call f args => exact h
  | _ => trivial

theorem allConstants_of_mem {e : Expr} {es : List Expr} (h : EachAllConstants P es)
    (he : e ∈ es) : e.AllConstants P := by
  induction es with
  | nil => cases he
  | cons head es ih =>
      rcases List.mem_cons.mp he with rfl | he
      · exact h.1
      · exact ih h.2 he

end

theorem IsPredefined.part {part e : Expr} (h : e.IsPredefined) (hpart : part ∈ e.parts) :
    part.IsPredefined :=
  allConstants_of_mem (eachAllConstants_parts h) hpart

/-!
## One step
-/

inductive Reduct (e : Expr) : Expr -> Prop where
  | constant (v : Option Value) : Reduct e (.constant v)
  | smaller {e' : Expr} (hsize : e'.size < e.size) (hpredefined : e'.IsPredefined) : Reduct e e'

section

variable {context : Context}

theorem Reduct.part {part e : Expr} (h : e.IsPredefined) (hpart : part ∈ e.parts) :
    Reduct e part :=
  .smaller (size_lt_of_mem_parts hpart) (h.part hpart)

theorem ensures_constant (e : Expr) {m : Evaluation (Option Value)} (h : IsStable m) :
    Ensures context (fun e' _ => Reduct e e') (do return .constant (← m)) := by
  apply Ensures.map
  exact h.ensures.mono fun v _ _ => .constant v

theorem ensures_ofName {part e : Expr} (hpart : part ∈ e.parts)
    {m : Evaluation (Option String)} (h : IsStable m) :
    Ensures context (fun e' _ => Reduct e e') (do return ofName (← m)) := by
  apply Ensures.map
  apply h.ensures.mono
  intro n _ _
  cases n with
  | none => exact .constant none
  | some n =>
      -- A name is smaller than any node that has parts.
      have hsize : 1 < e.size := Nat.lt_of_le_of_lt part.size_pos (size_lt_of_mem_parts hpart)
      exact .smaller hsize trivial

theorem expand_builtin {f : Function} {b : Builtin} (h : f.callee = .builtin b)
    (args : List Expr) :
    expand f args = (do return .constant (← callBuiltin b (interpretAll args))) := by
  unfold expand
  rw [h]

theorem ensures_simplify (hcontext : context.symbols.IsPredefined) {e : Expr}
    (he : e.IsPredefined) : Ensures context (fun e' _ => Reduct e e') e.simplify := by
  cases e with
  | group e => exact ensures_pure (.part he (by simp [parts]))
  | conditional c t f =>
      apply c.isStable_evaluate.ensures.bind
      intro v _ _
      cases v with
      | none => exact ensures_pure (.constant none)
      | some v =>
          apply ensures_pure
          split
          · exact .part he (by simp [parts])
          · exact .part he (by simp [parts])
  | index s i =>
      have hpart : s ∈ (index s i).parts := by simp [parts]
      exact ensures_ofName hpart
        (isStable_indexName (stable_interpret s) (stable_interpret i))
  | member l r =>
      have hpart : l ∈ (member l r).parts := by simp [parts]
      exact ensures_ofName hpart
        (isStable_memberName (stable_interpret l) (stable_interpret r))
  | call f args =>
      unfold simplify
      apply (findsPredefined_value hcontext f he.1).bind
      intro v _ hv
      rcases v with _ | (n | s | g)
      · exact ensures_pure (.constant none)
      · exact ensures_constant _ (isStable_report _)
      · exact ensures_constant _ (isStable_report _)
      · rcases hv (.function g) rfl with ⟨b, hb⟩
        dsimp only
        rw [expand_builtin hb]
        exact ensures_constant _ (isStable_callBuiltin b (stable_interpretAll args))
  | _ => exact ensures_constant _ (isStable_evaluate _)

/-- From any progress, a step leaves a constant or a smaller expression. -/
theorem reduct_simplify (hcontext : context.symbols.IsPredefined) {e : Expr}
    (he : e.IsPredefined) (p : Progress) : Reduct e (e.simplify context p).1 := by
  rcases ensures_simplify hcontext he p.arena with ⟨e', raised, after, hyields, hreduct⟩
  have hrun : (e.simplify context p).1 = e' := congrArg Prod.fst (hyields p.diagnostics)
  rw [hrun]
  exact hreduct

theorem simplify_constant (v : Option Value) : simplify (.constant v) = pure (.constant v) :=
  rfl

theorem simplify_eq_self_iff (hcontext : context.symbols.IsPredefined) {e : Expr}
    (he : e.IsPredefined) (p : Progress) :
    (e.simplify context p).1 = e ↔ exists v, e = .constant v := by
  constructor
  · intro heq
    have hreduct := reduct_simplify hcontext he p
    rw [heq] at hreduct
    cases hreduct with
    | constant v => exact ⟨v, rfl⟩
    | smaller hsize _ => exact absurd hsize (Nat.lt_irrefl _)
  · rintro ⟨v, rfl⟩
    rfl

end

/-!
## Step by step
-/

def simplifyTimes : Nat -> Expr -> Evaluation Expr
  | 0, e => pure e
  | n + 1, e => do simplifyTimes n (← e.simplify)

theorem simplifyTimes_constant (n : Nat) (v : Option Value) :
    simplifyTimes n (.constant v) = pure (.constant v) := by
  induction n with
  | zero => rfl
  | succ n ih => rw [simplifyTimes, simplify_constant, pure_bind, ih]

theorem evaluate_simplify (e : Expr) (context : Context) (p : Progress) :
    (e.simplify context p).1.evaluate context (e.simplify context p).2 = e.evaluate context p :=
  congrFun (congrFun e.simplify_bind_evaluate context) p

theorem simplifyTimes_eq_evaluate {context : Context} (hcontext : context.symbols.IsPredefined)
    {n : Nat} {e : Expr} (he : e.IsPredefined) (hn : e.size ≤ n) (p : Progress) :
    simplifyTimes n e context p =
      (.constant (e.evaluate context p).1, (e.evaluate context p).2) := by
  induction n generalizing e p with
  | zero => exact absurd hn (Nat.not_le_of_gt e.size_pos)
  | succ n ih =>
      -- The first step does not change what evaluation finds, so it is found in what is left.
      have hrun : simplifyTimes (n + 1) e context p =
          simplifyTimes n (e.simplify context p).1 context (e.simplify context p).2 := rfl
      rw [hrun, ← evaluate_simplify e context p]
      have hreduct := reduct_simplify hcontext he p
      rcases hstep : e.simplify context p with ⟨e', after⟩
      rw [hstep] at hreduct
      cases hreduct with
      | constant v =>
          rw [simplifyTimes_constant]
          rfl
      | smaller hsize hpredefined => exact ih hpredefined (by omega) after

/-!
## Termination
-/

inductive Question where
  | step
  | value
  | name

structure Request where
  question : Question
  expression : Expr

/--
The requests that a request may lead to. The parts of an expression are asked for anything.
The value of an indirect expression is the value of what it is simplified to, and the other
way round a direct expression is simplified to its value.
-/
inductive Request.Needs (context : Context) : Request -> Request -> Prop where
  | part {part e : Expr} (h : part ∈ e.parts) (asked question : Question) :
      Needs context ⟨asked, e⟩ ⟨question, part⟩
  | valueOfStep {e : Expr} (h : e.isIndirect = false) : Needs context ⟨.step, e⟩ ⟨.value, e⟩
  | stepOfValue {e : Expr} (h : e.isIndirect = true) : Needs context ⟨.value, e⟩ ⟨.step, e⟩
  | result {e : Expr} (h : e.isIndirect = true) (p : Progress) :
      Needs context ⟨.value, e⟩ ⟨.value, (e.simplify context p).1⟩
  | stepOfName (e : Expr) : Needs context ⟨.name, e⟩ ⟨.step, e⟩
  | valueOfName (e : Expr) : Needs context ⟨.name, e⟩ ⟨.value, e⟩

/-- Every chain of requests that starts here comes to an end. -/
def Request.Ends (context : Context) (r : Request) : Prop :=
  Acc (fun next r => Needs context r next) r

section

variable {context : Context}

theorem Request.ends_of_parts {e : Expr}
    (hparts : forall part, part ∈ e.parts -> forall question, Ends context ⟨question, part⟩)
    (hresult : e.isIndirect = true -> forall p, Ends context ⟨.value, (e.simplify context p).1⟩)
    (question : Question) : Ends context ⟨question, e⟩ := by
  have hboth : Ends context ⟨.step, e⟩ ∧ Ends context ⟨.value, e⟩ := by
    cases hindirect : e.isIndirect with
    | false =>
        have hvalue : Ends context ⟨.value, e⟩ := by
          constructor
          intro next h
          cases h with
          | part h _ question => exact hparts _ h question
          | stepOfValue h => simp [hindirect] at h
          | result h p => simp [hindirect] at h
        refine ⟨?_, hvalue⟩
        constructor
        intro next h
        cases h with
        | part h _ question => exact hparts _ h question
        | valueOfStep h => exact hvalue
    | true =>
        have hstep : Ends context ⟨.step, e⟩ := by
          constructor
          intro next h
          cases h with
          | part h _ question => exact hparts _ h question
          | valueOfStep h => simp [hindirect] at h
        refine ⟨hstep, ?_⟩
        constructor
        intro next h
        cases h with
        | part h _ question => exact hparts _ h question
        | stepOfValue h => exact hstep
        | result h p => exact hresult hindirect p
  cases question with
  | step => exact hboth.1
  | value => exact hboth.2
  | name =>
      constructor
      intro next h
      cases h with
      | part h _ question => exact hparts _ h question
      | stepOfName => exact hboth.1
      | valueOfName => exact hboth.2

theorem Request.ends_constant (v : Option Value) (question : Question) :
    Ends context ⟨question, .constant v⟩ := by
  apply ends_of_parts
  · intro part hpart
    cases hpart
  · intro hindirect
    cases hindirect

theorem Request.ends (hcontext : context.symbols.IsPredefined) (e : Expr) (he : e.IsPredefined)
    (question : Question) : Ends context ⟨question, e⟩ := by
  apply ends_of_parts
  · intro part hpart question
    have hsize := size_lt_of_mem_parts hpart
    exact ends hcontext part (he.part hpart) question
  · intro _ p
    have hreduct := reduct_simplify hcontext he p
    generalize (e.simplify context p).1 = e' at hreduct ⊢
    cases hreduct with
    | constant v => exact ends_constant v .value
    | smaller hsize hpredefined => exact ends hcontext e' hpredefined .value
termination_by e.size

end

/--
Among builtins, evaluation terminates, and simplification changes every expression that is
not a constant. After as many steps as the expression has nodes there is the constant of
its value, and the diagnostics and the arena are those that evaluation leaves.
-/
theorem simplification_agrees {context : Context} (hcontext : context.symbols.IsPredefined)
    {e : Expr} (he : e.IsPredefined) :
    (forall question, Request.Ends context ⟨question, e⟩) ∧
    (forall p, (e.simplify context p).1 = e ↔ exists v, e = .constant v) ∧
    (forall n, e.size ≤ n -> forall p, simplifyTimes n e context p =
      (.constant (e.evaluate context p).1, (e.evaluate context p).2)) :=
  ⟨Request.ends hcontext e he, simplify_eq_self_iff hcontext he,
    fun _ hn => simplifyTimes_eq_evaluate hcontext he hn⟩

/-- A choice, its group and its member are taken away one by one. -/
theorem simplification_agrees_choice :
    (Context.mk 0 ⟨fun _ => some (.value (.unsigned 8))⟩).symbols.IsPredefined ∧
      (Expr.conditional (.name "c") (.group (.member (.name "a") (.name "b")))
        .counter).IsPredefined ∧
      simplifyTimes 7
          (.conditional (.name "c") (.group (.member (.name "a") (.name "b"))) .counter)
          ⟨0, ⟨fun _ => some (.value (.unsigned 8))⟩⟩ {} =
        (.constant (some (.unsigned 8)), {}) := by
  have hcontext : (Context.mk 0 ⟨fun _ => some (.value (.unsigned 8))⟩).symbols.IsPredefined := by
    intro name v h
    cases h
    trivial
  have he : (Expr.conditional (.name "c") (.group (.member (.name "a") (.name "b")))
      .counter).IsPredefined :=
    ⟨trivial, ⟨trivial, trivial⟩, trivial⟩
  exact ⟨hcontext, he, (simplification_agrees hcontext he).2.2 7 (by decide) {}⟩

end Expr
end Equate
