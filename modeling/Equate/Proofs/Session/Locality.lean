import Equate.Proofs.Session.Steps

/-!
# What operations of a session touch

An operation of a session reads and writes the session itself and the arena of its assembly.
It neither notices nor changes what the registry holds for others, and the number of its
assembly is of no importance: another session with the same symbols and an equal arena would
do the same.
-/

namespace Equate

inductive Operation where
  | execute (s : Statement)
  | evaluate (e : Expr) (line : Nat)
  | define (name : String) (value : Option Value) (line : Nat)
  | setCounter (counter : UInt64)

def Operation.run : Operation -> SessionM (Option Value)
  | .execute s => Session.execute s
  | .evaluate e line => Session.evaluate e line
  | .define name value line => do
      Session.define name value line
      return none
  | .setCounter counter => do
      Session.setCounter counter
      return none

def Workplace.arena? (w : Workplace) : Option Arena :=
  w.registry.arena? w.session.assembly

/-- All that a session can notice. -/
structure View where
  symbols : SymbolTable
  counter : UInt64
  diagnostics : List Diagnostic
  arena : Option Arena

def View.find (v : View) (evaluation : Evaluation α) : α × Progress :=
  evaluation ⟨v.counter, v.symbols⟩ ⟨v.arena, v.diagnostics⟩

def Workplace.view (w : Workplace) : View :=
  ⟨w.session.symbols, w.session.counter, w.session.diagnostics, w.arena?⟩

/-- A later state of the same session, in which nothing has changed for other assemblies. -/
structure Workplace.Confined (w after : Workplace) : Prop where
  assembly : after.session.assembly = w.session.assembly
  others : forall other, other ≠ w.session.assembly ->
    after.registry.arena? other = w.registry.arena? other

theorem Workplace.Confined.refl (w : Workplace) : w.Confined w where
  assembly := rfl
  others := fun _ _ => rfl

theorem Workplace.Confined.trans {w middle after : Workplace} (h : w.Confined middle)
    (h' : middle.Confined after) : w.Confined after where
  assembly := h'.assembly.trans h.assembly
  others other hother := by
    rw [h'.others other (h.assembly ▸ hother), h.others other hother]

namespace Session

/-!
## Local operations
-/

structure IsLocal (m : SessionM α) : Prop where
  confined : forall w : Workplace, w.Confined (m.run w).2
  alike : forall {w w' : Workplace}, w.view = w'.view ->
    (m.run w).1 = (m.run w').1 ∧ (m.run w).2.view = (m.run w').2.view

theorem isLocal_pure (a : α) : IsLocal (pure a) where
  confined := Workplace.Confined.refl
  alike h := ⟨rfl, h⟩

theorem isLocal_throw (error : RunError) : IsLocal (throw error : SessionM α) where
  confined := Workplace.Confined.refl
  alike h := ⟨rfl, h⟩

theorem IsLocal.bind {m : SessionM α} {k : α -> SessionM β} (hm : IsLocal m)
    (hk : forall a, IsLocal (k a)) : IsLocal (m >>= k) where
  confined w := by
    have hconfined := hm.confined w
    rcases hrun : m.run w with ⟨error | a, middle⟩
    · rw [run_bind_of_error hrun]
      rw [hrun] at hconfined
      exact hconfined
    · rw [run_bind_of_ok hrun]
      rw [hrun] at hconfined
      exact hconfined.trans ((hk a).confined middle)
  alike {w w'} h := by
    have halike := hm.alike h
    rcases hrun : m.run w with ⟨error | a, middle⟩ <;>
      rcases hrun' : m.run w' with ⟨error' | a', middle'⟩ <;>
      rw [hrun, hrun'] at halike <;>
      rcases halike with ⟨hanswer, hmiddle⟩ <;>
      cases hanswer
    · rw [run_bind_of_error hrun, run_bind_of_error hrun']
      exact ⟨rfl, hmiddle⟩
    · rw [run_bind_of_ok hrun, run_bind_of_ok hrun']
      exact (hk a).alike hmiddle

theorem isLocal_setCounter (counter : UInt64) : IsLocal (setCounter counter) where
  confined _ := ⟨rfl, fun _ _ => rfl⟩
  alike h := ⟨rfl, congrArg (fun v => { v with counter := counter }) h⟩

theorem isLocal_takeDiagnostics : IsLocal takeDiagnostics where
  confined _ := ⟨rfl, fun _ _ => rfl⟩
  alike h := ⟨congrArg (fun v : View => Except.ok v.diagnostics) h,
    congrArg (fun v => { v with diagnostics := [] }) h⟩

/-- An evaluation is given the arena of the assembly, and only this arena is put back. -/
theorem isLocal_runEvaluation (evaluation : Evaluation α) : IsLocal (runEvaluation evaluation) where
  confined w := ⟨rfl, fun _ hother => w.registry.arena?_put_of_ne _ hother⟩
  alike {w w'} h := by
    have hafter (w : Workplace) : ((runEvaluation evaluation).run w).2.view =
        { w.view with
          diagnostics := (w.view.find evaluation).2.diagnostics
          arena := (w.view.find evaluation).2.arena } := by
      have harena := w.registry.arena?_put_self w.session.assembly
        (w.view.find evaluation).2.arena
      exact congrArg (View.mk w.session.symbols w.session.counter _) harena
    refine ⟨congrArg (fun v : View => Except.ok (v.find evaluation).1) h, ?_⟩
    rw [hafter, hafter, h]

/-!
## The operations
-/

theorem isLocal_evaluate (e : Expr) (line : Nat) : IsLocal (evaluate e line) := by
  apply (isLocal_runEvaluation e.evaluate).bind
  intro value
  apply isLocal_takeDiagnostics.bind
  intro raised
  cases raised with
  | nil => exact isLocal_pure value
  | cons d ds => exact isLocal_throw _

theorem isLocal_define (name : String) (value : Option Value) (line : Nat) :
    IsLocal (define name value line) where
  confined w := by
    rcases w with ⟨s, registry⟩
    cases hbound : s.symbol? name with
    | none =>
        rw [define_of_unbound hbound]
        exact ⟨rfl, fun _ _ => rfl⟩
    | some symbol =>
        rw [define_of_bound hbound]
        exact Workplace.Confined.refl _
  alike {w w'} h := by
    rcases w with ⟨s, registry⟩
    rcases w' with ⟨s', registry'⟩
    have hsymbol : s.symbol? name = s'.symbol? name :=
      congrArg (fun v => v.symbols.find? name) h
    cases hbound : s.symbol? name with
    | none =>
        rw [define_of_unbound hbound, define_of_unbound (hsymbol.symm.trans hbound)]
        exact ⟨rfl, congrArg (fun v =>
          { v with symbols := v.symbols.insert name (.ofOption value) }) h⟩
    | some symbol =>
        rw [define_of_bound hbound, define_of_bound (hsymbol.symm.trans hbound)]
        exact ⟨rfl, h⟩

theorem isLocal_execute (s : Statement) : IsLocal (execute s) := by
  cases s with
  | expression e line => exact isLocal_evaluate e line
  | define name e line =>
      apply (isLocal_evaluate e line).bind
      intro value
      exact (isLocal_define name value line).bind fun _ => isLocal_pure none
  | assert e line =>
      apply (isLocal_evaluate e line).bind
      intro value
      split
      · exact isLocal_pure none
      · exact isLocal_throw _
  | origin e line =>
      apply (isLocal_evaluate e line).bind
      intro value
      split
      · exact (isLocal_setCounter _).bind fun _ => isLocal_pure none
      · exact isLocal_throw _

end Session

theorem Operation.isLocal_run (o : Operation) : Session.IsLocal o.run := by
  cases o with
  | execute s => exact Session.isLocal_execute s
  | evaluate e line => exact Session.isLocal_evaluate e line
  | define name value line =>
      exact (Session.isLocal_define name value line).bind fun _ => Session.isLocal_pure none
  | setCounter counter =>
      exact (Session.isLocal_setCounter counter).bind fun _ => Session.isLocal_pure none

end Equate
