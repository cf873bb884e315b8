import Equate.Proofs.Evaluation.Renaming
import Equate.Proofs.Session.Locality

/-!
# Sessions under a renaming

A session whose functions and assembly are renamed does with renamed statements what it did
before. It fails for the same reasons on the same lines, and otherwise it answers the renamed
value and is left in the renamed state.
-/

namespace Equate

def Session.rename (r : Renaming) (s : Session) : Session :=
  { s with assembly := r.assembly s.assembly, symbols := s.symbols.rename r }

def Workplace.rename (r : Renaming) (w : Workplace) : Workplace :=
  ⟨w.session.rename r, w.registry.rename r⟩

def Statement.rename (r : Renaming) : Statement -> Statement
  | .expression e line => .expression (e.rename r) line
  | .define name e line => .define name (e.rename r) line
  | .assert e line => .assert (e.rename r) line
  | .origin e line => .origin (e.rename r) line

def Operation.rename (r : Renaming) : Operation -> Operation
  | .execute s => .execute (s.rename r)
  | .evaluate e line => .evaluate (e.rename r) line
  | .define name value line => .define name (value.map (Value.rename r)) line
  | .setCounter counter => .setCounter counter

/-!
## Operations that carry a renaming

An operation may fail in any way, but a renamed one fails exactly as the other one does.
-/

/-- One operation does at a renamed workplace what the other does at the workplace as it was. -/
def Workplace.Carries (r : Renaming) (f : α -> β) (m : ExceptT ε (StateM Workplace) α)
    (m' : ExceptT ε (StateM Workplace) β) : Prop :=
  forall w : Workplace, m'.run (w.rename r) = ((m.run w).1.map f, (m.run w).2.rename r)

namespace Workplace

variable {ε : Type} {r : Renaming}

theorem carries_pure (f : α -> β) (a : α) :
    Carries r f (pure a : ExceptT ε (StateM Workplace) α) (pure (f a)) := by
  intro w
  rfl

theorem carries_throw (f : α -> β) (error : ε) :
    Carries r f (throw error : ExceptT ε (StateM Workplace) α) (throw error) := by
  intro w
  rfl

theorem Carries.bind {f : α -> α'} {g : β -> β'} {m : ExceptT ε (StateM Workplace) α}
    {m' : ExceptT ε (StateM Workplace) α'} {k : α -> ExceptT ε (StateM Workplace) β}
    {k' : α' -> ExceptT ε (StateM Workplace) β'} (hm : Carries r f m m')
    (hk : forall a, Carries r g (k a) (k' (f a))) : Carries r g (m >>= k) (m' >>= k') := by
  intro w
  rw [run_bind, run_bind, hm w]
  rcases m.run w with ⟨error | a, after⟩
  · rfl
  · exact hk a after

/-!
## What an evaluation is given

An evaluation reads the symbols and the program counter of the session, and starts in the arena
of its assembly. What it leaves behind is put back.
-/

def context (w : Workplace) : Context :=
  ⟨w.session.counter, w.session.symbols⟩

def progress (w : Workplace) : Progress :=
  ⟨w.arena?, w.session.diagnostics⟩

def conclude (w : Workplace) (found : α × Progress) : Except RunError α × Workplace :=
  (.ok found.1, ⟨{ w.session with diagnostics := found.2.diagnostics },
    w.registry.put w.session.assembly found.2.arena⟩)

theorem context_rename (w : Workplace) : (w.rename r).context = w.context.rename r :=
  rfl

theorem progress_rename (w : Workplace) : (w.rename r).progress = w.progress.rename r := by
  have harena := w.registry.arena?_rename r w.session.assembly
  exact congrArg (fun arena => Progress.mk arena w.session.diagnostics) harena

theorem conclude_rename (w : Workplace) (f : α -> β) (found : α × Progress) :
    (w.rename r).conclude (f found.1, found.2.rename r) =
      ((w.conclude found).1.map f, (w.conclude found).2.rename r) := by
  have hput := w.registry.put_rename r w.session.assembly found.2.arena
  exact congrArg (fun registry => (Except.ok (f found.1),
    Workplace.mk ({ w.session with diagnostics := found.2.diagnostics }.rename r) registry)) hput

end Workplace

/-!
## The operations
-/

namespace Session

open Workplace (Carries carries_pure carries_throw)

variable {r : Renaming}

theorem carries_setCounter (counter : UInt64) :
    Carries r id (setCounter counter) (setCounter counter) := by
  intro w
  rfl

theorem carries_takeDiagnostics : Carries r id takeDiagnostics takeDiagnostics := by
  intro w
  rfl

theorem runEvaluation_run (m : Evaluation α) (w : Workplace) :
    (runEvaluation m).run w = w.conclude (m w.context w.progress) :=
  rfl

theorem carries_runEvaluation {f : α -> β} {m : Evaluation α} {m' : Evaluation β}
    (h : Evaluation.Carries r f m m') : Carries r f (runEvaluation m) (runEvaluation m') := by
  intro w
  rw [runEvaluation_run, runEvaluation_run, w.context_rename, w.progress_rename, h,
    w.conclude_rename]

theorem carries_evaluate (e : Expr) (line : Nat) :
    Carries r (Option.map (Value.rename r)) (evaluate e line) (evaluate (e.rename r) line) := by
  apply (carries_runEvaluation (e.carries_evaluate r)).bind
  intro value
  apply carries_takeDiagnostics.bind
  intro raised
  cases raised with
  | nil => exact carries_pure _ value
  | cons d ds => exact carries_throw _ _

theorem carries_define (name : String) (value : Option Value) (line : Nat) :
    Carries r id (define name value line) (define name (value.map (Value.rename r)) line) := by
  intro w
  rcases w with ⟨s, registry⟩
  have hsymbol : (s.rename r).symbol? name = (s.symbol? name).map (Symbol.rename r) := rfl
  change (define name (value.map (Value.rename r)) line).run ⟨s.rename r, registry.rename r⟩ = _
  cases hbound : s.symbol? name with
  | none =>
      rw [hbound] at hsymbol
      rw [define_of_unbound hbound, define_of_unbound hsymbol, Symbol.ofOption_rename]
      have hinsert := s.symbols.insert_rename r name (.ofOption value)
      exact congrArg (fun symbols => (Except.ok (),
        Workplace.mk { s.rename r with symbols := symbols } (registry.rename r))) hinsert
  | some symbol =>
      rw [hbound] at hsymbol
      rw [define_of_bound hbound, define_of_bound hsymbol]
      rfl

theorem originOf?_rename (v : Option Value) :
    originOf? (v.map (Value.rename r)) = originOf? v := by
  rcases v with _ | (n | s | f) <;> rfl

theorem carries_execute (s : Statement) :
    Carries r (Option.map (Value.rename r)) (execute s) (execute (s.rename r)) := by
  cases s with
  | expression e line => exact carries_evaluate e line
  | define name e line =>
      apply (carries_evaluate e line).bind
      intro value
      exact (carries_define name value line).bind fun _ => carries_pure _ none
  | assert e line =>
      apply (carries_evaluate e line).bind
      intro value
      rw [isTrueOption_rename]
      split
      · exact carries_pure _ none
      · exact carries_throw _ _
  | origin e line =>
      apply (carries_evaluate e line).bind
      intro value
      rw [originOf?_rename]
      split
      · exact (carries_setCounter _).bind fun _ => carries_pure _ none
      · exact carries_throw _ _

theorem carries_executeAll (last : Option Value) (ss : List Statement) :
    Carries r (Option.map (Value.rename r)) (executeAll last ss)
      (executeAll (last.map (Value.rename r)) (ss.map (Statement.rename r))) := by
  induction ss generalizing last with
  | nil => exact carries_pure _ last
  | cons s ss ih =>
      apply (carries_execute s).bind
      intro value
      have hlast : (value.map (Value.rename r) <|> last.map (Value.rename r)) =
          (value <|> last).map (Value.rename r) := by
        cases value <;> rfl
      rw [hlast]
      exact ih (value <|> last)

end Session

theorem Operation.carries_run {r : Renaming} (o : Operation) :
    Workplace.Carries r (Option.map (Value.rename r)) o.run (o.rename r).run := by
  cases o with
  | execute s => exact Session.carries_execute s
  | evaluate e line => exact Session.carries_evaluate e line
  | define name value line =>
      exact (Session.carries_define name value line).bind fun _ => Workplace.carries_pure _ none
  | setCounter counter =>
      exact (Session.carries_setCounter counter).bind fun _ => Workplace.carries_pure _ none

end Equate
