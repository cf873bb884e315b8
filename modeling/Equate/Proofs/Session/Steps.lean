import Equate.Proofs.Evaluation.Stability
import Equate.Proofs.Statement.Soundness
import Equate.Session

/-!
# Steps of a session

A statement evaluates its one expression first and looks at the rest only if nothing was
reported. Every way in which it can end is one rule of a step relation, and whatever is
said about sessions is said by going through the rules.
-/

namespace Equate

/-!
## What an expression shows

A workplace shows the value of an expression, the diagnostics that the expression raises
by itself, and what becomes of the registry.
-/

namespace Workplace

def find (w : Workplace) (e : Expr) : Option Value × Progress :=
  e.evaluate ⟨w.session.counter, w.session.symbols⟩
    ⟨w.registry.arena? w.session.assembly, []⟩

def value (w : Workplace) (e : Expr) : Option Value :=
  (w.find e).1

def raised (w : Workplace) (e : Expr) : List Diagnostic :=
  (w.find e).2.diagnostics

def ranking (w : Workplace) (e : Expr) : Registry :=
  w.registry.put w.session.assembly (w.find e).2.arena

theorem yields_find (w : Workplace) (e : Expr) :
    Evaluation.Yields e.evaluate ⟨w.session.counter, w.session.symbols⟩
      (w.registry.arena? w.session.assembly) (w.value e) (w.raised e)
      (w.find e).2.arena := by
  rcases e.isStable_evaluate ⟨w.session.counter, w.session.symbols⟩
    (w.registry.arena? w.session.assembly) with ⟨v, raised, after, hyields, _⟩
  have hfind : w.find e = (v, ⟨after, raised⟩) := hyields []
  unfold value Workplace.raised
  rw [hfind]
  exact hyields

end Workplace

theorem run_bind {ε σ α β : Type} (m : ExceptT ε (StateM σ) α) (k : α -> ExceptT ε (StateM σ) β)
    (s : σ) : (m >>= k).run s = ExceptT.bindCont k (m.run s).1 (m.run s).2 :=
  rfl

namespace Session

def Quiet (s : Session) : Prop :=
  s.diagnostics = []

/-!
## Operations in turn
-/

theorem run_bind_of_ok {m : SessionM α} {k : α -> SessionM β} {w w' : Workplace} {a : α}
    (h : m.run w = (.ok a, w')) : (m >>= k).run w = (k a).run w' := by
  rw [run_bind, h]
  rfl

theorem run_bind_of_error {m : SessionM α} {k : α -> SessionM β} {w w' : Workplace}
    {error : RunError} (h : m.run w = (.error error, w')) :
    (m >>= k).run w = (.error error, w') := by
  rw [run_bind, h]
  rfl

theorem runEvaluation_evaluate (w : Workplace) (e : Expr) :
    (runEvaluation e.evaluate).run w =
      (.ok (w.value e),
        ⟨{ w.session with diagnostics := w.session.diagnostics ++ w.raised e },
          w.ranking e⟩) := by
  have hyields := w.yields_find e w.session.diagnostics
  have hrun : (runEvaluation e.evaluate).run w =
      (.ok (e.evaluate ⟨w.session.counter, w.session.symbols⟩
          ⟨w.registry.arena? w.session.assembly, w.session.diagnostics⟩).1,
        ⟨{ w.session with
            diagnostics := (e.evaluate ⟨w.session.counter, w.session.symbols⟩
              ⟨w.registry.arena? w.session.assembly, w.session.diagnostics⟩).2.diagnostics },
          w.registry.put w.session.assembly (e.evaluate ⟨w.session.counter, w.session.symbols⟩
            ⟨w.registry.arena? w.session.assembly, w.session.diagnostics⟩).2.arena⟩) := rfl
  rw [hrun, hyields]
  rfl

theorem evaluate_of_raised_nil {w : Workplace} (hquiet : w.session.Quiet) {e : Expr}
    (hraised : w.raised e = []) (line : Nat) :
    (evaluate e line).run w = (.ok (w.value e), ⟨w.session, w.ranking e⟩) := by
  rcases w with ⟨⟨assembly, symbols, counter, diagnostics⟩, registry⟩
  cases hquiet
  unfold evaluate
  rw [run_bind_of_ok (runEvaluation_evaluate _ e), hraised]
  rfl

theorem evaluate_of_raised_cons {w : Workplace} (hquiet : w.session.Quiet) {e : Expr}
    {d : Diagnostic} {ds : List Diagnostic} (hraised : w.raised e = d :: ds) (line : Nat) :
    (evaluate e line).run w = (.error (.diagnostic d line), ⟨w.session, w.ranking e⟩) := by
  rcases w with ⟨⟨assembly, symbols, counter, diagnostics⟩, registry⟩
  cases hquiet
  unfold evaluate
  rw [run_bind_of_ok (runEvaluation_evaluate _ e), hraised]
  rfl

theorem define_run (s : Session) (registry : Registry) (name : String) (value : Option Value)
    (line : Nat) :
    (define name value line).run ⟨s, registry⟩ =
      (if (s.symbol? name).isSome then throw (.redefinition name line)
        else setSymbols (s.symbols.insert name (.ofOption value)) :
          SessionM Unit).run ⟨s, registry⟩ :=
  rfl

theorem define_of_unbound {s : Session} {name : String} (h : s.symbol? name = none)
    (registry : Registry) (value : Option Value) (line : Nat) :
    (define name value line).run ⟨s, registry⟩ =
      (.ok (), ⟨{ s with symbols := s.symbols.insert name (.ofOption value) }, registry⟩) := by
  rw [define_run, h]
  rfl

theorem define_of_bound {s : Session} {name : String} {symbol : Symbol}
    (h : s.symbol? name = some symbol) (registry : Registry) (value : Option Value)
    (line : Nat) :
    (define name value line).run ⟨s, registry⟩ =
      (.error (.redefinition name line), ⟨s, registry⟩) := by
  rw [define_run, h]
  rfl

/-!
## The rules

A rule says how a statement ends and what the session is then. The registry is always
the one that the evaluation has left.
-/

inductive Performs (w : Workplace) :
    Statement -> Except RunError (Option Value) -> Session -> Prop where
  | blame (s : Statement) {d : Diagnostic} {ds : List Diagnostic} :
      w.raised s.subject = d :: ds ->
      Performs w s (.error (.diagnostic d s.line)) w.session
  | answer (e : Expr) (line : Nat) :
      w.raised e = [] ->
      Performs w (.expression e line) (.ok (w.value e)) w.session
  | bind (name : String) (e : Expr) (line : Nat) :
      w.raised e = [] ->
      w.session.symbol? name = none ->
      Performs w (.define name e line) (.ok none)
        { w.session with
          symbols := w.session.symbols.insert name (.ofOption (w.value e)) }
  | refuseBinding (name : String) (e : Expr) (line : Nat) {symbol : Symbol} :
      w.raised e = [] ->
      w.session.symbol? name = some symbol ->
      Performs w (.define name e line) (.error (.redefinition name line)) w.session
  | accept (e : Expr) (line : Nat) :
      w.raised e = [] ->
      isTrueOption (w.value e) = true ->
      Performs w (.assert e line) (.ok none) w.session
  | reject (e : Expr) (line : Nat) :
      w.raised e = [] ->
      isTrueOption (w.value e) = false ->
      Performs w (.assert e line) (.error (.assertionFailed line)) w.session
  | move (e : Expr) (line : Nat) {counter : UInt64} :
      w.raised e = [] ->
      originOf? (w.value e) = some counter ->
      Performs w (.origin e line) (.ok none) { w.session with counter := counter }
  | refuseMove (e : Expr) (line : Nat) :
      w.raised e = [] ->
      originOf? (w.value e) = none ->
      Performs w (.origin e line) (.error (.invalidOrigin line)) w.session

theorem execute_performs {w : Workplace} (hquiet : w.session.Quiet) (s : Statement) :
    exists outcome after, (execute s).run w = (outcome, ⟨after, w.ranking s.subject⟩) ∧
      Performs w s outcome after := by
  cases hraised : w.raised s.subject with
  | cons d ds =>
      have hevaluate := evaluate_of_raised_cons hquiet hraised s.line
      refine ⟨_, _, ?_, .blame s hraised⟩
      cases s with
      | expression e line => exact hevaluate
      | define name e line => exact run_bind_of_error hevaluate
      | assert e line => exact run_bind_of_error hevaluate
      | origin e line => exact run_bind_of_error hevaluate
  | nil =>
      have hevaluate := evaluate_of_raised_nil hquiet hraised s.line
      cases s with
      | expression e line => exact ⟨_, _, hevaluate, .answer e line hraised⟩
      | define name e line =>
          cases hbound : w.session.symbol? name with
          | none =>
              refine ⟨_, _, ?_, .bind name e line hraised hbound⟩
              exact (run_bind_of_ok hevaluate).trans
                (run_bind_of_ok (define_of_unbound hbound (w.ranking e) (w.value e) line))
          | some symbol =>
              refine ⟨_, _, ?_, .refuseBinding name e line hraised hbound⟩
              exact (run_bind_of_ok hevaluate).trans
                (run_bind_of_error (define_of_bound hbound (w.ranking e) (w.value e) line))
      | assert e line =>
          cases htrue : isTrueOption (w.value e) with
          | true =>
              refine ⟨_, _, (run_bind_of_ok hevaluate).trans ?_, .accept e line hraised htrue⟩
              simp only [Statement.subject, htrue]
              rfl
          | false =>
              refine ⟨_, _, (run_bind_of_ok hevaluate).trans ?_, .reject e line hraised htrue⟩
              simp only [Statement.subject, htrue]
              rfl
      | origin e line =>
          cases horigin : originOf? (w.value e) with
          | some counter =>
              refine ⟨_, _, (run_bind_of_ok hevaluate).trans ?_, .move e line hraised horigin⟩
              simp only [Statement.subject, horigin]
              rfl
          | none =>
              refine ⟨_, _, (run_bind_of_ok hevaluate).trans ?_,
                .refuseMove e line hraised horigin⟩
              simp only [Statement.subject, horigin]
              rfl

end Session
end Equate
