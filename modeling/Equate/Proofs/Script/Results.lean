import Equate.Proofs.Script.Definitions
import Equate.Proofs.Session.Frame

/-!
# Results of scripts

A script first moves to its origin and establishes its definitions, and then performs its
source. Definitions lead from one workplace of a session to another, so that a source that is one
expression has the value of the expression behind whatever has been defined.
-/

namespace Equate

/-!
## Workplaces of sessions
-/

section

variable {ε α β : Type}

def StaysReachable (m : ExceptT ε (StateM Workplace) α) : Prop :=
  forall w, Session.Reachable w -> Session.Reachable (m.run w).2

theorem staysReachable_bind {m : ExceptT ε (StateM Workplace) α}
    {k : α -> ExceptT ε (StateM Workplace) β} (hm : StaysReachable m)
    (hk : forall a, StaysReachable (k a)) : StaysReachable (m >>= k) := by
  intro w hw
  have hafter := hm w hw
  rw [run_bind]
  rcases hrun : m.run w with ⟨_ | a, after⟩
  · rwa [hrun] at hafter
  · rw [hrun] at hafter
    exact hk a after hafter

theorem staysReachable_pure (a : α) :
    StaysReachable (pure a : ExceptT ε (StateM Workplace) α) :=
  fun _ hw => hw

theorem staysReachable_throw (e : ε) :
    StaysReachable (throw e : ExceptT ε (StateM Workplace) α) :=
  fun _ hw => hw

theorem staysReachable_forM {f : α -> ExceptT ε (StateM Workplace) Unit}
    (h : forall a, StaysReachable (f a)) (as : List α) : StaysReachable (as.forM f) := by
  induction as with
  | nil => exact staysReachable_pure ()
  | cons a as ih => exact staysReachable_bind (h a) fun _ => ih

end

namespace Script

theorem staysReachable_ofSyntax {α : Type} (found : Except SyntaxError α) :
    StaysReachable (ofSyntax found) := by
  cases found with
  | error e => exact staysReachable_throw _
  | ok a => exact staysReachable_pure a

theorem staysReachable_ofSession {α : Type} {operation : SessionM α}
    (h : StaysReachable operation) : StaysReachable (ofSession operation) := by
  intro w hw
  rw [ofSession_run]
  exact h w hw

theorem staysReachable_define (definition : String) : StaysReachable (define definition) := by
  unfold define
  split
  · exact staysReachable_throw _
  · rename_i name expression _
    refine staysReachable_bind (staysReachable_ofSyntax _) fun ts => ?_
    refine staysReachable_bind (staysReachable_ofSyntax _) fun (e, rest) => ?_
    dsimp only
    split
    · apply staysReachable_ofSession
      refine staysReachable_bind (fun w hw => .evaluate hw _ 0) fun value => ?_
      exact fun w hw => .define hw name value 0
    · exact staysReachable_throw _

def setup (options : ScriptOptions) : ScriptM Unit := do
  ofSession (Session.setCounter options.origin)
  options.definitions.forM define

theorem staysReachable_setup (options : ScriptOptions) : StaysReachable (setup options) :=
  staysReachable_bind
    (staysReachable_ofSession fun _ hw => .setCounter hw options.origin)
    fun _ => staysReachable_forM staysReachable_define options.definitions

theorem body_eq_setup (source : String) (options : ScriptOptions) :
    body source options = setup options >>= fun _ => perform source :=
  rfl

/-!
## Sources with one result
-/

/--
A source gives a value from every origin. Definitions put before it change nothing about this,
unless they fail themselves.
-/
structure HasResult (source : String) (v : Value) : Prop where
  alone : forall origin, run source ⟨origin, []⟩ = .ok (some v)
  behind : forall options, run source options = (run "" options).map fun _ => some v

theorem hasResult_of_perform {source : String} {v : Value}
    (h : forall w, Session.Reachable w -> ((perform source).run w).1 = .ok (some v)) :
    HasResult source v := by
  have hbehind (options : ScriptOptions) :
      run source options = (run "" options).map fun _ => some v := by
    have hreachable := staysReachable_setup options _ (.create ⟨0⟩ 0 {})
    unfold run
    rw [body_eq_setup, body_eq_setup, run_bind, run_bind]
    generalize (setup options).run ⟨.create ⟨0⟩ 0, {}⟩ = found at hreachable ⊢
    rcases found with ⟨e | _, after⟩
    · rfl
    · exact h after hreachable
  exact ⟨fun origin => hbehind ⟨origin, []⟩, hbehind⟩

/-- A source that is one expression gives the value that the expression has everywhere. -/
theorem hasResult_of_expression {source : String} {ts : List PlacedToken} {e : Expr} {line : Nat}
    {v : Value} (htokens : tokenize source = .ok ts)
    (hprogram : Statement.programOfTokens ts = .ok [.expression e line])
    (hvalue : forall w : Workplace, w.value e = some v ∧ w.raised e = []) :
    HasResult source v := by
  apply hasResult_of_perform
  intro w hw
  rcases hvalue w with ⟨hvalue, hraised⟩
  have hevaluate := Session.evaluate_of_raised_nil hw.sound.quiet hraised line
  have hexecute : (Session.executeAll none [.expression e line]).run w =
      (.ok (w.value e <|> none), ⟨w.session, w.ranking e⟩) :=
    Session.run_bind_of_ok hevaluate
  unfold perform
  rw [htokens]
  change ((ofSyntax (Statement.programOfTokens ts) >>= fun statements =>
    ofSession (Session.executeAll none statements)).run w).1 = _
  rw [hprogram]
  change ((ofSession (Session.executeAll none [.expression e line])).run w).1 = _
  rw [ofSession_run, hexecute, hvalue]
  rfl

end Script
end Equate
