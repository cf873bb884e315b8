import Equate.Proofs.Function.Assemblies
import Equate.Proofs.Session.Renaming
import Equate.Workspace

/-!
# Workspaces under a renaming

Sessions enter a workspace with any functions and any assembly, they are used and closed,
expressions are evaluated outside of sessions, and the shared registry is asked directly. If the
same is done with other numbers, every response is the renamed one, and so is the workspace in
the end.
-/

namespace Equate

/-!
## What happens in a workspace
-/

inductive Step where
  /-- A session enters, on the shared registry or with one of its own. -/
  | enter (s : Session) (own : Option Registry)
  | operate (n : Nat) (o : Operation)
  | close (n : Nat)
  /-- Evaluations in one context, for an assembly or in an arena of their own. -/
  | evaluate (assembly : Option Assembly) (context : Context) (es : List Expr)
  | ask (assembly : Assembly) (request : Request)

inductive Response where
  | done
  /-- The answer of a session, unless it was closed. -/
  | answered (answer : Option (Except RunError (Option Value)))
  | found (values : List (Option Value)) (raised : List Diagnostic)
  | replied (reply : Reply)

namespace Workspace

def enter (w : Workspace) (s : Session) (own : Option Registry) : Workspace :=
  { w with seats := w.seats ++ [⟨s.assembly, some s, own⟩] }

def keepArena (w : Workspace) (assembly : Option Assembly) (arena : Option Arena) : Workspace :=
  match assembly with
  | none => w
  | some assembly => { w with shared := w.shared.put assembly arena }

def evaluate (w : Workspace) (assembly : Option Assembly) (context : Context) (es : List Expr) :
    Response × Workspace :=
  let found := es.mapM Expr.evaluate context ⟨assembly.bind w.shared.arena?, []⟩
  (.found found.1 found.2.diagnostics, w.keepArena assembly found.2.arena)

def step (w : Workspace) : Step -> Response × Workspace
  | .enter s own => (.done, w.enter s own)
  | .operate n o => (.answered (w.perform n o.run).1, (w.perform n o.run).2)
  | .close n => (.done, w.closeSession n)
  | .evaluate assembly context es => w.evaluate assembly context es
  | .ask assembly request =>
      (.replied (w.shared.serve assembly request).1,
        { w with shared := (w.shared.serve assembly request).2 })

def run (w : Workspace) : List Step -> List Response × Workspace
  | [] => ([], w)
  | step :: steps =>
      ((w.step step).1 :: ((w.step step).2.run steps).1, ((w.step step).2.run steps).2)

/-!
## What an operation leaves behind
-/

def keepSeat (w : Workspace) (n : Nat) (seat : Seat) (after : Workplace) : Workspace :=
  match seat.own with
  | none =>
      { w.setSeat n { seat with session := some after.session } with shared := after.registry }
  | some _ =>
      w.setSeat n { seat with session := some after.session, own := some after.registry }

theorem perform_of_seat {w : Workspace} {n : Nat} {seat : Seat} {s : Session}
    (hseat : w.seats[n]? = some seat) (hs : seat.session = some s) (m : SessionM α) :
    w.perform n m =
      (some (m.run ⟨s, seat.own.getD w.shared⟩).1,
        w.keepSeat n seat (m.run ⟨s, seat.own.getD w.shared⟩).2) := by
  rcases seat with ⟨assembly, session, own⟩
  have hsession : session = some s := hs
  subst hsession
  unfold perform
  rw [hseat]
  cases own <;> rfl

end Workspace

/-!
## Other numbers
-/

def Seat.rename (r : Renaming) (seat : Seat) : Seat where
  assembly := r.assembly seat.assembly
  session := seat.session.map (Session.rename r)
  own := seat.own.map (Registry.rename r)

/-- The numbers with which a workspace would open sessions are left alone. -/
def Workspace.rename (r : Renaming) (w : Workspace) : Workspace :=
  { w with shared := w.shared.rename r, seats := w.seats.map (Seat.rename r) }

def Request.rename (r : Renaming) : Request -> Request
  | .compare f g => .compare (f.rename r) (g.rename r)
  | .registered => .registered
  | .release => .release

def Step.rename (r : Renaming) : Step -> Step
  | .enter s own => .enter (s.rename r) (own.map (Registry.rename r))
  | .operate n o => .operate n (o.rename r)
  | .close n => .close n
  | .evaluate assembly context es =>
      .evaluate (assembly.map r.assembly) (context.rename r) (Expr.renameAll r es)
  | .ask assembly request => .ask (r.assembly assembly) (request.rename r)

/-- A response is renamed in its value. Errors, diagnostics and replies stay as they are. -/
def Response.rename (r : Renaming) : Response -> Response
  | .done => .done
  | .answered answer => .answered (answer.map (Except.map (Option.map (Value.rename r))))
  | .found values raised => .found (values.map (Option.map (Value.rename r))) raised
  | .replied reply => .replied reply

/-!
## One step
-/

theorem Registry.serve_rename (r : Renaming) (registry : Registry) (assembly : Assembly)
    (request : Request) :
    (registry.rename r).serve (r.assembly assembly) (request.rename r) =
      ((registry.serve assembly request).1, (registry.serve assembly request).2.rename r) := by
  cases request with
  | compare f g =>
      have hcompare : (registry.rename r).compare (r.assembly assembly) (f.rename r) (g.rename r) =
          ((registry.compare assembly f g).1, (registry.compare assembly f g).2.rename r) := by
        unfold compare
        rw [arena?_rename, Arena.compareIn_rename]
        exact congrArg (Prod.mk _) (put_rename r registry assembly _)
      change (Reply.order (Registry.compare _ _ _ _).1, (Registry.compare _ _ _ _).2) = _
      rw [hcompare]
      rfl
  | registered =>
      have hregistered : (registry.rename r).registered (r.assembly assembly) =
          registry.registered assembly := by
        unfold registered
        rw [arena?_rename]
        cases registry.arena? assembly with
        | none => rfl
        | some arena => exact arena.size_rename r
      change (Reply.count (Registry.registered _ _), _) = _
      rw [hregistered]
      rfl
  | release =>
      change (Reply.released (arena? _ _).isSome, erase _ _) = _
      rw [arena?_rename, erase_rename, Option.isSome_map]
      rfl

namespace Workspace

section

variable (r : Renaming) (w : Workspace)

theorem seats_rename (n : Nat) : (w.rename r).seats[n]? = w.seats[n]?.map (Seat.rename r) :=
  List.getElem?_map

theorem setSeat_rename (n : Nat) (seat : Seat) :
    (w.rename r).setSeat n (seat.rename r) = (w.setSeat n seat).rename r := by
  unfold setSeat rename
  rw [List.map_set]

theorem enter_rename (s : Session) (own : Option Registry) :
    (w.rename r).enter (s.rename r) (own.map (Registry.rename r)) = (w.enter s own).rename r := by
  unfold enter rename
  rw [List.map_append]
  rfl

theorem closeSession_rename (n : Nat) :
    (w.rename r).closeSession n = (w.closeSession n).rename r := by
  unfold closeSession
  rw [seats_rename]
  cases w.seats[n]? with
  | none => rfl
  | some seat =>
      rcases seat with ⟨assembly, session, own⟩
      have hseat := w.setSeat_rename r n ⟨assembly, none, none⟩
      cases session with
      | none => exact hseat
      | some s =>
          cases own with
          | some registry => exact hseat
          | none =>
              have herase := w.shared.erase_rename r assembly
              exact congr (congrArg (fun (found : Workspace) shared =>
                { found with shared := shared }) hseat) herase

theorem keepSeat_rename (n : Nat) (seat : Seat) (after : Workplace) :
    (w.rename r).keepSeat n (seat.rename r) (after.rename r) =
      (w.keepSeat n seat after).rename r := by
  rcases seat with ⟨assembly, session, own⟩
  cases own with
  | none =>
      have hseat := w.setSeat_rename r n ⟨assembly, some after.session, none⟩
      exact congrArg (fun found => { found with shared := after.registry.rename r }) hseat
  | some registry =>
      exact w.setSeat_rename r n ⟨assembly, some after.session, some after.registry⟩

theorem perform_rename {f : α -> β} {m : SessionM α} {m' : SessionM β}
    (h : Workplace.Carries r f m m') (n : Nat) :
    (w.rename r).perform n m' =
      ((w.perform n m).1.map (Except.map f), (w.perform n m).2.rename r) := by
  have hseat := w.seats_rename r n
  cases hfound : w.seats[n]? with
  | none =>
      rw [hfound] at hseat
      unfold perform
      rw [hseat, hfound]
      rfl
  | some seat =>
      rw [hfound] at hseat
      rcases seat with ⟨assembly, session, own⟩
      cases session with
      | none =>
          unfold perform
          rw [hseat, hfound]
          rfl
      | some s =>
          have hrun : m'.run ⟨s.rename r,
              (own.map (Registry.rename r)).getD (w.rename r).shared⟩ =
                ((m.run ⟨s, own.getD w.shared⟩).1.map f,
                  (m.run ⟨s, own.getD w.shared⟩).2.rename r) := by
            rw [← h]
            cases own <;> rfl
          have hkeep := w.keepSeat_rename r n ⟨assembly, some s, own⟩
            (m.run ⟨s, own.getD w.shared⟩).2
          rw [perform_of_seat hfound rfl, perform_of_seat hseat rfl]
          dsimp only [Seat.rename, Option.map_some] at hkeep ⊢
          rw [hrun, hkeep]

theorem keepArena_rename (assembly : Option Assembly) (arena : Option Arena) :
    (w.rename r).keepArena (assembly.map r.assembly) (arena.map (Arena.rename r)) =
      (w.keepArena assembly arena).rename r := by
  cases assembly with
  | none => rfl
  | some assembly =>
      have hput := w.shared.put_rename r assembly arena
      exact congrArg (fun shared => { w.rename r with shared := shared }) hput

theorem evaluate_rename (assembly : Option Assembly) (context : Context) (es : List Expr) :
    (w.rename r).evaluate (assembly.map r.assembly) (context.rename r) (Expr.renameAll r es) =
      ((w.evaluate assembly context es).1.rename r,
        (w.evaluate assembly context es).2.rename r) := by
  have harena : (assembly.map r.assembly).bind (w.rename r).shared.arena? =
      (assembly.bind w.shared.arena?).map (Arena.rename r) := by
    cases assembly with
    | none => rfl
    | some assembly => exact w.shared.arena?_rename r assembly
  have hevaluate := Expr.carries_evaluateEach r es context ⟨assembly.bind w.shared.arena?, []⟩
  unfold evaluate
  rw [harena]
  dsimp only [Progress.rename] at hevaluate
  rw [hevaluate]
  exact congrArg (Prod.mk _) (w.keepArena_rename r assembly _)

/-- A renamed step has the renamed response, and leaves the renamed workspace. -/
theorem step_rename (step : Step) :
    (w.rename r).step (step.rename r) = ((w.step step).1.rename r, (w.step step).2.rename r) := by
  cases step with
  | enter s own => exact congrArg (Prod.mk _) (w.enter_rename r s own)
  | operate n o =>
      have hperform := w.perform_rename r (o.carries_run (r := r)) n
      exact congrArg (fun found => (Response.answered found.1, found.2)) hperform
  | close n => exact congrArg (Prod.mk _) (w.closeSession_rename r n)
  | evaluate assembly context es => exact w.evaluate_rename r assembly context es
  | ask assembly request =>
      have hserve := w.shared.serve_rename r assembly request
      exact congrArg (fun found => (Response.replied found.1,
        { w.rename r with shared := found.2 })) hserve

end

/-!
## Runs
-/

theorem run_rename (r : Renaming) (w : Workspace) (steps : List Step) :
    (w.rename r).run (steps.map (Step.rename r)) =
      ((w.run steps).1.map (Response.rename r), (w.run steps).2.rename r) := by
  induction steps generalizing w with
  | nil => rfl
  | cons step steps ih =>
      rw [List.map_cons, run, w.step_rename, ih, run]
      rfl

end Workspace
end Equate
