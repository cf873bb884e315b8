import Mathlib.Logic.Equiv.Basic
import Equate.Proofs.Expr.Soundness
import Equate.Proofs.Script.Definitions
import Equate.Proofs.Workspace.Renaming

/-!
# Scripts under a renaming

A source has no way to write down a function or an assembly: its constants are numbers and texts,
so that there is nothing in it to rename. Two fresh sessions differ in the numbers of their
builtins and in their assemblies, which is to say by a renaming, and the same source gives both
of them the same results.
-/

namespace Equate

/-!
## Expressions and statements of a source
-/

theorem Value.rename_of_literal {v : Value} (h : v.literal?.isSome = true) (r : Renaming) :
    v.rename r = v := by
  cases v with
  | function f => cases h
  | _ => rfl

namespace Expr

mutual

/-- There are no functions among the constants of a grammatical expression. -/
theorem Grammatical.rename (r : Renaming) : {e : Expr} -> e.Grammatical -> e.rename r = e
  | .constant none, h => nomatch h
  | .constant (some v), h => congrArg (fun u => constant (some u)) (Value.rename_of_literal h r)
  | .counter, _ => rfl
  | .name _, _ => rfl
  | .unary op e, h => by
      rw [Expr.rename, Grammatical.rename r h.2]
  | .binary op a b, h => by
      rw [Expr.rename, Grammatical.rename r h.2.1, Grammatical.rename r h.2.2]
  | .group e, h => by
      rw [Expr.rename, Grammatical.rename (e := e) r h]
  | .conditional c t f, h => by
      rw [Expr.rename, Grammatical.rename r h.2.1, Grammatical.rename r h.2.2.1,
        Grammatical.rename r h.2.2.2]
  | .index s i, h => by
      rw [Expr.rename, Grammatical.rename r h.2.1, Grammatical.rename r h.2.2]
  | .member a b, h => by
      rw [Expr.rename, Grammatical.rename r h.2.1, Grammatical.rename r h.2.2]
  | .call f args, h => by
      rw [Expr.rename, Grammatical.rename r h.2.1, AllGrammatical.rename r h.2.2]

theorem AllGrammatical.rename (r : Renaming) : {es : List Expr} -> AllGrammatical es ->
    renameAll r es = es
  | [], _ => rfl
  | e :: es, h => by
      rw [renameAll, Grammatical.rename r h.1, AllGrammatical.rename r h.2]

end

theorem grammatical_of_ofTokens {line : Nat} {ts rest : List PlacedToken} {e : Expr}
    (h : ofTokens line ts = .ok (e, rest)) : e.Grammatical :=
  (Draft.run_sound Draft.valid_start h).1

end Expr

namespace Statement

theorem rename_of_grammatical {s : Statement} (h : s.subject.Grammatical) (r : Renaming) :
    s.rename r = s := by
  cases s with
  | expression e line => exact congrArg (fun e => expression e line) (h.rename r)
  | define name e line => exact congrArg (fun e => define name e line) (h.rename r)
  | assert e line => exact congrArg (fun e => assert e line) (h.rename r)
  | origin e line => exact congrArg (fun e => origin e line) (h.rename r)

theorem map_rename_of_programOfTokens {ts : List PlacedToken} {ss : List Statement}
    (h : programOfTokens ts = .ok ss) (r : Renaming) : ss.map (rename r) = ss := by
  have hss : forall s, s ∈ ss -> s.rename r = s := by
    intro s hs
    rcases exists_of_mem_ofLines h hs with ⟨line, ts, hread⟩
    exact rename_of_grammatical (sound_of_ofTokens hread).2.2 r
  calc ss.map (rename r)
    _ = ss.map id := List.map_congr_left hss
    _ = ss := List.map_id ss

end Statement

/-!
## Running a source
-/

namespace Script

open Workplace (Carries carries_pure carries_throw)

variable {r : Renaming}

theorem carries_ofSyntax (found : Except SyntaxError α) :
    Carries r id (ofSyntax found) (ofSyntax found) := by
  cases found with
  | error e => exact carries_throw id (ScriptError.syntaxError e)
  | ok a => exact carries_pure id a

theorem carries_ofSession {f : α -> β} {m : SessionM α} {m' : SessionM β}
    (h : Carries r f m m') : Carries r f (ofSession m) (ofSession m') := by
  intro w
  rw [ofSession_run, ofSession_run, h]
  cases (m.run w).1 <;> rfl

theorem carries_define (definition : String) :
    Carries r id (define definition) (define definition) := by
  unfold define
  cases splitDefinition? definition with
  | none => exact carries_throw _ _
  | some found =>
      rcases found with ⟨name, expression⟩
      apply (carries_ofSyntax (tokenize expression)).bind
      intro ts
      dsimp only [id]
      cases hread : Expr.ofTokens 0 ts with
      | error e => exact carries_throw _ _
      | ok found =>
          rcases found with ⟨e, _ | ⟨t, rest⟩⟩
          · have he := Expr.grammatical_of_ofTokens hread
            have hevaluate := Session.carries_evaluate (r := r) e 0
            rw [he.rename] at hevaluate
            apply carries_ofSession
            exact hevaluate.bind fun value => Session.carries_define name value 0
          · exact carries_throw _ _

theorem carries_perform (source : String) :
    Carries r (Option.map (Value.rename r)) (perform source) (perform source) := by
  apply (carries_ofSyntax (tokenize source)).bind
  intro ts
  dsimp only [id]
  cases hread : Statement.programOfTokens ts with
  | error e => exact carries_throw _ _
  | ok ss =>
      have hexecute := Session.carries_executeAll (r := r) none ss
      rw [Statement.map_rename_of_programOfTokens hread] at hexecute
      exact carries_ofSession hexecute

theorem carries_definitions (definitions : List String) :
    Carries r id (definitions.forM define) (definitions.forM define) := by
  induction definitions with
  | nil => exact carries_pure _ ()
  | cons definition definitions ih => exact (carries_define definition).bind fun _ => ih

theorem carries_body (source : String) (options : ScriptOptions) :
    Carries r (Option.map (Value.rename r)) (body source options) (body source options) := by
  apply (carries_ofSession (Session.carries_setCounter options.origin)).bind
  intro _
  apply (carries_definitions options.definitions).bind
  intro _
  exact carries_perform source

end Script

/-!
## Fresh sessions
-/

/-- The renaming that turns one fresh session into another one. -/
def Renaming.ofFresh (assembly assembly' : Assembly) (base base' : Nat) : Renaming where
  function id :=
    if base ≤ id ∧ id < base + Builtin.all.length then id - base + base'
    else id + base' + Builtin.all.length
  assembly := Equiv.swap assembly assembly'
  function_injective := by
    intro id id' h
    dsimp only at h
    split at h <;> split at h <;> omega
  assembly_injective := (Equiv.swap assembly assembly').injective

theorem Renaming.ofFresh_function (assembly assembly' : Assembly) (base base' : Nat) {k : Nat}
    (h : k < Builtin.all.length) :
    (ofFresh assembly assembly' base base').function (base + k) = base' + k := by
  unfold ofFresh
  dsimp only
  rw [if_pos ⟨Nat.le_add_right base k, Nat.add_lt_add_left h base⟩, Nat.add_sub_cancel_left,
    Nat.add_comm]

theorem Function.predefined_eq (base : Nat) :
    predefined base = Builtin.all.zipIdx.map fun (b, k) => ⟨base + k, .builtin b⟩ := by
  unfold predefined
  rw [List.zipIdx_eq_map_add, List.map_map]
  rfl

theorem Function.map_rename_predefined (assembly assembly' : Assembly) (base base' : Nat) :
    (predefined base).map (rename (.ofFresh assembly assembly' base base')) =
      predefined base' := by
  rw [predefined_eq, predefined_eq, List.map_map]
  apply List.map_congr_left
  intro entry hentry
  have hk := List.snd_lt_of_mem_zipIdx hentry
  exact congrArg (fun id => Function.mk id (.builtin entry.1))
    (Renaming.ofFresh_function assembly assembly' base base' hk)

theorem Session.create_rename (assembly assembly' : Assembly) (base base' : Nat) :
    (create assembly base).rename (.ofFresh assembly assembly' base base') =
      create assembly' base' := by
  unfold create rename
  rw [SymbolTable.ofFunctions_rename, Function.map_rename_predefined]
  exact congrArg (fun found => Session.mk found _ _ _) (Equiv.swap_apply_left assembly assembly')

/-!
## Nothing depends on numbers
-/

/--
No result depends on the numbers of functions and assemblies. For every renaming, renamed
expressions have the renamed values, names and simplifications and raise the same diagnostics,
and any steps in a workspace have the renamed responses and leave the renamed workspace. A source
does in a renamed session what it does in the session as it was. In particular two fresh sessions
differ by a renaming, and the results of one source in them differ by it as well.
-/
theorem results_rename :
    (forall (r : Renaming) (e : Expr) (context : Context) (p : Progress),
      (e.rename r).evaluate (context.rename r) (p.rename r) =
          ((e.evaluate context p).1.map (Value.rename r), (e.evaluate context p).2.rename r) ∧
        (e.rename r).nameOf (context.rename r) (p.rename r) =
          ((e.nameOf context p).1, (e.nameOf context p).2.rename r) ∧
        (e.rename r).simplify (context.rename r) (p.rename r) =
          ((e.simplify context p).1.rename r, (e.simplify context p).2.rename r)) ∧
      (forall (r : Renaming) (w : Workspace) (steps : List Step),
        (w.rename r).run (steps.map (Step.rename r)) =
          ((w.run steps).1.map (Response.rename r), (w.run steps).2.rename r)) ∧
      (forall (r : Renaming) (w : Workplace) (source : String) (options : ScriptOptions),
        (Script.body source options).run (w.rename r) =
          (((Script.body source options).run w).1.map (Option.map (Value.rename r)),
            ((Script.body source options).run w).2.rename r)) ∧
      forall (assembly assembly' : Assembly) (base base' : Nat), exists r : Renaming,
        (Session.create assembly base).rename r = Session.create assembly' base' ∧
          forall (source : String) (options : ScriptOptions),
            (Script.body source options).run ⟨.create assembly' base', {}⟩ =
              (((Script.body source options).run ⟨.create assembly base, {}⟩).1.map
                  (Option.map (Value.rename r)),
                ((Script.body source options).run ⟨.create assembly base, {}⟩).2.rename r) := by
  refine ⟨?_, Workspace.run_rename, ?_, ?_⟩
  · intro r e context p
    exact ⟨e.carries_evaluate r context p, e.carries_nameOf r context p,
      e.carries_simplify r context p⟩
  · intro r w source options
    exact Script.carries_body source options w
  · intro assembly assembly' base base'
    have hcreate := Session.create_rename assembly assembly' base base'
    refine ⟨_, hcreate, ?_⟩
    intro source options
    have hbody := Script.carries_body (r := .ofFresh assembly assembly' base base') source options
      ⟨.create assembly base, {}⟩
    rw [← hbody, Workplace.rename, hcreate]
    rfl

end Equate
