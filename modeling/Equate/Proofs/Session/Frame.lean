import Equate.Proofs.Number.Words
import Equate.Proofs.Session.Steps

/-!
# What statements change

A statement of a session succeeds and makes the one change that it is for, or it fails and
changes neither the symbols nor the program counter. What it reports is its own: no
diagnostic is left over for a later statement. Symbols are never rebound or removed.
-/

namespace Equate

/-!
## Workplaces in turn
-/

namespace Workplace

def after (w : Workplace) (s : Statement) : Workplace :=
  ((Session.execute s).run w).2

/-- The workplace after statements that all run, whether or not others have failed. -/
def afterAll (w : Workplace) (statements : List Statement) : Workplace :=
  statements.foldl after w

/-- A later workplace of the same session, with all its symbols and all that it ranked. -/
structure Continues (later w : Workplace) : Prop where
  assembly : later.session.assembly = w.session.assembly
  symbols : later.session.symbols.Extends w.session.symbols
  arena : Arena.Covers (later.registry.arena? later.session.assembly)
    (w.registry.arena? w.session.assembly)

theorem Continues.refl (w : Workplace) : w.Continues w where
  assembly := rfl
  symbols := SymbolTable.Extends.refl _
  arena := Arena.Covers.refl _

theorem Continues.trans {last later w : Workplace} (h : last.Continues later)
    (h' : later.Continues w) : last.Continues w where
  assembly := h.assembly.trans h'.assembly
  symbols := h.symbols.trans h'.symbols
  arena := h.arena.trans h'.arena

theorem arena?_ranking (w : Workplace) (e : Expr) :
    (w.ranking e).arena? w.session.assembly = (w.find e).2.arena :=
  w.registry.arena?_put_self w.session.assembly _

theorem covers_ranking (w : Workplace) (e : Expr) :
    Arena.Covers ((w.ranking e).arena? w.session.assembly)
      (w.registry.arena? w.session.assembly) := by
  rw [w.arena?_ranking e]
  exact e.isStable_evaluate.covers (w.yields_find e)

end Workplace

namespace Session

/-!
## One statement
-/

section

variable {w : Workplace} {s : Statement} {outcome : Except RunError (Option Value)}
  {after : Session} (h : Performs w s outcome after)
include h

theorem Performs.quiet (hquiet : w.session.Quiet) : after.Quiet := by
  cases h <;> exact hquiet

theorem Performs.assembly_eq : after.assembly = w.session.assembly := by
  cases h <;> rfl

theorem Performs.extends : after.symbols.Extends w.session.symbols := by
  cases h with
  | bind name e line hraised hbound => exact SymbolTable.extends_insert hbound _
  | _ => exact SymbolTable.Extends.refl _

end

def Admits (w : Workplace) : Statement -> Prop
  | .expression _ _ => True
  | .define name _ _ => w.session.symbol? name = none
  | .assert e _ => isTrueOption (w.value e) = true
  | .origin e _ => exists v n, w.value e = some v ∧ v.integer? = some n ∧ 0 ≤ n

theorem originOf?_cases (value : Option Value) :
    (exists counter v, originOf? value = some counter ∧ value = some v ∧
      v.integer? = some (counter.toNat : Int)) ∨
    originOf? value = none ∧ forall v n, value = some v -> v.integer? = some n -> n < 0 := by
  rcases value with _ | ((x | i | u) | s | f)
  case some.number.signed =>
    by_cases hneg : i < 0
    · refine Or.inr ⟨if_pos hneg, ?_⟩
      intro v n hv hn
      cases hv
      cases hn
      exact Int64.lt_iff_toInt_lt.mp hneg
    · exact Or.inl ⟨i.toUInt64, _, if_neg hneg, rfl, congrArg some (Reading.toInt_of_not_neg hneg)⟩
  case some.number.unsigned =>
    exact Or.inl ⟨u, _, rfl, rfl, rfl⟩
  case none =>
    refine Or.inr ⟨rfl, ?_⟩
    intro v n hv
    cases hv
  all_goals
    refine Or.inr ⟨rfl, ?_⟩
    intro v n hv hn
    cases hv
    cases hn

section

variable {w : Workplace} {s : Statement} {after : Session}

theorem Performs.admits {result : Option Value} (h : Performs w s (.ok result) after) :
    w.raised s.subject = [] ∧ Admits w s := by
  cases h with
  | answer e line hraised => exact ⟨hraised, trivial⟩
  | bind name e line hraised hbound => exact ⟨hraised, hbound⟩
  | accept e line hraised htrue => exact ⟨hraised, htrue⟩
  | move e line hraised horigin =>
      refine ⟨hraised, ?_⟩
      rcases originOf?_cases (w.value e) with ⟨counter, v, _, hv, hn⟩ | ⟨hnone, _⟩
      · exact ⟨v, _, hv, hn, Int.natCast_nonneg counter.toNat⟩
      · rw [hnone] at horigin
        cases horigin

variable {outcome : Except RunError (Option Value)} (h : Performs w s outcome after)
include h

end

/-!
## All sessions

A session comes into being with its builtins, and then its operations follow in any
order, with whatever other sessions do to the registry in between.
-/

inductive Reachable : Workplace -> Prop where
  | create (assembly : Assembly) (base : Nat) (registry : Registry) :
      Reachable ⟨.create assembly base, registry⟩
  | execute {w : Workplace} (h : Reachable w) (s : Statement) : Reachable (w.after s)
  | evaluate {w : Workplace} (h : Reachable w) (e : Expr) (line : Nat) :
      Reachable ((evaluate e line).run w).2
  | define {w : Workplace} (h : Reachable w) (name : String) (value : Option Value)
      (line : Nat) : Reachable ((define name value line).run w).2
  | setCounter {w : Workplace} (h : Reachable w) (counter : UInt64) :
      Reachable ((setCounter counter).run w).2
  | elsewhere {w : Workplace} (h : Reachable w) (registry : Registry) :
      Reachable ⟨w.session, registry⟩

theorem evaluate_session {w : Workplace} (hquiet : w.session.Quiet) (e : Expr) (line : Nat) :
    ((evaluate e line).run w).2 = ⟨w.session, w.ranking e⟩ := by
  cases hraised : w.raised e with
  | nil => rw [evaluate_of_raised_nil hquiet hraised]
  | cons d ds => rw [evaluate_of_raised_cons hquiet hraised]

/-- The facts on which a statement relies, and which every operation keeps. -/
structure Sound (s : Session) : Prop where
  quiet : s.Quiet
  builtins : s.symbols.HasBuiltins

theorem Reachable.sound {w : Workplace} (h : Reachable w) : w.session.Sound := by
  induction h with
  | create assembly base registry => exact ⟨rfl, SymbolTable.hasBuiltins_predefined base⟩
  | execute h s ih =>
      rcases execute_performs ih.quiet s with ⟨outcome, after, hrun, hperforms⟩
      rw [Workplace.after, hrun]
      exact ⟨hperforms.quiet ih.quiet, ih.builtins.extends hperforms.extends⟩
  | evaluate h e line ih =>
      rw [evaluate_session ih.quiet]
      exact ih
  | @define w h name value line ih =>
      cases hbound : w.session.symbol? name with
      | none =>
          rw [define_of_unbound hbound]
          exact ⟨ih.quiet, ih.builtins.extends (SymbolTable.extends_insert hbound _)⟩
      | some symbol =>
          rw [define_of_bound hbound]
          exact ih
  | setCounter h counter ih => exact ⟨ih.quiet, ih.builtins⟩
  | elsewhere h registry ih => exact ih

/-!
## All runs
-/

theorem continues_after {w : Workplace} (hquiet : w.session.Quiet) (s : Statement) :
    (w.after s).Continues w ∧ (w.after s).session.Quiet := by
  rcases execute_performs hquiet s with ⟨outcome, after, hrun, hperforms⟩
  rw [Workplace.after, hrun]
  refine ⟨⟨hperforms.assembly_eq, hperforms.extends, ?_⟩, hperforms.quiet hquiet⟩
  rw [hperforms.assembly_eq]
  exact w.covers_ranking s.subject

theorem continues_afterAll {w : Workplace} (hquiet : w.session.Quiet)
    (statements : List Statement) :
    (w.afterAll statements).Continues w ∧ (w.afterAll statements).session.Quiet := by
  induction statements generalizing w with
  | nil => exact ⟨Workplace.Continues.refl w, hquiet⟩
  | cons s statements ih =>
      rcases continues_after hquiet s with ⟨hcontinues, hquiet'⟩
      rcases ih hquiet' with ⟨hrest, hlast⟩
      exact ⟨hrest.trans hcontinues, hlast⟩

end Session
end Equate
