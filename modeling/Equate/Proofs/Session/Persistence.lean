import Equate.Proofs.Evaluation.Persistence
import Equate.Proofs.Session.Frame

/-!
# Results that last

What a session has found once it finds again. A lasting expression whose evaluation gave
a value gives the same value at any later time, whatever statements were run in between
and whether or not they failed.
-/

namespace Equate
namespace Session

theorem found_of_evaluate {w : Workplace} (hquiet : w.session.Quiet) {e : Expr} {line : Nat}
    {value : Option Value} (h : ((evaluate e line).run w).1 = .ok value) :
    w.raised e = [] ∧ w.value e = value := by
  cases hraised : w.raised e with
  | nil =>
      rw [evaluate_of_raised_nil hquiet hraised] at h
      cases h
      exact ⟨rfl, rfl⟩
  | cons d ds =>
      rw [evaluate_of_raised_cons hquiet hraised] at h
      cases h

theorem found_of_continues {w later : Workplace} (hbuiltins : w.session.symbols.HasBuiltins)
    {e : Expr} (he : e.IsLasting) (hraised : w.raised e = []) {v : Value}
    (hvalue : w.value e = some v) (hlater : later.Continues ⟨w.session, w.ranking e⟩) :
    later.raised e = [] ∧ later.value e = some v := by
  have hyields := w.yields_find e
  rw [hraised, hvalue] at hyields
  have harena := hlater.arena
  rw [w.arena?_ranking e] at harena
  have hagain : Evaluation.Yields e.evaluate ⟨later.session.counter, later.session.symbols⟩
      (later.registry.arena? later.session.assembly) (some v) []
      (later.registry.arena? later.session.assembly) :=
    (e.lasting_interpret he).value.again hbuiltins hyields hlater.symbols harena
  rcases (later.yields_find e).unique hagain with ⟨hv, hr, _⟩
  exact ⟨hr, hv⟩

/--
A value that a lasting expression has in a session is its value after any further
statements.
-/
theorem evaluate_lasting {w : Workplace} (h : Reachable w) {e : Expr} (he : e.IsLasting)
    {line : Nat} {v : Value} (hv : ((evaluate e line).run w).1 = .ok (some v))
    (statements : List Statement) (line' : Nat) :
    ((evaluate e line').run (((evaluate e line).run w).2.afterAll statements)).1 =
      .ok (some v) := by
  have hsound := h.sound
  rcases found_of_evaluate hsound.quiet hv with ⟨hraised, hvalue⟩
  rw [evaluate_session hsound.quiet]
  rcases continues_afterAll (w := ⟨w.session, w.ranking e⟩) hsound.quiet statements with
    ⟨hcontinues, hquiet⟩
  rcases found_of_continues hsound.builtins he hraised hvalue hcontinues with
    ⟨hraised', hvalue'⟩
  rw [evaluate_of_raised_nil hquiet hraised', hvalue']

/-- The lesser of two functions stays the lesser, whatever is asked and fails in between. -/
theorem evaluate_lasting_min :
    Reachable ⟨.create ⟨0⟩ 0, {}⟩ ∧
      (Expr.call (.name "min") [.name "str", .name "len"]).IsLasting ∧
      ((evaluate (.call (.name "min") [.name "str", .name "len"]) 1).run
        ⟨.create ⟨0⟩ 0, {}⟩).1 = .ok (some (.function ⟨1, .builtin .len⟩)) ∧
      ((evaluate (.call (.name "min") [.name "str", .name "len"]) 4).run
        (Workplace.afterAll
          ((evaluate (.call (.name "min") [.name "str", .name "len"]) 1).run
            ⟨.create ⟨0⟩ 0, {}⟩).2
          [.expression (.binary (.comparison .less) (.name "str") (.name "len")) 2,
            .define "min" .counter 3])).1 = .ok (some (.function ⟨1, .builtin .len⟩)) := by
  have he : (Expr.call (.name "min") [.name "str", .name "len"]).IsLasting :=
    ⟨⟨.min, by decide, rfl⟩, trivial, trivial, trivial⟩
  exact ⟨.create ⟨0⟩ 0 {}, he, rfl, evaluate_lasting (.create ⟨0⟩ 0 {}) he rfl _ 4⟩

end Session
end Equate
