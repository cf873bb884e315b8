import Equate.Proofs.Session.Steps
import Equate.Proofs.Statement.Lines

/-!
# Outcomes

A computation that can fail has an outcome only if it does not. Two computations with the same
outcomes may fail for different reasons and in different states. What statements do does not
depend on the lines on which they stand, as far as outcomes tell.
-/

namespace Equate

section

variable {ε σ α β : Type}

/-- The answer of a computation and the state in which it ends, unless it fails. -/
def outcome? (m : ExceptT ε (StateM σ) α) (s : σ) : Option (α × σ) :=
  match m.run s with
  | (.ok a, after) => some (a, after)
  | (.error _, _) => none

theorem outcome?_bind (m : ExceptT ε (StateM σ) α) (k : α -> ExceptT ε (StateM σ) β) (s : σ) :
    outcome? (m >>= k) s = (outcome? m s).bind fun found => outcome? (k found.1) found.2 := by
  unfold outcome?
  rw [run_bind]
  rcases m.run s with ⟨_ | a, after⟩ <;> rfl

theorem outcome?_bind_congr {m m' : ExceptT ε (StateM σ) α}
    {k k' : α -> ExceptT ε (StateM σ) β} (hm : outcome? m = outcome? m')
    (hk : forall a, outcome? (k a) = outcome? (k' a)) :
    outcome? (m >>= k) = outcome? (m' >>= k') := by
  funext s
  rw [outcome?_bind, outcome?_bind, hm]
  congr 1
  funext found
  rw [hk]

end

namespace Session

theorem outcome?_evaluate (e : Expr) (line line' : Nat) :
    outcome? (evaluate e line) = outcome? (evaluate e line') := by
  refine outcome?_bind_congr rfl ?_
  intro value
  refine outcome?_bind_congr rfl ?_
  intro raised
  cases raised <;> rfl

theorem outcome?_define (name : String) (value : Option Value) (line line' : Nat) :
    outcome? (define name value line) = outcome? (define name value line') := by
  refine outcome?_bind_congr rfl ?_
  intro w
  dsimp only
  split <;> rfl

theorem outcome?_execute_shift (k : Nat) (s : Statement) :
    outcome? (execute (s.shift k)) = outcome? (execute s) := by
  cases s with
  | expression e line => exact outcome?_evaluate e (line + k) line
  | define name e line =>
      refine outcome?_bind_congr (outcome?_evaluate e (line + k) line) ?_
      intro value
      exact outcome?_bind_congr (outcome?_define name value (line + k) line) fun _ => rfl
  | assert e line =>
      refine outcome?_bind_congr (outcome?_evaluate e (line + k) line) ?_
      intro value
      split <;> rfl
  | origin e line =>
      refine outcome?_bind_congr (outcome?_evaluate e (line + k) line) ?_
      intro value
      split <;> rfl

theorem outcome?_executeAll_shift (k : Nat) (last : Option Value) (ss : List Statement) :
    outcome? (executeAll last (ss.map (Statement.shift k))) = outcome? (executeAll last ss) := by
  induction ss generalizing last with
  | nil => rfl
  | cons s ss ih =>
      refine outcome?_bind_congr (outcome?_execute_shift k s) ?_
      intro value
      exact ih (value <|> last)

end Session
end Equate
