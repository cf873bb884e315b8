import Equate.Proofs.Expr.Soundness
import Equate.Statement

/-!
# Statements are sound

A statement is a head and one expression, and it is read from exactly the tokens of both: a
line that has tokens left over is no statement.
-/

namespace Equate

/-!
## Readings that may fail
-/

theorem exists_of_bind_eq_ok {m : Except ε α} {k : α -> Except ε β} {b : β}
    (h : m >>= k = .ok b) : exists a, m = .ok a ∧ k a = .ok b := by
  cases m with
  | error e => cases h
  | ok a => exact ⟨a, rfl, h⟩

namespace Statement

/-!
## Statements
-/

def subject : Statement -> Expr
  | .expression e _ => e
  | .define _ e _ => e
  | .assert e _ => e
  | .origin e _ => e

def head : Statement -> List Token
  | .expression .. => []
  | .define name .. => [.keyword .let, .name name, .mark .equals]
  | .assert .. => [.keyword .assert]
  | .origin .. => [.keyword .org]

def tokens (s : Statement) : List Token :=
  s.head ++ s.subject.tokens

theorem takeName_eq_ok {line : Nat} {ts rest : List PlacedToken} {name : String}
    (h : takeName line ts = .ok (name, rest)) : exists place, ts = ⟨.name name, place⟩ :: rest := by
  rcases ts with _ | ⟨⟨token, place⟩, ts⟩
  · cases h
  · cases token <;> cases h
    exact ⟨place, rfl⟩

theorem takeMark_eq_ok {line : Nat} {m : Mark} {ts rest : List PlacedToken}
    (h : takeMark line m ts = .ok rest) : exists place, ts = ⟨.mark m, place⟩ :: rest := by
  rcases ts with _ | ⟨⟨token, place⟩, ts⟩
  · cases h
  · rw [takeMark] at h
    split at h
    · rename_i htoken
      cases h
      cases htoken
      exact ⟨place, rfl⟩
    · cases h

theorem complete_eq_ok {s s' : Statement} {ts : List PlacedToken} (h : complete s ts = .ok s') :
    ts = [] ∧ s' = s := by
  cases ts <;> cases h
  exact ⟨rfl, rfl⟩

/-- The expression of a statement is read behind its head, and nothing is left over. -/
structure Heads (line : Nat) (ts : List PlacedToken) (s : Statement) : Prop where
  line_eq : s.line = line
  split : exists front rest, ts = front ++ rest ∧ front.map PlacedToken.token = s.head ∧
    Expr.ofTokens line rest = .ok (s.subject, [])

theorem heads_of_complete {line : Nat} {ts : List PlacedToken} {s : Statement}
    (front : List PlacedToken) (make : Expr -> Statement)
    (hmake : forall e, (make e).subject = e ∧ (make e).line = line ∧
      front.map PlacedToken.token = (make e).head)
    (h : (do
      let (e, rest) ← Expr.ofTokens line ts
      complete (make e) rest) = .ok s) : Heads line (front ++ ts) s := by
  rcases exists_of_bind_eq_ok h with ⟨⟨e, rest⟩, hread, hcomplete⟩
  rcases complete_eq_ok hcomplete with ⟨rfl, rfl⟩
  rcases hmake e with ⟨hsubject, hline, hhead⟩
  exact ⟨hline, front, ts, rfl, hhead, by rw [hsubject, hread]⟩

theorem heads_of_ofTokens {line : Nat} {ts : List PlacedToken} {s : Statement}
    (h : ofTokens line ts = .ok s) : Heads line ts s := by
  rcases ts with _ | ⟨⟨token, place⟩, ts⟩
  · exact heads_of_complete [] (fun e => .expression e line) (fun _ => ⟨rfl, rfl, rfl⟩) h
  cases token with
  | keyword word =>
      cases word with
      | «let» =>
          rcases exists_of_bind_eq_ok h with ⟨⟨name, rest⟩, hname, h⟩
          rcases exists_of_bind_eq_ok h with ⟨rest, hequals, h⟩
          rcases takeName_eq_ok hname with ⟨namePlace, rfl⟩
          rcases takeMark_eq_ok hequals with ⟨equalsPlace, rfl⟩
          exact heads_of_complete
            [⟨.keyword .let, place⟩, ⟨.name name, namePlace⟩, ⟨.mark .equals, equalsPlace⟩]
            (fun e => .define name e line) (fun _ => ⟨rfl, rfl, rfl⟩) h
      | assert =>
          exact heads_of_complete [⟨.keyword .assert, place⟩] (fun e => .assert e line)
            (fun _ => ⟨rfl, rfl, rfl⟩) h
      | org =>
          exact heads_of_complete [⟨.keyword .org, place⟩] (fun e => .origin e line)
            (fun _ => ⟨rfl, rfl, rfl⟩) h
  | _ => exact heads_of_complete [] (fun e => .expression e line) (fun _ => ⟨rfl, rfl, rfl⟩) h

/--
A statement is on the line that it is read on. It has exactly the tokens of the line, and its
expression is grammatical.
-/
theorem sound_of_ofTokens {line : Nat} {ts : List PlacedToken} {s : Statement}
    (h : ofTokens line ts = .ok s) :
    s.line = line ∧ s.tokens = ts.map PlacedToken.token ∧ s.subject.Grammatical := by
  rcases heads_of_ofTokens h with ⟨hline, front, rest, rfl, hhead, hread⟩
  rcases Draft.run_sound Draft.valid_start hread with ⟨hsubject, used, hused, htokens⟩
  rw [List.append_nil] at hused
  refine ⟨hline, ?_, hsubject⟩
  rw [tokens, htokens, List.map_append, hhead, hused]
  rfl

/-!
## Programs
-/

theorem exists_of_mem_ofLines {lines : List (List PlacedToken)} {ss : List Statement}
    (h : ofLines lines = .ok ss) {s : Statement} (hs : s ∈ ss) :
    exists line ts, ofTokens line ts = .ok s := by
  induction lines generalizing ss with
  | nil =>
      cases h
      cases hs
  | cons line lines ih =>
      rcases line with _ | ⟨t, ts⟩
      · exact ih h hs
      · rcases exists_of_bind_eq_ok h with ⟨first, hfirst, h⟩
        rcases exists_of_bind_eq_ok h with ⟨others, hothers, h⟩
        cases h
        rcases List.mem_cons.mp hs with rfl | hs
        · exact ⟨t.line, t :: ts, hfirst⟩
        · exact ih hothers hs

end Statement
end Equate
