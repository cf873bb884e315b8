import Equate.Proofs.Token.Lines
import Equate.Statement

/-!
# Programs line by line

Reading an expression carries lines along, but nothing depends on which lines they are.
Tokens that stand further down are therefore read as before, and whatever names a line names
a line further down. Together with the tokens of sources that are joined at a line break this
makes the whole front end work line by line.
-/

namespace Equate

/-!
## Drafts further down
-/

namespace Enclosure

def shift (k : Nat) : Enclosure -> Enclosure
  | .paren line before qualifier => .paren (line + k) before qualifier
  | .bracket subject line before => .bracket subject (line + k) before
  | .arguments f complete before => .arguments f complete before
  | .whenTrue c line => .whenTrue c (line + k)
  | .whenFalse c t => .whenFalse c t

end Enclosure

namespace Draft

def shift (k : Nat) (d : Draft) : Draft :=
  ⟨d.enclosures.map (Enclosure.shift k), d.pending, d.place⟩

def Step.shift (k : Nat) : Step -> Step
  | .next d => .next (d.shift k)
  | .stop e => .stop e
  | .fail error => .fail (error.shift k)

theorem readOperand_shift (k : Nat) (enclosures : List Enclosure) (pending : List Pending)
    (t : PlacedToken) :
    readOperand (enclosures.map (Enclosure.shift k)) pending (t.shift k) =
      (readOperand enclosures pending t).shift k := by
  rcases t with ⟨token, line⟩
  cases token with
  | mark m =>
      cases m with
      | rParen =>
          -- A closing parenthesis stands for an operand only where a call has just been opened.
          rcases pending with _ | ⟨p, pending⟩
          · rcases enclosures with _ | ⟨enclosure, enclosures⟩
            · rfl
            · cases enclosure with
              | arguments f complete before => cases complete <;> rfl
              | _ => rfl
          · rfl
      | _ => rfl
  | _ => rfl

theorem readMember_shift (k : Nat) (enclosures : List Enclosure) (pending : List Pending)
    (left : Expr) (t : PlacedToken) :
    readMember (enclosures.map (Enclosure.shift k)) pending left (t.shift k) =
      (readMember enclosures pending left t).shift k := by
  rcases t with ⟨token, line⟩
  cases token with
  | mark m => cases m <;> rfl
  | _ => rfl

theorem conclude_shift (k : Nat) (enclosures : List Enclosure) (e : Expr) (t : PlacedToken) :
    conclude (enclosures.map (Enclosure.shift k)) e (t.shift k) =
      (conclude enclosures e t).shift k := by
  induction enclosures generalizing e with
  | nil => rfl
  | cons enclosure enclosures ih =>
      rcases t with ⟨token, line⟩
      cases enclosure with
      | whenFalse c t => exact ih (.conditional c t e)
      | _ =>
          cases token with
          | mark m => cases m <;> rfl
          | _ => rfl

theorem readAfter_shift (k : Nat) (enclosures : List Enclosure) (pending : List Pending)
    (operand : Expr) (t : PlacedToken) :
    readAfter (enclosures.map (Enclosure.shift k)) pending operand (t.shift k) =
      (readAfter enclosures pending operand t).shift k := by
  have hconclude := conclude_shift k enclosures (Pending.applyAll pending operand) t
  rcases t with ⟨token, line⟩
  cases token with
  | mark m => cases m <;> first | rfl | exact hconclude
  | _ => exact hconclude

theorem step_shift (k : Nat) (d : Draft) (t : PlacedToken) :
    (d.shift k).step (t.shift k) = (d.step t).shift k := by
  rcases d with ⟨enclosures, pending, place⟩
  cases place with
  | operand => exact readOperand_shift k enclosures pending t
  | member left => exact readMember_shift k enclosures pending left t
  | after operand => exact readAfter_shift k enclosures pending operand t

theorem concludeEnd_shift (line k : Nat) (enclosures : List Enclosure) (e : Expr) :
    concludeEnd (line + k) (enclosures.map (Enclosure.shift k)) e =
      (concludeEnd line enclosures e).mapError (SyntaxError.shift k) := by
  induction enclosures generalizing e with
  | nil => rfl
  | cons enclosure enclosures ih =>
      cases enclosure with
      | whenFalse c t => exact ih (.conditional c t e)
      | _ => rfl

theorem finish_shift (line k : Nat) (d : Draft) :
    (d.shift k).finish (line + k) = (d.finish line).mapError (SyntaxError.shift k) := by
  rcases d with ⟨enclosures, pending, place⟩
  cases place with
  | after operand => exact concludeEnd_shift line k enclosures (Pending.applyAll pending operand)
  | _ => rfl

theorem run_shift (line k : Nat) (d : Draft) (ts : List PlacedToken) :
    run (line + k) (d.shift k) (ts.map (PlacedToken.shift k)) = do
      let (e, rest) ← (run line d ts).mapError (SyntaxError.shift k)
      return (e, rest.map (PlacedToken.shift k)) := by
  induction ts generalizing d with
  | nil =>
      rw [List.map_nil, run, run, finish_shift]
      cases d.finish line <;> rfl
  | cons t ts ih =>
      rw [List.map_cons, run, run, step_shift]
      cases d.step t with
      | next d => exact ih d
      | stop e => rfl
      | fail error => rfl

end Draft

theorem Expr.ofTokens_shift (line k : Nat) (ts : List PlacedToken) :
    Expr.ofTokens (line + k) (ts.map (PlacedToken.shift k)) = do
      let (e, rest) ← (Expr.ofTokens line ts).mapError (SyntaxError.shift k)
      return (e, rest.map (PlacedToken.shift k)) :=
  Draft.run_shift line k .start ts

/-!
## Statements further down
-/

namespace Statement

def shift (k : Nat) : Statement -> Statement
  | .expression e line => .expression e (line + k)
  | .define name value line => .define name value (line + k)
  | .assert condition line => .assert condition (line + k)
  | .origin value line => .origin value (line + k)

theorem takeName_shift (line k : Nat) (ts : List PlacedToken) :
    takeName (line + k) (ts.map (PlacedToken.shift k)) = do
      let (name, rest) ← (takeName line ts).mapError (SyntaxError.shift k)
      return (name, rest.map (PlacedToken.shift k)) := by
  rcases ts with _ | ⟨⟨token, line⟩, ts⟩
  · rfl
  · cases token <;> rfl

theorem takeMark_shift (line k : Nat) (m : Mark) (ts : List PlacedToken) :
    takeMark (line + k) m (ts.map (PlacedToken.shift k)) = do
      let rest ← (takeMark line m ts).mapError (SyntaxError.shift k)
      return rest.map (PlacedToken.shift k) := by
  rcases ts with _ | ⟨t, ts⟩
  · rfl
  · have htoken : (t.shift k).token = t.token := rfl
    rw [List.map_cons, takeMark, takeMark, htoken]
    split <;> rfl

theorem complete_shift (k : Nat) (s : Statement) (ts : List PlacedToken) :
    complete (s.shift k) (ts.map (PlacedToken.shift k)) = do
      let s ← (complete s ts).mapError (SyntaxError.shift k)
      return s.shift k := by
  cases ts <;> rfl

theorem ofExpr_shift (line k : Nat) (make : Nat -> Expr -> Statement)
    (hmake : forall e, (make line e).shift k = make (line + k) e) (ts : List PlacedToken) :
    (do
      let (e, rest) ← Expr.ofTokens (line + k) (ts.map (PlacedToken.shift k))
      complete (make (line + k) e) rest) = do
      let s ← (do
        let (e, rest) ← Expr.ofTokens line ts
        complete (make line e) rest : Except SyntaxError Statement).mapError (SyntaxError.shift k)
      return s.shift k := by
  rw [Expr.ofTokens_shift]
  cases Expr.ofTokens line ts with
  | error e => rfl
  | ok found =>
      rcases found with ⟨e, rest⟩
      have hcomplete := complete_shift k (make line e) rest
      rw [hmake] at hcomplete
      exact hcomplete

theorem ofTokens_shift (line k : Nat) (ts : List PlacedToken) :
    ofTokens (line + k) (ts.map (PlacedToken.shift k)) = do
      let s ← (ofTokens line ts).mapError (SyntaxError.shift k)
      return s.shift k := by
  have hexpression := ofExpr_shift line k (fun line e => .expression e line) (fun _ => rfl) ts
  rcases ts with _ | ⟨⟨token, place⟩, ts⟩
  · exact hexpression
  cases token with
  | keyword word =>
      cases word with
      | «let» =>
          have hvalue := fun name => ofExpr_shift line k (fun line e => .define name e line)
            (fun _ => rfl)
          simp only [List.map_cons, PlacedToken.shift, ofTokens]
          rw [takeName_shift]
          cases takeName line ts with
          | error e => rfl
          | ok found =>
              rcases found with ⟨name, rest⟩
              change (takeMark (line + k) .equals (rest.map (PlacedToken.shift k)) >>= _) =
                (takeMark line .equals rest >>= _ : Except SyntaxError Statement).mapError _ >>= _
              rw [takeMark_shift]
              cases takeMark line .equals rest with
              | error e => rfl
              | ok rest => exact hvalue name rest
      | assert => exact ofExpr_shift line k (fun line e => .assert e line) (fun _ => rfl) ts
      | org => exact ofExpr_shift line k (fun line e => .origin e line) (fun _ => rfl) ts
  | _ => exact hexpression

/-!
## Programs
-/

/-- All lines of tokens, also the empty ones. -/
def linesOf (ts : List PlacedToken) : List (List PlacedToken) :=
  (splitLines ts).1 :: (splitLines ts).2

theorem programOfTokens_eq (ts : List PlacedToken) : programOfTokens ts = ofLines (linesOf ts) :=
  rfl

theorem linesOf_cons_of_newLine {t : PlacedToken} (h : t.token = .newLine)
    (ts : List PlacedToken) : linesOf (t :: ts) = [] :: linesOf ts := by
  simp [linesOf, splitLines, h]

theorem linesOf_cons_of_ne {t : PlacedToken} (h : t.token ≠ .newLine) (ts : List PlacedToken) :
    linesOf (t :: ts) = (t :: (splitLines ts).1) :: (splitLines ts).2 := by
  simp [linesOf, splitLines, h]

theorem linesOf_of_ne {ts : List PlacedToken} (h : forall t, t ∈ ts -> t.token ≠ .newLine) :
    linesOf ts = [ts] := by
  induction ts with
  | nil => rfl
  | cons t ts ih =>
      rcases List.forall_mem_cons.mp h with ⟨ht, htail⟩
      rcases List.cons.inj (ih htail) with ⟨hfirst, hothers⟩
      rw [linesOf_cons_of_ne ht, hfirst, hothers]

theorem linesOf_append (ts us : List PlacedToken) (line : Nat) :
    linesOf (ts ++ ⟨.newLine, line⟩ :: us) = linesOf ts ++ linesOf us := by
  induction ts with
  | nil => rfl
  | cons t ts ih =>
      rw [List.cons_append]
      by_cases ht : t.token = .newLine
      · rw [linesOf_cons_of_newLine ht, linesOf_cons_of_newLine ht, ih, List.cons_append]
      · rcases List.cons.inj ih with ⟨hfirst, hothers⟩
        rw [linesOf_cons_of_ne ht, linesOf_cons_of_ne ht, hfirst, hothers]
        rfl

theorem linesOf_shift (k : Nat) (ts : List PlacedToken) :
    linesOf (ts.map (PlacedToken.shift k)) = (linesOf ts).map (List.map (PlacedToken.shift k)) := by
  induction ts with
  | nil => rfl
  | cons t ts ih =>
      have htoken : (t.shift k).token = t.token := rfl
      rw [List.map_cons]
      by_cases ht : t.token = .newLine
      · rw [linesOf_cons_of_newLine (htoken.trans ht), linesOf_cons_of_newLine ht, ih]
        rfl
      · rcases List.cons.inj ih with ⟨hfirst, hothers⟩
        rw [linesOf_cons_of_ne (htoken ▸ ht), linesOf_cons_of_ne ht, hfirst, hothers]
        rfl

theorem ofLines_append (lines rest : List (List PlacedToken)) :
    ofLines (lines ++ rest) = do
      let ss ← ofLines lines
      let others ← ofLines rest
      return ss ++ others := by
  induction lines with
  | nil => exact (bind_pure (ofLines rest)).symm
  | cons line lines ih =>
      cases line with
      | nil => exact ih
      | cons t ts =>
          rw [List.cons_append, ofLines, ofLines, ih]
          cases ofTokens t.line (t :: ts) with
          | error e => rfl
          | ok s =>
              cases ofLines lines with
              | error e => rfl
              | ok ss => cases ofLines rest <;> rfl

theorem ofLines_shift (k : Nat) (lines : List (List PlacedToken)) :
    ofLines (lines.map (List.map (PlacedToken.shift k))) = do
      let ss ← (ofLines lines).mapError (SyntaxError.shift k)
      return ss.map (Statement.shift k) := by
  induction lines with
  | nil => rfl
  | cons line lines ih =>
      cases line with
      | nil => exact ih
      | cons t ts =>
          have hfirst := ofTokens_shift t.line k (t :: ts)
          change (do
            let s ← ofTokens (t.line + k) ((t :: ts).map (PlacedToken.shift k))
            return s :: (← ofLines (lines.map (List.map (PlacedToken.shift k))))) = _
          rw [hfirst, ih, ofLines]
          cases ofTokens t.line (t :: ts) with
          | error e => rfl
          | ok s => cases ofLines lines <;> rfl

/--
A program behind another one has the statements that it has by itself, further down, and so
has its error.
-/
theorem programOfTokens_append (ts us : List PlacedToken) (line k : Nat) :
    programOfTokens (ts ++ ⟨.newLine, line⟩ :: us.map (PlacedToken.shift k)) = do
      let ss ← programOfTokens ts
      let others ← (programOfTokens us).mapError (SyntaxError.shift k)
      return ss ++ others.map (Statement.shift k) := by
  rw [programOfTokens_eq, linesOf_append, ofLines_append, linesOf_shift, ofLines_shift]
  rw [programOfTokens_eq, programOfTokens_eq]
  cases ofLines (linesOf ts) with
  | error e => rfl
  | ok ss => cases ofLines (linesOf us) <;> rfl

end Statement

/-!
## Sources that are joined
-/

/--
A source is read line by line. Joined at a line break, two sources have the tokens and the
statements of the first one, then those of the second one further down, and the first error
of either stands where it stood or further down.
-/
theorem read_append_newLine (a b : String) :
    (tokenize (a ++ "\n" ++ b) = do
      let ts ← tokenize a
      let us ← (tokenize b).mapError (SyntaxError.shift (lineCount a))
      return ts ++ ⟨.newLine, lineCount a⟩ :: us.map (PlacedToken.shift (lineCount a))) ∧
    forall ts us : List PlacedToken,
      Statement.programOfTokens
          (ts ++ ⟨.newLine, lineCount a⟩ :: us.map (PlacedToken.shift (lineCount a))) = do
        let ss ← Statement.programOfTokens ts
        let others ← (Statement.programOfTokens us).mapError (SyntaxError.shift (lineCount a))
        return ss ++ others.map (Statement.shift (lineCount a)) := by
  constructor
  · exact tokenize_append_newLine a b
  · intro ts us
    exact Statement.programOfTokens_append ts us (lineCount a) (lineCount a)

end Equate
