import Mathlib.Data.List.Forall2
import Equate.Proofs.Statement.Lines
import Equate.Proofs.Statement.Soundness

/-!
# Errors name their line

An error blames the line of a token, the line on which an open construct was opened, or the
line of the statement for an input that ends too early. While a line is read, everything that
a draft remembers comes from this line, so that all of these are one line. The lines of the
tokens are in turn the lines of the text, and the first one that cannot be read is blamed.
-/

namespace Equate

/-!
## Blame on one line
-/

def Blames (line : Nat) (found : Except SyntaxError α) : Prop :=
  forall e, found = .error e -> e.line = line

theorem blames_ok (line : Nat) (a : α) : Blames line (.ok a) :=
  nofun

theorem blames_error {line : Nat} {e : SyntaxError} (h : e.line = line) :
    Blames line (.error e : Except SyntaxError α) := by
  intro _ he
  cases he
  exact h

theorem Blames.bind {line : Nat} {m : Except SyntaxError α} {k : α -> Except SyntaxError β}
    (hm : Blames line m) (hk : forall a, m = .ok a -> Blames line (k a)) :
    Blames line (m >>= k) := by
  cases m with
  | error e => exact blames_error (hm e rfl)
  | ok a => exact hk a rfl

theorem Blames.map {line : Nat} {m : Except SyntaxError α} (hm : Blames line m) (f : α -> β) :
    Blames line (m.map f) := by
  cases m with
  | error e => exact blames_error (hm e rfl)
  | ok a => exact blames_ok line (f a)

/-!
## Drafts on one line
-/

def Enclosure.On (line : Nat) : Enclosure -> Prop
  | .paren opened _ _ => opened = line
  | .bracket _ opened _ => opened = line
  | .whenTrue _ opened => opened = line
  | .arguments .. => True
  | .whenFalse .. => True

namespace Draft

/-- What a step leaves open was opened on the line, and an error blames it. -/
def Step.On (line : Nat) : Step -> Prop
  | .next d => forall enclosure, enclosure ∈ d.enclosures -> enclosure.On line
  | .stop _ => True
  | .fail e => e.line = line

variable {line : Nat} {enclosures : List Enclosure}
  (henclosures : forall enclosure, enclosure ∈ enclosures -> enclosure.On line)
  {t : PlacedToken} (ht : t.line = line)
include henclosures ht

theorem readOperand_on (pending : List Pending) : (readOperand enclosures pending t).On line := by
  unfold readOperand
  split
  · exact henclosures
  · exact henclosures
  · split
    · exact List.forall_mem_cons.mpr ⟨ht, henclosures⟩
    · exact (List.forall_mem_cons.mp henclosures).2
    · exact ht

theorem readMember_on (pending : List Pending) (left : Expr) :
    (readMember enclosures pending left t).On line := by
  unfold readMember
  split
  · exact henclosures
  · exact List.forall_mem_cons.mpr ⟨ht, henclosures⟩
  · exact ht

theorem conclude_on (e : Expr) : (conclude enclosures e t).On line := by
  induction enclosures generalizing e with
  | nil => trivial
  | cons enclosure enclosures ih =>
      rcases List.forall_mem_cons.mp henclosures with ⟨hopened, hothers⟩
      cases enclosure with
      | whenFalse c whenTrue => exact ih hothers (.conditional c whenTrue e)
      | arguments f complete before =>
          rw [conclude]
          split
          · exact List.forall_mem_cons.mpr ⟨trivial, hothers⟩
          · exact hothers
          · exact ht
      | whenTrue c opened =>
          rw [conclude]
          split
          · exact List.forall_mem_cons.mpr ⟨trivial, hothers⟩
          · exact hopened
      | _ =>
          rw [conclude]
          split
          · exact hothers
          · exact hopened

theorem readAfter_on (pending : List Pending) (operand : Expr) :
    (readAfter enclosures pending operand t).On line := by
  unfold readAfter
  split
  · exact List.forall_mem_cons.mpr ⟨trivial, henclosures⟩
  · exact List.forall_mem_cons.mpr ⟨ht, henclosures⟩
  · exact henclosures
  · exact List.forall_mem_cons.mpr ⟨ht, henclosures⟩
  · split
    · exact henclosures
    · exact conclude_on henclosures ht (Pending.applyAll pending operand)

theorem step_on (pending : List Pending) (place : Place) :
    (step ⟨enclosures, pending, place⟩ t).On line := by
  cases place with
  | operand => exact readOperand_on henclosures ht pending
  | member left => exact readMember_on henclosures ht pending left
  | after operand => exact readAfter_on henclosures ht pending operand

omit ht

theorem blames_concludeEnd (e : Expr) : Blames line (concludeEnd line enclosures e) := by
  induction enclosures generalizing e with
  | nil => exact blames_ok line e
  | cons enclosure enclosures ih =>
      rcases List.forall_mem_cons.mp henclosures with ⟨hopened, hothers⟩
      cases enclosure with
      | whenFalse c whenTrue => exact ih hothers (.conditional c whenTrue e)
      | arguments f complete before => exact blames_error rfl
      | _ => exact blames_error hopened

theorem blames_finish (pending : List Pending) (place : Place) :
    Blames line (finish ⟨enclosures, pending, place⟩ line) := by
  cases place with
  | after operand => exact blames_concludeEnd henclosures (Pending.applyAll pending operand)
  | _ => exact blames_error rfl

/-- A run that fails on tokens of one line blames this line, however deep it was nested. -/
theorem blames_run (pending : List Pending) (place : Place) {ts : List PlacedToken}
    (hts : forall t, t ∈ ts -> t.line = line) :
    Blames line (run line ⟨enclosures, pending, place⟩ ts) := by
  induction ts generalizing enclosures pending place with
  | nil => exact (blames_finish henclosures pending place).map fun e => (e, [])
  | cons t ts ih =>
      rcases List.forall_mem_cons.mp hts with ⟨ht, hts⟩
      have hon := step_on henclosures ht pending place
      rw [run]
      cases hstep : step ⟨enclosures, pending, place⟩ t with
      | next d =>
          rw [hstep] at hon
          exact ih hon d.pending d.place hts
      | stop e => exact blames_ok line (e, t :: ts)
      | fail error =>
          rw [hstep] at hon
          exact blames_error hon

end Draft

/-!
## Statements on one line
-/

namespace Statement

variable {line : Nat} {ts : List PlacedToken} (hts : forall t, t ∈ ts -> t.line = line)
include hts

theorem blames_takeName : Blames line (takeName line ts) := by
  unfold takeName
  split
  · exact blames_error rfl
  · exact blames_ok line _
  · exact blames_error (hts _ List.mem_cons_self)

theorem blames_takeMark (m : Mark) : Blames line (takeMark line m ts) := by
  unfold takeMark
  split
  · exact blames_error rfl
  · split
    · exact blames_ok line _
    · exact blames_error (hts _ List.mem_cons_self)

theorem blames_complete (s : Statement) : Blames line (complete s ts) := by
  cases ts with
  | nil => exact blames_ok line s
  | cons t ts => exact blames_error (hts t List.mem_cons_self)

theorem blames_ofExpr (make : Expr -> Statement) :
    Blames line (do
      let (e, rest) ← Expr.ofTokens line ts
      complete (make e) rest) := by
  refine (Draft.blames_run (List.forall_mem_nil _) [] .operand hts).bind ?_
  intro found hread
  rcases found with ⟨e, rest⟩
  rcases Draft.run_sound Draft.valid_start hread with ⟨_, used, rfl, _⟩
  exact blames_complete (fun t ht => hts t (List.mem_append_right used ht)) (make e)

theorem blames_ofTokens : Blames line (ofTokens line ts) := by
  rcases ts with _ | ⟨⟨token, place⟩, ts⟩
  · exact blames_ofExpr hts fun e => .expression e line
  have htail := (List.forall_mem_cons.mp hts).2
  cases token with
  | keyword word =>
      cases word with
      | «let» =>
          refine (blames_takeName htail).bind ?_
          intro found hname
          rcases found with ⟨name, rest⟩
          rcases takeName_eq_ok hname with ⟨namePlace, rfl⟩
          have hrest := (List.forall_mem_cons.mp htail).2
          refine (blames_takeMark hrest .equals).bind ?_
          intro rest hequals
          rcases takeMark_eq_ok hequals with ⟨equalsPlace, rfl⟩
          exact blames_ofExpr (List.forall_mem_cons.mp hrest).2 fun e => .define name e line
      | assert => exact blames_ofExpr htail fun e => .assert e line
      | org => exact blames_ofExpr htail fun e => .origin e line
  | _ => exact blames_ofExpr hts fun e => .expression e line

end Statement

/-!
## Readings of many lines
-/

section Except

variable {α β ε : Type} {as : List α} {bs : List β}

theorem exists_of_forall₂ {R : α -> β -> Prop} (h : List.Forall₂ R as bs) :
    forall b, b ∈ bs -> exists a, R a b := by
  induction h with
  | nil => exact nofun
  | cons hfirst _ ih => exact List.forall_mem_cons.mpr ⟨⟨_, hfirst⟩, ih⟩

variable {f : α -> Except ε β}

theorem forall₂_of_mapM_eq_ok (h : as.mapM f = .ok bs) :
    List.Forall₂ (fun a b => f a = .ok b) as bs := by
  induction as generalizing bs with
  | nil =>
      cases h
      exact .nil
  | cons a as ih =>
      rw [List.mapM_cons] at h
      rcases exists_of_bind_eq_ok h with ⟨b, hfirst, h⟩
      rcases exists_of_bind_eq_ok h with ⟨others, hothers, h⟩
      cases h
      exact .cons hfirst (ih hothers)

theorem exists_of_mapM_eq_error {e : ε} (h : as.mapM f = .error e) :
    exists before a after, as = before ++ a :: after ∧
      (forall a', a' ∈ before -> exists b, f a' = .ok b) ∧ f a = .error e := by
  induction as with
  | nil => cases h
  | cons a as ih =>
      rw [List.mapM_cons] at h
      cases hfirst : f a with
      | error e' =>
          rw [hfirst] at h
          cases h
          exact ⟨[], a, as, rfl, nofun, hfirst⟩
      | ok b =>
          rw [hfirst] at h
          change (as.mapM f >>= fun bs => .ok (b :: bs)) = .error e at h
          cases hothers : as.mapM f with
          | ok bs =>
              rw [hothers] at h
              cases h
          | error e' =>
              rw [hothers] at h
              cases h
              rcases ih hothers with ⟨before, a', after, rfl, hbefore, hfails⟩
              have hread := List.forall_mem_cons.mpr ⟨⟨b, hfirst⟩, hbefore⟩
              exact ⟨a :: before, a', after, rfl, hread, hfails⟩

theorem exists_mapM_eq_ok_iff :
    (exists bs, as.mapM f = .ok bs) ↔ forall a, a ∈ as -> exists b, f a = .ok b := by
  constructor
  · intro h
    rcases h with ⟨bs, hbs⟩
    exact exists_of_forall₂ (forall₂_of_mapM_eq_ok hbs).flip
  · intro h
    cases hread : as.mapM f with
    | ok bs => exact ⟨bs, rfl⟩
    | error e =>
        rcases exists_of_mapM_eq_error hread with ⟨before, a, after, rfl, _, hfails⟩
        rcases h a List.mem_append_cons_self with ⟨b, hb⟩
        rw [hb] at hfails
        cases hfails

end Except

/-!
## Lines of a program
-/

structure Line where
  number : Nat
  tokens : List PlacedToken

namespace Line

def numberFrom : Nat -> List (List PlacedToken) -> List Line
  | _, [] => []
  | n, tokens :: lines => ⟨n, tokens⟩ :: numberFrom (n + 1) lines

def all (ts : List PlacedToken) : List Line :=
  numberFrom 1 (Statement.linesOf ts)

def filled (ts : List PlacedToken) : List Line :=
  (all ts).filter (!·.tokens.isEmpty)

def read (l : Line) : Except SyntaxError Statement :=
  Statement.ofTokens l.number l.tokens

theorem map_number_numberFrom (n : Nat) (lines : List (List PlacedToken)) :
    (numberFrom n lines).map number = List.range' n (numberFrom n lines).length := by
  induction lines generalizing n with
  | nil => rfl
  | cons tokens lines ih => exact congrArg (n :: ·) (ih (n + 1))

/-- A program is read line by line if the tokens are on the lines on which they are found. -/
theorem mapM_read_numberFrom {n : Nat} {lines : List (List PlacedToken)}
    (h : forall l, l ∈ numberFrom n lines -> forall t, t ∈ l.tokens -> t.line = l.number) :
    ((numberFrom n lines).filter (!·.tokens.isEmpty)).mapM read = Statement.ofLines lines := by
  induction lines generalizing n with
  | nil => rfl
  | cons tokens lines ih =>
      rcases List.forall_mem_cons.mp h with ⟨hfirst, hothers⟩
      cases tokens with
      | nil => exact ih hothers
      | cons t ts =>
          have ht : t.line = n := hfirst t List.mem_cons_self
          rw [numberFrom, List.filter_cons_of_pos rfl, List.mapM_cons, ih hothers,
            Statement.ofLines, ht]
          rfl

/-!
## Lines of a text
-/

/-- The line has the tokens that a text has by itself, below the lines above it. -/
def Holds (text : List Char) (l : Line) : Prop :=
  '\n' ∉ text ∧ exists above us, l.number = above + 1 ∧
    tokenize (String.ofList text) = .ok us ∧ l.tokens = us.map (PlacedToken.shift above)

theorem Holds.number_pos {text : List Char} {l : Line} (h : Holds text l) : 0 < l.number := by
  rcases h with ⟨_, above, us, hnumber, _⟩
  exact hnumber ▸ Nat.succ_pos above

theorem Holds.line_eq {text : List Char} {l : Line} (h : Holds text l) :
    forall t, t ∈ l.tokens -> t.line = l.number := by
  rcases h with ⟨hbreak, above, us, hnumber, hus, htokens⟩
  intro t ht
  rw [htokens] at ht
  rcases List.mem_map.mp ht with ⟨u, hu, rfl⟩
  have hline := (onLine_of_tokenize (by rwa [String.toList_ofList]) hus u hu).2
  rw [hnumber, Nat.add_comm, ← hline]
  rfl

end Line

theorem exists_of_tokenize_append_newLine {a b : String} {ts : List PlacedToken}
    (h : tokenize (a ++ "\n" ++ b) = .ok ts) :
    exists us vs, tokenize a = .ok us ∧ tokenize b = .ok vs ∧
      ts = us ++ ⟨.newLine, lineCount a⟩ :: vs.map (PlacedToken.shift (lineCount a)) := by
  rw [tokenize_append_newLine] at h
  rcases exists_of_bind_eq_ok h with ⟨us, hus, h⟩
  rcases exists_of_bind_eq_ok h with ⟨vs, hvs, h⟩
  cases hb : tokenize b with
  | error e =>
      rw [hb] at hvs
      cases hvs
  | ok vs =>
      rw [hb] at hvs
      cases hvs
      cases h
      exact ⟨us, vs, hus, rfl, rfl⟩

namespace Line

theorem shift_comp_shift (j k : Nat) :
    PlacedToken.shift k ∘ PlacedToken.shift j = PlacedToken.shift (k + j) := by
  funext t
  exact congrArg (PlacedToken.mk t.token) (by rw [Nat.add_comm k, ← Nat.add_assoc]; rfl)

theorem linesOf_of_tokenize {text : List Char} (hbreak : '\n' ∉ text) {us : List PlacedToken}
    (hus : tokenize (String.ofList text) = .ok us) (above : Nat) :
    Statement.linesOf (us.map (PlacedToken.shift above)) = [us.map (PlacedToken.shift above)] := by
  apply Statement.linesOf_of_ne
  intro t ht
  rcases List.mem_map.mp ht with ⟨u, hu, rfl⟩
  exact (onLine_of_tokenize (by rwa [String.toList_ofList]) hus u hu).1

theorem holds_numberFrom {text : List Char} {ts : List PlacedToken}
    (h : tokenize (String.ofList text) = .ok ts) (above : Nat) :
    List.Forall₂ Holds (text.splitOn '\n')
      (numberFrom (above + 1) (Statement.linesOf (ts.map (PlacedToken.shift above)))) := by
  by_cases hbreak : '\n' ∈ text
  · rcases List.eq_append_cons_of_mem hbreak with ⟨first, others, htext, hfirst⟩
    have hshorter : others.length < text.length := by
      rw [htext, List.length_append, List.length_cons]
      omega
    have hsource : String.ofList text = String.ofList first ++ "\n" ++ String.ofList others := by
      apply String.toList_injective
      simp [htext]
    have hcount : lineCount (String.ofList first) = 1 := by
      rw [lineCount, String.toList_ofList, List.count_eq_zero.mpr hfirst]
    rw [hsource] at h
    rcases exists_of_tokenize_append_newLine h with ⟨us, vs, hus, hvs, rfl⟩
    rw [hcount, List.map_append, List.map_cons, List.map_map, shift_comp_shift]
    change List.Forall₂ Holds _ (numberFrom (above + 1) (Statement.linesOf
      (us.map (PlacedToken.shift above) ++ ⟨.newLine, 1 + above⟩ :: _)))
    rw [Statement.linesOf_append, linesOf_of_tokenize hfirst hus above, htext,
      List.splitOn_append_cons_self_of_not_mem hfirst]
    exact .cons ⟨hfirst, above, us, rfl, hus, rfl⟩ (holds_numberFrom hvs (above + 1))
  · rw [linesOf_of_tokenize hbreak h above, List.splitOn_eq_singleton hbreak]
    exact .cons ⟨hbreak, above, ts, rfl, h, rfl⟩ .nil
termination_by text.length

theorem holds_all {source : String} {ts : List PlacedToken} (h : tokenize source = .ok ts) :
    List.Forall₂ Holds (source.toList.splitOn '\n') (all ts) := by
  have hsource : tokenize (String.ofList source.toList) = .ok ts := by
    rwa [String.ofList_toList]
  have hlines := holds_numberFrom hsource 0
  rwa [show PlacedToken.shift 0 = id from rfl, List.map_id] at hlines

end Line

/-!
## Programs
-/

namespace Statement

structure ReadByLine (source : String) (ts : List PlacedToken) : Prop where
  /-- The lines are those of the text, also the empty ones. -/
  lines : List.Forall₂ Line.Holds (source.toList.splitOn '\n') (Line.all ts)
  numbers : (Line.all ts).map Line.number = List.range' 1 (Line.all ts).length
  succeeds : (exists ss, programOfTokens ts = .ok ss) ↔
    forall l, l ∈ Line.filled ts -> exists s, l.read = .ok s
  /-- There is one statement for each line that is not empty, and it leaves none of its tokens. -/
  statements : forall ss, programOfTokens ts = .ok ss ->
    List.Forall₂
      (fun l s => l.read = .ok s ∧ s.line = l.number ∧
        s.tokens = l.tokens.map PlacedToken.token)
      (Line.filled ts) ss
  /-- The error is the one of the first line that is no statement, and names this line. -/
  blame : forall e, programOfTokens ts = .error e ->
    exists before l after, Line.filled ts = before ++ l :: after ∧
      (forall l', l' ∈ before -> exists s, l'.read = .ok s) ∧
      l.read = .error e ∧ e.line = l.number ∧ 0 < e.line

/-- Programs are read line by line, and their errors name the line that is wrong. -/
theorem programOfTokens_readByLine {source : String} {ts : List PlacedToken}
    (h : tokenize source = .ok ts) : ReadByLine source ts := by
  have hholds := exists_of_forall₂ (Line.holds_all h)
  have hprogram : programOfTokens ts = (Line.filled ts).mapM Line.read := by
    refine (Line.mapM_read_numberFrom ?_).symm
    intro l hl
    rcases hholds l hl with ⟨text, htext⟩
    exact htext.line_eq
  constructor
  · exact Line.holds_all h
  · exact Line.map_number_numberFrom 1 (linesOf ts)
  · rw [hprogram]
    exact exists_mapM_eq_ok_iff
  · intro ss hss
    rw [hprogram] at hss
    refine (forall₂_of_mapM_eq_ok hss).imp ?_
    intro l s hread
    rcases sound_of_ofTokens hread with ⟨hline, htokens, _⟩
    exact ⟨hread, hline, htokens⟩
  · intro e he
    rw [hprogram] at he
    rcases exists_of_mapM_eq_error he with ⟨before, l, after, hfilled, hbefore, hread⟩
    have hl : l ∈ Line.filled ts := hfilled ▸ List.mem_append_cons_self
    rcases hholds l (List.mem_filter.mp hl).1 with ⟨text, htext⟩
    have hline : e.line = l.number := blames_ofTokens htext.line_eq e hread
    exact ⟨before, l, after, hfilled, hbefore, hread, hline, hline ▸ htext.number_pos⟩

/-- The second parenthesis of the text is not closed, and it stands on its third line. -/
theorem programOfTokens_readByLine_paren :
    let source := "(1)\n\nassert f(2, (3"
    let ts : List PlacedToken :=
      [⟨.mark .lParen, 1⟩, ⟨.integer 1, 1⟩, ⟨.mark .rParen, 1⟩, ⟨.newLine, 1⟩, ⟨.newLine, 2⟩,
        ⟨.keyword .assert, 3⟩, ⟨.name "f", 3⟩, ⟨.mark .lParen, 3⟩, ⟨.integer 2, 3⟩,
        ⟨.mark .comma, 3⟩, ⟨.mark .lParen, 3⟩, ⟨.integer 3, 3⟩]
    tokenize source = .ok ts ∧ ReadByLine source ts ∧
      programOfTokens ts = .error (.unclosedParen 3) := by
  intro source ts
  have h : tokenize source = .ok ts := by decide +kernel
  exact ⟨h, programOfTokens_readByLine h, rfl⟩

end Statement
end Equate
