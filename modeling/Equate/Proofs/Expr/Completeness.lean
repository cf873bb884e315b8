import Equate.Proofs.Expr.Soundness

/-!
# Readings are complete

The tokens of a grammatical expression are read as that expression, and no further. The
tokens may be placed on any lines, and what follows them may be anything that does not
continue an expression. Grammatical expressions are therefore told apart by their tokens.

The tokens of an expression leave operators waiting, unless it binds as tightly as a
call: the last operand of a sum may still turn out to be a product. What an expression
leaves behind is described first, and then reached by induction on the expression.
-/

namespace Equate

/-!
## What an expression leaves waiting
-/

namespace Expr

/-- The operators that wait after the tokens of an expression, innermost first. -/
def waiting : Expr -> List Pending
  | .unary op e => e.waiting ++ [.unary op]
  | .binary op l r => r.waiting ++ [.binary op l]
  | _ => []

/-- The last operand of an expression, which a call or a member may still continue. -/
def tip : Expr -> Expr
  | .unary _ e => e.tip
  | .binary _ _ r => r.tip
  | e => e

theorem waiting_of_isPostfix {e : Expr} (h : e.IsPostfix) : e.waiting = [] := by
  cases e with
  | unary op e => exact absurd h (show ¬ 12 ≤ 11 by decide)
  | binary op l r => exact absurd (Nat.le_trans h op.tier_le) (by decide)
  | _ => rfl

theorem tip_of_isPostfix {e : Expr} (h : e.IsPostfix) : e.tip = e := by
  cases e with
  | unary op e => exact absurd h (show ¬ 12 ≤ 11 by decide)
  | binary op l r => exact absurd (Nat.le_trans h op.tier_le) (by decide)
  | _ => rfl

end Expr

namespace Pending

theorem applyFrom_waiting {level : Nat} {e : Expr} (he : e.Grammatical)
    (hlevel : level ≤ e.level) (hbinary : level ≤ 10) (ps : List Pending) :
    applyFrom level (e.waiting ++ ps) e.tip = applyFrom level ps e := by
  induction e using Expr.waiting.induct generalizing ps with
  | case1 op e ih =>
      rcases he with ⟨hunary, he⟩
      have hle : level ≤ e.level :=
        Nat.le_trans hbinary (Nat.le_trans (by decide) hunary)
      rw [Expr.waiting, Expr.tip, List.append_assoc, ih he hle]
      rfl
  | case2 op l r ih =>
      rcases he with ⟨⟨_, hright⟩, _, hr⟩
      have hle : level ≤ op.tier := hlevel
      rw [Expr.waiting, Expr.tip, List.append_assoc,
        ih hr (Nat.le_of_lt (Nat.lt_of_le_of_lt hle hright))]
      rw [List.singleton_append, applyFrom_binary, if_pos hle]
  | case3 e hunary hbinary =>
      cases e with
      | unary op e => exact absurd rfl (hunary op e)
      | binary op l r => exact absurd rfl (hbinary op l r)
      | _ => rfl

theorem applyFrom_of_fits {level : Nat} {ps : List Pending} (hps : Fits level ps)
    (hbinary : level ≤ 10) (e : Expr) : applyFrom level ps e = (ps, e) := by
  cases ps with
  | nil => rfl
  | cons p ps =>
      cases p with
      | unary op => exact absurd (Nat.le_trans hps hbinary) (by decide)
      | binary op l => rw [applyFrom_binary, if_neg (Nat.not_le_of_lt hps)]

theorem Fits.mono {level level' : Nat} {ps : List Pending} (h : Fits level ps)
    (hle : level ≤ level') : Fits level' ps := by
  cases ps with
  | nil => trivial
  | cons p ps =>
      cases p with
      | unary op => exact Nat.le_trans h hle
      | binary op l => exact Nat.lt_of_lt_of_le h hle

theorem applyAll_waiting {e : Expr} (he : e.Grammatical) (hlevel : 0 < e.level) :
    applyAll e.waiting e.tip = e := by
  have h := applyFrom_waiting he hlevel (by decide) []
  rw [List.append_nil, applyFrom_one] at h
  exact congrArg Prod.snd h

end Pending

/-!
## What follows an expression
-/

def Token.Continues (t : Token) : Prop :=
  t.binary? ≠ none ∨
    t ∈ [.mark .question, .mark .lParen, .mark .lBracket, .mark .dot]

instance (t : Token) : Decidable t.Continues :=
  inferInstanceAs (Decidable (_ ∨ _))

def Follows : List PlacedToken -> Prop
  | [] => True
  | t :: _ => ¬ t.token.Continues

namespace Draft

/-- A run that goes on after an expression is complete inside the open constructs. -/
def close (line : Nat) (enclosures : List Enclosure) (e : Expr) :
    List PlacedToken -> Except SyntaxError (Expr × List PlacedToken)
  | [] => (concludeEnd line enclosures e).map fun e => (e, [])
  | t :: ts =>
      match conclude enclosures e t with
      | .next d => run line d ts
      | .stop e => .ok (e, t :: ts)
      | .fail error => .error error

theorem readAfter_of_not_continues {t : PlacedToken} (h : ¬ t.token.Continues)
    (enclosures : List Enclosure) (pending : List Pending) (e : Expr) :
    readAfter enclosures pending e t =
      conclude enclosures (Pending.applyAll pending e) t := by
  unfold Token.Continues at h
  unfold readAfter
  split
  · rename_i htoken
    exact absurd (Or.inr (by simp [htoken])) h
  · rename_i htoken
    exact absurd (Or.inr (by simp [htoken])) h
  · rename_i htoken
    exact absurd (Or.inr (by simp [htoken])) h
  · rename_i htoken
    exact absurd (Or.inr (by simp [htoken])) h
  · split
    · rename_i op hop
      exact absurd (Or.inl (by simp [hop])) h
    · rfl

theorem readOperand_unary {t : PlacedToken} {op : UnaryOp} (h : t.token = .mark op.mark)
    (enclosures : List Enclosure) (pending : List Pending) :
    readOperand enclosures pending t =
      .next ⟨enclosures, .unary op :: pending, .operand⟩ := by
  rcases t with ⟨token, line⟩
  subst h
  cases op <;> rfl

theorem readOperand_lParen {t : PlacedToken} (h : t.token = .mark .lParen)
    (enclosures : List Enclosure) (pending : List Pending) :
    readOperand enclosures pending t =
      .next ⟨.paren t.line pending none :: enclosures, [], .operand⟩ := by
  rcases t with ⟨token, line⟩
  subst h
  rfl

theorem readOperand_rParen {t : PlacedToken} (h : t.token = .mark .rParen) (f : Expr)
    (enclosures : List Enclosure) (before : List Pending) :
    readOperand (.arguments f [] before :: enclosures) [] t =
      .next ⟨enclosures, before, .after (.call f [])⟩ := by
  rcases t with ⟨token, line⟩
  subst h
  rfl

theorem readMember_lParen {t : PlacedToken} (h : t.token = .mark .lParen)
    (enclosures : List Enclosure) (pending : List Pending) (left : Expr) :
    readMember enclosures pending left t =
      .next ⟨.paren t.line pending (some left) :: enclosures, [], .operand⟩ := by
  rcases t with ⟨token, line⟩
  subst h
  rfl

theorem readAfter_lParen {t : PlacedToken} (h : t.token = .mark .lParen)
    (enclosures : List Enclosure) (pending : List Pending) (e : Expr) :
    readAfter enclosures pending e t =
      .next ⟨.arguments e [] pending :: enclosures, [], .operand⟩ := by
  rw [readAfter, h]

theorem readAfter_lBracket {t : PlacedToken} (h : t.token = .mark .lBracket)
    (enclosures : List Enclosure) (pending : List Pending) (e : Expr) :
    readAfter enclosures pending e t =
      .next ⟨.bracket e t.line pending :: enclosures, [], .operand⟩ := by
  rw [readAfter, h]

theorem readAfter_dot {t : PlacedToken} (h : t.token = .mark .dot)
    (enclosures : List Enclosure) (pending : List Pending) (e : Expr) :
    readAfter enclosures pending e t = .next ⟨enclosures, pending, .member e⟩ := by
  rw [readAfter, h]

theorem readAfter_question {t : PlacedToken} (h : t.token = .mark .question)
    (enclosures : List Enclosure) (pending : List Pending) (e : Expr) :
    readAfter enclosures pending e t =
      .next ⟨.whenTrue (Pending.applyAll pending e) t.line :: enclosures, [],
        .operand⟩ := by
  rw [readAfter, h]

theorem readAfter_binary {t : PlacedToken} {op : BinaryOp} (h : t.token = .mark op.mark)
    (enclosures : List Enclosure) (pending : List Pending) (e : Expr) :
    readAfter enclosures pending e t =
      .next ⟨enclosures, .binary op (Pending.applyFrom op.tier pending e).2 ::
        (Pending.applyFrom op.tier pending e).1, .operand⟩ := by
  rcases t with ⟨token, line⟩
  subst h
  rcases op with o | o | o | o | o | o <;> cases o <;> rfl

theorem run_after_of_follows {rest : List PlacedToken} (h : Follows rest) (line : Nat)
    (enclosures : List Enclosure) (pending : List Pending) (e : Expr) :
    run line ⟨enclosures, pending, .after e⟩ rest =
      close line enclosures (Pending.applyAll pending e) rest := by
  cases rest with
  | nil => rfl
  | cons t ts =>
      have hstep : step ⟨enclosures, pending, .after e⟩ t =
          conclude enclosures (Pending.applyAll pending e) t :=
        readAfter_of_not_continues h enclosures pending e
      rw [run, hstep]
      rfl

theorem run_cons_of_next {d d' : Draft} {t : PlacedToken} (h : d.step t = .next d')
    (line : Nat) (ts : List PlacedToken) : run line d (t :: ts) = run line d' ts := by
  rw [run, h]

theorem close_cons_of_next {enclosures : List Enclosure} {e : Expr} {t : PlacedToken}
    {d : Draft} (h : conclude enclosures e t = .next d) (line : Nat)
    (ts : List PlacedToken) : close line enclosures e (t :: ts) = run line d ts := by
  rw [close, h]

end Draft

/-!
## Reading the tokens of an expression

An expression can be asked for in three ways: as an operand with operators waiting for
it, as the right side of a member, or alone inside of the open constructs. The tokens
are placed anywhere.
-/

def Expr.Placed (e : Expr) (ts : List PlacedToken) : Prop :=
  ts.map PlacedToken.token = e.tokens

structure Expr.Reads (e : Expr) : Prop where
  operand : forall line enclosures pending ts rest, 0 < e.level -> e.Placed ts ->
    Pending.Fits e.level pending ->
    Draft.run line ⟨enclosures, pending, .operand⟩ (ts ++ rest) =
      Draft.run line ⟨enclosures, e.waiting ++ pending, .after e.tip⟩ rest
  member : forall line enclosures pending left ts rest, e.IsPrimary -> e.Placed ts ->
    Draft.run line ⟨enclosures, pending, .member left⟩ (ts ++ rest) =
      Draft.run line ⟨enclosures, pending, .after (.member left e)⟩ rest
  alone : forall line enclosures ts rest, e.Placed ts -> Follows rest ->
    Draft.run line ⟨enclosures, [], .operand⟩ (ts ++ rest) =
      Draft.close line enclosures e rest

namespace Expr

theorem Reads.postfix {e : Expr} (h : e.Reads) (hpost : e.IsPostfix) {line : Nat}
    {enclosures : List Enclosure} {pending : List Pending} {ts rest : List PlacedToken}
    (hts : e.Placed ts) :
    Draft.run line ⟨enclosures, pending, .operand⟩ (ts ++ rest) =
      Draft.run line ⟨enclosures, pending, .after e⟩ rest := by
  have hlevel : 0 < e.level := Nat.lt_of_lt_of_le (by decide) hpost
  have hfits := Pending.fits_of_isPostfix hpost pending
  rw [h.operand line enclosures pending ts rest hlevel hts hfits,
    waiting_of_isPostfix hpost, tip_of_isPostfix hpost, List.nil_append]

/--
For an expression with a level of its own, reading it alone is reading it as an operand
for which nothing waits.
-/
theorem reads_of_operand {e : Expr} (he : e.Grammatical) (hlevel : 0 < e.level)
    (operand : forall line enclosures pending ts rest, e.Placed ts ->
      Pending.Fits e.level pending ->
      Draft.run line ⟨enclosures, pending, .operand⟩ (ts ++ rest) =
        Draft.run line ⟨enclosures, e.waiting ++ pending, .after e.tip⟩ rest)
    (member : forall line enclosures pending left ts rest, e.IsPrimary -> e.Placed ts ->
      Draft.run line ⟨enclosures, pending, .member left⟩ (ts ++ rest) =
        Draft.run line ⟨enclosures, pending, .after (.member left e)⟩ rest) :
    e.Reads where
  operand := by
    intro line enclosures pending ts rest _ hts hfits
    exact operand line enclosures pending ts rest hts hfits
  member := member
  alone := by
    intro line enclosures ts rest hts hrest
    rw [operand line enclosures [] ts rest hts trivial, List.append_nil,
      Draft.run_after_of_follows hrest, Pending.applyAll_waiting he hlevel]

theorem reads_of_atom {e : Expr} {t : Token} (hatom : t.atom? = some e) : e.Reads := by
  rcases Token.atom?_grammatical hatom with ⟨htokens, hprimary, he⟩
  have hsingle : forall ts, e.Placed ts -> exists p : PlacedToken, ts = [p] ∧ p.token = t := by
    intro ts hts
    rw [Placed, htokens] at hts
    simpa [List.map_eq_singleton_iff] using hts
  apply reads_of_operand he (Nat.lt_of_lt_of_eq (by decide) hprimary.symm)
  · intro line enclosures pending ts rest hts _
    rcases hsingle ts hts with ⟨p, rfl, rfl⟩
    have hstep : Draft.step ⟨enclosures, pending, .operand⟩ p =
        .next ⟨enclosures, pending, .after e⟩ := by
      simp [Draft.step, Draft.readOperand, hatom]
    rw [List.singleton_append, Draft.run_cons_of_next hstep,
      waiting_of_isPostfix hprimary.isPostfix, tip_of_isPostfix hprimary.isPostfix,
      List.nil_append]
  · intro line enclosures pending left ts rest _ hts
    rcases hsingle ts hts with ⟨p, rfl, rfl⟩
    have hstep : Draft.step ⟨enclosures, pending, .member left⟩ p =
        .next ⟨enclosures, pending, .after (.member left e)⟩ := by
      simp [Draft.step, Draft.readMember, hatom]
    rw [List.singleton_append, Draft.run_cons_of_next hstep]

/-!
## One lemma for every construct

The tokens of a construct are cut at its marks. Each part is read in its place, and each
mark is one step.
-/

theorem placed_cut {ts : List PlacedToken} {front back : List Token} {t : Token}
    (h : ts.map PlacedToken.token = front ++ t :: back) :
    exists before p after, ts = before ++ p :: after ∧
      before.map PlacedToken.token = front ∧ p.token = t ∧
        after.map PlacedToken.token = back := by
  rcases List.map_eq_append_iff.mp h with ⟨before, tail, rfl, hfront, htail⟩
  rcases List.map_eq_cons_iff.mp htail with ⟨p, after, rfl, hp, hback⟩
  exact ⟨before, p, after, rfl, hfront, hp, hback⟩

theorem follows_of_token {t : Token} (h : ¬ t.Continues) {p : PlacedToken}
    (hp : p.token = t) (rest : List PlacedToken) : Follows (p :: rest) := by
  rw [Follows, hp]
  exact h

theorem reads_unary {op : UnaryOp} {e : Expr} (he : (Expr.unary op e).Grammatical)
    (ih : e.Reads) : (Expr.unary op e).Reads := by
  apply reads_of_operand he (show 0 < 11 by decide)
  · intro line enclosures pending ts rest hts _
    rcases List.map_eq_cons_iff.mp hts with ⟨p, after, rfl, hp, hafter⟩
    have hstep : Draft.step ⟨enclosures, pending, .operand⟩ p =
        .next ⟨enclosures, .unary op :: pending, .operand⟩ :=
      Draft.readOperand_unary hp enclosures pending
    have hlevel : 0 < e.level := Nat.lt_of_lt_of_le (by decide) he.left
    have hfits : Pending.Fits e.level (.unary op :: pending) := he.left
    rw [List.cons_append, Draft.run_cons_of_next hstep,
      ih.operand line enclosures _ after rest hlevel hafter hfits]
    simp [waiting, tip]
  · intro line enclosures pending left ts rest hprimary _
    exact absurd hprimary (show ¬ 11 = 13 by decide)

theorem reads_binary {op : BinaryOp} {l r : Expr} (he : (Expr.binary op l r).Grammatical)
    (hl : l.Reads) (hr : r.Reads) : (Expr.binary op l r).Reads := by
  have hgrammatical := he
  rcases he with ⟨⟨hleft, hright⟩, hlgram, hrgram⟩
  apply reads_of_operand hgrammatical op.tier_pos
  · intro line enclosures pending ts rest hts (hfits : Pending.Fits op.tier pending)
    rcases placed_cut hts with ⟨before, p, after, rfl, hbefore, hp, hafter⟩
    have hlevel : 0 < l.level := Nat.lt_of_lt_of_le op.tier_pos hleft
    have hfitsLeft : Pending.Fits l.level pending := Pending.Fits.mono hfits hleft
    have hfitsRight : Pending.Fits r.level (.binary op l :: pending) := hright
    -- The left operand is complete at the operator: what waits outside binds more loosely.
    have happly : Pending.applyFrom op.tier (l.waiting ++ pending) l.tip = (pending, l) := by
      rw [Pending.applyFrom_waiting hlgram hleft op.tier_le,
        Pending.applyFrom_of_fits hfits op.tier_le]
    have hstep : Draft.step ⟨enclosures, l.waiting ++ pending, .after l.tip⟩ p =
        .next ⟨enclosures, .binary op l :: pending, .operand⟩ := by
      show Draft.readAfter enclosures _ l.tip p = _
      rw [Draft.readAfter_binary hp, happly]
    rw [List.append_assoc, List.cons_append,
      hl.operand line enclosures pending before _ hlevel hbefore hfitsLeft,
      Draft.run_cons_of_next hstep,
      hr.operand line enclosures _ after rest (Nat.lt_of_le_of_lt (Nat.zero_le _) hright)
        hafter hfitsRight]
    simp [waiting, tip]
  · intro line enclosures pending left ts rest (hprimary : op.tier = 13) _
    have hle := op.tier_le
    rw [hprimary] at hle
    exact absurd hle (by decide)

theorem run_paren {e : Expr} (ih : e.Reads) {ts : List PlacedToken} (hts : e.Placed ts)
    {p : PlacedToken} (hp : p.token = .mark .rParen) (line opened : Nat)
    (enclosures : List Enclosure) (before : List Pending) (qualifier : Option Expr)
    (rest : List PlacedToken) :
    Draft.run line ⟨.paren opened before qualifier :: enclosures, [], .operand⟩
        (ts ++ p :: rest) =
      Draft.run line ⟨enclosures, before, .after (.qualify qualifier (.group e))⟩ rest := by
  have hclose : Draft.conclude (.paren opened before qualifier :: enclosures) e p =
      .next ⟨enclosures, before, .after (.qualify qualifier (.group e))⟩ := by
    rw [Draft.conclude, hp]
  rw [ih.alone line _ ts (p :: rest) hts (follows_of_token (by decide) hp rest),
    Draft.close_cons_of_next hclose]

theorem reads_group {e : Expr} (he : (Expr.group e).Grammatical) (ih : e.Reads) :
    (Expr.group e).Reads := by
  have hcut : forall ts, (Expr.group e).Placed ts -> exists p inside q,
      ts = p :: (inside ++ [q]) ∧ p.token = .mark .lParen ∧ e.Placed inside ∧
        q.token = .mark .rParen := by
    intro ts hts
    rcases List.map_eq_cons_iff.mp hts with ⟨p, tail, rfl, hp, htail⟩
    rcases placed_cut htail with ⟨inside, q, back, rfl, hinside, hq, hback⟩
    rw [List.map_eq_nil_iff.mp hback]
    exact ⟨p, inside, q, rfl, hp, hinside, hq⟩
  apply reads_of_operand he (show 0 < 13 by decide)
  · intro line enclosures pending ts rest hts _
    rcases hcut ts hts with ⟨p, inside, q, rfl, hp, hinside, hq⟩
    have hstep : Draft.step ⟨enclosures, pending, .operand⟩ p =
        .next ⟨.paren p.line pending none :: enclosures, [], .operand⟩ :=
      Draft.readOperand_lParen hp enclosures pending
    rw [List.cons_append, List.append_assoc, List.singleton_append,
      Draft.run_cons_of_next hstep, run_paren ih hinside hq]
    rfl
  · intro line enclosures pending left ts rest _ hts
    rcases hcut ts hts with ⟨p, inside, q, rfl, hp, hinside, hq⟩
    have hstep : Draft.step ⟨enclosures, pending, .member left⟩ p =
        .next ⟨.paren p.line pending (some left) :: enclosures, [], .operand⟩ :=
      Draft.readMember_lParen hp enclosures pending left
    rw [List.cons_append, List.append_assoc, List.singleton_append,
      Draft.run_cons_of_next hstep, run_paren ih hinside hq]
    rfl

theorem reads_index {s i : Expr} (he : (Expr.index s i).Grammatical) (hs : s.Reads)
    (hi : i.Reads) : (Expr.index s i).Reads := by
  apply reads_of_operand he (show 0 < 12 by decide)
  · intro line enclosures pending ts rest hts _
    have hts' : ts.map PlacedToken.token =
        s.tokens ++ .mark .lBracket :: (i.tokens ++ [.mark .rBracket]) := by
      simpa [Placed, tokens] using hts
    rcases placed_cut hts' with ⟨front, p, tail, rfl, hfront, hp, htail⟩
    rcases placed_cut htail with ⟨inside, q, back, rfl, hinside, hq, hback⟩
    rw [List.map_eq_nil_iff.mp hback]
    have hopen : Draft.step ⟨enclosures, pending, .after s⟩ p =
        .next ⟨.bracket s p.line pending :: enclosures, [], .operand⟩ :=
      Draft.readAfter_lBracket hp enclosures pending s
    have hclose : Draft.conclude (.bracket s p.line pending :: enclosures) i q =
        .next ⟨enclosures, pending, .after (.index s i)⟩ := by
      rw [Draft.conclude, hq]
    rw [List.append_assoc, List.cons_append, List.append_assoc, List.singleton_append,
      hs.postfix he.left hfront, Draft.run_cons_of_next hopen,
      hi.alone line _ inside (q :: rest) hinside (follows_of_token (by decide) hq rest),
      Draft.close_cons_of_next hclose]
    rfl
  · intro line enclosures pending left ts rest hprimary _
    exact absurd hprimary (show ¬ 12 = 13 by decide)

theorem reads_member {l r : Expr} (he : (Expr.member l r).Grammatical) (hl : l.Reads)
    (hr : r.Reads) : (Expr.member l r).Reads := by
  apply reads_of_operand he (show 0 < 12 by decide)
  · intro line enclosures pending ts rest hts _
    rcases he with ⟨⟨hpost, hprimary⟩, _, _⟩
    rcases placed_cut hts with ⟨front, p, back, rfl, hfront, hp, hback⟩
    have hstep : Draft.step ⟨enclosures, pending, .after l⟩ p =
        .next ⟨enclosures, pending, .member l⟩ :=
      Draft.readAfter_dot hp enclosures pending l
    rw [List.append_assoc, List.cons_append, hl.postfix hpost hfront,
      Draft.run_cons_of_next hstep, hr.member line _ _ l back rest hprimary hback]
    rfl
  · intro line enclosures pending left ts rest hprimary _
    exact absurd hprimary (show ¬ 12 = 13 by decide)

theorem run_arguments {e : Expr} {es : List Expr} (ih : forall a, a ∈ e :: es -> a.Reads)
    {ts : List PlacedToken} (hts : ts.map PlacedToken.token = argumentTokens (e :: es))
    {p : PlacedToken} (hp : p.token = .mark .rParen) (line : Nat) (f : Expr)
    (complete : List Expr) (enclosures : List Enclosure) (before : List Pending)
    (rest : List PlacedToken) :
    Draft.run line ⟨.arguments f complete before :: enclosures, [], .operand⟩
        (ts ++ p :: rest) =
      Draft.run line ⟨enclosures, before, .after (.call f (complete ++ e :: es))⟩ rest := by
  have hread := (ih e List.mem_cons_self).alone
  -- The complete arguments grow at their end by what the open ones lose at their front.
  induction es generalizing e ts complete with
  | nil =>
      have hclose : Draft.conclude (.arguments f complete before :: enclosures) e p =
          .next ⟨enclosures, before, .after (.call f (complete ++ [e]))⟩ := by
        rw [Draft.conclude, hp]
      have hts' : e.Placed ts := by
        simpa [Placed, argumentTokens] using hts
      rw [hread line _ ts (p :: rest) hts' (follows_of_token (by decide) hp rest),
        Draft.close_cons_of_next hclose]
  | cons e' es ihes =>
      rw [argumentTokens_cons_cons] at hts
      rcases placed_cut hts with ⟨front, q, back, rfl, hfront, hq, hback⟩
      have hcomma : Draft.conclude (.arguments f complete before :: enclosures) e q =
          .next ⟨.arguments f (complete ++ [e]) before :: enclosures, [], .operand⟩ := by
        rw [Draft.conclude, hq]
      have ih' : forall a, a ∈ e' :: es -> a.Reads := by
        intro a ha
        exact ih a (List.mem_cons_of_mem e ha)
      rw [List.append_assoc, List.cons_append,
        hread line _ front _ hfront (follows_of_token (by decide) hq _),
        Draft.close_cons_of_next hcomma,
        ihes ih' hback (complete ++ [e]) (ih' e' List.mem_cons_self).alone]
      simp

theorem reads_call {f : Expr} {args : List Expr} (he : (Expr.call f args).Grammatical)
    (hf : f.Reads) (hargs : forall a, a ∈ args -> a.Reads) : (Expr.call f args).Reads := by
  apply reads_of_operand he (show 0 < 12 by decide)
  · intro line enclosures pending ts rest hts _
    have hts' : ts.map PlacedToken.token =
        f.tokens ++ .mark .lParen :: (argumentTokens args ++ [.mark .rParen]) := by
      simpa [Placed, tokens] using hts
    rcases placed_cut hts' with ⟨front, p, tail, rfl, hfront, hp, htail⟩
    rcases placed_cut htail with ⟨inside, q, back, rfl, hinside, hq, hback⟩
    rw [List.map_eq_nil_iff.mp hback]
    have hopen : Draft.step ⟨enclosures, pending, .after f⟩ p =
        .next ⟨.arguments f [] pending :: enclosures, [], .operand⟩ :=
      Draft.readAfter_lParen hp enclosures pending f
    rw [List.append_assoc, List.cons_append, List.append_assoc, List.singleton_append,
      hf.postfix he.left hfront, Draft.run_cons_of_next hopen]
    cases args with
    | nil =>
        have hclose : Draft.step ⟨.arguments f [] pending :: enclosures, [], .operand⟩ q =
            .next ⟨enclosures, pending, .after (.call f [])⟩ :=
          Draft.readOperand_rParen hq f enclosures pending
        rw [List.map_eq_nil_iff.mp hinside, List.nil_append,
          Draft.run_cons_of_next hclose]
        rfl
    | cons e es =>
        rw [run_arguments hargs hinside hq]
        rfl
  · intro line enclosures pending left ts rest hprimary _
    exact absurd hprimary (show ¬ 12 = 13 by decide)

/-- A conditional is read alone only: nothing can wait for it. -/
theorem reads_conditional {c t f : Expr} (he : (Expr.conditional c t f).Grammatical)
    (hc : c.Reads) (ht : t.Reads) (hf : f.Reads) : (Expr.conditional c t f).Reads where
  operand := by
    intro line enclosures pending ts rest hlevel
    exact absurd hlevel (Nat.lt_irrefl 0)
  member := by
    intro line enclosures pending left ts rest hprimary
    exact absurd hprimary (show ¬ 0 = 13 by decide)
  alone := by
    intro line enclosures ts rest hts hrest
    rcases he with ⟨hlevel, hcgram, _, _⟩
    have hts' : ts.map PlacedToken.token =
        c.tokens ++ .mark .question :: (t.tokens ++ .mark .colon :: f.tokens) := by
      simpa [Placed, tokens] using hts
    rcases placed_cut hts' with ⟨front, p, tail, rfl, hfront, hp, htail⟩
    rcases placed_cut htail with ⟨middle, q, back, rfl, hmiddle, hq, hback⟩
    have hquestion : Draft.step ⟨enclosures, c.waiting, .after c.tip⟩ p =
        .next ⟨.whenTrue c p.line :: enclosures, [], .operand⟩ := by
      show Draft.readAfter enclosures c.waiting c.tip p = _
      rw [Draft.readAfter_question hp, Pending.applyAll_waiting hcgram hlevel]
    have hcolon : Draft.conclude (.whenTrue c p.line :: enclosures) t q =
        .next ⟨.whenFalse c t :: enclosures, [], .operand⟩ := by
      rw [Draft.conclude, hq]
    rw [List.append_assoc, List.cons_append, List.append_assoc, List.cons_append,
      hc.operand line enclosures [] front _ hlevel hfront trivial, List.append_nil,
      Draft.run_cons_of_next hquestion,
      ht.alone line _ middle _ hmiddle (follows_of_token (by decide) hq _),
      Draft.close_cons_of_next hcolon,
      hf.alone line _ back rest hback hrest]
    cases rest <;> rfl

/-!
## Completeness of reading
-/

theorem atom?_of_literal? {c : Value} {t : Token} (h : c.literal? = some t) :
    t.atom? = some (.constant (some c)) := by
  rcases c with n | s | f
  · cases n <;> cases h <;> rfl
  · cases h
    rfl
  · cases h

mutual

/-- Every grammatical expression is read from its tokens, by induction on its tree. -/
theorem reads : (e : Expr) -> e.Grammatical -> e.Reads
  | .constant none, he => by
      simp [Grammatical] at he
  | .constant (some c), he => by
      rcases Option.isSome_iff_exists.mp he with ⟨t, ht⟩
      exact reads_of_atom (atom?_of_literal? ht)
  | .counter, _ => reads_of_atom (t := .mark .dollar) rfl
  | .name n, _ => reads_of_atom (t := .name n) rfl
  | .unary _ e, he => reads_unary he (reads e he.right)
  | .binary _ l r, he => reads_binary he (reads l he.right.left) (reads r he.right.right)
  | .group e, he => reads_group he (reads e he)
  | .conditional c t f, he =>
      reads_conditional he (reads c he.right.left) (reads t he.right.right.left)
        (reads f he.right.right.right)
  | .index s i, he => reads_index he (reads s he.right.left) (reads i he.right.right)
  | .member l r, he => reads_member he (reads l he.right.left) (reads r he.right.right)
  | .call f args, he =>
      reads_call he (reads f he.right.left) (reads_of_mem args he.right.right)

theorem reads_of_mem : (es : List Expr) -> AllGrammatical es ->
    forall e, e ∈ es -> e.Reads
  | [], _, _, he => absurd he List.not_mem_nil
  | first :: rest, hall, e, he => by
      rcases List.mem_cons.mp he with hfirst | hrest
      · rw [hfirst]
        exact reads first hall.left
      · exact reads_of_mem rest hall.right e hrest

end

theorem ofTokens_append {e : Expr} (he : e.Grammatical) (line : Nat)
    {ts : List PlacedToken} (rest : List PlacedToken) (hts : e.Placed ts)
    (hrest : Follows rest) :
    ofTokens line (ts ++ rest) = .ok (e, rest) := by
  have h := (reads e he).alone line [] ts rest hts hrest
  rw [ofTokens, Draft.start, h]
  cases rest <;> rfl

/--
The tokens of a grammatical expression, placed anywhere and followed by anything that
does not continue it, are read as the expression and leave what follows. No other
grammatical expression has the same tokens.
-/
theorem ofTokens_complete {e : Expr} (he : e.Grammatical) :
    (forall line ts rest, ts.map PlacedToken.token = e.tokens -> Follows rest ->
      ofTokens line (ts ++ rest) = .ok (e, rest)) ∧
    forall e' : Expr, e'.Grammatical -> e'.tokens = e.tokens -> e' = e := by
  constructor
  · intro line ts rest hts hrest
    exact ofTokens_append he line rest hts hrest
  · intro e' he' htokens
    let ts : List PlacedToken := e.tokens.map fun t => ⟨t, 0⟩
    have hts : ts.map PlacedToken.token = e.tokens := by
      simp [ts, Function.comp_def]
    have hread := ofTokens_append he 0 [] hts trivial
    have hread' := ofTokens_append he' 0 [] (hts.trans htokens.symm) trivial
    rw [hread] at hread'
    injection hread' with hpair
    exact (congrArg Prod.fst hpair).symm

/--
The text `1 + -a.b * (c ? $ : f())` before the comma of an argument list. A product of
the sum has the same tokens, so it cannot be grammatical as well.
-/
theorem ofTokens_complete_tiers :
    let one : Expr := .constant (some (.unsigned 1))
    let negated : Expr := .unary .negate (.member (.name "a") (.name "b"))
    let choice : Expr :=
      .group (.conditional (.name "c") .counter (.call (.name "f") []))
    let e : Expr := .binary (.arithmetic .add) one (.binary (.arithmetic .mul) negated choice)
    let product : Expr :=
      .binary (.arithmetic .mul) (.binary (.arithmetic .add) one negated) choice
    let rest : List PlacedToken := [⟨.mark .comma, 2⟩]
    e.Grammatical ∧ Follows rest ∧
      ofTokens 1 ((e.tokens.map fun t => ⟨t, 2⟩) ++ rest) = .ok (e, rest) ∧
        product.tokens = e.tokens ∧ ¬ product.Grammatical := by
  intro one negated choice e product rest
  have hadd : BinaryOp.tier (.arithmetic .add) = 9 := rfl
  have hmul : BinaryOp.tier (.arithmetic .mul) = 10 := rfl
  have he : e.Grammatical := by
    simp [e, one, negated, choice, Grammatical, AllGrammatical, IsUnary, IsPostfix,
      IsPrimary, level, Value.unsigned, Value.literal?, hadd, hmul]
  have hrest : Follows rest := by
    show ¬ Token.Continues (.mark .comma)
    decide
  have hread := (ofTokens_complete he).left 1 (e.tokens.map fun t => ⟨t, 2⟩) rest rfl hrest
  have hproduct : ¬ product.Grammatical := by
    intro h
    have hsame : product = e := (ofTokens_complete he).right product h rfl
    simp [product, e] at hsame
  exact ⟨he, hrest, hread, rfl, hproduct⟩

end Expr
end Equate
