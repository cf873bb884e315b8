import Equate.Expr.Draft
import Equate.Proofs.Expr.Grammar

/-!
# Readings are sound

An expression that is read has exactly the tokens that were taken from the input, and
it is grammatical. A draft is therefore given tokens as well, those of everything that
it holds. Every step adds the token that it reads at the end, and it keeps the operators
that wait in an order in which their operands will bind tightly enough.
-/

namespace Equate

/-!
## Waiting operators
-/

namespace Pending

def tokens : Pending -> List Token
  | .unary op => [.mark op.mark]
  | .binary op l => l.tokens ++ [.mark op.mark]

/-- The tokens of operators that wait, of which the innermost stands first. -/
def allTokens : List Pending -> List Token
  | [] => []
  | p :: ps => allTokens ps ++ p.tokens

def Fits (level : Nat) : List Pending -> Prop
  | [] => True
  | .unary _ :: _ => 11 ≤ level
  | .binary op _ :: _ => op.tier < level

/--
Every binary operator has a left operand that binds tightly enough, and will be an
operand itself that binds tightly enough for the operator around it.
-/
def Ordered : List Pending -> Prop
  | [] => True
  | .unary _ :: ps => Ordered ps
  | .binary op l :: ps =>
      (op.tier ≤ l.level ∧ l.Grammatical) ∧ Fits op.tier ps ∧ Ordered ps

theorem fits_of_unary_le {level : Nat} (h : 11 ≤ level) (ps : List Pending) :
    Fits level ps := by
  cases ps with
  | nil => trivial
  | cons p ps =>
      cases p with
      | unary op => exact h
      | binary op l => exact Nat.lt_of_le_of_lt op.tier_le h

theorem fits_of_isPostfix {e : Expr} (h : e.IsPostfix) (ps : List Pending) :
    Fits e.level ps :=
  fits_of_unary_le h.isUnary ps

theorem applyFrom_binary (level : Nat) (op : BinaryOp) (l : Expr) (ps : List Pending)
    (e : Expr) :
    applyFrom level (.binary op l :: ps) e =
      if level ≤ op.tier then applyFrom level ps (.binary op l e)
      else (.binary op l :: ps, e) := by
  rw [applyFrom, op.level_eq_tier]

/-!
Giving the operators their operands loses no token. What is left waiting binds more
loosely than the level asked for.
-/

theorem applyFrom_tokens (level : Nat) (ps : List Pending) (e : Expr) :
    allTokens (applyFrom level ps e).1 ++ (applyFrom level ps e).2.tokens =
      allTokens ps ++ e.tokens := by
  induction ps generalizing e with
  | nil => rfl
  | cons p ps ih =>
      cases p with
      | unary op =>
          rw [applyFrom, ih]
          simp [allTokens, tokens, Expr.tokens]
      | binary op l =>
          rw [applyFrom_binary]
          split
          · rw [ih]
            simp [allTokens, tokens, Expr.tokens]
          · rfl

theorem fits_applyFrom (level : Nat) (ps : List Pending) (e : Expr) :
    Fits level (applyFrom level ps e).1 := by
  induction ps generalizing e with
  | nil => trivial
  | cons p ps ih =>
      cases p with
      | unary op =>
          rw [applyFrom]
          exact ih (.unary op e)
      | binary op l =>
          rw [applyFrom_binary]
          split
          · exact ih (.binary op l e)
          · rename_i hlevel
            exact Nat.lt_of_not_le hlevel

theorem applyFrom_grammatical {level : Nat} {ps : List Pending} {e : Expr}
    (hps : Ordered ps) (hfits : Fits e.level ps) (he : e.Grammatical)
    (hlevel : level ≤ e.level) (hbinary : level ≤ 10) :
    Ordered (applyFrom level ps e).1 ∧ (applyFrom level ps e).2.Grammatical ∧
      level ≤ (applyFrom level ps e).2.level := by
  induction ps generalizing e with
  | nil => exact ⟨trivial, he, hlevel⟩
  | cons p ps ih =>
      cases p with
      | unary op =>
          rw [applyFrom]
          have hunary : level ≤ (Expr.unary op e).level :=
            Nat.le_trans hbinary (show 10 ≤ 11 by decide)
          exact ih hps (fits_of_unary_le (Nat.le_refl 11) ps) ⟨hfits, he⟩ hunary
      | binary op l =>
          rcases hps with ⟨⟨hle, hl⟩, hop, hps⟩
          rw [applyFrom_binary]
          split
          · rename_i hlevel
            exact ih hps hop ⟨⟨hle, hfits⟩, hl, he⟩ hlevel
          · exact ⟨⟨⟨hle, hl⟩, hop, hps⟩, he, hlevel⟩

theorem applyFrom_one (ps : List Pending) (e : Expr) :
    applyFrom 1 ps e = ([], applyAll ps e) := by
  induction ps generalizing e with
  | nil => rfl
  | cons p ps ih =>
      cases p with
      | unary op =>
          rw [applyFrom]
          exact ih (.unary op e)
      | binary op l =>
          rw [applyFrom_binary, if_pos (show 1 ≤ op.tier from op.tier_pos)]
          exact ih (.binary op l e)

theorem applyAll_tokens (ps : List Pending) (e : Expr) :
    (applyAll ps e).tokens = allTokens ps ++ e.tokens := by
  have h := applyFrom_tokens 1 ps e
  rw [applyFrom_one] at h
  exact h

theorem applyAll_grammatical {ps : List Pending} {e : Expr} (hps : Ordered ps)
    (hpost : e.IsPostfix) (he : e.Grammatical) :
    (applyAll ps e).Grammatical ∧ 0 < (applyAll ps e).level := by
  have hlevel : 1 ≤ e.level := Nat.le_trans (by decide) hpost
  have h := applyFrom_grammatical hps (fits_of_isPostfix hpost ps) he hlevel (by decide)
  rw [applyFrom_one] at h
  exact h.right

end Pending

/-!
## Open constructs
-/

def Expr.qualifierTokens : Option Expr -> List Token
  | some l => l.tokens ++ [.mark .dot]
  | none => []

namespace Enclosure

def tokens : Enclosure -> List Token
  | .paren _ before qualifier =>
      Pending.allTokens before ++ Expr.qualifierTokens qualifier ++ [.mark .lParen]
  | .bracket subject _ before =>
      Pending.allTokens before ++ subject.tokens ++ [.mark .lBracket]
  | .arguments f complete before =>
      Pending.allTokens before ++ f.tokens ++ .mark .lParen :: Expr.completeTokens complete
  | .whenTrue c _ => c.tokens ++ [.mark .question]
  | .whenFalse c t => c.tokens ++ .mark .question :: t.tokens ++ [.mark .colon]

def allTokens : List Enclosure -> List Token
  | [] => []
  | enclosure :: enclosures => allTokens enclosures ++ enclosure.tokens

def Valid : Enclosure -> Prop
  | .paren _ before qualifier =>
      Pending.Ordered before ∧ forall l, qualifier = some l -> l.IsPostfix ∧ l.Grammatical
  | .bracket subject _ before =>
      Pending.Ordered before ∧ subject.IsPostfix ∧ subject.Grammatical
  | .arguments f complete before =>
      Pending.Ordered before ∧ (f.IsPostfix ∧ f.Grammatical) ∧
        Expr.AllGrammatical complete
  | .whenTrue c _ => 0 < c.level ∧ c.Grammatical
  | .whenFalse c t => (0 < c.level ∧ c.Grammatical) ∧ t.Grammatical

def AllValid : List Enclosure -> Prop
  | [] => True
  | enclosure :: enclosures => enclosure.Valid ∧ AllValid enclosures

end Enclosure

/-!
## Drafts
-/

namespace Place

def tokens : Place -> List Token
  | .operand => []
  | .member l => l.tokens ++ [.mark .dot]
  | .after e => e.tokens

def Valid : Place -> Prop
  | .operand => True
  | .member l => l.IsPostfix ∧ l.Grammatical
  | .after e => e.IsPostfix ∧ e.Grammatical

end Place

namespace Draft

def tokens (d : Draft) : List Token :=
  Enclosure.allTokens d.enclosures ++ Pending.allTokens d.pending ++ d.place.tokens

structure Valid (d : Draft) : Prop where
  enclosures : Enclosure.AllValid d.enclosures
  pending : Pending.Ordered d.pending
  place : d.place.Valid

theorem valid_start : start.Valid :=
  ⟨trivial, trivial, trivial⟩

/--
What a step makes of the tokens read so far and the next one: a draft holds them all,
and an expression that is complete is grammatical and leaves the next one.
-/
def Step.Sound (used : List Token) (t : Token) : Step -> Prop
  | .next d => d.Valid ∧ d.tokens = used ++ [t]
  | .stop e => e.Grammatical ∧ e.tokens = used
  | .fail _ => True

end Draft

/-!
## Steps

There is one lemma for every place that a token may have. The tokens read so far are
those of the draft, which a lemma spells out for its place.
-/

theorem Token.atom?_grammatical {t : Token} {e : Expr} (h : t.atom? = some e) :
    e.tokens = [t] ∧ e.IsPrimary ∧ e.Grammatical := by
  cases t with
  | mark m =>
      cases m <;> cases h
      exact ⟨rfl, rfl, trivial⟩
  | integer n => cases h; exact ⟨rfl, rfl, rfl⟩
  | float x => cases h; exact ⟨rfl, rfl, rfl⟩
  | text s => cases h; exact ⟨rfl, rfl, rfl⟩
  | name n => cases h; exact ⟨rfl, rfl, trivial⟩
  | keyword k => cases h
  | newLine => cases h

namespace Draft

theorem readOperand_sound {enclosures : List Enclosure} {pending : List Pending}
    (henclosures : Enclosure.AllValid enclosures) (hpending : Pending.Ordered pending)
    (t : PlacedToken) :
    (readOperand enclosures pending t).Sound
      (Enclosure.allTokens enclosures ++ Pending.allTokens pending) t.token := by
  unfold readOperand
  split
  · rename_i e op hatom
    rcases Token.atom?_grammatical hatom with ⟨htokens, hprimary, he⟩
    constructor
    · exact ⟨henclosures, hpending, hprimary.isPostfix, he⟩
    · simp [tokens, Place.tokens, htokens]
  · rename_i op hatom hunary
    constructor
    · exact ⟨henclosures, hpending, trivial⟩
    · simp [tokens, Place.tokens, Pending.allTokens, Pending.tokens,
        Token.unary?_eq_some_iff.mp hunary]
  · split
    · rename_i pending enclosures _ _ _ htoken
      constructor
      · have hopen : (Enclosure.paren t.line pending none).Valid := by
          constructor
          · exact hpending
          · intro l hl
            cases hl
        exact ⟨⟨hopen, henclosures⟩, trivial, trivial⟩
      · simp [tokens, Place.tokens, Pending.allTokens, Enclosure.allTokens,
          Enclosure.tokens, Expr.qualifierTokens, htoken]
    · rename_i f before enclosures htoken
      rcases henclosures with ⟨⟨hbefore, ⟨hpost, hf⟩, _⟩, henclosures⟩
      constructor
      · have hcall : (Expr.call f []).Grammatical := ⟨hpost, hf, trivial⟩
        exact ⟨henclosures, hbefore, Nat.le_refl 12, hcall⟩
      · simp [tokens, Place.tokens, Pending.allTokens, Enclosure.allTokens,
          Enclosure.tokens, Expr.completeTokens, Expr.tokens, Expr.argumentTokens, htoken]
    · trivial

theorem readMember_sound {enclosures : List Enclosure} {pending : List Pending} {left : Expr}
    (henclosures : Enclosure.AllValid enclosures) (hpending : Pending.Ordered pending)
    (hpost : left.IsPostfix) (hleft : left.Grammatical) (t : PlacedToken) :
    (readMember enclosures pending left t).Sound
      (Enclosure.allTokens enclosures ++ Pending.allTokens pending ++
        (left.tokens ++ [.mark .dot])) t.token := by
  unfold readMember
  split
  · rename_i e hatom
    rcases Token.atom?_grammatical hatom with ⟨htokens, hprimary, he⟩
    constructor
    · have hmember : (Expr.member left e).Grammatical :=
        ⟨⟨hpost, hprimary⟩, hleft, he⟩
      exact ⟨henclosures, hpending, Nat.le_refl 12, hmember⟩
    · simp [tokens, Place.tokens, Expr.tokens, htokens]
  · rename_i htoken
    constructor
    · have hopen : (Enclosure.paren t.line pending (some left)).Valid := by
        constructor
        · exact hpending
        · intro l hl
          cases hl
          exact ⟨hpost, hleft⟩
      exact ⟨⟨hopen, henclosures⟩, trivial, trivial⟩
    · simp [tokens, Place.tokens, Pending.allTokens, Enclosure.allTokens,
        Enclosure.tokens, Expr.qualifierTokens, htoken]
  · trivial

theorem conclude_sound {enclosures : List Enclosure} {e : Expr}
    (henclosures : Enclosure.AllValid enclosures) (he : e.Grammatical) (t : PlacedToken) :
    (conclude enclosures e t).Sound (Enclosure.allTokens enclosures ++ e.tokens) t.token := by
  -- An open second branch ends with the expression in it, which then grows by the
  -- conditional around it while the token is shown to the next construct outside.
  induction enclosures generalizing e with
  | nil => exact ⟨he, rfl⟩
  | cons enclosure enclosures ih =>
      rcases henclosures with ⟨hopen, henclosures⟩
      cases enclosure with
      | whenFalse c whenTrue =>
          rcases hopen with ⟨⟨hlevel, hc⟩, htrue⟩
          have hchoice : (Expr.conditional c whenTrue e).Grammatical :=
            ⟨hlevel, hc, htrue, he⟩
          have h := ih henclosures hchoice
          simpa [conclude, Enclosure.allTokens, Enclosure.tokens, Expr.tokens] using h
      | whenTrue c line =>
          rw [conclude]
          split
          · rename_i htoken
            constructor
            · exact ⟨⟨⟨hopen, he⟩, henclosures⟩, trivial, trivial⟩
            · simp [tokens, Place.tokens, Pending.allTokens, Enclosure.allTokens,
                Enclosure.tokens, htoken]
          · trivial
      | paren line before qualifier =>
          rcases hopen with ⟨hbefore, hqualifier⟩
          rw [conclude]
          split
          · rename_i htoken
            cases qualifier with
            | none =>
                constructor
                · have hgroup : (Expr.group e).IsPostfix := show 12 ≤ 13 by decide
                  exact ⟨henclosures, hbefore, hgroup, he⟩
                · simp [tokens, Place.tokens, Enclosure.allTokens, Enclosure.tokens,
                    Expr.qualifierTokens, Expr.qualify, Expr.tokens, htoken]
            | some l =>
                rcases hqualifier l rfl with ⟨hpost, hl⟩
                constructor
                · have hmember : (Expr.member l (.group e)).Grammatical :=
                    ⟨⟨hpost, rfl⟩, hl, he⟩
                  exact ⟨henclosures, hbefore, Nat.le_refl 12, hmember⟩
                · simp [tokens, Place.tokens, Enclosure.allTokens, Enclosure.tokens,
                    Expr.qualifierTokens, Expr.qualify, Expr.tokens, htoken]
          · trivial
      | bracket subject line before =>
          rcases hopen with ⟨hbefore, hpost, hsubject⟩
          rw [conclude]
          split
          · rename_i htoken
            constructor
            · have hindex : (Expr.index subject e).Grammatical := ⟨hpost, hsubject, he⟩
              exact ⟨henclosures, hbefore, Nat.le_refl 12, hindex⟩
            · simp [tokens, Place.tokens, Enclosure.allTokens, Enclosure.tokens,
                Expr.tokens, htoken]
          · trivial
      | arguments f complete before =>
          rcases hopen with ⟨hbefore, ⟨hpost, hf⟩, hcomplete⟩
          have hall : Expr.AllGrammatical (complete ++ [e]) := by
            rw [Expr.allGrammatical_iff] at hcomplete ⊢
            intro argument hargument
            rcases List.mem_append.mp hargument with h | h
            · exact hcomplete argument h
            · rw [List.mem_singleton.mp h]
              exact he
          rw [conclude]
          split
          · rename_i htoken
            constructor
            · have hopen : (Enclosure.arguments f (complete ++ [e]) before).Valid :=
                ⟨hbefore, ⟨hpost, hf⟩, hall⟩
              exact ⟨⟨hopen, henclosures⟩, trivial, trivial⟩
            · simp [tokens, Place.tokens, Pending.allTokens, Enclosure.allTokens,
                Enclosure.tokens, Expr.completeTokens, htoken]
          · rename_i htoken
            constructor
            · have hcall : (Expr.call f (complete ++ [e])).Grammatical :=
                ⟨hpost, hf, hall⟩
              exact ⟨henclosures, hbefore, Nat.le_refl 12, hcall⟩
            · simp [tokens, Place.tokens, Enclosure.allTokens, Enclosure.tokens,
                Expr.tokens, Expr.argumentTokens_append_singleton, htoken]
          · trivial

theorem readAfter_sound {enclosures : List Enclosure} {pending : List Pending} {e : Expr}
    (henclosures : Enclosure.AllValid enclosures) (hpending : Pending.Ordered pending)
    (hpost : e.IsPostfix) (he : e.Grammatical) (t : PlacedToken) :
    (readAfter enclosures pending e t).Sound
      (Enclosure.allTokens enclosures ++ Pending.allTokens pending ++ e.tokens) t.token := by
  rcases Pending.applyAll_grammatical hpending hpost he with ⟨hall, hlevel⟩
  unfold readAfter
  split
  · rename_i htoken
    constructor
    · exact ⟨⟨⟨hpending, ⟨hpost, he⟩, trivial⟩, henclosures⟩, trivial, trivial⟩
    · simp [tokens, Place.tokens, Pending.allTokens, Enclosure.allTokens,
        Enclosure.tokens, Expr.completeTokens, htoken]
  · rename_i htoken
    constructor
    · exact ⟨⟨⟨hpending, hpost, he⟩, henclosures⟩, trivial, trivial⟩
    · simp [tokens, Place.tokens, Pending.allTokens, Enclosure.allTokens,
        Enclosure.tokens, htoken]
  · rename_i htoken
    constructor
    · exact ⟨henclosures, hpending, hpost, he⟩
    · simp [tokens, Place.tokens, htoken]
  · rename_i htoken
    constructor
    · exact ⟨⟨⟨hlevel, hall⟩, henclosures⟩, trivial, trivial⟩
    · simp [tokens, Place.tokens, Pending.allTokens, Enclosure.allTokens,
        Enclosure.tokens, Pending.applyAll_tokens, htoken]
  · split
    · rename_i op hop
      have hfits := Pending.fits_of_isPostfix hpost pending
      have hle : op.tier ≤ e.level :=
        Nat.le_trans op.tier_le (Nat.le_trans (by decide) hpost)
      rcases Pending.applyFrom_grammatical hpending hfits he hle op.tier_le with
        ⟨hrest, hleft, hleftLevel⟩
      rw [op.level_eq_tier]
      constructor
      · have hwaiting :
            Pending.Ordered (.binary op (Pending.applyFrom op.tier pending e).2 ::
              (Pending.applyFrom op.tier pending e).1) :=
          ⟨⟨hleftLevel, hleft⟩, Pending.fits_applyFrom op.tier pending e, hrest⟩
        exact ⟨henclosures, hwaiting, trivial⟩
      · have happly := Pending.applyFrom_tokens op.tier pending e
        simp [tokens, Place.tokens, Pending.allTokens, Pending.tokens,
          Token.binary?_eq_some_iff.mp hop, ← happly]
    · have h := conclude_sound henclosures hall t
      rw [Pending.applyAll_tokens, ← List.append_assoc] at h
      exact h

/-- What one step preserves: no token is lost, invented or moved. -/
theorem step_sound {d : Draft} (hd : d.Valid) (t : PlacedToken) :
    (d.step t).Sound d.tokens t.token := by
  rcases d with ⟨enclosures, pending, place⟩
  rcases hd with ⟨henclosures, hpending, hplace⟩
  cases place with
  | operand =>
      have h := readOperand_sound henclosures hpending t
      simpa [tokens, Place.tokens, step] using h
  | member left => exact readMember_sound henclosures hpending hplace.left hplace.right t
  | after e => exact readAfter_sound henclosures hpending hplace.left hplace.right t

/-!
## The end of the input
-/

theorem concludeEnd_sound {line : Nat} {enclosures : List Enclosure} {e e' : Expr}
    (henclosures : Enclosure.AllValid enclosures) (he : e.Grammatical)
    (h : concludeEnd line enclosures e = .ok e') :
    e'.Grammatical ∧ e'.tokens = Enclosure.allTokens enclosures ++ e.tokens := by
  induction enclosures generalizing e with
  | nil =>
      cases h
      exact ⟨he, rfl⟩
  | cons enclosure enclosures ih =>
      rcases henclosures with ⟨hopen, henclosures⟩
      cases enclosure with
      | whenFalse c whenTrue =>
          rcases hopen with ⟨⟨hlevel, hc⟩, htrue⟩
          have hchoice : (Expr.conditional c whenTrue e).Grammatical :=
            ⟨hlevel, hc, htrue, he⟩
          rcases ih henclosures hchoice h with ⟨he', htokens⟩
          constructor
          · exact he'
          · simpa [Enclosure.allTokens, Enclosure.tokens, Expr.tokens] using htokens
      | _ => cases h

theorem finish_sound {d : Draft} (hd : d.Valid) {line : Nat} {e : Expr}
    (h : d.finish line = .ok e) : e.Grammatical ∧ e.tokens = d.tokens := by
  rcases d with ⟨enclosures, pending, place⟩
  rcases hd with ⟨henclosures, hpending, hplace⟩
  cases place with
  | operand => cases h
  | member left => cases h
  | after operand =>
      rcases Pending.applyAll_grammatical hpending hplace.left hplace.right with ⟨hall, _⟩
      rcases concludeEnd_sound henclosures hall h with ⟨he, htokens⟩
      constructor
      · exact he
      · rw [htokens, Pending.applyAll_tokens, ← List.append_assoc]
        rfl

/-!
## Runs
-/

/-- A run takes a part of the input from its start, and its tokens follow the draft's. -/
theorem run_sound {line : Nat} {d : Draft} {ts rest : List PlacedToken} {e : Expr}
    (hd : d.Valid) (h : run line d ts = .ok (e, rest)) :
    e.Grammatical ∧ exists used, ts = used ++ rest ∧
      e.tokens = d.tokens ++ used.map PlacedToken.token := by
  induction ts generalizing d with
  | nil =>
      rw [run] at h
      cases hfinish : d.finish line with
      | error error =>
          rw [hfinish] at h
          cases h
      | ok e' =>
          rw [hfinish] at h
          cases h
          rcases finish_sound hd hfinish with ⟨he, htokens⟩
          exact ⟨he, [], rfl, by simpa using htokens⟩
  | cons t ts ih =>
      have hsound := step_sound hd t
      rw [run] at h
      cases hstep : d.step t with
      | next d' =>
          rw [hstep] at h hsound
          rcases hsound with ⟨hd', htokens⟩
          rcases ih hd' h with ⟨he, used, hts, hused⟩
          exact ⟨he, t :: used, by simp [hts], by simp [hused, htokens]⟩
      | stop e' =>
          rw [hstep] at h hsound
          cases h
          rcases hsound with ⟨he, htokens⟩
          exact ⟨he, [], rfl, by simpa using htokens⟩
      | fail error =>
          rw [hstep] at h
          cases h

end Draft

/-!
## Soundness of reading
-/

/--
What is read from the start of a list of tokens is the expression of exactly the tokens
that are taken, at least one of them, and it is grammatical.
-/
theorem Expr.ofTokens_sound {line : Nat} {ts rest : List PlacedToken} {e : Expr}
    (h : Expr.ofTokens line ts = .ok (e, rest)) :
    (exists used, ts = used ++ rest ∧ used.map PlacedToken.token = e.tokens) ∧
      e.tokens ≠ [] ∧ e.Grammatical := by
  rcases Draft.run_sound Draft.valid_start h with ⟨he, used, hts, hused⟩
  exact ⟨⟨used, hts, hused.symm⟩, he.tokens_ne_nil, he⟩

/-- The text `1 + 2 * -a[3] < b ? c : f(d, $) )` is read up to its last parenthesis. -/
theorem Expr.ofTokens_sound_tiers :
    let ts : List PlacedToken :=
      [⟨.integer 1, 1⟩, ⟨.mark .plus, 1⟩, ⟨.integer 2, 1⟩, ⟨.mark .star, 1⟩,
        ⟨.mark .minus, 1⟩, ⟨.name "a", 1⟩, ⟨.mark .lBracket, 1⟩, ⟨.integer 3, 1⟩,
        ⟨.mark .rBracket, 1⟩, ⟨.mark .less, 1⟩, ⟨.name "b", 1⟩, ⟨.mark .question, 1⟩,
        ⟨.name "c", 1⟩, ⟨.mark .colon, 1⟩, ⟨.name "f", 1⟩, ⟨.mark .lParen, 1⟩,
        ⟨.name "d", 1⟩, ⟨.mark .comma, 1⟩, ⟨.mark .dollar, 1⟩, ⟨.mark .rParen, 1⟩,
        ⟨.mark .rParen, 1⟩]
    let rest : List PlacedToken := [⟨.mark .rParen, 1⟩]
    let product : Expr :=
      .binary (.arithmetic .mul) (.constant (some (.unsigned 2)))
        (.unary .negate (.index (.name "a") (.constant (some (.unsigned 3)))))
    let sum : Expr := .binary (.arithmetic .add) (.constant (some (.unsigned 1))) product
    let e : Expr :=
      .conditional (.binary (.comparison .less) sum (.name "b")) (.name "c")
        (.call (.name "f") [.name "d", .counter])
    Expr.ofTokens 1 ts = .ok (e, rest) ∧
      (exists used, ts = used ++ rest ∧ used.map PlacedToken.token = e.tokens) ∧
        e.tokens ≠ [] ∧ e.Grammatical := by
  intro ts rest product sum e
  have h : Expr.ofTokens 1 ts = .ok (e, rest) := rfl
  exact ⟨h, Expr.ofTokens_sound h⟩

end Equate
