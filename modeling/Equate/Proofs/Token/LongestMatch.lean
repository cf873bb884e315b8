import Mathlib.Data.List.Nodup
import Equate.Proofs.Token.Lines
import Equate.Proofs.Token.Patterns

/-!
# The longest match

At every place the lexer cuts the longest piece that any pattern matches there. A match by
a pattern is therefore the piece itself or shorter than it, and of two shapes at most one
matches the piece. It follows that the tokens of a source are the ones that the patterns
alone determine.
-/

namespace Equate
namespace Lexer

open Computability

/-!
## Matches at the start of a text
-/

section

variable {p : Char -> Bool} {l : Language Char} {c : Char} {cs q : List Char}

theorem mem_oneOf_mul_iff :
    q ∈ oneOf p * l ↔ exists c tail, p c = true ∧ tail ∈ l ∧ q = c :: tail := by
  rw [Language.mem_mul]
  constructor
  · rintro ⟨_, ⟨c, hc, rfl⟩, tail, htail, rfl⟩
    exact ⟨c, tail, hc, htail, rfl⟩
  · rintro ⟨c, tail, hc, htail, rfl⟩
    exact ⟨[c], ⟨c, hc, rfl⟩, tail, htail, rfl⟩

theorem cons_mem_oneOf_mul (hc : p c = true) (hq : q ∈ l) : c :: q ∈ oneOf p * l :=
  mem_oneOf_mul_iff.mpr ⟨c, q, hc, hq, rfl⟩

theorem exists_of_oneOf_mul (h : q ∈ oneOf p * l) (hq : q <+: c :: cs) :
    p c = true ∧ exists tail, tail ∈ l ∧ tail <+: cs ∧ q = c :: tail := by
  rcases mem_oneOf_mul_iff.mp h with ⟨d, tail, hd, htail, rfl⟩
  rcases List.cons_prefix_cons.mp hq with ⟨rfl, htail'⟩
  exact ⟨hd, tail, htail, htail', rfl⟩

theorem oneOf_mul_ne_nil (h : q ∈ oneOf p * l) : q ≠ [] := by
  rcases mem_oneOf_mul_iff.mp h with ⟨c, tail, _, _, rfl⟩
  exact List.cons_ne_nil c tail

theorem someOf_ne_nil (h : q ∈ someOf p) : q ≠ [] :=
  oneOf_mul_ne_nil h

theorem mem_someOf_iff : q ∈ someOf p ↔ q ≠ [] ∧ q ∈ manyOf p := by
  constructor
  · intro h
    refine ⟨someOf_ne_nil h, ?_⟩
    rcases mem_oneOf_mul_iff.mp h with ⟨c, tail, hc, htail, rfl⟩
    exact List.forall_mem_cons.mpr ⟨hc, htail⟩
  · rintro ⟨hne, hall⟩
    cases q with
    | nil => exact absurd rfl hne
    | cons c tail =>
        rcases List.forall_mem_cons.mp hall with ⟨hc, htail⟩
        exact cons_mem_oneOf_mul hc htail

/-!
## Runs of a class
-/

theorem takeWhile_mem (p : Char -> Bool) (cs : List Char) : cs.takeWhile p ∈ manyOf p :=
  fun _ => List.mem_takeWhile_imp

theorem prefix_takeWhile (h : q ∈ manyOf p) (hq : q <+: cs) : q <+: cs.takeWhile p := by
  rcases hq with ⟨rest, rfl⟩
  rw [List.takeWhile_append_of_pos h]
  exact List.prefix_append q _

theorem takeWhile_of_stop (h : q ∈ manyOf p) (hc : p c = false) (rest : List Char) :
    (q ++ c :: rest).takeWhile p = q := by
  rw [List.takeWhile_append_of_pos h, List.takeWhile_cons_of_neg (by simp [hc]),
    List.append_nil]

end

/-!
## Fractions and exponents

The parts of a number can be found one after the other, because a part ends in front of a
character that cannot belong to it.
-/

theorem fractionTail_point (cs : List Char) :
    fractionTail ('.' :: cs) =
      match cs.takeWhile Char.isDigit with
      | [] => []
      | digits => '.' :: digits :=
  rfl

theorem fractionTail_of_not_point {c : Char} (h : isPoint c = false) (cs : List Char) :
    fractionTail (c :: cs) = [] := by
  have hc : c ≠ '.' := by
    simpa [isPoint] using h
  simp [fractionTail, hc]

theorem fractionTail_mem (cs : List Char) : fractionTail cs ∈ 1 + fraction := by
  unfold fractionTail
  split
  · rename_i cs
    have hall := takeWhile_mem Char.isDigit cs
    cases hdigits : cs.takeWhile Char.isDigit with
    | nil => exact Or.inl rfl
    | cons d ds =>
        rw [hdigits] at hall
        exact Or.inr (cons_mem_oneOf_mul rfl (mem_someOf_iff.mpr ⟨List.cons_ne_nil d ds, hall⟩))
  · exact Or.inl rfl

section

variable {q : List Char} (h : q ∈ fraction)
include h

theorem exists_of_fraction :
    exists digits, digits ∈ someOf Char.isDigit ∧ q = '.' :: digits := by
  rcases mem_oneOf_mul_iff.mp h with ⟨c, digits, hc, hdigits, rfl⟩
  rw [isPoint, beq_iff_eq] at hc
  exact ⟨digits, hdigits, by rw [hc]⟩

theorem prefix_fractionTail {cs : List Char} (hq : q <+: cs) : q <+: fractionTail cs := by
  rcases exists_of_fraction h with ⟨digits, hdigits, rfl⟩
  rcases mem_someOf_iff.mp hdigits with ⟨hne, hall⟩
  rcases hq with ⟨rest, rfl⟩
  have hpre := prefix_takeWhile hall (List.prefix_append digits rest)
  rw [List.cons_append, fractionTail_point]
  split
  · rename_i hnil
    rw [hnil] at hpre
    exact absurd (List.prefix_nil.mp hpre) hne
  · exact List.cons_prefix_cons.mpr ⟨rfl, hpre⟩

theorem fractionTail_of_stop {c : Char} (hc : c.isDigit = false) (rest : List Char) :
    fractionTail (q ++ c :: rest) = q := by
  rcases exists_of_fraction h with ⟨digits, hdigits, rfl⟩
  rcases mem_someOf_iff.mp hdigits with ⟨hne, hall⟩
  rw [List.cons_append, fractionTail_point, takeWhile_of_stop hall hc]
  cases digits with
  | nil => exact absurd rfl hne
  | cons d ds => rfl

end

theorem signTail_mem (cs : List Char) : signTail cs ∈ 1 + oneOf isSign := by
  unfold signTail
  split
  · exact Or.inr ⟨'+', rfl, rfl⟩
  · exact Or.inr ⟨'-', rfl, rfl⟩
  · exact Or.inl rfl

theorem signTail_append {sign digits : List Char} (hsign : sign ∈ 1 + oneOf isSign)
    (hdigits : digits ∈ someOf Char.isDigit) (rest : List Char) :
    signTail (sign ++ (digits ++ rest)) = sign := by
  rcases hsign with hnone | ⟨c, hc, rfl⟩
  · rcases mem_oneOf_mul_iff.mp hdigits with ⟨d, ds, hd, _, rfl⟩
    have hplus : d ≠ '+' := by
      rintro rfl
      cases hd
    have hminus : d ≠ '-' := by
      rintro rfl
      cases hd
    cases hnone
    simp [signTail, hplus, hminus]
  · rcases Bool.or_eq_true_iff.mp hc with h | h
    all_goals
      cases beq_iff_eq.mp h
      rfl

theorem exponentTail_cons {c : Char} (h : isExponentMark c = true) (cs : List Char) :
    exponentTail (c :: cs) =
      match (cs.drop (signTail cs).length).takeWhile Char.isDigit with
      | [] => []
      | digits => c :: signTail cs ++ digits :=
  if_pos h

theorem exponentTail_of_not_mark {c : Char} (h : isExponentMark c = false) (cs : List Char) :
    exponentTail (c :: cs) = [] :=
  if_neg (Bool.not_eq_true _ ▸ h)

theorem exponentTail_mem (cs : List Char) : exponentTail cs ∈ 1 + exponent := by
  cases cs with
  | nil => exact Or.inl rfl
  | cons c cs =>
      by_cases hc : isExponentMark c = true
      · have hall := takeWhile_mem Char.isDigit (cs.drop (signTail cs).length)
        rw [exponentTail_cons hc]
        cases hdigits : (cs.drop (signTail cs).length).takeWhile Char.isDigit with
        | nil => exact Or.inl rfl
        | cons d ds =>
            rw [hdigits] at hall
            exact Or.inr (cons_mem_oneOf_mul hc (Language.append_mem_mul (signTail_mem cs)
              (mem_someOf_iff.mpr ⟨List.cons_ne_nil d ds, hall⟩)))
      · exact Or.inl (if_neg hc)

theorem prefix_exponentTail {q cs : List Char} (h : q ∈ exponent) (hq : q <+: cs) :
    q <+: exponentTail cs := by
  rcases mem_oneOf_mul_iff.mp h with ⟨c, tail, hc, htail, rfl⟩
  rcases Language.mem_mul.mp htail with ⟨sign, hsign, digits, hdigits, rfl⟩
  rcases mem_someOf_iff.mp hdigits with ⟨hne, hall⟩
  rcases hq with ⟨rest, rfl⟩
  have hpre := prefix_takeWhile hall (List.prefix_append digits rest)
  rw [List.cons_append, List.append_assoc, exponentTail_cons hc, signTail_append hsign hdigits,
    List.drop_left]
  split
  · rename_i hnil
    rw [hnil] at hpre
    exact absurd (List.prefix_nil.mp hpre) hne
  · exact (List.prefix_append_right_inj (c :: sign)).mpr hpre

/-!
## Text literals
-/

theorem append_mem_kstar {l : Language Char} {a b : List Char} (ha : a ∈ l) (hb : b ∈ l∗) :
    a ++ b ∈ l∗ := by
  have hle : l * l∗ ≤ l∗ := mul_kstar_le_kstar
  exact hle (Language.append_mem_mul ha hb)

theorem textTail_plain {c : Char} (h : isPlain c = true) (cs : List Char) :
    textTail (c :: cs) = ((textTail cs).1, c :: (textTail cs).2) := by
  rw [isPlain, Bool.not_eq_true', Bool.or_eq_false_iff, Bool.or_eq_false_iff] at h
  rcases h with ⟨⟨hquote, hescape⟩, hbreak⟩
  exact textTail_cons (beq_eq_false_iff_ne.mp hquote) (beq_eq_false_iff_ne.mp hbreak)
    (beq_eq_false_iff_ne.mp hescape) cs

theorem textTail_escape {c : Char} (h : c ≠ '\n') (cs : List Char) :
    textTail ('\\' :: c :: cs) = ((textTail cs).1, '\\' :: c :: (textTail cs).2) := by
  rw [textTail, if_neg h]

theorem textTail_unit {u : List Char} (h : u ∈ textUnit) (cs : List Char) :
    textTail (u ++ cs) = ((textTail cs).1, u ++ (textTail cs).2) := by
  rcases h with ⟨c, hc, rfl⟩ | hescape
  · exact textTail_plain hc cs
  · rcases mem_oneOf_mul_iff.mp hescape with ⟨e, _, he, ⟨c, hc, rfl⟩, rfl⟩
    cases beq_iff_eq.mp he
    exact textTail_escape (by simpa using hc) cs

/-- A text literal ends at the first quote that no backslash escapes. -/
theorem textTail_of_closed {body : List Char} (h : body ∈ textUnit∗) (rest : List Char) :
    textTail (body ++ '"' :: rest) = (true, body ++ ['"']) := by
  rcases Language.mem_kstar.mp h with ⟨units, rfl, hunits⟩
  induction units with
  | nil => rfl
  | cons u units ih =>
      rcases List.forall_mem_cons.mp hunits with ⟨hu, hunits⟩
      have hrest := ih hunits (Language.join_mem_kstar hunits)
      rw [List.flatten_cons, List.append_assoc, textTail_unit hu, hrest, List.append_assoc]

theorem escape_mem_textUnit {c : Char} (h : c ≠ '\n') : ['\\', c] ∈ textUnit :=
  Or.inr (cons_mem_oneOf_mul rfl ⟨c, by simpa using h, rfl⟩)

theorem plain_mem_textUnit {c : Char} (hquote : c ≠ '"') (hbreak : c ≠ '\n')
    (hescape : c ≠ '\\') : [c] ∈ textUnit :=
  Or.inl ⟨c, by simp [isPlain, hquote, hbreak, hescape], rfl⟩

theorem textTail_mem {cs : List Char} (h : (textTail cs).1 = true) :
    (textTail cs).2 ∈ textUnit∗ * oneOf isQuote := by
  fun_induction textTail cs with
  | case1 => cases h
  | case2 cs => exact Language.append_mem_mul (Language.nil_mem_kstar textUnit) ⟨'"', rfl, rfl⟩
  | case3 => cases h
  | case4 => cases h
  | case5 => cases h
  | case6 c cs hc closed tail heq ih =>
      rw [heq] at ih
      rcases Language.mem_mul.mp (ih h) with ⟨body, hbody, quote, hquote, hunit⟩
      change body ++ quote = tail at hunit
      change ['\\', c] ++ tail ∈ _
      rw [← hunit, ← List.append_assoc]
      exact Language.append_mem_mul (append_mem_kstar (escape_mem_textUnit hc) hbody) hquote
  | case7 c cs hquote hbreak hlone hescape closed tail heq ih =>
      rw [heq] at ih
      rcases Language.mem_mul.mp (ih h) with ⟨body, hbody, quote, hquote', hunit⟩
      have hplain := plain_mem_textUnit hquote hbreak (ne_backslash hlone hescape)
      change body ++ quote = tail at hunit
      change [c] ++ tail ∈ _
      rw [← hunit, ← List.append_assoc]
      exact Language.append_mem_mul (append_mem_kstar hplain hbody) hquote'

theorem exists_body_of_text {lexeme : List Char} (h : lexeme ∈ Shape.text.language) :
    exists body, body ∈ textUnit∗ ∧ lexeme = '"' :: (body ++ ['"']) := by
  rcases mem_oneOf_mul_iff.mp h with ⟨opening, tail, hopening, htail, rfl⟩
  rcases Language.mem_mul.mp htail with ⟨body, hbody, _, ⟨closing, hclosing, rfl⟩, rfl⟩
  cases beq_iff_eq.mp hopening
  cases beq_iff_eq.mp hclosing
  exact ⟨body, hbody, rfl⟩

/-!
## Letters and digits
-/

theorem toNat_of_isDigit {c : Char} (hc : c.isDigit = true) : 48 ≤ c.toNat ∧ c.toNat ≤ 57 :=
  (Bool.and_eq_true_iff.mp hc).imp of_decide_eq_true of_decide_eq_true

theorem toNat_of_isAlpha {c : Char} (hc : c.isAlpha = true) :
    65 ≤ c.toNat ∧ c.toNat ≤ 122 := by
  rcases Bool.or_eq_true_iff.mp hc with hupper | hlower
  · have hbounds : 65 ≤ c.toNat ∧ c.toNat ≤ 90 := of_decide_eq_true hupper
    omega
  · have hbounds : 97 ≤ c.toNat ∧ c.toNat ≤ 122 :=
      (Bool.and_eq_true_iff.mp hlower).imp of_decide_eq_true of_decide_eq_true
    omega

end Lexer

namespace Piece

open Lexer Computability

/-!
## Matches and pieces

A match is compared with the piece that is cut where the match begins. The piece is given by
its shape and its characters after the first one, as `cut` gives it.
-/

/--
A match that is not longer than the piece, and has the shape of the piece unless it is
shorter. The piece is then of a shape that has a pattern.
-/
structure Within (s : Shape) (q : List Char) (found : Shape × List Char) : Prop where
  le : q.length ≤ found.2.length + 1
  shape : found.2.length + 1 ≤ q.length -> s = found.1
  patterned : found.1.isPatterned = true

theorem within_of_prefix {s : Shape} {c : Char} {q tail : List Char} (h : q <+: tail)
    (hs : s.isPatterned = true) : Within s (c :: q) (s, tail) where
  le := Nat.succ_le_succ h.length_le
  shape := fun _ => rfl
  patterned := hs

theorem within_of_lt {s : Shape} {q : List Char} {found : Shape × List Char}
    (h : q.length < found.2.length + 1) (hs : found.1.isPatterned = true) :
    Within s q found where
  le := Nat.le_of_lt h
  shape := fun hle => absurd h (Nat.not_lt.mpr hle)
  patterned := hs

theorem isEmpty_of_prefix {q l : List Char} (h : q <+: l) (hq : q ≠ []) : l.isEmpty = false := by
  cases l with
  | nil => exact absurd (List.prefix_nil.mp h) hq
  | cons c cs => rfl

/-!
## Decimal numbers
-/

theorem cutDecimal_patterned (cs : List Char) : (cutDecimal cs).1.isPatterned = true := by
  unfold cutDecimal
  dsimp only
  split <;> rfl

theorem cutDecimal_mem {c : Char} (hc : c.isDigit = true) (cs : List Char) :
    c :: (cutDecimal cs).2 ∈ (cutDecimal cs).1.language := by
  have hdigits : c :: cs.takeWhile Char.isDigit ∈ someOf Char.isDigit :=
    cons_mem_oneOf_mul hc (takeWhile_mem Char.isDigit cs)
  have hfraction := fractionTail_mem (cs.drop (cs.takeWhile Char.isDigit).length)
  unfold cutDecimal
  dsimp only
  generalize fractionTail (cs.drop (cs.takeWhile Char.isDigit).length) = f at hfraction ⊢
  have hexponent :=
    exponentTail_mem (cs.drop ((cs.takeWhile Char.isDigit).length + f.length))
  generalize exponentTail (cs.drop ((cs.takeWhile Char.isDigit).length + f.length)) = e
    at hexponent ⊢
  rcases hfraction with hnone | hfraction
  · cases hnone
    rcases hexponent with hnone | hexponent
    · cases hnone
      rw [List.append_nil, List.append_nil]
      exact hdigits
    · have hne : e.isEmpty = false := by
        rcases mem_oneOf_mul_iff.mp hexponent with ⟨m, tail, _, _, rfl⟩
        rfl
      rw [List.append_nil, hne]
      exact Or.inr (Language.append_mem_mul hdigits hexponent)
  · have hne : f.isEmpty = false := by
      rcases mem_oneOf_mul_iff.mp hfraction with ⟨m, tail, _, _, rfl⟩
      rfl
    rw [hne, List.append_assoc]
    exact Or.inl (Language.append_mem_mul hdigits (Language.append_mem_mul hfraction hexponent))

section

variable {c : Char} {cs q : List Char}

theorem within_cutDecimal_of_decimal (h : q ∈ Shape.decimal.language) (hq : q <+: c :: cs) :
    Within .decimal q (cutDecimal cs) := by
  rcases exists_of_oneOf_mul h hq with ⟨hc, tail, htail, hstarts, rfl⟩
  have hpre := prefix_takeWhile htail hstarts
  have hpatterned := cutDecimal_patterned cs
  unfold cutDecimal at hpatterned ⊢
  dsimp only at hpatterned ⊢
  generalize fractionTail (cs.drop (cs.takeWhile Char.isDigit).length) = f at hpatterned ⊢
  generalize exponentTail (cs.drop ((cs.takeWhile Char.isDigit).length + f.length)) = e
    at hpatterned ⊢
  by_cases hplain : (f.isEmpty && e.isEmpty) = true
  · rw [if_pos hplain]
    refine within_of_prefix (hpre.trans ?_) rfl
    rw [List.append_assoc]
    exact List.prefix_append _ _
  · have hpos : 0 < f.length + e.length := by
      cases f with
      | cons d ds => exact Nat.lt_of_lt_of_le (Nat.succ_pos _) (Nat.le_add_right _ _)
      | nil =>
          cases e with
          | cons d ds => exact Nat.lt_of_lt_of_le (Nat.succ_pos _) (Nat.le_add_left _ _)
          | nil => exact absurd rfl hplain
    have hle := hpre.length_le
    refine within_of_lt ?_ hpatterned
    simp only [List.length_cons, List.length_append]
    omega

theorem cutDecimal_of_stop {digits : List Char} (hdigits : digits ∈ manyOf Char.isDigit)
    (hc : c.isDigit = false) (rest : List Char) :
    cutDecimal (digits ++ c :: rest) =
      (if (fractionTail (c :: rest)).isEmpty &&
          (exponentTail ((c :: rest).drop (fractionTail (c :: rest)).length)).isEmpty
        then .decimal else .float,
        digits ++ fractionTail (c :: rest) ++
          exponentTail ((c :: rest).drop (fractionTail (c :: rest)).length)) := by
  unfold cutDecimal
  dsimp only
  rw [takeWhile_of_stop hdigits hc, List.drop_left, ← List.drop_drop, List.drop_left]

theorem isDigit_of_isExponentMark (h : isExponentMark c = true) : c.isDigit = false := by
  rcases Bool.or_eq_true_iff.mp h with h | h
  all_goals
    cases beq_iff_eq.mp h
    rfl

theorem isPoint_of_isExponentMark (h : isExponentMark c = true) : isPoint c = false := by
  rcases Bool.or_eq_true_iff.mp h with h | h
  all_goals
    cases beq_iff_eq.mp h
    rfl

theorem within_cutDecimal_of_float (h : q ∈ Shape.float.language) (hq : q <+: c :: cs) :
    Within .float q (cutDecimal cs) := by
  rcases h with h | h
  · rcases Language.mem_mul.mp h with ⟨digits, hdigits, tail, htail, rfl⟩
    rcases Language.mem_mul.mp htail with ⟨f, hf, e, he, rfl⟩
    rcases exists_of_oneOf_mul hdigits ((List.prefix_append _ _).trans hq) with
      ⟨_, ds, hds, _, rfl⟩
    rcases exists_of_fraction hf with ⟨fs, _, rfl⟩
    rcases (List.cons_prefix_cons.mp hq).2 with ⟨rest, hrest⟩
    have hcs : cs = ds ++ '.' :: (fs ++ (e ++ rest)) := by
      simpa using hrest.symm
    have hfraction : '.' :: fs <+: fractionTail ('.' :: (fs ++ (e ++ rest))) :=
      prefix_fractionTail hf (List.prefix_append ('.' :: fs) (e ++ rest))
    rw [hcs, cutDecimal_of_stop hds rfl, isEmpty_of_prefix hfraction (List.cons_ne_nil _ _)]
    refine within_of_prefix ?_ rfl
    change ds ++ ('.' :: fs ++ e) <+: _
    rw [List.append_assoc, List.prefix_append_right_inj]
    rcases he with hnone | he
    · cases hnone
      rw [List.append_nil]
      exact hfraction.trans (List.prefix_append _ _)
    · rcases mem_oneOf_mul_iff.mp he with ⟨m, es, hm, _, rfl⟩
      have hall : fractionTail ('.' :: (fs ++ (m :: es ++ rest))) = '.' :: fs :=
        fractionTail_of_stop hf (isDigit_of_isExponentMark hm) (es ++ rest)
      rw [hall, List.prefix_append_right_inj]
      apply prefix_exponentTail he
      have hdrop : ('.' :: (fs ++ (m :: es ++ rest))).drop ('.' :: fs).length = m :: es ++ rest :=
        List.drop_left
      rw [hdrop]
      exact List.prefix_append _ _
  · rcases Language.mem_mul.mp h with ⟨digits, hdigits, e, he, rfl⟩
    rcases exists_of_oneOf_mul hdigits ((List.prefix_append _ _).trans hq) with
      ⟨_, ds, hds, _, rfl⟩
    rcases mem_oneOf_mul_iff.mp he with ⟨m, es, hm, _, rfl⟩
    rcases (List.cons_prefix_cons.mp hq).2 with ⟨rest, hrest⟩
    have hcs : cs = ds ++ m :: (es ++ rest) := by
      simpa using hrest.symm
    have hexponent : m :: es <+: exponentTail (m :: (es ++ rest)) :=
      prefix_exponentTail he (List.prefix_append (m :: es) rest)
    rw [hcs, cutDecimal_of_stop hds (isDigit_of_isExponentMark hm),
      fractionTail_of_not_point (isPoint_of_isExponentMark hm), List.length_nil, List.drop_zero,
      isEmpty_of_prefix hexponent (List.cons_ne_nil _ _), List.append_nil]
    refine within_of_prefix ?_ rfl
    exact (List.prefix_append_right_inj ds).mpr hexponent

end

/-!
## Numbers in another radix
-/

section

variable {c : Char} {cs q : List Char}

theorem cutRadix?_hexadecimal (hc : isHexLetter c = true) (cs : List Char) :
    cutRadix? (c :: cs) =
      match cs.takeWhile isHexDigit with
      | [] => none
      | digits => some (.hexadecimal, c :: digits) :=
  if_pos hc

theorem cutRadix?_binary (hc : isBinaryLetter c = true) (cs : List Char) :
    cutRadix? (c :: cs) =
      match cs.takeWhile isBinaryDigit with
      | [] => none
      | digits => some (.binary, c :: digits) := by
  have hhex : isHexLetter c = false := by
    rcases Bool.or_eq_true_iff.mp hc with h | h
    all_goals
      cases beq_iff_eq.mp h
      rfl
  exact (if_neg (Bool.not_eq_true _ ▸ hhex)).trans (if_pos hc)

theorem cutRadix?_cases {found : Shape × List Char} (h : cutRadix? cs = some found) :
    exists letter rest digits, cs = letter :: rest ∧ found.2 = letter :: digits ∧ digits ≠ [] ∧
      (found.1 = .hexadecimal ∧ isHexLetter letter = true ∧ digits ∈ manyOf isHexDigit ∨
        found.1 = .binary ∧ isBinaryLetter letter = true ∧ digits ∈ manyOf isBinaryDigit) := by
  cases cs with
  | nil => cases h
  | cons c cs =>
      by_cases hhex : isHexLetter c = true
      · rw [cutRadix?_hexadecimal hhex] at h
        split at h
        · cases h
        · rename_i hne
          cases h
          exact ⟨c, cs, _, rfl, rfl, hne, Or.inl ⟨rfl, hhex, takeWhile_mem isHexDigit cs⟩⟩
      · by_cases hbinary : isBinaryLetter c = true
        · rw [cutRadix?_binary hbinary] at h
          split at h
          · cases h
          · rename_i hne
            cases h
            exact ⟨c, cs, _, rfl, rfl, hne, Or.inr ⟨rfl, hbinary, takeWhile_mem isBinaryDigit cs⟩⟩
        · have hnone : cutRadix? (c :: cs) = none := (if_neg hhex).trans (if_neg hbinary)
          rw [hnone] at h
          cases h

theorem cutRadix?_mem {found : Shape × List Char} (h : cutRadix? cs = some found) :
    '0' :: found.2 ∈ found.1.language := by
  rcases cutRadix?_cases h with ⟨letter, rest, digits, _, htail, hne, hshape⟩
  rw [htail]
  rcases hshape with ⟨hs, hletter, hdigits⟩ | ⟨hs, hletter, hdigits⟩
  all_goals
    rw [hs]
    exact cons_mem_oneOf_mul rfl
      (cons_mem_oneOf_mul hletter (mem_someOf_iff.mpr ⟨hne, hdigits⟩))

theorem cutRadix?_patterned {found : Shape × List Char} (h : cutRadix? cs = some found) :
    found.1.isPatterned = true := by
  rcases cutRadix?_cases h with ⟨letter, rest, digits, _, _, _, ⟨hs, _⟩ | ⟨hs, _⟩⟩
  all_goals
    rw [hs]
    rfl

theorem exists_of_radixNumber {isLetter isDigit : Char -> Bool} {s : Shape}
    (hcut : forall {letter : Char}, isLetter letter = true -> forall cs : List Char,
      cutRadix? (letter :: cs) =
        match cs.takeWhile isDigit with
        | [] => none
        | digits => some (s, letter :: digits))
    (h : q ∈ radixNumber isLetter isDigit) (hq : q <+: c :: cs) :
    c = '0' ∧ exists tail found, q = c :: tail ∧ tail <+: found ∧
      cutRadix? cs = some (s, found) := by
  rcases exists_of_oneOf_mul h hq with ⟨hc, tail, htail, hstarts, rfl⟩
  cases cs with
  | nil =>
      rcases mem_oneOf_mul_iff.mp htail with ⟨letter, digits, _, _, rfl⟩
      exact absurd (List.prefix_nil.mp hstarts) (List.cons_ne_nil _ _)
  | cons letter cs =>
      rcases exists_of_oneOf_mul htail hstarts with ⟨hletter, digits, hdigits, hstarts', rfl⟩
      rcases mem_someOf_iff.mp hdigits with ⟨hne, hall⟩
      have hpre := prefix_takeWhile hall hstarts'
      refine ⟨beq_iff_eq.mp hc, _, letter :: cs.takeWhile isDigit, rfl,
        List.cons_prefix_cons.mpr ⟨rfl, hpre⟩, ?_⟩
      rw [hcut hletter]
      split
      · rename_i hnil
        rw [hnil] at hpre
        exact absurd (List.prefix_nil.mp hpre) hne
      · rfl

theorem cutDecimal_of_radix {found : Shape × List Char} (h : cutRadix? cs = some found) :
    cutDecimal cs = (.decimal, []) := by
  rcases cutRadix?_cases h with ⟨letter, rest, digits, rfl, _, _, hshape⟩
  have hclass : isHexLetter letter = true ∨ isBinaryLetter letter = true :=
    hshape.imp (fun h => h.2.1) (fun h => h.2.1)
  have hletter : letter.isDigit = false ∧ isPoint letter = false ∧
      isExponentMark letter = false := by
    rcases hclass with hclass | hclass
    all_goals
      rcases Bool.or_eq_true_iff.mp hclass with hc | hc
      all_goals
        cases beq_iff_eq.mp hc
        exact ⟨rfl, rfl, rfl⟩
  rcases hletter with ⟨hdigit, hpoint, hmark⟩
  have hcut := cutDecimal_of_stop (takeWhile_mem Char.isDigit []) hdigit rest
  rw [fractionTail_of_not_point hpoint, List.length_nil, List.drop_zero,
    exponentTail_of_not_mark hmark] at hcut
  exact hcut

/-!
## Numbers
-/

theorem cutNumber_mem (hc : c.isDigit = true) (cs : List Char) :
    c :: (cutNumber c cs).2 ∈ (cutNumber c cs).1.language := by
  unfold cutNumber
  by_cases hzero : (c == '0') = true
  · rw [if_pos hzero]
    cases hradix : cutRadix? cs with
    | none => exact cutDecimal_mem hc cs
    | some found =>
        rw [beq_iff_eq.mp hzero]
        exact cutRadix?_mem hradix
  · rw [if_neg hzero]
    exact cutDecimal_mem hc cs

theorem cutNumber_patterned (c : Char) (cs : List Char) :
    (cutNumber c cs).1.isPatterned = true := by
  unfold cutNumber
  split
  · cases hradix : cutRadix? cs with
    | none => exact cutDecimal_patterned cs
    | some found => exact cutRadix?_patterned hradix
  · exact cutDecimal_patterned cs

theorem cutNumber_of_radix {found : Shape × List Char} (h : cutRadix? cs = some found) :
    cutNumber '0' cs = found := by
  unfold cutNumber
  rw [h]
  rfl

theorem Within.cutNumber {s : Shape} (h : Within s q (cutDecimal cs)) :
    Within s q (cutNumber c cs) := by
  unfold Piece.cutNumber
  split
  · cases hradix : cutRadix? cs with
    | none => exact h
    | some found =>
        have hle := h.le
        rw [cutDecimal_of_radix hradix] at hle
        refine within_of_lt (Nat.lt_of_le_of_lt hle ?_) (cutRadix?_patterned hradix)
        rcases cutRadix?_cases hradix with ⟨letter, rest, digits, _, htail, _⟩
        rw [Option.getD_some, htail]
        simp
  · exact h

end

end Piece

/-!
## Marks
-/

namespace Mark

theorem spelling_injective {m n : Mark} (h : m.spelling = n.spelling) : m = n :=
  List.inj_on_of_nodup_map (by decide : (all.map spelling).Nodup) m.mem_all n.mem_all h

theorem isPrefix_of_longest? {cs : List Char} {m : Mark} (h : longest? cs = some m) :
    m.spelling.toList <+: cs := by
  have hfound := List.find?_some h
  exact List.isPrefixOf_iff_prefix.mp hfound

/-- Where a mark is spelled, it or a mark with a longer spelling is found. -/
theorem exists_longest? {cs : List Char} {m : Mark} (h : m.spelling.toList <+: cs) :
    exists found, longest? cs = some found ∧
      (found = m ∨ m.spelling.length < found.spelling.length) := by
  have hspelled : m.spelling.toList.isPrefixOf cs = true := List.isPrefixOf_iff_prefix.mpr h
  cases hfound : longest? cs with
  | none => exact absurd hspelled (List.find?_eq_none.mp hfound m m.mem_all)
  | some found =>
      refine ⟨found, rfl, ?_⟩
      rcases List.find?_eq_some_iff_append.mp hfound with ⟨_, front, back, hall, hfront⟩
      -- The marks in front of the found one are not spelled here, those behind it are shorter.
      have hordered : all.Pairwise fun a b => b.spelling.length ≤ a.spelling.length := by
        decide
      rw [hall, List.pairwise_append, List.pairwise_cons] at hordered
      have hm : m ∈ front ++ found :: back := hall ▸ m.mem_all
      rcases List.mem_append.mp hm with hm | hm
      · have hnot := hfront m hm
        rw [hspelled] at hnot
        cases hnot
      rcases List.mem_cons.mp hm with rfl | hm
      · exact Or.inl rfl
      rcases Nat.lt_or_eq_of_le (hordered.2.1.1 m hm) with hlt | heq
      · exact Or.inr hlt
      · have hsame : found.spelling.toList = m.spelling.toList := by
          have hlength : found.spelling.toList.length = m.spelling.toList.length := by
            rw [String.length_toList, String.length_toList, heq]
          exact (List.prefix_of_prefix_length_le (isPrefix_of_longest? hfound) h
            (Nat.le_of_eq hlength)).eq_of_length hlength
        exact Or.inl (spelling_injective (String.ext hsame))

theorem exists_spelling (m : Mark) : exists c tail, m.spelling.toList = c :: tail := by
  cases m <;> exact ⟨_, _, rfl⟩

end Mark

namespace Piece

open Lexer Computability

/-!
## Places

The first character of a piece decides which rules are tried.
-/

section

variable {c : Char} {cs q : List Char}

theorem cut_of_blank (hc : isSkipped c = true) (cs : List Char) :
    cut c cs = (.blank, cs.takeWhile isSkipped) := by
  have hbreak : (c == '\n') = false := by
    rw [beq_eq_false_iff_ne]
    rintro rfl
    cases hc
  rw [cut, hbreak, hc]
  rfl

theorem cut_of_quote (cs : List Char) :
    cut '"' cs = (if (textTail cs).1 then .text else .openText, (textTail cs).2) :=
  rfl

/-- A class in which there is no character that begins a line break, blanks, a comment or a text. -/
def StartsWord (p : Char -> Bool) : Prop :=
  forall c, p c = true -> isSkipped c = false ∧ c ≠ '\n' ∧ c ≠ ';' ∧ c ≠ '"'

theorem startsWord_of_all {p : Char -> Bool}
    (h : ([' ', '\t', '\r', '\x0c', '\n', ';', '"'].all fun c => !p c) = true) :
    StartsWord p := by
  intro c hc
  have hne : forall d, d ∈ [' ', '\t', '\r', '\x0c', '\n', ';', '"'] -> c ≠ d := by
    intro d hd heq
    have hnot := List.all_eq_true.mp h d hd
    rw [← heq, hc] at hnot
    cases hnot
  simp [isSkipped, hne]

theorem cut_of_startsWord {p : Char -> Bool} (hp : StartsWord p) (hc : p c = true)
    (cs : List Char) :
    cut c cs =
      if c.isDigit then cutNumber c cs
      else if isWordStart c then (.word, cs.takeWhile isWordChar)
      else
        match Mark.longest? (c :: cs) with
        | some m => (.mark m, cs.take (m.spelling.length - 1))
        | none => (.stray, []) := by
  rcases hp c hc with ⟨hskipped, hbreak, hcomment, hquote⟩
  have hquote' : (c == '"') = false := beq_eq_false_iff_ne.mpr hquote
  have hbreak' : (c == '\n') = false := beq_eq_false_iff_ne.mpr hbreak
  have hcomment' : (c == ';') = false := beq_eq_false_iff_ne.mpr hcomment
  rw [cut, hskipped, hbreak', hcomment', hquote']
  rfl

theorem startsWord_isDigit : StartsWord Char.isDigit :=
  startsWord_of_all (by decide)

theorem startsWord_isWordStart : StartsWord isWordStart :=
  startsWord_of_all (by decide)

theorem cut_of_digit (hc : c.isDigit = true) (cs : List Char) : cut c cs = cutNumber c cs := by
  rw [cut_of_startsWord startsWord_isDigit hc, if_pos hc]

theorem isDigit_eq_false (hc : isWordStart c = true) : c.isDigit = false := by
  cases hdigit : c.isDigit with
  | false => rfl
  | true =>
      rcases Bool.or_eq_true_iff.mp hc with halpha | hline
      · have hletter := toNat_of_isAlpha halpha
        have hbounds := toNat_of_isDigit hdigit
        omega
      · cases beq_iff_eq.mp hline
        cases hdigit

theorem cut_of_wordStart (hc : isWordStart c = true) (cs : List Char) :
    cut c cs = (.word, cs.takeWhile isWordChar) := by
  rw [cut_of_startsWord startsWord_isWordStart hc, isDigit_eq_false hc, if_pos hc]
  rfl

theorem cut_of_mark {m : Mark} (h : m.spelling.toList <+: c :: cs) :
    exists found, cut c cs = (.mark found, found.spelling.toList.tail) ∧
      c :: found.spelling.toList.tail = found.spelling.toList ∧
      (found = m ∨ m.spelling.length < found.spelling.length) := by
  rcases Mark.exists_longest? h with ⟨found, hfound, hlonger⟩
  rcases found.exists_spelling with ⟨d, tail, hspelling⟩
  have hstarts := Mark.isPrefix_of_longest? hfound
  rw [hspelling] at hstarts
  rcases List.cons_prefix_cons.mp hstarts with ⟨rfl, _⟩
  refine ⟨found, ?_, by rw [hspelling]; rfl, hlonger⟩
  -- No character that begins a mark is of another class.
  have hcut : cut d cs =
      match Mark.longest? (d :: cs) with
      | some m => (.mark m, cs.take (m.spelling.length - 1))
      | none => (.stray, []) := by
    cases found <;> cases hspelling <;> rfl
  rw [hcut, hfound, ← Mark.take_of_longest? hfound]

/-!
## The longest match
-/

theorem cut_mem (h : (cut c cs).1.isPatterned = true) :
    c :: (cut c cs).2 ∈ (cut c cs).1.language := by
  by_cases hbreak : c = '\n'
  · subst hbreak
    exact ⟨'\n', rfl, rfl⟩
  by_cases hskipped : isSkipped c = true
  · rw [cut_of_blank hskipped]
    exact cons_mem_oneOf_mul hskipped (takeWhile_mem isSkipped cs)
  by_cases hcomment : c = ';'
  · subst hcomment
    exact cons_mem_oneOf_mul rfl (takeWhile_mem _ cs)
  by_cases hquote : c = '"'
  · subst hquote
    rw [cut_of_quote] at h ⊢
    cases hclosed : (textTail cs).1 with
    | true => exact cons_mem_oneOf_mul rfl (textTail_mem hclosed)
    | false =>
        rw [hclosed] at h
        cases h
  have hp : StartsWord fun d => d == c := by
    intro d hd
    cases beq_iff_eq.mp hd
    exact ⟨Bool.not_eq_true _ ▸ hskipped, hbreak, hcomment, hquote⟩
  rw [cut_of_startsWord hp (beq_self_eq_true c)] at h ⊢
  by_cases hdigit : c.isDigit = true
  · rw [if_pos hdigit] at h ⊢
    exact cutNumber_mem hdigit cs
  by_cases hword : isWordStart c = true
  · rw [if_neg hdigit, if_pos hword] at h ⊢
    exact cons_mem_oneOf_mul hword (takeWhile_mem isWordChar cs)
  rw [if_neg hdigit, if_neg hword] at h ⊢
  cases hfound : Mark.longest? (c :: cs) with
  | none =>
      rw [hfound] at h
      cases h
  | some m =>
      rcases m.exists_spelling with ⟨d, tail, hspelling⟩
      have hstarts := Mark.isPrefix_of_longest? hfound
      rw [hspelling] at hstarts
      rcases List.cons_prefix_cons.mp hstarts with ⟨rfl, _⟩
      change d :: cs.take (m.spelling.length - 1) ∈ ({m.spelling.toList} : Language Char)
      rw [Mark.take_of_longest? hfound, hspelling]
      exact Set.mem_singleton _

/-- A match of any shape is within the piece. -/
theorem within_cut {s : Shape} (h : q ∈ s.language) (hq : q <+: c :: cs) :
    Within s q (cut c cs) := by
  cases s with
  | newLine =>
      rcases h with ⟨d, hd, rfl⟩
      rcases List.cons_prefix_cons.mp hq with ⟨rfl, _⟩
      cases beq_iff_eq.mp hd
      exact within_of_prefix List.nil_prefix rfl
  | blank =>
      rcases exists_of_oneOf_mul h hq with ⟨hc, tail, htail, hstarts, rfl⟩
      rw [cut_of_blank hc]
      exact within_of_prefix (prefix_takeWhile htail hstarts)
        rfl
  | comment =>
      rcases exists_of_oneOf_mul h hq with ⟨hc, tail, htail, hstarts, rfl⟩
      cases beq_iff_eq.mp hc
      exact within_of_prefix (prefix_takeWhile htail hstarts)
        rfl
  | word =>
      rcases exists_of_oneOf_mul h hq with ⟨hc, tail, htail, hstarts, rfl⟩
      rw [cut_of_wordStart hc]
      exact within_of_prefix (prefix_takeWhile htail hstarts)
        rfl
  | decimal =>
      rw [cut_of_digit (exists_of_oneOf_mul h hq).1]
      exact (within_cutDecimal_of_decimal h hq).cutNumber
  | float =>
      have hc : c.isDigit = true := by
        rcases h with h | h
        all_goals
          rcases Language.mem_mul.mp h with ⟨digits, hdigits, tail, _, rfl⟩
          exact (exists_of_oneOf_mul hdigits ((List.prefix_append digits tail).trans hq)).1
      rw [cut_of_digit hc]
      exact (within_cutDecimal_of_float h hq).cutNumber
  | hexadecimal =>
      rcases exists_of_radixNumber cutRadix?_hexadecimal h hq with
        ⟨rfl, tail, found, rfl, hstarts, hcut⟩
      rw [cut_of_digit rfl, cutNumber_of_radix hcut]
      exact within_of_prefix hstarts rfl
  | binary =>
      rcases exists_of_radixNumber cutRadix?_binary h hq with
        ⟨rfl, tail, found, rfl, hstarts, hcut⟩
      rw [cut_of_digit rfl, cutNumber_of_radix hcut]
      exact within_of_prefix hstarts rfl
  | text =>
      rcases exists_body_of_text h with ⟨body, hbody, rfl⟩
      rcases List.cons_prefix_cons.mp hq with ⟨rfl, rest, rfl⟩
      have hclosed : textTail (body ++ ['"'] ++ rest) = (true, body ++ ['"']) := by
        rw [List.append_assoc]
        exact textTail_of_closed hbody rest
      have hcut : cut '"' (body ++ ['"'] ++ rest) = (.text, body ++ ['"']) := by
        rw [cut_of_quote, hclosed]
        rfl
      rw [hcut]
      exact within_of_prefix (List.prefix_refl _) rfl
  | mark m =>
      cases Set.mem_singleton_iff.mp h
      rcases cut_of_mark hq with ⟨found, hcut, hspelling, rfl | hlt⟩
      · rw [hcut, ← hspelling]
        exact within_of_prefix (List.prefix_refl _) rfl
      · rw [hcut]
        apply within_of_lt _ rfl
        have hlength := congrArg List.length hspelling
        rw [List.length_cons, String.length_toList] at hlength
        rw [hlength, String.length_toList]
        exact hlt
  | openText => exact absurd h (Language.notMem_zero q)
  | stray => exact absurd h (Language.notMem_zero q)

end

end Piece
end Equate
