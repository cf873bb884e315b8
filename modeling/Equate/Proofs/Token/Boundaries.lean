import Equate.Proofs.Token.Lexemes

/-!
# Where lexemes end

What stands behind a lexeme matters only if the lexeme could go on with it. Most lexemes go on
with few characters. Only blanks, comments and texts have others in them, and a text has ended
with its closing quote. A source is therefore cut as before when another one is put behind it,
unless a blank or a comment goes on across the place where they meet.
-/

namespace Equate
namespace Lexer

open Computability

/-!
## Characters within lexemes
-/

def isInner (c : Char) : Bool :=
  isWordChar c || isHexDigit c || isPoint c || isSign c ||
    c == '=' || c == '<' || c == '>' || c == '&' || c == '|'

def IsMadeOf (p : Char -> Bool) (l : Language Char) : Prop :=
  forall cs, cs ∈ l -> cs ∈ manyOf p

section

variable {p q : Char -> Bool} {l m : Language Char}

theorem isMadeOf_oneOf (h : forall c, p c = true -> q c = true) : IsMadeOf q (oneOf p) := by
  rintro _ ⟨c, hc, rfl⟩ d hd
  cases List.mem_singleton.mp hd
  exact h c hc

theorem isMadeOf_manyOf (h : forall c, p c = true -> q c = true) : IsMadeOf q (manyOf p) :=
  fun _ hcs c hc => h c (hcs c hc)

theorem isMadeOf_one : IsMadeOf p 1 := by
  rintro _ rfl
  exact nofun

theorem IsMadeOf.add (hl : IsMadeOf p l) (hm : IsMadeOf p m) : IsMadeOf p (l + m) := by
  rintro cs (hcs | hcs)
  · exact hl cs hcs
  · exact hm cs hcs

theorem IsMadeOf.mul (hl : IsMadeOf p l) (hm : IsMadeOf p m) : IsMadeOf p (l * m) := by
  intro cs hcs
  rcases Language.mem_mul.mp hcs with ⟨a, ha, b, hb, rfl⟩
  exact List.forall_mem_append.mpr ⟨hl a ha, hm b hb⟩

theorem isMadeOf_someOf (h : forall c, p c = true -> q c = true) : IsMadeOf q (someOf p) :=
  (isMadeOf_oneOf h).mul (isMadeOf_manyOf h)

end

theorem isInner_of_isWordChar (c : Char) (h : isWordChar c = true) : isInner c = true := by
  simp [isInner, h]

theorem isInner_of_isDigit (c : Char) (h : c.isDigit = true) : isInner c = true := by
  simp [isInner, isWordChar, Char.isAlphanum, h]

theorem isMadeOf_fraction : IsMadeOf isInner fraction :=
  (isMadeOf_oneOf fun c h => by simp [isInner, h]).mul (isMadeOf_someOf isInner_of_isDigit)

theorem isMadeOf_exponent : IsMadeOf isInner exponent := by
  have hmark : IsMadeOf isInner (oneOf isExponentMark) := by
    apply isMadeOf_oneOf
    intro c h
    rcases Bool.or_eq_true_iff.mp h with h | h <;> cases beq_iff_eq.mp h <;> rfl
  have hsign : IsMadeOf isInner (1 + oneOf isSign) :=
    isMadeOf_one.add (isMadeOf_oneOf fun c h => by simp [isInner, h])
  exact hmark.mul (hsign.mul (isMadeOf_someOf isInner_of_isDigit))

theorem isMadeOf_radixNumber {isLetter isDigit : Char -> Bool}
    (hletter : forall c, isLetter c = true -> isInner c = true)
    (hdigit : forall c, isDigit c = true -> isInner c = true) :
    IsMadeOf isInner (radixNumber isLetter isDigit) := by
  have hzero : IsMadeOf isInner (oneOf fun c => c == '0') := by
    apply isMadeOf_oneOf
    intro c h
    cases beq_iff_eq.mp h
    rfl
  exact hzero.mul ((isMadeOf_oneOf hletter).mul (isMadeOf_someOf hdigit))

theorem IsMadeOf.tail_mem {l : Language Char} (hl : IsMadeOf isInner l) {lexeme : List Char}
    (h : lexeme ∈ l) : lexeme.tail ∈ manyOf isInner :=
  fun c hc => hl lexeme h c (List.mem_of_mem_tail hc)

theorem tail_mem {s : Shape} {lexeme : List Char} (h : lexeme ∈ s.language) :
    s = .blank ∨ s = .comment ∨ s = .text ∨ lexeme.tail ∈ manyOf isInner := by
  cases s with
  | blank => exact .inl rfl
  | comment => exact .inr (.inl rfl)
  | text => exact .inr (.inr (.inl rfl))
  | newLine =>
      rcases h with ⟨c, _, rfl⟩
      exact .inr (.inr (.inr nofun))
  | mark m =>
      have hmarks : ∀ m ∈ Mark.all, m.spelling.toList.tail.all isInner = true := by
        decide
      cases Set.mem_singleton_iff.mp h
      exact .inr (.inr (.inr (List.all_eq_true.mp (hmarks m m.mem_all))))
  | word =>
      rcases mem_oneOf_mul_iff.mp h with ⟨c, tail, _, htail, rfl⟩
      exact .inr (.inr (.inr (isMadeOf_manyOf isInner_of_isWordChar tail htail)))
  | decimal => exact .inr (.inr (.inr ((isMadeOf_someOf isInner_of_isDigit).tail_mem h)))
  | hexadecimal =>
      have hletter (c : Char) (h : isHexLetter c = true) : isInner c = true := by
        rcases Bool.or_eq_true_iff.mp h with h | h <;> cases beq_iff_eq.mp h <;> rfl
      have hdigit (c : Char) (h : isHexDigit c = true) : isInner c = true := by
        simp [isInner, h]
      exact .inr (.inr (.inr ((isMadeOf_radixNumber hletter hdigit).tail_mem h)))
  | binary =>
      have hletter (c : Char) (h : isBinaryLetter c = true) : isInner c = true := by
        rcases Bool.or_eq_true_iff.mp h with h | h <;> cases beq_iff_eq.mp h <;> rfl
      have hdigit (c : Char) (h : isBinaryDigit c = true) : isInner c = true := by
        rcases Bool.or_eq_true_iff.mp h with h | h <;> cases beq_iff_eq.mp h <;> rfl
      exact .inr (.inr (.inr ((isMadeOf_radixNumber hletter hdigit).tail_mem h)))
  | float =>
      have hdigits : IsMadeOf isInner (someOf Char.isDigit) := isMadeOf_someOf isInner_of_isDigit
      have hfloat : IsMadeOf isInner Shape.float.language :=
        (hdigits.mul (isMadeOf_fraction.mul (isMadeOf_one.add isMadeOf_exponent))).add
          (hdigits.mul isMadeOf_exponent)
      exact .inr (.inr (.inr (hfloat.tail_mem h)))
  | openText => exact absurd h (Language.notMem_zero lexeme)
  | stray => exact absurd h (Language.notMem_zero lexeme)

/-!
## Lexemes of two texts
-/

theorem mem_of_isPrefix {p p' : Char -> Bool} {q r : List Char} (hq : q ∈ oneOf p * manyOf p')
    (h : r <+: q) (hr : r ≠ []) : r ∈ oneOf p * manyOf p' := by
  rcases mem_oneOf_mul_iff.mp hq with ⟨c, tail, hc, htail, rfl⟩
  cases r with
  | nil => exact absurd rfl hr
  | cons d r =>
      rcases List.cons_prefix_cons.mp h with ⟨rfl, hpre⟩
      exact cons_mem_oneOf_mul hc fun e he => htail e (hpre.subset he)

theorem prefix_append_cons {q cs rest : List Char} {d : Char} (h : q <+: cs ++ d :: rest) :
    q <+: cs ∨ cs ++ [d] <+: q := by
  have hfirst : cs <+: cs ++ d :: rest := List.prefix_append cs _
  have hacross : cs ++ [d] <+: cs ++ d :: rest :=
    (List.prefix_append_right_inj cs).mpr (List.prefix_append [d] rest)
  by_cases hlength : q.length ≤ cs.length
  · exact Or.inl (List.prefix_of_prefix_length_le h hfirst hlength)
  · refine Or.inr (List.prefix_of_prefix_length_le hacross h ?_)
    rw [List.length_append, List.length_singleton]
    omega

end Lexer

namespace Piece

open Lexer

section

variable {s : Shape} {lexeme cs : List Char}

theorem isLongest_unique {s' : Shape} {lexeme' : List Char} (h : IsLongest s lexeme cs)
    (h' : IsLongest s' lexeme' cs) : s = s' ∧ lexeme = lexeme' := by
  cases cs with
  | nil => exact absurd (List.prefix_nil.mp h.starts) (ne_nil_of_mem_language h.matched)
  | cons c cs =>
      rcases isLongest_iff.mp h with ⟨hshape, _, hlexeme⟩
      rcases isLongest_iff.mp h' with ⟨hshape', _, hlexeme'⟩
      exact ⟨hshape ▸ hshape', hlexeme.trans hlexeme'.symm⟩

theorem isLongest_self (h : lexeme ∈ s.language) : IsLongest s lexeme lexeme where
  matched := h
  starts := List.prefix_refl lexeme
  longest := fun _ _ _ hstarts => hstarts.length_le

theorem isLongest_of_text (h : lexeme ∈ Shape.text.language) (rest : List Char) :
    IsLongest .text lexeme (lexeme ++ rest) := by
  rcases exists_body_of_text h with ⟨body, hbody, rfl⟩
  have hclosed := textTail_of_closed hbody rest
  rw [List.cons_append, List.append_assoc]
  apply isLongest_iff.mpr
  change textTail (body ++ (['"'] ++ rest)) = _ at hclosed
  rw [cut_of_quote, hclosed]
  exact ⟨rfl, rfl, rfl⟩

theorem text_eq_of_prefix {q r : List Char} (hq : q ∈ Shape.text.language)
    (hr : r ∈ Shape.text.language) (h : q <+: r) : q = r := by
  rcases h with ⟨rest, rfl⟩
  exact (isLongest_unique (isLongest_of_text hq rest) (isLongest_self hr)).2

theorem shape_of_quote (h : IsLongest s lexeme ('"' :: cs)) : s = .text := by
  rcases isLongest_iff.mp h with ⟨hshape, hpatterned, _⟩
  rw [cut_of_quote] at hshape
  cases hclosed : (textTail cs).1 with
  | true =>
      rw [hclosed] at hshape
      exact hshape.symm
  | false =>
      rw [hclosed] at hshape
      rw [← hshape] at hpatterned
      cases hpatterned

/-- No text goes across the end of what is cut here, because it would have been cut here. -/
theorem not_across_of_text (h : IsLongest s lexeme cs) {q : List Char}
    (hq : q ∈ Shape.text.language) {d : Char} : ¬ cs ++ [d] <+: q := by
  intro hacross
  rcases exists_body_of_text hq with ⟨body, _, hbody⟩
  cases cs with
  | nil => exact ne_nil_of_mem_language h.matched (List.prefix_nil.mp h.starts)
  | cons c cs =>
      rw [hbody] at hacross
      cases (List.cons_prefix_cons.mp hacross).1
      rw [← hbody] at hacross
      cases shape_of_quote h
      have hstarts := (h.starts.trans (List.prefix_append _ [d])).trans hacross
      have hwhole := text_eq_of_prefix h.matched hq hstarts
      have hlonger := hacross.length_le
      have hshorter := h.starts.length_le
      rw [hwhole] at hshorter
      rw [List.length_append, List.length_singleton] at hlonger
      omega

/--
A lexeme stays as it is in front of a character that is in no mark, word or number, unless a
blank or a comment goes on with this character.
-/
theorem isLongest_append (h : IsLongest s lexeme cs) {d : Char} (hd : isInner d = false)
    (hblank : cs ++ [d] ∉ Shape.blank.language) (hcomment : cs ++ [d] ∉ Shape.comment.language)
    (rest : List Char) : IsLongest s lexeme (cs ++ d :: rest) where
  matched := h.matched
  starts := h.starts.trans (List.prefix_append cs _)
  longest other q hq hstarts := by
    rcases prefix_append_cons hstarts with hstarts | hacross
    · exact h.longest other q hq hstarts
    exfalso
    cases cs with
    | nil => exact ne_nil_of_mem_language h.matched (List.prefix_nil.mp h.starts)
    | cons c cs =>
        have hne : c :: cs ++ [d] ≠ [] := List.cons_ne_nil c _
        rcases tail_mem hq with rfl | rfl | rfl | hinner
        · exact hblank (mem_of_isPrefix hq hacross hne)
        · exact hcomment (mem_of_isPrefix hq hacross hne)
        · exact not_across_of_text h hq hacross
        · rcases hacross with ⟨more, rfl⟩
          have hmem : d ∈ (c :: cs ++ [d] ++ more).tail := by simp
          rw [hinner d hmem] at hd
          cases hd

theorem all_of_mem (h : lexeme ∈ s.language) : all lexeme = [⟨s, lexeme⟩] := by
  have hself : IsLongest s lexeme (lexeme ++ []) := by
    rw [List.append_nil]
    exact isLongest_self h
  have hall := all_of_isLongest hself
  rw [List.append_nil] at hall
  exact hall

theorem tokenize_of_denotes {t : Token} (h : lexeme ∈ s.language) (ht : Denotes s lexeme t) :
    tokenize (String.ofList lexeme) = .ok [⟨t, 1⟩] := by
  have hmeaning := (denotes_iff h t).mp ht
  rw [tokenize, String.toList_ofList, all_of_mem h, place_cons_of_token _ _ hmeaning]
  rfl

end

/-!
## Pieces of two texts
-/

/--
What becomes of the pieces of a text when a character is put behind it: all of them stay, or all
but the last one, which is a blank or a comment and goes on.
-/
inductive Seam (d : Char) (cs : List Char) : List Piece -> List Char -> Prop where
  | apart : Seam d cs (all cs) []
  | joined {s : Shape} {ps : List Piece} {last : List Char} :
      IsSkippedShape s -> last ++ [d] ∈ s.language -> all cs = ps ++ [⟨s, last⟩] ->
      Seam d cs ps last

theorem isPatterned_of_place {line : Nat} {ps : List Piece} {ts : List PlacedToken}
    (h : place line ps = .ok ts) : forall p, p ∈ ps -> p.shape.isPatterned = true := by
  induction ps generalizing line ts with
  | nil => exact nofun
  | cons p ps ih =>
      have hpatterned (hvalid : p.meaning ≠ .invalid) : p.shape.isPatterned = true :=
        isPatterned_of_meaning hvalid
      cases hmeaning : p.meaning with
      | invalid =>
          rw [place_cons_of_invalid _ _ hmeaning] at h
          cases h
      | skipped =>
          rw [place_cons_of_skipped _ _ hmeaning] at h
          have hp := hpatterned (by rw [hmeaning]; nofun)
          exact List.forall_mem_cons.mpr ⟨hp, ih h⟩
      | token t =>
          rw [place_cons_of_token _ _ hmeaning] at h
          have hp := hpatterned (by rw [hmeaning]; nofun)
          rcases hplaced : place (line + if p.isNewLine then 1 else 0) ps with e | us
          · rw [hplaced] at h
            cases h
          · exact List.forall_mem_cons.mpr ⟨hp, ih hplaced⟩

/-- The pieces of a text stay when another text is put behind it, the seam apart. -/
theorem exists_seam {cs : List Char} (h : forall p, p ∈ all cs -> p.shape.isPatterned = true)
    {d : Char} (hd : isInner d = false) :
    exists ps last, Seam d cs ps last ∧
      forall rest, all (cs ++ d :: rest) = ps ++ all (last ++ d :: rest) := by
  induction hlength : cs.length using Nat.strong_induction_on generalizing cs with
  | _ n ih =>
      have hjoined {s : Shape} (hs : IsSkippedShape s) (hmem : cs ++ [d] ∈ s.language)
          (hcs : cs ∈ s.language) : exists ps last, Seam d cs ps last ∧
            forall rest, all (cs ++ d :: rest) = ps ++ all (last ++ d :: rest) :=
        ⟨[], cs, .joined hs hmem (all_of_mem hcs), fun _ => rfl⟩
      cases cs with
      | nil => exact ⟨[], [], .apart, fun _ => rfl⟩
      | cons c cs =>
          have hpre : c :: cs <+: c :: cs ++ [d] := List.prefix_append _ _
          have hne : c :: cs ≠ [] := List.cons_ne_nil c cs
          by_cases hblank : c :: cs ++ [d] ∈ Shape.blank.language
          · exact hjoined (.inl rfl) hblank (mem_of_isPrefix hblank hpre hne)
          by_cases hcomment : c :: cs ++ [d] ∈ Shape.comment.language
          · exact hjoined (.inr rfl) hcomment (mem_of_isPrefix hcomment hpre hne)
          have hpatterned := h _ (by rw [all_cons]; exact List.mem_cons_self)
          have hlongest := isLongest_iff.mpr ⟨rfl, hpatterned, rfl⟩
          have hcs : c :: cs = c :: (cut c cs).2 ++ cs.drop (cut c cs).2.length :=
            congrArg (c :: ·) (List.prefix_append_drop (cut_starts c cs))
          have hpos : 0 < (c :: (cut c cs).2).length := Nat.succ_pos _
          have hacross := isLongest_append hlongest hd hblank hcomment
          generalize (cut c cs).1 = s at hlongest hacross
          generalize c :: (cut c cs).2 = lexeme at hcs hlongest hpos hacross
          generalize cs.drop (cut c cs).2.length = others at hcs
          rw [hcs] at h hlength hlongest hacross ⊢
          have hshorter : others.length < n := by
            rw [← hlength, List.length_append]
            omega
          have hall := all_of_isLongest hlongest
          rw [hall] at h
          rcases ih _ hshorter (List.forall_mem_cons.mp h).2 rfl with ⟨ps, last, hseam, hrest⟩
          refine ⟨⟨s, lexeme⟩ :: ps, last, ?_, ?_⟩
          · cases hseam with
            | apart =>
                rw [← hall]
                exact .apart
            | joined hs hmem hothers => exact .joined hs hmem (by rw [hall, hothers]; rfl)
          · intro rest
            have hfirst := hacross rest
            rw [List.append_assoc] at hfirst ⊢
            rw [all_of_isLongest hfirst, hrest]
            rfl

end Piece
end Equate
