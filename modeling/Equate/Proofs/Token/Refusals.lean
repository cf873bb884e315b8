import Equate.Proofs.Decimal.Spelling
import Equate.Proofs.Token.Lexemes

/-!
# Refusals

A source is refused for one of four reasons: a character that begins no piece, an integer
that does not fit into a word, an unknown escape, a text that is not closed. The reasons are
told by the patterns. The first piece with such a reason is refused, and everything before it
is a token or skipped. A float is never refused, because its pattern is part of the language
of numerals.
-/

namespace Equate
namespace Lexer

open Computability

/-!
## Reasons
-/

inductive Digits : Shape -> List Char -> Nat -> List Char -> Prop where
  | decimal (digits : List Char) : Digits .decimal digits 10 digits
  | hexadecimal (zero letter : Char) (digits : List Char) :
      Digits .hexadecimal (zero :: letter :: digits) 16 digits
  | binary (zero letter : Char) (digits : List Char) :
      Digits .binary (zero :: letter :: digits) 2 digits

/-- Behind some units of a text a backslash stands before a character that it does not escape. -/
inductive Misspelled : List Char -> Prop where
  | intro {before : List Char} {e : Char} (after : List Char) :
      before ∈ textUnit∗ -> (forall c, ¬ Escape e c) -> Misspelled (before ++ '\\' :: e :: after)

/-- The end of a line or of the whole source, perhaps behind a backslash that escapes nothing. -/
inductive EndsLine : List Char -> Prop where
  | source : EndsLine []
  | line (rest : List Char) : EndsLine ('\n' :: rest)
  | backslash : EndsLine ['\\']
  | backslashLine (rest : List Char) : EndsLine ('\\' :: '\n' :: rest)

inductive Refused : List Char -> List Char -> Prop where
  /-- No token and no skipped text begins with this character. -/
  | stray {c : Char} (rest : List Char) :
      (forall (s : Shape) (lexeme : List Char), lexeme ∈ s.language -> lexeme.head? ≠ some c) ->
      Refused [c] (c :: rest)
  | integer {s : Shape} {lexeme text digits : List Char} {radix : Nat} :
      IsLongest s lexeme text -> Digits s lexeme radix digits ->
      UInt64.size ≤ integerOf radix digits ->
      Refused lexeme text
  | escape {body text : List Char} :
      IsLongest .text ('"' :: body ++ ['"']) text -> Misspelled body ->
      Refused ('"' :: body ++ ['"']) text
  | openText {body rest : List Char} :
      body ∈ textUnit∗ -> EndsLine rest ->
      Refused ('"' :: body) ('"' :: body ++ rest)

/-- How far a source can be scanned without a refusal: what is read and what is left. -/
inductive Scans (source : List Char) : List Char -> List Char -> Prop where
  | start : Scans source [] source
  | next {s : Shape} {read lexeme rest : List Char} :
      Scans source read (lexeme ++ rest) ->
      IsLongest s lexeme (lexeme ++ rest) ->
      (forall piece, ¬ Refused piece (lexeme ++ rest)) ->
      Scans source (read ++ lexeme) rest

/-!
## Texts that are not closed
-/

theorem textTail_of_endsLine {body rest : List Char} (hbody : body ∈ textUnit∗)
    (hrest : EndsLine rest) : textTail (body ++ rest) = (false, body) := by
  rcases Language.mem_kstar.mp hbody with ⟨units, rfl, hunits⟩
  clear hbody
  induction units with
  | nil => cases hrest <;> rfl
  | cons u units ih =>
      rcases List.forall_mem_cons.mp hunits with ⟨hu, hunits⟩
      rw [List.flatten_cons, List.append_assoc, textTail_unit hu, ih hunits]

theorem textTail_of_open {cs : List Char} (h : (textTail cs).1 = false) :
    (textTail cs).2 ∈ textUnit∗ ∧ EndsLine (cs.drop (textTail cs).2.length) := by
  fun_induction textTail cs with
  | case1 => exact ⟨Language.nil_mem_kstar textUnit, .source⟩
  | case2 => cases h
  | case3 cs => exact ⟨Language.nil_mem_kstar textUnit, .line cs⟩
  | case4 => exact ⟨Language.nil_mem_kstar textUnit, .backslash⟩
  | case5 cs => exact ⟨Language.nil_mem_kstar textUnit, .backslashLine cs⟩
  | case6 c cs hc closed tail heq ih =>
      rw [heq] at ih
      exact ⟨append_mem_kstar (escape_mem_textUnit hc) (ih h).1, (ih h).2⟩
  | case7 c cs hquote hbreak hlone hescape closed tail heq ih =>
      rw [heq] at ih
      have hplain := plain_mem_textUnit hquote hbreak (ne_backslash hlone hescape)
      exact ⟨append_mem_kstar hplain (ih h).1, (ih h).2⟩

theorem Misspelled.unit {u body : List Char} (hu : u ∈ textUnit) (h : Misspelled body) :
    Misspelled (u ++ body) := by
  cases h with
  | intro after hbefore he =>
      rw [← List.append_assoc]
      exact .intro after (append_mem_kstar hu hbefore) he

end Lexer

/-!
## Floats

The pattern of floats admits a part of the numerals only: there are no blanks and no sign, and
digits stand on both sides of a point.
-/

namespace Numeral

open Lexer

theorem exists_digitsText_of_someOf {digits : List Char} (h : digits ∈ someOf Char.isDigit) :
    exists ds, ds ≠ [] ∧ digitsText ds = digits := by
  rcases mem_someOf_iff.mp h with ⟨hne, hall⟩
  rcases exists_digits hall with ⟨ds, rfl⟩
  exact ⟨ds, fun hnil => hne (by rw [hnil]; rfl), rfl⟩

theorem exists_text_of_exponent {e : List Char} (h : e ∈ Lexer.exponent) :
    exists w : ExponentSpelling, w.text = e := by
  rcases mem_oneOf_mul_iff.mp h with ⟨mark, tail, hmark, htail, rfl⟩
  rcases Language.mem_mul.mp htail with ⟨sign, hsign, digits, hdigits, rfl⟩
  rcases exists_digitsText_of_someOf hdigits with ⟨ds, hne, rfl⟩
  have hspelled : exists w, signText w = sign := by
    rcases hsign with hnone | ⟨c, hc, rfl⟩
    · exact ⟨none, hnone.symm⟩
    · rcases Bool.or_eq_true_iff.mp hc with h | h
      · exact ⟨some .plus, by rw [beq_iff_eq.mp h]; rfl⟩
      · exact ⟨some .minus, by rw [beq_iff_eq.mp h]; rfl⟩
  rcases hspelled with ⟨w, rfl⟩
  rcases Bool.or_eq_true_iff.mp hmark with h | h
  · exact ⟨⟨false, w, ds, hne⟩, by rw [beq_iff_eq.mp h]; rfl⟩
  · exact ⟨⟨true, w, ds, hne⟩, by rw [beq_iff_eq.mp h]; rfl⟩

theorem exists_float?_of_mem {lexeme : List Char} (h : lexeme ∈ Shape.float.language) :
    exists x, float? (String.ofList lexeme) = some x := by
  rw [exists_float?_iff, String.toList_ofList]
  have hnone : forall c, c ∈ ([] : List Char) -> Text.isBlank c = true := nofun
  rcases h with h | h
  · rcases Language.mem_mul.mp h with ⟨digits, hdigits, tail, htail, rfl⟩
    rcases Language.mem_mul.mp htail with ⟨f, hf, e, he, rfl⟩
    rcases exists_digitsText_of_someOf hdigits with ⟨ds, hne, rfl⟩
    rcases exists_of_fraction hf with ⟨fs, hfs, rfl⟩
    rcases exists_digitsText_of_someOf hfs with ⟨fds, _, rfl⟩
    have hspelled : exists w, exponentText w = e := by
      rcases he with hnone | he
      · exact ⟨none, hnone.symm⟩
      · rcases exists_text_of_exponent he with ⟨w, hw⟩
        exact ⟨some w, hw⟩
    rcases hspelled with ⟨w, rfl⟩
    refine ⟨⟨[], none, ds, some fds, w, [], hnone, hnone, .inl hne⟩, ?_⟩
    simp [Spelling.text, signText, pointText]
  · rcases Language.mem_mul.mp h with ⟨digits, hdigits, e, he, rfl⟩
    rcases exists_digitsText_of_someOf hdigits with ⟨ds, hne, rfl⟩
    rcases exists_text_of_exponent he with ⟨w, rfl⟩
    refine ⟨⟨[], none, ds, none, some w, [], hnone, hnone, .inl hne⟩, ?_⟩
    simp [Spelling.text, signText, pointText, exponentText]

end Numeral

namespace Piece

open Lexer Computability

/-!
## Texts with an unknown escape
-/

theorem unescape_append_of_none {before cs : List Char} (hbefore : before ∈ textUnit∗)
    (h : unescape cs = none) : unescape (before ++ cs) = none := by
  rcases Language.mem_kstar.mp hbefore with ⟨units, rfl, hunits⟩
  clear hbefore
  induction units with
  | nil => exact h
  | cons u units ih =>
      rcases List.forall_mem_cons.mp hunits with ⟨hu, htail⟩
      rw [List.flatten_cons, List.append_assoc]
      rcases hu with ⟨c, hc, rfl⟩ | hescape
      · rw [List.singleton_append, unescape_plain hc, ih htail, Option.map_none]
      · rcases mem_oneOf_mul_iff.mp hescape with ⟨b, _, hb, ⟨e, _, rfl⟩, rfl⟩
        cases beq_iff_eq.mp hb
        rw [List.cons_append, List.singleton_append]
        by_cases hknown : exists c, Escape e c
        · rcases hknown with ⟨c, he⟩
          rw [unescape_of_escape he, ih htail, Option.map_none]
        · exact unescape_of_unknown (not_exists.mp hknown) _

theorem unescape_of_misspelled {body : List Char} (h : Misspelled body) :
    unescape (body ++ ['"']) = none := by
  cases h with
  | intro after hbefore he =>
      rw [List.append_assoc]
      exact unescape_append_of_none hbefore (unescape_of_unknown he _)

theorem misspelled_of_unescape {body : List Char} (hbody : body ∈ textUnit∗)
    (h : unescape (body ++ ['"']) = none) : Misspelled body := by
  rcases Language.mem_kstar.mp hbody with ⟨units, rfl, hunits⟩
  clear hbody
  induction units with
  | nil => cases h
  | cons u units ih =>
      rcases List.forall_mem_cons.mp hunits with ⟨hu, htail⟩
      rw [List.flatten_cons] at h ⊢
      by_cases hrest : unescape (units.flatten ++ ['"']) = none
      · exact (ih htail hrest).unit hu
      · rw [List.append_assoc] at h
        rcases hu with ⟨c, hc, rfl⟩ | hescape
        · rw [List.singleton_append, unescape_plain hc] at h
          exact absurd (Option.map_eq_none_iff.mp h) hrest
        · rcases mem_oneOf_mul_iff.mp hescape with ⟨b, _, hb, ⟨e, _, rfl⟩, rfl⟩
          cases beq_iff_eq.mp hb
          by_cases hknown : exists c, Escape e c
          · rcases hknown with ⟨c, he⟩
            rw [List.cons_append, List.singleton_append, unescape_of_escape he] at h
            exact absurd (Option.map_eq_none_iff.mp h) hrest
          · exact .intro units.flatten (Language.nil_mem_kstar textUnit) (not_exists.mp hknown)

/-!
## Pieces without a pattern
-/

section

variable {c : Char} {cs tail : List Char}

theorem exists_singleton_mem {s : Shape} (h : c :: tail ∈ s.language) (hc : c ≠ '"') :
    exists s : Shape, [c] ∈ s.language := by
  have hsingle {p q : Char -> Bool} (h : c :: tail ∈ oneOf p * manyOf q) :
      p c = true ∧ [c] ∈ oneOf p * manyOf q := by
    have hp := (exists_of_oneOf_mul h (List.prefix_refl _)).1
    exact ⟨hp, cons_mem_oneOf_mul hp nofun⟩
  cases s with
  | blank => exact ⟨.blank, (hsingle h).2⟩
  | comment => exact ⟨.comment, (hsingle h).2⟩
  | newLine =>
      rcases h with ⟨d, hd, heq⟩
      cases heq
      exact ⟨.newLine, c, hd, rfl⟩
  | mark m =>
      have hmarks : ∀ m ∈ Mark.all, ∃ n ∈ Mark.all,
          n.spelling.toList = m.spelling.toList.take 1 := by
        decide
      rcases hmarks m m.mem_all with ⟨n, _, hn⟩
      have hspelling : m.spelling.toList = c :: tail := (Set.mem_singleton_iff.mp h).symm
      rw [hspelling] at hn
      exact ⟨.mark n, Set.mem_singleton_iff.mpr hn.symm⟩
  | word => exact ⟨.word, (hsingle h).2⟩
  | decimal => exact ⟨.decimal, (hsingle h).2⟩
  | hexadecimal =>
      have hzero := (exists_of_oneOf_mul h (List.prefix_refl _)).1
      cases beq_iff_eq.mp hzero
      exact ⟨.decimal, cons_mem_oneOf_mul rfl nofun⟩
  | binary =>
      have hzero := (exists_of_oneOf_mul h (List.prefix_refl _)).1
      cases beq_iff_eq.mp hzero
      exact ⟨.decimal, cons_mem_oneOf_mul rfl nofun⟩
  | float =>
      have hdigit : c.isDigit = true := by
        rcases h with h | h
        all_goals
          rcases Language.mem_mul.mp h with ⟨digits, hdigits, rest, _, heq⟩
          have hstarts : digits <+: c :: tail := ⟨rest, heq⟩
          exact (exists_of_oneOf_mul hdigits hstarts).1
      exact ⟨.decimal, cons_mem_oneOf_mul hdigit nofun⟩
  | text =>
      have hquote := (exists_of_oneOf_mul h (List.prefix_refl _)).1
      exact absurd (beq_iff_eq.mp hquote) hc
  | openText => exact absurd h (Language.notMem_zero _)
  | stray => exact absurd h (Language.notMem_zero _)

/-- A piece has no pattern if it is a single character or a text that is not closed. -/
theorem cut_of_unpatterned (h : (cut c cs).1.isPatterned = false) :
    c ≠ '"' ∧ cut c cs = (.stray, []) ∨
      c = '"' ∧ (textTail cs).1 = false ∧ cut c cs = (.openText, (textTail cs).2) := by
  by_cases hquote : c = '"'
  · subst hquote
    right
    rw [cut_of_quote] at h ⊢
    cases hclosed : (textTail cs).1 with
    | true =>
        rw [hclosed] at h
        cases h
    | false => exact ⟨rfl, rfl, rfl⟩
  · left
    refine ⟨hquote, ?_⟩
    have hquote' : (c == '"') = false := beq_eq_false_iff_ne.mpr hquote
    simp only [cut, hquote', Bool.false_eq_true, if_false] at h ⊢
    split_ifs at h ⊢
    · cases h
    · cases h
    · cases h
    · rw [cutNumber_patterned] at h
      cases h
    · cases h
    · cases hfound : Mark.longest? (c :: cs) with
      | none => rfl
      | some m =>
          rw [hfound] at h
          cases h

theorem stray_of_cut (hc : c ≠ '"') (h : cut c cs = (.stray, [])) (s : Shape)
    (lexeme : List Char) (hlexeme : lexeme ∈ s.language) : lexeme.head? ≠ some c := by
  intro hhead
  rcases List.head?_eq_some_iff.mp hhead with ⟨tail, rfl⟩
  rcases exists_singleton_mem hlexeme hc with ⟨s, hs⟩
  have hstarts : [c] <+: c :: cs := List.cons_prefix_cons.mpr ⟨rfl, List.nil_prefix⟩
  have hpatterned := (within_cut hs hstarts).patterned
  rw [h] at hpatterned
  cases hpatterned

end

/-!
## Refused pieces
-/

theorem ofOption_eq_invalid_iff (found : Option Token) :
    Meaning.ofOption found = .invalid ↔ found = none := by
  cases found <;> simp [Meaning.ofOption]

theorem integer?_eq_none_iff {radix : Nat} {digits : List Char} :
    integer? radix digits = none ↔ UInt64.size ≤ integerOf radix digits := by
  rw [integer?, natOfDigits_eq]
  split <;> simp <;> omega

theorem digits_invalid_iff {s : Shape} {lexeme digits : List Char} {radix : Nat}
    (h : Digits s lexeme radix digits) :
    meaning ⟨s, lexeme⟩ = .invalid ↔ UInt64.size ≤ integerOf radix digits := by
  rw [← integer?_eq_none_iff, ← ofOption_eq_invalid_iff]
  cases h <;> exact Iff.rfl

theorem text_invalid_iff (body : List Char) :
    meaning ⟨.text, '"' :: body ++ ['"']⟩ = .invalid ↔ unescape (body ++ ['"']) = none := by
  change Meaning.ofOption ((unescape (body ++ ['"'])).map _) = .invalid ↔ _
  rw [ofOption_eq_invalid_iff, Option.map_eq_none_iff]

/-- Of the pieces with a pattern, large integers and misspelled texts are refused. -/
theorem refused_of_isLongest {s : Shape} {lexeme text : List Char}
    (hlongest : IsLongest s lexeme text) (h : meaning ⟨s, lexeme⟩ = .invalid) :
    Refused lexeme text := by
  have hlexeme := hlongest.matched
  cases s with
  | decimal =>
      have hdigits := Digits.decimal lexeme
      exact .integer hlongest hdigits ((digits_invalid_iff hdigits).mp h)
  | hexadecimal =>
      rcases exists_of_mem_radixNumber hlexeme with ⟨zero, letter, digits, rfl⟩
      have hdigits := Digits.hexadecimal zero letter digits
      exact .integer hlongest hdigits ((digits_invalid_iff hdigits).mp h)
  | binary =>
      rcases exists_of_mem_radixNumber hlexeme with ⟨zero, letter, digits, rfl⟩
      have hdigits := Digits.binary zero letter digits
      exact .integer hlongest hdigits ((digits_invalid_iff hdigits).mp h)
  | float =>
      rcases Numeral.exists_float?_of_mem hlexeme with ⟨x, hx⟩
      have hfloat := (denotes_iff hlexeme (.float x)).mp (.float hx)
      rw [hfloat] at h
      cases h
  | text =>
      rcases exists_body_of_text hlexeme with ⟨body, hbody, rfl⟩
      exact .escape hlongest (misspelled_of_unescape hbody ((text_invalid_iff body).mp h))
  | openText => exact absurd hlexeme (Language.notMem_zero lexeme)
  | stray => exact absurd hlexeme (Language.notMem_zero lexeme)
  | _ => cases h

section

variable {c : Char} {cs : List Char}

theorem refused_of_invalid (h : meaning ⟨(cut c cs).1, c :: (cut c cs).2⟩ = .invalid) :
    Refused (c :: (cut c cs).2) (c :: cs) := by
  cases hpatterned : (cut c cs).1.isPatterned with
  | true => exact refused_of_isLongest (isLongest_iff.mpr ⟨rfl, hpatterned, rfl⟩) h
  | false =>
      rcases cut_of_unpatterned hpatterned with ⟨hc, hcut⟩ | ⟨rfl, hopen, hcut⟩
      · rw [hcut]
        exact .stray cs (stray_of_cut hc hcut)
      · rcases textTail_of_open hopen with ⟨hbody, hrest⟩
        have hcs := List.prefix_append_drop (textTail_starts cs)
        rw [hcut]
        conv => arg 2; rw [hcs]
        exact .openText hbody hrest

theorem invalid_of_refused {piece : List Char} (h : Refused piece (c :: cs)) :
    piece = c :: (cut c cs).2 ∧ meaning ⟨(cut c cs).1, c :: (cut c cs).2⟩ = .invalid := by
  generalize htext : c :: cs = text at h
  cases h with
  | stray rest hnone =>
      cases htext
      have hunpatterned : (cut c cs).1.isPatterned = false := by
        by_contra hpatterned
        exact hnone _ _ (cut_mem (Bool.not_eq_false _ ▸ hpatterned)) rfl
      rcases cut_of_unpatterned hunpatterned with ⟨_, hcut⟩ | ⟨rfl, _, _⟩
      · rw [hcut]
        exact ⟨rfl, rfl⟩
      · have hempty : ['"', '"'] ∈ Shape.text.language :=
          cons_mem_oneOf_mul rfl
            (Language.append_mem_mul (Language.nil_mem_kstar textUnit) ⟨'"', rfl, rfl⟩)
        exact absurd rfl (hnone .text _ hempty)
  | integer hlongest hdigits hsize =>
      cases htext
      rcases isLongest_iff.mp hlongest with ⟨rfl, _, rfl⟩
      exact ⟨rfl, (digits_invalid_iff hdigits).mpr hsize⟩
  | @escape body _ hlongest hbody =>
      cases htext
      rcases isLongest_iff.mp hlongest with ⟨hshape, _, hlexeme⟩
      rw [hshape, ← hlexeme]
      exact ⟨rfl, (text_invalid_iff body).mpr (unescape_of_misspelled hbody)⟩
  | @openText body rest hbody hrest =>
      rcases List.cons.inj htext with ⟨rfl, hcs⟩
      have htail := textTail_of_endsLine hbody hrest
      change textTail (body.append rest) = _ at htail
      rw [cut_of_quote, hcs, htail]
      exact ⟨rfl, rfl⟩

theorem not_refused_of_float {lexeme text : List Char} (h : IsLongest .float lexeme text)
    (piece : List Char) : ¬ Refused piece text := by
  intro hrefused
  cases text with
  | nil => exact ne_nil_of_mem_language h.matched (List.prefix_nil.mp h.starts)
  | cons c cs =>
      rcases invalid_of_refused hrefused with ⟨_, hinvalid⟩
      rcases isLongest_iff.mp h with ⟨hshape, _, hlexeme⟩
      rcases Numeral.exists_float?_of_mem h.matched with ⟨x, hx⟩
      have hfloat := (denotes_iff h.matched (.float x)).mp (.float hx)
      rw [hshape, ← hlexeme, hfloat] at hinvalid
      cases hinvalid

theorem read_of_not_refused {s : Shape} {lexeme rest : List Char}
    (hlongest : IsLongest s lexeme (lexeme ++ rest))
    (h : forall piece, ¬ Refused piece (lexeme ++ rest)) :
    IsSkippedShape s ∨ exists t, Denotes s lexeme t := by
  cases hmeaning : meaning ⟨s, lexeme⟩ with
  | skipped => exact Or.inl ((isSkippedShape_iff lexeme).mpr hmeaning)
  | token t => exact Or.inr ⟨t, (denotes_iff hlongest.matched t).mpr hmeaning⟩
  | invalid => exact absurd (refused_of_isLongest hlongest hmeaning) (h lexeme)

end

/-!
## The first refusal
-/

section

variable {e : SyntaxError}

/-- A refusal behind a lexeme is the one of the text with the lexeme. -/
theorem place_eq_error_iff {s : Shape} {lexeme rest : List Char}
    (hlongest : IsLongest s lexeme (lexeme ++ rest))
    (h : forall piece, ¬ Refused piece (lexeme ++ rest)) (before : List Char) :
    place (before.count '\n' + 1) (all (lexeme ++ rest)) = .error e ↔
      place ((before ++ lexeme).count '\n' + 1) (all rest) = .error e := by
  rcases read_of_not_refused hlongest h with hskipped | ⟨t, hdenotes⟩
  · rw [place_of_skipped hlongest hskipped]
  · rw [place_of_denotes hlongest hdenotes]
    cases place ((before ++ lexeme).count '\n' + 1) (all rest) <;> simp [Except.map]

theorem not_refused_nil (piece : List Char) : ¬ Refused piece [] := by
  intro h
  cases h with
  | integer hlongest _ _ =>
      exact ne_nil_of_mem_language hlongest.matched (List.prefix_nil.mp hlongest.starts)
  | escape hlongest _ =>
      exact ne_nil_of_mem_language hlongest.matched (List.prefix_nil.mp hlongest.starts)

theorem place_of_refused {piece rest : List Char} (h : Refused piece rest) (line : Nat) :
    place line (all rest) = .error (.invalidInput (String.ofList piece) line) := by
  cases rest with
  | nil => exact absurd h (not_refused_nil piece)
  | cons c cs =>
      rcases invalid_of_refused h with ⟨rfl, hinvalid⟩
      rw [all_cons, place_cons_of_invalid _ _ hinvalid]

theorem place_of_scans {source read rest : List Char} (h : Scans source read rest)
    (hrest : place (read.count '\n' + 1) (all rest) = .error e) :
    place 1 (all source) = .error e := by
  induction h with
  | start => exact hrest
  | next hscans hlongest hnone ih => exact ih ((place_eq_error_iff hlongest hnone _).mpr hrest)

theorem exists_of_scans {source read rest : List Char} (h : Scans source read rest)
    (herror : place (read.count '\n' + 1) (all rest) = .error e) :
    exists read rest piece, Scans source read rest ∧ Refused piece rest ∧
      e = .invalidInput (String.ofList piece) (read.count '\n' + 1) := by
  induction hlength : rest.length using Nat.strong_induction_on generalizing read rest with
  | _ n ih =>
      by_cases hrefused : exists piece, Refused piece rest
      · rcases hrefused with ⟨piece, hpiece⟩
        rw [place_of_refused hpiece] at herror
        cases herror
        exact ⟨read, rest, piece, h, hpiece, rfl⟩
      · have hnone := not_exists.mp hrefused
        cases rest with
        | nil => cases herror
        | cons c cs =>
            have hread : meaning ⟨(cut c cs).1, c :: (cut c cs).2⟩ ≠ .invalid :=
              fun hinvalid => hnone _ (refused_of_invalid hinvalid)
            have hpatterned := isPatterned_of_meaning hread
            have hlongest := isLongest_iff.mpr ⟨rfl, hpatterned, rfl⟩
            have hcs : c :: cs = c :: (cut c cs).2 ++ cs.drop (cut c cs).2.length :=
              congrArg (c :: ·) (List.prefix_append_drop (cut_starts c cs))
            generalize c :: (cut c cs).2 = lexeme at hcs hlongest
            generalize cs.drop (cut c cs).2.length = rest at hcs
            rw [hcs] at h herror hlength hnone hlongest
            have hpos := List.length_pos_of_ne_nil (ne_nil_of_mem_language hlongest.matched)
            have hshorter : rest.length < n := by
              rw [← hlength, List.length_append]
              omega
            exact ih _ hshorter (h.next hlongest hnone)
              ((place_eq_error_iff hlongest hnone read).mp herror) rfl

end

end Piece

open Lexer

/--
A source is refused iff a scan from the left comes to a piece that begins nothing, is too
large an integer, has an unknown escape or is not closed. The error names this piece and the
line that the line breaks before it count. A float is never such a piece: all float lexemes
are numerals.
-/
theorem tokenize_refuses (source : String) (e : SyntaxError) :
    (tokenize source = .error e ↔
      exists read rest piece, Scans source.toList read rest ∧ Refused piece rest ∧
        e = .invalidInput (String.ofList piece) (read.count '\n' + 1)) ∧
    (forall lexeme, lexeme ∈ Shape.float.language ->
      exists x, Numeral.float? (String.ofList lexeme) = some x) ∧
    (forall lexeme text, IsLongest .float lexeme text -> forall piece, ¬ Refused piece text) := by
  refine ⟨⟨?_, ?_⟩, fun _ => Numeral.exists_float?_of_mem, fun _ _ => Piece.not_refused_of_float⟩
  · exact Piece.exists_of_scans .start
  · intro h
    rcases h with ⟨read, rest, piece, hscans, hrefused, rfl⟩
    exact Piece.place_of_scans hscans (Piece.place_of_refused hrefused _)

/-- Below a float there is a text with an escape that is not known. -/
theorem tokenize_refuses_escape :
    tokenize "1.5\n\"\\q\"" = .error (.invalidInput "\"\\q\"" 2) ∧
      (exists read rest piece, Scans "1.5\n\"\\q\"".toList read rest ∧ Refused piece rest ∧
        SyntaxError.invalidInput "\"\\q\"" 2 =
          .invalidInput (String.ofList piece) (read.count '\n' + 1)) ∧
      ['1', '.', '5'] ∈ Shape.float.language ∧ exists x, Numeral.float? "1.5" = some x := by
  have herror : tokenize "1.5\n\"\\q\"" = .error (.invalidInput "\"\\q\"" 2) := rfl
  have hfraction : ['.', '5'] ∈ fraction :=
    cons_mem_oneOf_mul rfl (cons_mem_oneOf_mul rfl nofun)
  have hdigits : ['1'] ∈ someOf Char.isDigit := cons_mem_oneOf_mul rfl nofun
  have hnone : [] ∈ 1 + exponent := Or.inl rfl
  have hfloat : ['1', '.', '5'] ∈ Shape.float.language :=
    Or.inl (Language.append_mem_mul hdigits (Language.append_mem_mul hfraction hnone))
  have hrefuses := tokenize_refuses "1.5\n\"\\q\"" (.invalidInput "\"\\q\"" 2)
  exact ⟨herror, hrefuses.1.mp herror, hfloat, hrefuses.2.1 _ hfloat⟩

end Equate
