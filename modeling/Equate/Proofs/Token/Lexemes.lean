import Equate.Proofs.Token.LongestMatch

/-!
# Lexemes

A source is accepted with the tokens that its lexemes denote, and with no others. The
lexemes and the skipped pieces together are the source, each of them is the longest match at
its place, and the line of a token is counted by the line breaks before it.
-/

namespace Equate

namespace Keyword

theorem ofWord?_word (k : Keyword) : ofWord? k.word = some k := by
  cases k <;> rfl

theorem word_of_ofWord? {w : String} {k : Keyword} (h : ofWord? w = some k) : k.word = w := by
  have hfound := List.find?_some h
  exact beq_iff_eq.mp hfound

theorem ofWord?_eq_none_iff {w : String} : ofWord? w = none ↔ forall k : Keyword, k.word ≠ w := by
  constructor
  · rintro h k rfl
    rw [ofWord?_word] at h
    cases h
  · intro h
    cases hfound : ofWord? w with
    | none => rfl
    | some k => exact absurd (word_of_ofWord? hfound) (h k)

end Keyword

namespace Piece

open Lexer Computability

/-!
## Integers
-/

theorem natOfDigits_eq (radix : Nat) (digits : List Char) :
    natOfDigits radix digits = integerOf radix digits := by
  rw [natOfDigits, integerOf, Nat.ofDigits_eq_foldr, List.foldr_reverse, List.foldl_map]
  congr 1
  funext n c
  rw [Nat.mul_comm, Nat.add_comm]
  rfl

theorem integer?_eq_some_iff {radix : Nat} {digits : List Char} {t : Token} :
    integer? radix digits = some t ↔
      exists n : UInt64, t = .integer n ∧ integerOf radix digits = n.toNat := by
  rw [integer?, natOfDigits_eq]
  constructor
  · intro h
    split at h
    · rename_i hlt
      cases h
      exact ⟨_, rfl, (Nat.mod_eq_of_lt hlt).symm⟩
    · cases h
  · rintro ⟨n, rfl, hn⟩
    rw [hn, if_pos n.toNat_lt]
    simp

/-!
## Texts
-/

theorem unescape_plain {c : Char} (h : isPlain c = true) (cs : List Char) :
    unescape (c :: cs) = (unescape cs).map (c :: ·) := by
  have hquote : c ≠ '"' := by
    rintro rfl
    cases h
  have hescape : c ≠ '\\' := by
    rintro rfl
    cases h
  simp [unescape, hquote, hescape]

theorem unescape_of_escape {e c : Char} (h : Escape e c) (cs : List Char) :
    unescape ('\\' :: e :: cs) = (unescape cs).map (c :: ·) := by
  cases h <;> rfl

theorem unescape_of_unknown {e : Char} (h : forall c, ¬ Escape e c) (cs : List Char) :
    unescape ('\\' :: e :: cs) = none := by
  have hquote : e ≠ '"' := by
    rintro rfl
    exact h _ .quote
  have hbackslash : e ≠ '\\' := by
    rintro rfl
    exact h _ .backslash
  have hbreak : e ≠ 'n' := by
    rintro rfl
    exact h _ .newLine
  have htab : e ≠ 't' := by
    rintro rfl
    exact h _ .tab
  simp [unescape, hquote, hbackslash, hbreak, htab]

theorem unescape_of_spells {body text : List Char} (h : Spells body text) :
    unescape (body ++ ['"']) = some text := by
  induction h with
  | done => rfl
  | plain hc h ih => rw [List.cons_append, unescape_plain hc, ih, Option.map_some]
  | escape he h ih =>
      rw [List.cons_append, List.cons_append, unescape_of_escape he, ih, Option.map_some]

theorem spells_of_unescape {body text : List Char} (hbody : body ∈ textUnit∗)
    (h : unescape (body ++ ['"']) = some text) : Spells body text := by
  rcases Language.mem_kstar.mp hbody with ⟨units, rfl, hunits⟩
  clear hbody
  induction units generalizing text with
  | nil =>
      cases h
      exact .done
  | cons u units ih =>
      rcases List.forall_mem_cons.mp hunits with ⟨hu, htail⟩
      rw [List.flatten_cons, List.append_assoc] at h
      rcases hu with ⟨c, hc, rfl⟩ | hescape
      · rw [List.singleton_append, unescape_plain hc] at h
        rcases Option.map_eq_some_iff.mp h with ⟨rest, hrest, rfl⟩
        exact .plain hc (ih htail hrest)
      · rcases mem_oneOf_mul_iff.mp hescape with ⟨b, _, hb, ⟨e, _, rfl⟩, rfl⟩
        cases beq_iff_eq.mp hb
        by_cases hknown : exists c, Escape e c
        · rcases hknown with ⟨c, he⟩
          rw [List.cons_append, List.singleton_append, unescape_of_escape he] at h
          rcases Option.map_eq_some_iff.mp h with ⟨rest, hrest, rfl⟩
          exact .escape he (ih htail hrest)
        · rw [List.cons_append, List.singleton_append,
            unescape_of_unknown (not_exists.mp hknown)] at h
          cases h

/-!
## Meanings
-/

theorem ofWord_eq_iff {w : String} {t : Token} :
    ofWord w = t ↔
      (exists k : Keyword, k.word = w ∧ t = .keyword k) ∨
        (forall k : Keyword, k.word ≠ w) ∧ t = .name w := by
  unfold ofWord
  cases hfound : Keyword.ofWord? w with
  | none =>
      have hall := Keyword.ofWord?_eq_none_iff.mp hfound
      constructor
      · rintro rfl
        exact Or.inr ⟨hall, rfl⟩
      · rintro (⟨k, hk, _⟩ | ⟨_, rfl⟩)
        · exact absurd hk (hall k)
        · rfl
  | some k =>
      have hk := Keyword.word_of_ofWord? hfound
      constructor
      · rintro rfl
        exact Or.inl ⟨k, hk, rfl⟩
      · rintro (⟨l, hl, rfl⟩ | ⟨hall, _⟩)
        · rw [← hl, Keyword.ofWord?_word] at hfound
          cases hfound
          rfl
        · exact absurd hk (hall k)

theorem ofOption_integer?_iff {radix : Nat} {digits : List Char} {t : Token} :
    Meaning.ofOption (integer? radix digits) = .token t ↔
      exists n : UInt64, t = .integer n ∧ integerOf radix digits = n.toNat := by
  rw [ofOption_eq_token_iff, integer?_eq_some_iff]

theorem exists_of_mem_radixNumber {isLetter isDigit : Char -> Bool} {lexeme : List Char}
    (h : lexeme ∈ radixNumber isLetter isDigit) :
    exists zero letter digits, lexeme = zero :: letter :: digits := by
  rcases mem_oneOf_mul_iff.mp h with ⟨zero, tail, _, htail, rfl⟩
  rcases mem_oneOf_mul_iff.mp htail with ⟨letter, digits, _, _, rfl⟩
  exact ⟨zero, letter, digits, rfl⟩

theorem denotes_iff {s : Shape} {lexeme : List Char} (h : lexeme ∈ s.language) (t : Token) :
    Denotes s lexeme t ↔ meaning ⟨s, lexeme⟩ = .token t := by
  cases s with
  | blank => exact ⟨nofun, nofun⟩
  | comment => exact ⟨nofun, nofun⟩
  | newLine =>
      constructor
      · rintro ⟨⟩
        rfl
      · rintro ⟨⟩
        exact .newLine lexeme
  | mark m =>
      constructor
      · rintro ⟨⟩
        rfl
      · rintro ⟨⟩
        exact .mark m lexeme
  | word =>
      change _ ↔ Meaning.token (ofWord (String.ofList lexeme)) = .token t
      rw [Meaning.token.injEq, ofWord_eq_iff]
      constructor
      · intro hdenotes
        cases hdenotes with
        | keyword k => exact Or.inl ⟨k, String.ofList_toList.symm, rfl⟩
        | name hname =>
            refine Or.inr ⟨?_, rfl⟩
            intro k hk
            exact hname k (by rw [hk, String.toList_ofList])
      · rintro (⟨k, hk, rfl⟩ | ⟨hname, rfl⟩)
        · rw [← String.toList_ofList (l := lexeme), ← hk]
          exact .keyword k
        · refine .name ?_
          rintro k rfl
          exact hname k String.ofList_toList.symm
  | decimal =>
      rw [show meaning ⟨.decimal, lexeme⟩ = .ofOption (integer? 10 lexeme) from rfl,
        ofOption_integer?_iff]
      constructor
      · intro hdenotes
        cases hdenotes with
        | decimal hn => exact ⟨_, rfl, hn⟩
      · rintro ⟨n, rfl, hn⟩
        exact .decimal hn
  | hexadecimal =>
      rcases exists_of_mem_radixNumber h with ⟨zero, letter, digits, rfl⟩
      change _ ↔ Meaning.ofOption (integer? 16 digits) = .token t
      rw [ofOption_integer?_iff]
      constructor
      · intro hdenotes
        cases hdenotes with
        | hexadecimal hn => exact ⟨_, rfl, hn⟩
      · rintro ⟨n, rfl, hn⟩
        exact .hexadecimal hn
  | binary =>
      rcases exists_of_mem_radixNumber h with ⟨zero, letter, digits, rfl⟩
      change _ ↔ Meaning.ofOption (integer? 2 digits) = .token t
      rw [ofOption_integer?_iff]
      constructor
      · intro hdenotes
        cases hdenotes with
        | binary hn => exact ⟨_, rfl, hn⟩
      · rintro ⟨n, rfl, hn⟩
        exact .binary hn
  | float =>
      change _ ↔ Meaning.ofOption ((Numeral.float? (String.ofList lexeme)).map Token.float) = _
      rw [ofOption_eq_token_iff, Option.map_eq_some_iff]
      constructor
      · intro hdenotes
        cases hdenotes with
        | float hx => exact ⟨_, hx, rfl⟩
      · rintro ⟨x, hx, rfl⟩
        exact .float hx
  | text =>
      rcases exists_body_of_text h with ⟨body, hbody, rfl⟩
      change Denotes .text ('"' :: (body ++ ['"'])) t ↔
        Meaning.ofOption ((unescape (body ++ ['"'])).map _) = .token t
      rw [ofOption_eq_token_iff, Option.map_eq_some_iff]
      constructor
      · intro hdenotes
        generalize hlexeme : '"' :: (body ++ ['"']) = lexeme at hdenotes
        cases hdenotes with
        | @text found text hspells =>
            have hbody : body = found := List.append_cancel_right (List.cons.inj hlexeme).2
            rw [hbody]
            exact ⟨text, unescape_of_spells hspells, rfl⟩
      · rintro ⟨text, htext, rfl⟩
        exact .text (spells_of_unescape hbody htext)
  | openText => exact absurd h (Language.notMem_zero lexeme)
  | stray => exact absurd h (Language.notMem_zero lexeme)

theorem isSkippedShape_iff {s : Shape} (lexeme : List Char) :
    IsSkippedShape s ↔ meaning ⟨s, lexeme⟩ = .skipped := by
  have hoption : forall found, Meaning.ofOption found ≠ .skipped := by
    intro found
    cases found <;> exact Meaning.noConfusion
  cases s <;> simp [IsSkippedShape, meaning, hoption]

/-!
## Longest prefixes

The longest prefix that a pattern matches is the piece, so that a text is divided by the
patterns as it is cut.
-/

theorem ne_nil_of_mem_language {s : Shape} {lexeme : List Char} (h : lexeme ∈ s.language) :
    lexeme ≠ [] := by
  cases s with
  | newLine =>
      rcases h with ⟨c, _, rfl⟩
      exact List.cons_ne_nil c []
  | mark m =>
      cases Set.mem_singleton_iff.mp h
      rcases m.exists_spelling with ⟨c, tail, hspelling⟩
      rw [hspelling]
      exact List.cons_ne_nil c tail
  | float =>
      rcases h with h | h
      all_goals
        rcases Language.mem_mul.mp h with ⟨digits, hdigits, tail, _, rfl⟩
        exact List.append_ne_nil_of_left_ne_nil (someOf_ne_nil hdigits) tail
  | openText => exact absurd h (Language.notMem_zero lexeme)
  | stray => exact absurd h (Language.notMem_zero lexeme)
  | _ => exact oneOf_mul_ne_nil h

theorem isLongest_iff {s : Shape} {c : Char} {lexeme cs : List Char} :
    IsLongest s lexeme (c :: cs) ↔
      (cut c cs).1 = s ∧ s.isPatterned = true ∧ lexeme = c :: (cut c cs).2 := by
  have hstarts : c :: (cut c cs).2 <+: c :: cs :=
    List.cons_prefix_cons.mpr ⟨rfl, cut_starts c cs⟩
  constructor
  · intro h
    have hwithin := within_cut h.matched h.starts
    have hle : (c :: (cut c cs).2).length ≤ lexeme.length :=
      h.longest _ _ (cut_mem hwithin.patterned) hstarts
    have hshape := hwithin.shape hle
    have hpre := List.prefix_of_prefix_length_le hstarts h.starts hle
    have hlexeme := hpre.eq_of_length (Nat.le_antisymm hle hwithin.le)
    exact ⟨hshape.symm, hshape ▸ hwithin.patterned, hlexeme.symm⟩
  · rintro ⟨rfl, hpatterned, rfl⟩
    exact ⟨cut_mem hpatterned, hstarts, fun _ _ hq hstarts' => (within_cut hq hstarts').le⟩

section

variable {s : Shape} {lexeme rest : List Char} (h : IsLongest s lexeme (lexeme ++ rest))
include h

theorem all_of_isLongest : all (lexeme ++ rest) = ⟨s, lexeme⟩ :: all rest := by
  cases lexeme with
  | nil => exact absurd rfl (ne_nil_of_mem_language h.matched)
  | cons c tail =>
      rw [List.cons_append] at h ⊢
      rcases isLongest_iff.mp h with ⟨hshape, _, hlexeme⟩
      have htail : (cut c (tail ++ rest)).2 = tail := (List.cons.inj hlexeme).2.symm
      rw [all_cons, hshape, htail, List.drop_left]

/-- Of all lexemes only a line break has one within it. -/
theorem count_of_isLongest : lexeme.count '\n' = if isNewLine ⟨s, lexeme⟩ then 1 else 0 := by
  have hcount := countP_all (lexeme ++ rest)
  rw [all_of_isLongest h, List.countP_cons, countP_all, List.count_append, Nat.add_comm] at hcount
  exact (Nat.add_right_cancel hcount).symm

end

/-!
## Tokens of a text
-/

section

variable {s : Shape} {lexeme rest : List Char} (h : IsLongest s lexeme (lexeme ++ rest))
include h

theorem place_of_skipped (hskipped : IsSkippedShape s) (before : List Char) :
    place (before.count '\n' + 1) (all (lexeme ++ rest)) =
      place ((before ++ lexeme).count '\n' + 1) (all rest) := by
  have hmeaning := (isSkippedShape_iff lexeme).mp hskipped
  have hbreak := isNewLine_eq_false (p := ⟨s, lexeme⟩) (by rw [hmeaning]; nofun)
  rw [all_of_isLongest h, place_cons_of_skipped _ _ hmeaning, List.count_append,
    count_of_isLongest h, hbreak]
  rfl

theorem place_of_denotes {t : Token} (hdenotes : Denotes s lexeme t) (before : List Char) :
    place (before.count '\n' + 1) (all (lexeme ++ rest)) =
      (place ((before ++ lexeme).count '\n' + 1) (all rest)).map
        (⟨t, before.count '\n' + 1⟩ :: ·) := by
  have hmeaning := (denotes_iff h.matched t).mp hdenotes
  rw [all_of_isLongest h, place_cons_of_token _ _ hmeaning, List.count_append,
    count_of_isLongest h, Nat.add_right_comm]

end

theorem place_of_lexes {before cs : List Char} {ts : List PlacedToken} (h : Lexes before cs ts) :
    place (before.count '\n' + 1) (all cs) = .ok ts := by
  induction h with
  | done before => rfl
  | skip hlongest hskipped _ ih => rw [place_of_skipped hlongest hskipped, ih]
  | token hlongest hdenotes _ ih =>
      rw [place_of_denotes hlongest hdenotes, ih]
      rfl

theorem isPatterned_of_meaning {s : Shape} {lexeme : List Char}
    (h : meaning ⟨s, lexeme⟩ ≠ .invalid) : s.isPatterned = true := by
  cases s with
  | openText => exact absurd rfl h
  | stray => exact absurd rfl h
  | _ => rfl

/-- A text that is accepted goes on with a lexeme that is skipped or denotes a token. -/
theorem exists_of_place {line : Nat} {c : Char} {cs : List Char} {ts : List PlacedToken}
    (h : place line (all (c :: cs)) = .ok ts) :
    exists s lexeme rest, c :: cs = lexeme ++ rest ∧ IsLongest s lexeme (lexeme ++ rest) ∧
      (IsSkippedShape s ∨ exists t, Denotes s lexeme t) := by
  have hvalid : meaning ⟨(cut c cs).1, c :: (cut c cs).2⟩ ≠ .invalid := by
    intro hinvalid
    rw [all_cons, place_cons_of_invalid _ _ hinvalid] at h
    cases h
  have hpatterned := isPatterned_of_meaning hvalid
  have hlongest := isLongest_iff.mpr ⟨rfl, hpatterned, rfl⟩
  have hcs : c :: cs = c :: (cut c cs).2 ++ cs.drop (cut c cs).2.length :=
    congrArg (c :: ·) (List.prefix_append_drop (cut_starts c cs))
  refine ⟨_, _, _, hcs, hcs ▸ hlongest, ?_⟩
  cases hmeaning : meaning ⟨(cut c cs).1, c :: (cut c cs).2⟩ with
  | skipped => exact Or.inl ((isSkippedShape_iff _).mpr hmeaning)
  | token t => exact Or.inr ⟨t, (denotes_iff hlongest.matched t).mpr hmeaning⟩
  | invalid => exact absurd hmeaning hvalid

theorem lexes_of_place {before cs : List Char} {ts : List PlacedToken}
    (h : place (before.count '\n' + 1) (all cs) = .ok ts) : Lexes before cs ts := by
  -- The lexeme that is taken is not empty, so that less of the text is left.
  induction hlength : cs.length using Nat.strong_induction_on generalizing before cs ts with
  | _ n ih =>
      cases cs with
      | nil =>
          cases h
          exact .done before
      | cons c cs =>
          rcases exists_of_place h with ⟨s, lexeme, rest, hcs, hlongest, hread⟩
          have hpos := List.length_pos_of_ne_nil (ne_nil_of_mem_language hlongest.matched)
          have hshorter : rest.length < n := by
            rw [← hlength, hcs, List.length_append]
            omega
          rw [hcs] at h ⊢
          rcases hread with hskipped | ⟨t, hdenotes⟩
          · rw [place_of_skipped hlongest hskipped] at h
            exact .skip hlongest hskipped (ih _ hshorter h rfl)
          · rw [place_of_denotes hlongest hdenotes] at h
            cases hplaced : place ((before ++ lexeme).count '\n' + 1) (all rest) with
            | error e =>
                rw [hplaced] at h
                cases h
            | ok us =>
                rw [hplaced] at h
                cases h
                exact .token hlongest hdenotes (ih _ hshorter hplaced rfl)

end Piece

/--
A source is accepted with exactly the tokens of its lexemes: each lexeme and each skipped
piece is the longest prefix of what is left that any pattern matches, all of them together
are the source, and a token is on the line that the line breaks before it count.
-/
theorem tokenize_longestMatch (source : String) (ts : List PlacedToken) :
    tokenize source = .ok ts ↔ Lexer.Lexes [] source.toList ts := by
  constructor
  · intro h
    exact Piece.lexes_of_place h
  · exact Piece.place_of_lexes

end Equate
