import Equate.CommandLine.Origin
import Equate.Proofs.Token.Integers

/-!
# Origins and integer literals

An origin on the command line and an integer literal in a source are read by different
readers. Both accept the same markers, the same digits and the same integers. The reader of
origins also accepts a plus sign in front of the digits, which is a token of its own in a
source. Apart from that the two agree, as long as a text has no blanks and no comment, which
are skipped in a source but are part of an origin.
-/

namespace Equate

open Lexer

/-!
## Numerals of a radix
-/

namespace Radix

/-- What stands in front of the digits: nothing, or a zero and a letter. -/
inductive Marks : Radix -> List Char -> Prop where
  | decimal : Marks .decimal []
  | hexadecimal {letter : Char} : isHexLetter letter = true -> Marks .hexadecimal ['0', letter]
  | binary {letter : Char} : isBinaryLetter letter = true -> Marks .binary ['0', letter]

structure Writes (r : Radix) (digits : List Char) (n : UInt64) : Prop where
  ne_nil : digits ≠ []
  all_digits : forall c, c ∈ digits -> r.isDigit c = true
  value : integerOf r.base digits = n.toNat

theorem plus_not_mem_of_marks {r : Radix} {marker : List Char} (h : r.Marks marker) :
    '+' ∉ marker := by
  cases h with
  | decimal => exact nofun
  | hexadecimal hletter =>
      intro hmem
      rcases List.mem_pair.mp hmem with hplus | rfl
      · cases hplus
      · cases hletter
  | binary hletter =>
      intro hmem
      rcases List.mem_pair.mp hmem with hplus | rfl
      · cases hplus
      · cases hletter

theorem isDigit_plus (r : Radix) : r.isDigit '+' = false := by
  cases r <;> rfl

theorem Writes.plus_not_mem {r : Radix} {digits : List Char} {n : UInt64}
    (h : r.Writes digits n) : '+' ∉ digits := by
  intro hmem
  have hdigit := h.all_digits '+' hmem
  rw [r.isDigit_plus] at hdigit
  cases hdigit

theorem Writes.mem_someOf {r : Radix} {digits : List Char} {n : UInt64}
    (h : r.Writes digits n) : digits ∈ someOf r.isDigit :=
  mem_someOf_iff.mpr ⟨h.ne_nil, h.all_digits⟩

theorem denotes_integer_iff {lexeme : List Char} {n : UInt64} :
    (exists s : Shape, lexeme ∈ s.language ∧ Denotes s lexeme (.integer n)) ↔
      exists (r : Radix) (marker digits : List Char),
        lexeme = marker ++ digits ∧ r.Marks marker ∧ r.Writes digits n := by
  constructor
  · rintro ⟨s, hmem, hdenotes⟩
    cases hdenotes with
    | decimal hn =>
        rcases mem_someOf_iff.mp hmem with ⟨hne, hall⟩
        exact ⟨.decimal, [], lexeme, rfl, .decimal, hne, hall, hn⟩
    | hexadecimal hn =>
        rcases mem_oneOf_mul_iff.mp hmem with ⟨zero, tail, hzero, htail, htext⟩
        rcases mem_oneOf_mul_iff.mp htail with ⟨letter, digits, hletter, hdigits, rfl⟩
        rcases mem_someOf_iff.mp hdigits with ⟨hne, hall⟩
        cases htext
        cases beq_iff_eq.mp hzero
        exact ⟨.hexadecimal, _, _, rfl, .hexadecimal hletter, hne, hall, hn⟩
    | binary hn =>
        rcases mem_oneOf_mul_iff.mp hmem with ⟨zero, tail, hzero, htail, htext⟩
        rcases mem_oneOf_mul_iff.mp htail with ⟨letter, digits, hletter, hdigits, rfl⟩
        rcases mem_someOf_iff.mp hdigits with ⟨hne, hall⟩
        cases htext
        cases beq_iff_eq.mp hzero
        exact ⟨.binary, _, _, rfl, .binary hletter, hne, hall, hn⟩
  · rintro ⟨r, marker, digits, rfl, hmarker, hdigits⟩
    cases hmarker with
    | decimal => exact ⟨.decimal, hdigits.mem_someOf, .decimal hdigits.value⟩
    | hexadecimal hletter =>
        exact ⟨.hexadecimal, cons_mem_oneOf_mul rfl (cons_mem_oneOf_mul hletter hdigits.mem_someOf),
          .hexadecimal hdigits.value⟩
    | binary hletter =>
        exact ⟨.binary, cons_mem_oneOf_mul rfl (cons_mem_oneOf_mul hletter hdigits.mem_someOf),
          .binary hdigits.value⟩

end Radix

/-!
## Sources of one token
-/

namespace Piece

/-- A text in which the lexer skips nothing. -/
def Unskipped (cs : List Char) : Prop :=
  forall c, c ∈ cs -> Text.isBlank c = false ∧ c ≠ ';'

theorem isBlank_of_isSkipped {c : Char} (h : isSkipped c = true) : Text.isBlank c = true := by
  simp only [isSkipped, Bool.or_eq_true, beq_iff_eq] at h
  rcases h with ((rfl | rfl) | rfl) | rfl <;> decide

theorem not_unskipped {s : Shape} {lexeme : List Char} (hs : IsSkippedShape s)
    (hmem : lexeme ∈ s.language) (rest : List Char) : ¬ Unskipped (lexeme ++ rest) := by
  intro h
  rcases hs with rfl | rfl
  · rcases mem_oneOf_mul_iff.mp hmem with ⟨c, tail, hc, _, rfl⟩
    have hblank := (h c List.mem_cons_self).1
    rw [isBlank_of_isSkipped hc] at hblank
    cases hblank
  · rcases mem_oneOf_mul_iff.mp hmem with ⟨c, tail, hc, _, rfl⟩
    exact (h c List.mem_cons_self).2 (beq_iff_eq.mp hc)

theorem eq_nil_of_lexes {before cs : List Char} (h : Lexes before cs []) (hcs : Unskipped cs) :
    cs = [] := by
  cases h with
  | done => rfl
  | skip hlongest hskipped _ => exact absurd hcs (not_unskipped hskipped hlongest.matched _)

theorem denotes_of_lexes {before cs : List Char} {ts : List PlacedToken} {t : Token}
    (h : Lexes before cs ts) (hcs : Unskipped cs) (ht : ts.map PlacedToken.token = [t]) :
    exists s : Shape, cs ∈ s.language ∧ Denotes s cs t := by
  cases h with
  | done => cases ht
  | skip hlongest hskipped _ => exact absurd hcs (not_unskipped hskipped hlongest.matched _)
  | @token _ lexeme rest ts s found hlongest hdenotes hrest =>
      rcases List.map_eq_cons_iff.mp ht with ⟨_, _, hcons, rfl, hnil⟩
      cases hcons
      cases List.map_eq_nil_iff.mp hnil
      have hempty := eq_nil_of_lexes hrest fun c hc => hcs c (List.mem_append_right lexeme hc)
      rw [hempty, List.append_nil]
      exact ⟨s, hlongest.matched, hdenotes⟩

end Piece

def tokensOf (source : String) : Except SyntaxError (List Token) :=
  (tokenize source).map fun ts => ts.map PlacedToken.token

theorem tokensOf_eq_integer_iff {s : String} (h : Piece.Unskipped s.toList) (n : UInt64) :
    tokensOf s = .ok [.integer n] ↔
      exists (r : Radix) (marker digits : List Char),
        s.toList = marker ++ digits ∧ r.Marks marker ∧ r.Writes digits n := by
  rw [← Radix.denotes_integer_iff]
  constructor
  · intro htokens
    unfold tokensOf at htokens
    cases hplaced : tokenize s with
    | error e =>
        rw [hplaced] at htokens
        cases htokens
    | ok ts =>
        rw [hplaced] at htokens
        have hlexes : Lexes [] s.toList ts := Piece.lexes_of_place hplaced
        exact Piece.denotes_of_lexes hlexes h (Except.ok.inj htokens)
  · rintro ⟨shape, hmem, hdenotes⟩
    have hplaced := Piece.tokenize_of_denotes hmem hdenotes
    rw [String.ofList_toList] at hplaced
    rw [tokensOf, hplaced]
    rfl

/-!
## Digits of an origin
-/

namespace Origin

theorem toNat_of_isHexDigit {c : Char} (h : isHexDigit c = true) :
    c.isDigit = true ∨ 97 ≤ c.toNat ∧ c.toNat ≤ 102 ∨ 65 ≤ c.toNat ∧ c.toNat ≤ 70 := by
  simp only [isHexDigit, Bool.or_eq_true, Bool.and_eq_true, decide_eq_true_eq, Char.le_def,
    UInt32.le_iff_toNat_le, or_assoc] at h
  exact h

theorem digitValue_eq (c : Char) : Piece.digitValue c =
    if c.isDigit = true then c.toNat - 48
    else if 97 ≤ c.toNat then c.toNat - 97 + 10 else c.toNat - 65 + 10 := by
  have hletter : 'a' ≤ c ↔ 97 ≤ c.toNat := UInt32.le_iff_toNat_le
  simp only [Piece.digitValue, hletter]
  rfl

/-- A hexadecimal digit is one of the radix if its value is less than the radix. -/
theorem isDigit_iff (r : Radix) (c : Char) :
    r.isDigit c = true ↔ isHexDigit c = true ∧ Piece.digitValue c < r.base := by
  have hbounds : c.isDigit = true -> 48 ≤ c.toNat ∧ c.toNat ≤ 57 := toNat_of_isDigit
  rw [digitValue_eq]
  cases r with
  | decimal =>
      change c.isDigit = true ↔ _ ∧ _ < 10
      constructor
      · intro h
        have hrange := hbounds h
        rw [if_pos h]
        exact ⟨by simp [isHexDigit, h], by omega⟩
      · rintro ⟨_, hten⟩
        by_contra hdigit
        rw [if_neg hdigit] at hten
        split at hten <;> omega
  | hexadecimal =>
      change isHexDigit c = true ↔ _ ∧ _ < 16
      constructor
      · intro h
        refine ⟨h, ?_⟩
        have hletter := toNat_of_isHexDigit h
        split
        · rename_i hdigit
          have hrange := hbounds hdigit
          omega
        · rename_i hdigit
          rw [or_iff_right hdigit] at hletter
          split <;> omega
      · exact fun h => h.1
  | binary =>
      change isBinaryDigit c = true ↔ _ ∧ _ < 2
      constructor
      · intro h
        rcases Bool.or_eq_true_iff.mp h with h | h <;> cases beq_iff_eq.mp h <;> decide
      · rintro ⟨_, htwo⟩
        split at htwo
        · rename_i hdigit
          have hrange := hbounds hdigit
          have hvalue : c.toNat = 48 ∨ c.toNat = 49 := by
            omega
          simp only [isBinaryDigit, Bool.or_eq_true, beq_iff_eq]
          exact hvalue.imp (fun h => Char.toNat_inj.mp h) fun h => Char.toNat_inj.mp h
        · split at htwo <;> omega

theorem digit?_eq_some_iff (r : Radix) {c : Char} {d : Nat} :
    digit? r.base c = some d ↔ r.isDigit c = true ∧ d = Piece.digitValue c := by
  rw [isDigit_iff]
  unfold digit?
  split
  · rename_i h
    rw [Bool.and_eq_true, decide_eq_true_eq] at h
    constructor
    · intro hd
      exact ⟨h, (Option.some.inj hd).symm⟩
    · rintro ⟨_, rfl⟩
      rfl
  · rename_i h
    rw [Bool.and_eq_true, decide_eq_true_eq] at h
    constructor
    · intro hd
      cases hd
    · rintro ⟨hdigit, _⟩
      exact absurd hdigit h

theorem le_foldl (r : Radix) (digits : List Char) (n : Nat) :
    n ≤ digits.foldl (fun n c => n * r.base + Piece.digitValue c) n := by
  induction digits generalizing n with
  | nil => exact Nat.le_refl n
  | cons c digits ih =>
      have hbase := r.one_lt_base
      have hstep : n ≤ n * r.base + Piece.digitValue c :=
        Nat.le_add_right_of_le (Nat.le_mul_of_pos_right n (by omega))
      exact Nat.le_trans hstep (ih _)

theorem accumulate_eq_ok_iff (r : Radix) (digits : List Char) {n m : Nat}
    (hn : n < UInt64.size) :
    accumulate r.base n digits = .ok m ↔
      (forall c, c ∈ digits -> r.isDigit c = true) ∧ m < UInt64.size ∧
        digits.foldl (fun n c => n * r.base + Piece.digitValue c) n = m := by
  induction digits generalizing n with
  | nil =>
      constructor
      · rintro ⟨⟩
        exact ⟨nofun, hn, rfl⟩
      · rintro ⟨_, _, rfl⟩
        rfl
  | cons c digits ih =>
      rw [List.forall_mem_cons, List.foldl_cons]
      unfold accumulate
      cases hd : digit? r.base c with
      | none =>
          constructor
          · intro h
            cases h
          · rintro ⟨⟨hc, _⟩, _⟩
            rw [(digit?_eq_some_iff r).mpr ⟨hc, rfl⟩] at hd
            cases hd
      | some d =>
          rcases (digit?_eq_some_iff r).mp hd with ⟨hc, rfl⟩
          dsimp only
          split
          · rename_i hlt
            rw [ih hlt, and_iff_right hc]
          · rename_i hge
            constructor
            · intro h
              cases h
            · rintro ⟨_, hm, rfl⟩
              -- The integer does not shrink when more digits are read.
              exact absurd (Nat.lt_of_le_of_lt (le_foldl r digits _) hm) hge

theorem accumulate_eq_integerOf (r : Radix) (digits : List Char) {m : Nat} :
    accumulate r.base 0 digits = .ok m ↔
      (forall c, c ∈ digits -> r.isDigit c = true) ∧ m < UInt64.size ∧
        integerOf r.base digits = m := by
  rw [accumulate_eq_ok_iff r digits (by decide), ← Piece.natOfDigits_eq]
  rfl

theorem map_accumulate_iff {r : Radix} {digits : List Char} (hne : digits ≠ []) {n : UInt64} :
    (accumulate r.base 0 digits).map Nat.toUInt64 = .ok n ↔ r.Writes digits n := by
  constructor
  · intro h
    cases hread : accumulate r.base 0 digits with
    | error fault =>
        rw [hread] at h
        cases h
    | ok m =>
        rw [hread] at h
        cases h
        rcases (accumulate_eq_integerOf r digits).mp hread with ⟨hall, hm, hvalue⟩
        exact ⟨hne, hall, hvalue.trans (Nat.mod_eq_of_lt hm).symm⟩
  · intro h
    rw [(accumulate_eq_integerOf r digits).mpr ⟨h.all_digits, n.toNat_lt, h.value⟩]
    exact congrArg Except.ok UInt64.ofNat_toNat

/-!
## Whole origins
-/

def IsSign (sign : List Char) : Prop :=
  sign = [] ∨ sign = ['+']

theorem ofDigits_of_sign {r : Radix} {sign digits : List Char} {n : UInt64}
    (hsign : IsSign sign) (h : r.Writes digits n) :
    ofDigits r.base (sign ++ digits) = accumulate r.base 0 digits := by
  rcases hsign with rfl | rfl
  · rw [List.nil_append]
    have hplus := h.plus_not_mem
    unfold ofDigits
    split
    · exact absurd rfl h.ne_nil
    · exact absurd List.mem_cons_self hplus
    · exact absurd List.mem_cons_self hplus
    · rfl
  · rw [List.singleton_append]
    unfold ofDigits
    split
    · rename_i hnil
      cases hnil
    · rename_i hlone
      cases hlone
      exact absurd rfl h.ne_nil
    · rename_i hcons
      cases hcons
      rfl
    · rename_i hother
      exact absurd rfl (hother digits)

theorem ofDigits_iff {r : Radix} {cs : List Char} {n : UInt64} :
    (ofDigits r.base cs).map Nat.toUInt64 = .ok n ↔
      exists sign digits, cs = sign ++ digits ∧ IsSign sign ∧ r.Writes digits n := by
  constructor
  · intro h
    unfold ofDigits at h
    split at h
    · cases h
    · cases h
    · rename_i digits hsome
      have hne : digits ≠ [] := by
        rintro rfl
        exact hsome rfl
      exact ⟨['+'], digits, rfl, Or.inr rfl, (map_accumulate_iff hne).mp h⟩
    · rename_i digits hsome _ _
      exact ⟨[], cs, rfl, Or.inl rfl, (map_accumulate_iff hsome).mp h⟩
  · rintro ⟨sign, digits, rfl, hsign, h⟩
    rw [ofDigits_of_sign hsign h]
    exact (map_accumulate_iff h.ne_nil).mpr h

theorem exists_splitRadix (cs : List Char) : exists (r : Radix) (marker rest : List Char),
    cs = marker ++ rest ∧ r.Marks marker ∧ splitRadix cs = (r.base, rest) := by
  unfold splitRadix
  split
  · exact ⟨.hexadecimal, _, _, rfl, .hexadecimal rfl, rfl⟩
  · exact ⟨.hexadecimal, _, _, rfl, .hexadecimal rfl, rfl⟩
  · exact ⟨.binary, _, _, rfl, .binary rfl, rfl⟩
  · exact ⟨.binary, _, _, rfl, .binary rfl, rfl⟩
  · exact ⟨.decimal, [], cs, rfl, .decimal, rfl⟩

/-- No digit of a decimal is taken for the letter of a marker. -/
theorem splitRadix_decimal {sign digits : List Char} (hsign : IsSign sign)
    (hdigits : forall c, c ∈ digits -> c.isDigit = true) :
    splitRadix (sign ++ digits) = (10, sign ++ digits) := by
  have hletter (zero letter : Char) (rest : List Char) (hzero : zero ≠ '+')
      (hbad : letter.isDigit = false) : sign ++ digits ≠ zero :: letter :: rest := by
    intro heq
    rcases hsign with rfl | rfl
    · rw [List.nil_append] at heq
      have hdigit := hdigits letter (by simp [heq])
      rw [hbad] at hdigit
      cases hdigit
    · exact hzero (List.cons.inj heq).1.symm
  unfold splitRadix
  split
  · rename_i heq
    exact absurd heq (hletter _ _ _ (by decide) rfl)
  · rename_i heq
    exact absurd heq (hletter _ _ _ (by decide) rfl)
  · rename_i heq
    exact absurd heq (hletter _ _ _ (by decide) rfl)
  · rename_i heq
    exact absurd heq (hletter _ _ _ (by decide) rfl)
  · rfl

theorem splitRadix_of_marks {r : Radix} {marker sign digits : List Char} {n : UInt64}
    (hmarker : r.Marks marker) (hsign : IsSign sign) (h : r.Writes digits n) :
    splitRadix (marker ++ (sign ++ digits)) = (r.base, sign ++ digits) := by
  cases hmarker with
  | decimal =>
      show splitRadix (sign ++ digits) = (10, sign ++ digits)
      exact splitRadix_decimal hsign h.all_digits
  | hexadecimal hletter =>
      rcases Bool.or_eq_true_iff.mp hletter with hletter | hletter
      · cases beq_iff_eq.mp hletter
        rfl
      · cases beq_iff_eq.mp hletter
        rfl
  | binary hletter =>
      rcases Bool.or_eq_true_iff.mp hletter with hletter | hletter
      · cases beq_iff_eq.mp hletter
        rfl
      · cases beq_iff_eq.mp hletter
        rfl

theorem ofText_eq_ok_iff (s : String) (n : UInt64) :
    ofText s = .ok n ↔ exists (r : Radix) (marker sign digits : List Char),
      s.toList = marker ++ (sign ++ digits) ∧ r.Marks marker ∧ IsSign sign ∧ r.Writes digits n := by
  unfold ofText
  constructor
  · intro h
    rcases exists_splitRadix s.toList with ⟨r, marker, rest, htext, hmarker, hsplit⟩
    rw [hsplit] at h
    rcases ofDigits_iff.mp h with ⟨sign, digits, rfl, hsign, hdigits⟩
    exact ⟨r, marker, sign, digits, htext, hmarker, hsign, hdigits⟩
  · rintro ⟨r, marker, sign, digits, htext, hmarker, hsign, hdigits⟩
    rw [htext, splitRadix_of_marks hmarker hsign hdigits]
    exact ofDigits_iff.mpr ⟨sign, digits, rfl, hsign, hdigits⟩

end Origin

/--
The reader of origins accepts the numerals of the three radixes that fit into a word, with a
plus sign or without one in front of their digits, and nothing else. Without a plus sign they
are the texts of which a source makes one integer, and it is the same integer.
-/
theorem origins_agree :
    (forall (s : String) (n : UInt64), Piece.Unskipped s.toList ->
        (tokensOf s = .ok [.integer n] ↔ Origin.ofText s = .ok n ∧ '+' ∉ s.toList)) ∧
      forall (s : String) (n : UInt64),
        Origin.ofText s = .ok n ↔ exists (r : Radix) (marker sign digits : List Char),
          s.toList = marker ++ (sign ++ digits) ∧ r.Marks marker ∧ Origin.IsSign sign ∧
            r.Writes digits n := by
  refine ⟨?_, Origin.ofText_eq_ok_iff⟩
  intro s n hs
  rw [tokensOf_eq_integer_iff hs, Origin.ofText_eq_ok_iff]
  constructor
  · rintro ⟨r, marker, digits, htext, hmarker, hdigits⟩
    refine ⟨⟨r, marker, [], digits, htext, hmarker, Or.inl rfl, hdigits⟩, ?_⟩
    rw [htext, List.mem_append, not_or]
    exact ⟨Radix.plus_not_mem_of_marks hmarker, hdigits.plus_not_mem⟩
  · rintro ⟨⟨r, marker, sign, digits, htext, hmarker, hsign | hsign, hdigits⟩, hplus⟩
    · rw [hsign] at htext
      exact ⟨r, marker, digits, htext, hmarker, hdigits⟩
    · rw [htext, hsign] at hplus
      simp at hplus

/-- Capitals and small letters are alike, and a plus sign behind the marker is accepted too. -/
theorem origins_agree_hexadecimal :
    Piece.Unskipped "0X1f".toList ∧ tokensOf "0X1f" = .ok [.integer 31] ∧
      Origin.ofText "0x+1F" = .ok 31 := by
  have hread : Origin.ofText "0X1f" = .ok 31 := by rfl
  have hunskipped : Piece.Unskipped "0X1f".toList := by
    simp [Piece.Unskipped, Text.isBlank]
  refine ⟨hunskipped, (origins_agree.1 "0X1f" 31 hunskipped).mpr ⟨hread, by decide⟩, ?_⟩
  exact (origins_agree.2 "0x+1F" 31).mpr
    ⟨.hexadecimal, ['0', 'x'], ['+'], ['1', 'F'], by decide, .hexadecimal rfl, Or.inr rfl,
      by decide, by simp [Radix.isDigit, Lexer.isHexDigit], by decide⟩

/-- An origin with a plus sign is no integer literal. -/
theorem origin_plus_no_literal :
    Piece.Unskipped "+5".toList ∧
      ¬ (Origin.ofText "+5" = .ok 5 ↔ tokensOf "+5" = .ok [.integer 5]) := by
  have hread : Origin.ofText "+5" = .ok 5 := by rfl
  have htokens : tokensOf "+5" = .ok [.mark .plus, .integer 5] := by rfl
  refine ⟨by simp [Piece.Unskipped, Text.isBlank], ?_⟩
  rw [hread, htokens]
  intro h
  cases h.mp rfl

end Equate
