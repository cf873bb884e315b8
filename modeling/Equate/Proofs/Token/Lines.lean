import Equate.Proofs.Token.Extents

/-!
# Tokens line by line

A source that is put together from two at a line break is cut into the pieces of both, with
the break between them. The tokens of the second one are those that it has by itself, further
down, and so are its errors.
-/

namespace Equate

namespace Piece

open Lexer

/-!
## Pieces of two texts
-/

def isNewLine (p : Piece) : Bool :=
  p.shape == .newLine

theorem allAfter_zero_cons (c : Char) (cs : List Char) :
    allAfter 0 (c :: cs) =
      ⟨(cut c cs).1, c :: (cut c cs).2⟩ :: allAfter (cut c cs).2.length cs :=
  rfl

theorem all_cons (c : Char) (cs : List Char) :
    all (c :: cs) =
      ⟨(cut c cs).1, c :: (cut c cs).2⟩ :: all (cs.drop (cut c cs).2.length) := by
  rw [all, allAfter_zero_cons, allAfter_eq_drop]
  rfl

theorem allAfter_append {skip : Nat} {cs : List Char} (hskip : skip ≤ cs.length)
    (rest : List Char) :
    allAfter skip (cs ++ '\n' :: rest) = allAfter skip cs ++ ⟨.newLine, ['\n']⟩ :: all rest := by
  induction cs generalizing skip with
  | nil =>
      cases Nat.le_zero.mp hskip
      rfl
  | cons c cs ih =>
      cases skip with
      | zero =>
          have htail := (cut_starts c cs).length_le
          rw [List.cons_append, allAfter_zero_cons, allAfter_zero_cons, cut_append, ih htail]
          rfl
      | succ skip => exact ih (Nat.le_of_succ_le_succ hskip)

theorem all_append (cs rest : List Char) :
    all (cs ++ '\n' :: rest) = all cs ++ ⟨.newLine, ['\n']⟩ :: all rest :=
  allAfter_append (Nat.zero_le cs.length) rest

theorem countP_allAfter (skip : Nat) (cs : List Char) :
    (allAfter skip cs).countP isNewLine = (cs.drop skip).count '\n' := by
  induction cs generalizing skip with
  | nil => cases skip <;> rfl
  | cons c cs ih =>
      cases skip with
      | zero =>
          have hshape : isNewLine ⟨(cut c cs).1, c :: (cut c cs).2⟩ = (c == '\n') := by
            rw [isNewLine, Bool.eq_iff_iff, beq_iff_eq, beq_iff_eq]
            exact cut_shape_eq_iff c cs
          have htail : (cut c cs).2.count '\n' = 0 :=
            List.count_eq_zero.mpr (newLine_not_mem_cut c cs)
          have hcs := List.prefix_append_drop (cut_starts c cs)
          rw [allAfter_zero_cons, List.countP_cons, ih, hshape, List.drop_zero, List.count_cons]
          conv_rhs => rw [hcs, List.count_append, htail, Nat.zero_add]
      | succ skip => exact ih skip

theorem countP_all (cs : List Char) : (all cs).countP isNewLine = cs.count '\n' :=
  countP_allAfter 0 cs

end Piece

/-!
## Further down

Everything that knows its line can be moved down by a number of lines.
-/

def PlacedToken.shift (k : Nat) (t : PlacedToken) : PlacedToken :=
  ⟨t.token, t.line + k⟩

def SyntaxError.shift (k : Nat) : SyntaxError -> SyntaxError
  | .unexpectedToken description line => .unexpectedToken description (line + k)
  | .unexpectedEnd line => .unexpectedEnd (line + k)
  | .unclosedParen line => .unclosedParen (line + k)
  | .unclosedBracket line => .unclosedBracket (line + k)
  | .missingColon line => .missingColon (line + k)
  | .trailingToken description line => .trailingToken description (line + k)
  | .invalidInput piece line => .invalidInput piece (line + k)

namespace Piece

theorem ofWord_ne_newLine (w : String) : ofWord w ≠ .newLine := by
  unfold ofWord
  split <;> exact Token.noConfusion

theorem integer?_ne_newLine (radix : Nat) (digits : List Char) :
    integer? radix digits ≠ some .newLine := by
  unfold integer?
  dsimp only
  split <;> simp

theorem ofOption_eq_token_iff (found : Option Token) (t : Token) :
    Meaning.ofOption found = .token t ↔ found = some t := by
  cases found <;> simp [Meaning.ofOption]

theorem meaning_eq_newLine_iff (p : Piece) :
    p.meaning = .token .newLine ↔ p.isNewLine = true := by
  rcases p with ⟨shape, chars⟩
  cases shape <;>
    simp [meaning, isNewLine, ofOption_eq_token_iff, integer?_ne_newLine, ofWord_ne_newLine]

section

variable {p : Piece} (line : Nat) (ps : List Piece)

theorem place_cons_of_skipped (h : p.meaning = .skipped) :
    place line (p :: ps) = place line ps := by
  rw [place, h]

theorem place_cons_of_invalid (h : p.meaning = .invalid) :
    place line (p :: ps) = .error (.invalidInput (String.ofList p.chars) line) := by
  rw [place, h]

theorem place_cons_of_token {t : Token} (h : p.meaning = .token t) :
    place line (p :: ps) =
      (place (line + if p.isNewLine then 1 else 0) ps).map (⟨t, line⟩ :: ·) := by
  have hbreak := p.meaning_eq_newLine_iff
  rw [h, Meaning.token.injEq] at hbreak
  rw [place, h]
  by_cases ht : t = .newLine
  · simp [ht, hbreak.mp ht]
  · simp [ht, mt hbreak.mpr ht]

end

theorem isNewLine_eq_false {p : Piece} (h : p.meaning ≠ .token .newLine) :
    p.isNewLine = false :=
  Bool.eq_false_iff.mpr (mt p.meaning_eq_newLine_iff.mpr h)

theorem place_append (line : Nat) (ps qs : List Piece) :
    place line (ps ++ qs) = do
      let ts ← place line ps
      let us ← place (line + ps.countP isNewLine) qs
      return ts ++ us := by
  induction ps generalizing line with
  | nil => exact (bind_pure (place line qs)).symm
  | cons p ps ih =>
      rw [List.cons_append, List.countP_cons]
      cases hmeaning : p.meaning with
      | skipped =>
          have hbreak := isNewLine_eq_false (p := p) (by rw [hmeaning]; exact Meaning.noConfusion)
          rw [place_cons_of_skipped _ _ hmeaning, place_cons_of_skipped _ _ hmeaning, ih, hbreak]
          rfl
      | invalid =>
          rw [place_cons_of_invalid _ _ hmeaning, place_cons_of_invalid _ _ hmeaning]
          rfl
      | token t =>
          rw [place_cons_of_token _ _ hmeaning, place_cons_of_token _ _ hmeaning, ih,
            Nat.add_assoc, Nat.add_comm (ite _ _ _)]
          cases place (line + if p.isNewLine then 1 else 0) ps with
          | error e => rfl
          | ok ts =>
              cases place (line + (ps.countP isNewLine + if p.isNewLine then 1 else 0)) qs <;> rfl

theorem place_shift (line k : Nat) (ps : List Piece) :
    place (line + k) ps = do
      let ts ← (place line ps).mapError (SyntaxError.shift k)
      return ts.map (PlacedToken.shift k) := by
  induction ps generalizing line with
  | nil => rfl
  | cons p ps ih =>
      cases hmeaning : p.meaning with
      | skipped =>
          rw [place_cons_of_skipped _ _ hmeaning, place_cons_of_skipped _ _ hmeaning, ih]
      | invalid =>
          rw [place_cons_of_invalid _ _ hmeaning, place_cons_of_invalid _ _ hmeaning]
          rfl
      | token t =>
          rw [place_cons_of_token _ _ hmeaning, place_cons_of_token _ _ hmeaning,
            Nat.add_right_comm, ih]
          cases place (line + if p.isNewLine then 1 else 0) ps <;> rfl

theorem onLine_of_place {line : Nat} {ps : List Piece} {ts : List PlacedToken}
    (hps : forall p, p ∈ ps -> p.isNewLine = false) (h : place line ps = .ok ts) :
    forall t, t ∈ ts -> t.token ≠ .newLine ∧ t.line = line := by
  induction ps generalizing ts with
  | nil =>
      cases h
      exact nofun
  | cons p ps ih =>
      rcases List.forall_mem_cons.mp hps with ⟨hp, htail⟩
      cases hmeaning : p.meaning with
      | skipped => exact ih htail (place_cons_of_skipped line ps hmeaning ▸ h)
      | invalid =>
          rw [place_cons_of_invalid _ _ hmeaning] at h
          cases h
      | token t =>
          have ht : t ≠ .newLine := by
            rintro rfl
            rw [p.meaning_eq_newLine_iff.mp hmeaning] at hp
            cases hp
          rw [place_cons_of_token _ _ hmeaning, hp] at h
          cases hplaced : place line ps with
          | error e =>
              rw [show line + (if false = true then 1 else 0) = line from rfl, hplaced] at h
              cases h
          | ok us =>
              rw [show line + (if false = true then 1 else 0) = line from rfl, hplaced] at h
              cases h
              exact List.forall_mem_cons.mpr ⟨⟨ht, rfl⟩, ih htail hplaced⟩

end Piece

/-!
## Tokens of two sources
-/

theorem onLine_of_tokenize {source : String} (h : '\n' ∉ source.toList)
    {ts : List PlacedToken} (hts : tokenize source = .ok ts) :
    forall t, t ∈ ts -> t.token ≠ .newLine ∧ t.line = 1 := by
  refine Piece.onLine_of_place ?_ hts
  have hcount : (Piece.all source.toList).countP Piece.isNewLine = 0 := by
    rw [Piece.countP_all]
    exact List.count_eq_zero.mpr h
  intro p hp
  exact Bool.not_eq_true _ ▸ List.countP_eq_zero.mp hcount p hp

def lineCount (source : String) : Nat :=
  source.toList.count '\n' + 1

/--
Two sources with a line break between them have the tokens of the first one, a line break on
its last line, and the tokens of the second one further down.
-/
theorem tokenize_append_newLine (a b : String) :
    tokenize (a ++ "\n" ++ b) = do
      let ts ← tokenize a
      let us ← (tokenize b).mapError (SyntaxError.shift (lineCount a))
      return ts ++ ⟨.newLine, lineCount a⟩ :: us.map (PlacedToken.shift (lineCount a)) := by
  have hsource : (a ++ "\n" ++ b).toList = a.toList ++ '\n' :: b.toList := by
    simp
  have hbreak : Piece.meaning ⟨.newLine, ['\n']⟩ = .token .newLine := rfl
  have hline : 1 + a.toList.count '\n' = lineCount a := Nat.add_comm 1 _
  unfold tokenize
  rw [hsource, Piece.all_append, Piece.place_append, Piece.countP_all, hline,
    Piece.place_cons_of_token _ _ hbreak]
  have hrest := Piece.place_shift 1 (lineCount a) (Piece.all b.toList)
  rw [Nat.add_comm] at hrest
  cases Piece.place 1 (Piece.all a.toList) with
  | error e => rfl
  | ok ts =>
      change (Piece.place (lineCount a + 1) (Piece.all b.toList)).map _ >>= _ = _
      rw [hrest]
      cases Piece.place 1 (Piece.all b.toList) <;> rfl

end Equate
