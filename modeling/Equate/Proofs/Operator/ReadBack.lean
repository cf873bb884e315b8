import Equate.Operator.Binary
import Equate.Proofs.Decimal.ReadBack
import Equate.Proofs.Token.Boundaries

/-!
# Printed floats as operands and literals

The text of a finite float can be multiplied by one to get a float back, and without a minus sign
it can stand in a source as a literal. Both give the float as which the text is read.
-/

namespace Equate

/-!
## Literals
-/

namespace Lexer

open Computability Decimal

theorem oneOf_subset_someOf {p : Char -> Bool} {cs : List Char} (h : cs ∈ oneOf p) :
    cs ∈ someOf p := by
  rcases h with ⟨c, hc, rfl⟩
  exact cons_mem_oneOf_mul hc (fun _ => nofun)

theorem mem_of_mem_minus_mul {L : Language Char} {c : Char} {cs : List Char}
    (h : c :: cs ∈ minus * L) (hdigit : c.isDigit = true) : c :: cs ∈ L := by
  rcases h with ⟨sign, rfl | ⟨d, hd, rfl⟩, rest, hrest, htext⟩
  · rw [← htext]
    exact hrest
  · cases htext
    cases beq_iff_eq.mp hd
    cases hdigit

theorem mem_float_of_plain {cs : List Char} (h : cs ∈ someOf Char.isDigit * fraction) :
    cs ∈ Shape.float.language := by
  rcases h with ⟨digits, hdigits, point, hpoint, rfl⟩
  left
  refine Language.append_mem_mul hdigits ?_
  exact ⟨point, hpoint, [], Or.inl rfl, List.append_nil point⟩

theorem mem_float_of_scientific {cs : List Char} (h : cs ∈ oneOf Char.isDigit *
    (fraction * (oneOf (fun c => c == 'E') * (minus * someOf Char.isDigit)))) :
    cs ∈ Shape.float.language := by
  rcases h with ⟨digit, hdigit, _, ⟨point, hpoint, _, ⟨_, ⟨mark, hmark, rfl⟩, _,
    ⟨sign, hsign, digits, hdigits, rfl⟩, rfl⟩, rfl⟩, rfl⟩
  left
  refine Language.append_mem_mul (oneOf_subset_someOf hdigit) (Language.append_mem_mul hpoint ?_)
  right
  have hmark' : isExponentMark mark = true := by
    rw [beq_iff_eq.mp hmark]
    rfl
  have hsign' : sign ∈ 1 + oneOf isSign := by
    rcases hsign with hnone | ⟨c, hc, rfl⟩
    · exact Or.inl hnone
    · cases beq_iff_eq.mp hc
      exact Or.inr ⟨'-', rfl, rfl⟩
  exact Language.append_mem_mul ⟨mark, hmark', rfl⟩ (Language.append_mem_mul hsign' hdigits)

open Numeral in
theorem exists_digit_of_shows {w : Spelling} {d : Decimal}
    (h : Shows w .positive d) : exists c cs, w.text = c :: cs ∧ c.isDigit = true := by
  rcases h.fraction with ⟨_, _, hlaid⟩
  rcases List.exists_cons_of_ne_nil hlaid.whole_ne_nil with ⟨digit, rest, hwhole⟩
  have htext : w.text = digitChar digit :: (digitsText rest ++ (pointText w.fraction ++
      (exponentText w.exponent ++ w.after))) := by
    unfold Spelling.text
    rw [h.before, h.sign, hwhole]
    rfl
  exact ⟨_, _, htext, isDigit_digitChar digit⟩

theorem mem_float_of_positive {x : Float} (h : x.isFinite = true)
    (hsign : Binary64.sign? x.toModel.unpack = some .positive) :
    canonical.chars x ∈ Shape.float.language := by
  rcases exists_shows h with ⟨s, d, w, hx, htext, hw, hplain, hscientific⟩
  cases Option.some_inj.mp (hx.sign?_eq.symm.trans hsign)
  rcases exists_digit_of_shows hw with ⟨c, cs, hcons, hdigit⟩
  rw [← htext]
  rw [hcons] at hplain hscientific ⊢
  by_cases hrange : IsPlain x
  · exact mem_float_of_plain (mem_of_mem_minus_mul (hplain hrange) hdigit)
  · exact mem_float_of_scientific (mem_of_mem_minus_mul (hscientific hrange) hdigit)

end Lexer

/-!
## Operands
-/

open Binary64 (sign?)
open Decimal

/-- A text that is read as a float stays this float when it is multiplied by one. -/
theorem mul_text_one {s : String} {y : Float} (h : Numeral.float? s = some y)
    (hy : sign? y.toModel.unpack ≠ none) (arena : Option Arena) :
    (BinaryOp.arithmetic .mul).apply (.text s) (.unsigned 1) arena = (.ok (.float y), arena) := by
  have hone : (Number.unsigned 1).toFloat = 1.0 := by decide
  have hoperand : (Value.text s).operand (BinaryOp.arithmetic .mul).symbol = .ok (.float y) := by
    show Value.parseText s = .ok (.float y)
    unfold Value.parseText
    rw [h]
  have hproduct : Value.numeric (.arithmetic .mul) ArithmeticOp.mul.onNumbers (.text s)
      (.unsigned 1) = .ok (.float (y * (Number.unsigned 1).toFloat)) := by
    unfold Value.numeric Value.operands
    rw [hoperand]
    rfl
  rw [hone, Binary64.float_mul_one hy] at hproduct
  exact congrArg (·, arena) hproduct

/--
What the text of a float becomes when it is read. The float that is read is nearly the one that
was printed, and a product of the text with one is strictly equal to the printed one only if both
are the same. A text without a minus sign is one literal, which denotes the float that is read.
-/
structure ReadsBack (x y : Float) : Prop where
  read : Numeral.float? (Value.float x).toText = some y
  near : NearlySame x.toModel.unpack y.toModel.unpack
  product : forall arena : Option Arena,
    (BinaryOp.arithmetic .mul).apply (.text (Value.float x).toText) (.unsigned 1) arena =
      (.ok (.float y), arena)
  strict : forall arena : Option Arena,
    (BinaryOp.strict .equal).apply (.float y) (.float x) arena =
      (.ok (.ofBool (decide (y = x))), arena)
  literal : sign? x.toModel.unpack = some .positive ->
    tokenize (Value.float x).toText = .ok [⟨.float y, 1⟩]

theorem readsBack_of_nearlySame {x y : Float} (hfinite : x.isFinite = true)
    (hread : Numeral.float? (canonical.text x) = some y)
    (hnear : NearlySame x.toModel.unpack y.toModel.unpack) : ReadsBack x y := by
  rcases exists_shows hfinite with ⟨s, d, _, hx, _⟩
  have hsign : sign? x.toModel.unpack ≠ none := by
    rw [hx.sign?_eq]
    exact Option.some_ne_none s
  constructor
  · exact hread
  · exact hnear
  · exact mul_text_one hread (hnear.sign ▸ hsign)
  · intro arena
    have hsame := Binary64.same_eq_decide hnear.sign (hnear.sign ▸ hsign)
    show (Except.ok (Value.ofBool (Binary64.same y x)), arena) = _
    rw [hsame]
  · intro hpositive
    have hmem := Lexer.mem_float_of_positive hfinite hpositive
    exact Piece.tokenize_of_denotes hmem (.float hread)

/--
The text of a finite float is read as nearly this float. It is the same float for integers of 53
binary digits, and whenever the shortest decimal is one that is read exactly.
-/
theorem float_texts_readBack (x : Float) (h : x.isFinite = true) : exists y, ReadsBack x y ∧
    (forall z, Binary64.Denotes x.toModel.unpack z -> z.natAbs < 2 ^ 53 -> y = x) ∧
    forall s d, Shown x.toModel.unpack s d -> IsReadExactly d -> y = x := by
  rcases exists_readBack h with ⟨y, hread, hnear, hexact, hwhole⟩
  exact ⟨y, readsBack_of_nearlySame h hread hnear, hwhole, hexact⟩

/-- Three tenths are a lone digit, which is read as it was printed. -/
theorem float_texts_readBack_three_tenths : (0.3 : Float).isFinite = true ∧
    (BinaryOp.arithmetic .mul).apply (.text "0.3") (.unsigned 1) none = (.ok (.float 0.3), none) ∧
    (BinaryOp.strict .equal).apply (.float 0.3) (.float 0.3) none = (.ok (.ofBool true), none) ∧
    tokenize "0.3" = .ok [⟨.float 0.3, 1⟩] := by
  have hfinite : (0.3 : Float).isFinite = true := by decide
  have htext : (Value.float 0.3).toText = "0.3" := by decide +kernel
  have hunpack : (0.3 : Float).toModel.unpack =
      .finite .positive 5404319552844595 (-54) (by decide) := by rfl
  have hshown : Shown (0.3 : Float).toModel.unpack .positive (shortest 5404319552844595 (-54)) := by
    rw [hunpack]
    exact .finite .positive (-54) (by decide)
  have hexact : IsReadExactly (shortest 5404319552844595 (-54)) := by
    have hdecimal : shortest 5404319552844595 (-54) = ⟨3, -1⟩ := by decide +kernel
    rw [hdecimal]
    exact Or.inr ⟨by decide, by decide⟩
  rcases float_texts_readBack 0.3 hfinite with ⟨y, hy, _, hsame⟩
  cases hsame _ _ hshown hexact
  have hproduct := hy.product none
  have hliteral := hy.literal rfl
  rw [htext] at hproduct hliteral
  exact ⟨hfinite, hproduct, hy.strict none, hliteral⟩

/-- Twelve hundredths have two digits, and their terms add up to the next float. -/
theorem float_texts_differ_twelve_hundredths : (0.12 : Float).isFinite = true ∧
    exists y : Float, y ≠ 0.12 ∧ Numeral.float? (Value.float 0.12).toText = some y ∧
      (BinaryOp.arithmetic .mul).apply (.text (Value.float 0.12).toText) (.unsigned 1) none =
        (.ok (.float y), none) ∧
      (BinaryOp.strict .equal).apply (.float y) (.float 0.12) none = (.ok (.ofBool false), none) ∧
      tokenize (Value.float 0.12).toText = .ok [⟨.float y, 1⟩] := by
  have hfinite : (0.12 : Float).isFinite = true := by decide
  have hdifferent : (0.12000000000000001 : Float) ≠ 0.12 := by decide
  have hread : Numeral.float? (canonical.text 0.12) = some 0.12000000000000001 := by
    decide +kernel
  rcases exists_readBack hfinite with ⟨y, hy, hnear, _⟩
  have hback := readsBack_of_nearlySame hfinite hy hnear
  cases hread.symm.trans hy
  have hstrict := hback.strict none
  rw [decide_eq_false hdifferent] at hstrict
  exact ⟨hfinite, _, hdifferent, hread, hback.product none, hstrict, hback.literal rfl⟩

end Equate
