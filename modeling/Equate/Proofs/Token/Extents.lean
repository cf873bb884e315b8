import Mathlib.Data.List.Infix
import Mathlib.Data.List.TakeWhile
import Equate.Token.Lexer

/-!
# The extent of pieces

A piece is cut from the rest of its line alone. What stands behind the next line break is
never looked at, not even to find the longest piece or to see that a text literal is not
closed. Only a line break itself is cut as one.
-/

namespace Equate
namespace Lexer

/-!
## The rest of a line
-/

def restOfLine : List Char -> List Char
  | [] => []
  | c :: cs => if c = '\n' then [] else c :: restOfLine cs

theorem restOfLine_newLine (cs : List Char) : restOfLine ('\n' :: cs) = [] :=
  rfl

theorem restOfLine_cons {c : Char} (hc : c ≠ '\n') (cs : List Char) :
    restOfLine (c :: cs) = c :: restOfLine cs :=
  if_neg hc

theorem newLine_not_mem_restOfLine (cs : List Char) : '\n' ∉ restOfLine cs := by
  induction cs with
  | nil => exact List.not_mem_nil
  | cons c cs ih =>
      by_cases hc : c = '\n'
      · rw [hc, restOfLine_newLine]
        exact List.not_mem_nil
      · rw [restOfLine_cons hc]
        exact List.not_mem_cons_of_ne_of_not_mem (Ne.symm hc) ih

theorem restOfLine_append (cs rest : List Char) :
    restOfLine (cs ++ '\n' :: rest) = restOfLine cs := by
  induction cs with
  | nil => rfl
  | cons c cs ih =>
      by_cases hc : c = '\n'
      · rw [hc]
        rfl
      · rw [List.cons_append, restOfLine_cons hc, restOfLine_cons hc, ih]

theorem restOfLine_drop {tail cs : List Char} (h : tail <+: restOfLine cs) :
    restOfLine (cs.drop tail.length) = (restOfLine cs).drop tail.length := by
  induction tail generalizing cs with
  | nil => rfl
  | cons t tail ih =>
      cases cs with
      | nil => rfl
      | cons c cs =>
          by_cases hc : c = '\n'
          · rw [hc, restOfLine_newLine] at h
            exact absurd (List.prefix_nil.mp h) (List.cons_ne_nil t tail)
          · rw [restOfLine_cons hc] at h ⊢
            exact ih (List.cons_prefix_cons.mp h).2

/-!
## Extents

An extent is the part at the start of a text that a rule of the lexer collects. All rules
find theirs in the rest of the line.
-/

structure IsExtent (extent : List Char -> List Char) : Prop where
  starts : forall cs, extent cs <+: cs
  onLine : forall cs, extent (restOfLine cs) = extent cs

section

variable {extent next : List Char -> List Char}

theorem IsExtent.starts_line (h : IsExtent extent) (cs : List Char) :
    extent cs <+: restOfLine cs := by
  rw [← h.onLine]
  exact h.starts (restOfLine cs)

theorem IsExtent.drop_line (h : IsExtent extent) (cs : List Char) :
    (restOfLine cs).drop (extent cs).length = restOfLine (cs.drop (extent cs).length) :=
  (restOfLine_drop (h.starts_line cs)).symm

theorem IsExtent.followedBy (h : IsExtent extent) (hnext : IsExtent next) :
    IsExtent fun cs => extent cs ++ next (cs.drop (extent cs).length) where
  starts cs := by
    have hcs := List.prefix_append_drop (h.starts cs)
    have hrest := (List.prefix_append_right_inj (extent cs)).mpr
      (hnext.starts (cs.drop (extent cs).length))
    rw [← hcs] at hrest
    exact hrest
  onLine cs := by
    simp only [h.onLine, h.drop_line, hnext.onLine]

end

/-- A rule that looks at the first character by itself, and ends at a line break. -/
theorem isExtent_of_cons {extent : List Char -> List Char} (hnil : extent [] = [])
    (hbreak : forall cs, extent ('\n' :: cs) = [])
    (hstarts : forall c cs, extent (c :: cs) <+: c :: cs)
    (hline : forall c cs, c ≠ '\n' -> extent (c :: restOfLine cs) = extent (c :: cs)) :
    IsExtent extent where
  starts cs := by
    cases cs with
    | nil => rw [hnil]
    | cons c cs => exact hstarts c cs
  onLine cs := by
    cases cs with
    | nil => rfl
    | cons c cs =>
        by_cases hc : c = '\n'
        · rw [hc, hbreak, restOfLine_newLine, hnil]
        · rw [restOfLine_cons hc, hline c cs hc]

theorem isExtent_takeWhile {p : Char -> Bool} (hp : p '\n' = false) :
    IsExtent fun cs => cs.takeWhile p where
  starts cs := List.takeWhile_prefix p
  onLine cs := by
    induction cs with
    | nil => rfl
    | cons c cs ih =>
        by_cases hc : c = '\n'
        · rw [hc, restOfLine_newLine, List.takeWhile_cons_of_neg (by simp [hp])]
          rfl
        · rw [restOfLine_cons hc, List.takeWhile_cons, List.takeWhile_cons, ih]

theorem isExtent_digits : IsExtent fun cs => cs.takeWhile Char.isDigit :=
  isExtent_takeWhile (by decide)

theorem isExtent_hexDigits : IsExtent fun cs => cs.takeWhile isHexDigit :=
  isExtent_takeWhile (by decide)

theorem isExtent_binaryDigits : IsExtent fun cs => cs.takeWhile isBinaryDigit :=
  isExtent_takeWhile (by decide)

theorem isExtent_blanks : IsExtent fun cs => cs.takeWhile isSkipped :=
  isExtent_takeWhile (by decide)

theorem isExtent_comment : IsExtent fun cs => cs.takeWhile fun c => !isLineEnd c :=
  isExtent_takeWhile (by decide)

theorem isExtent_word : IsExtent fun cs => cs.takeWhile isWordChar :=
  isExtent_takeWhile (by decide)

theorem isExtent_fractionTail : IsExtent fractionTail := by
  apply isExtent_of_cons rfl
  · intro cs
    rfl
  · intro c cs
    unfold fractionTail
    split
    · rename_i ds hc
      cases hc
      have hdigits := isExtent_digits.starts cs
      split
      · exact List.nil_prefix
      · exact List.cons_prefix_cons.mpr ⟨rfl, hdigits⟩
    · exact List.nil_prefix
  · intro c cs _
    have hdigits := isExtent_digits.onLine cs
    by_cases hc : c = '.'
    · subst hc
      simp only [fractionTail, hdigits]
    · simp [fractionTail, hc]

theorem isExtent_signTail : IsExtent signTail := by
  apply isExtent_of_cons rfl
  · intro cs
    rfl
  · intro c cs
    unfold signTail
    split
    · rename_i hc
      cases hc
      exact List.prefix_append ['+'] cs
    · rename_i hc
      cases hc
      exact List.prefix_append ['-'] cs
    · exact List.nil_prefix
  · intro c cs _
    by_cases hplus : c = '+'
    · subst hplus
      rfl
    · by_cases hminus : c = '-'
      · subst hminus
        rfl
      · simp [signTail, hplus, hminus]

theorem isExtent_exponentTail : IsExtent exponentTail := by
  have hvalue := isExtent_signTail.followedBy isExtent_digits
  apply isExtent_of_cons rfl
  · intro cs
    rfl
  · intro c cs
    have hstarts := hvalue.starts cs
    rw [exponentTail]
    split
    · dsimp only
      split
      · exact List.nil_prefix
      · exact List.cons_prefix_cons.mpr ⟨rfl, hstarts⟩
    · exact List.nil_prefix
  · intro c cs _
    have hsign := isExtent_signTail.onLine cs
    have hdrop := isExtent_signTail.drop_line cs
    have hdigits := isExtent_digits.onLine (cs.drop (signTail cs).length)
    simp only [exponentTail, hsign, hdrop, hdigits]

theorem textTail_cons {c : Char} (hquote : c ≠ '"') (hbreak : c ≠ '\n') (hescape : c ≠ '\\')
    (cs : List Char) : textTail (c :: cs) = ((textTail cs).1, c :: (textTail cs).2) := by
  rw [textTail]
  · exact hquote
  · exact hbreak
  · intro h
    exact absurd h hescape
  · intro d ds h
    exact absurd h hescape

/-- A backslash either is the last character or escapes the next one. -/
theorem ne_backslash {c : Char} {cs : List Char} (hlone : c = '\\' -> cs = [] -> False)
    (hescape : forall d ds, c = '\\' -> cs = d :: ds -> False) : c ≠ '\\' := by
  intro h
  cases cs with
  | nil => exact hlone h rfl
  | cons d ds => exact hescape d ds h rfl

theorem textTail_restOfLine (cs : List Char) : textTail (restOfLine cs) = textTail cs := by
  fun_induction textTail cs with
  | case1 => rfl
  | case2 => rfl
  | case3 => rfl
  | case4 => rfl
  | case5 cs => rfl
  | case6 c cs hc closed tail heq ih =>
      rw [restOfLine_cons (by decide), restOfLine_cons hc, textTail, if_neg hc, ih, heq]
  | case7 c cs hquote hbreak hlone hescape closed tail heq ih =>
      rw [restOfLine_cons hbreak, textTail_cons hquote hbreak (ne_backslash hlone hescape), ih,
        heq]

theorem textTail_starts (cs : List Char) : (textTail cs).2 <+: cs := by
  fun_induction textTail cs with
  | case1 => exact List.nil_prefix
  | case2 cs => exact List.prefix_append ['"'] cs
  | case3 => exact List.nil_prefix
  | case4 => exact List.nil_prefix
  | case5 cs => exact List.nil_prefix
  | case6 c cs hc closed tail heq ih =>
      rw [heq] at ih
      exact List.cons_prefix_cons.mpr ⟨rfl, List.cons_prefix_cons.mpr ⟨rfl, ih⟩⟩
  | case7 c cs hquote hbreak hlone hescape closed tail heq ih =>
      rw [heq] at ih
      exact List.cons_prefix_cons.mpr ⟨rfl, ih⟩

end Lexer

/-!
## Pieces
-/

namespace Mark

theorem newLine_not_mem_spelling (m : Mark) : '\n' ∉ m.spelling.toList := by
  cases m <;> decide

theorem isPrefixOf_restOfLine {spelling : List Char} (h : '\n' ∉ spelling) (cs : List Char) :
    spelling.isPrefixOf (Lexer.restOfLine cs) = spelling.isPrefixOf cs := by
  induction spelling generalizing cs with
  | nil => simp
  | cons s spelling ih =>
      have hs : '\n' ≠ s := List.ne_of_not_mem_cons h
      have hspelling : '\n' ∉ spelling := List.not_mem_of_not_mem_cons h
      cases cs with
      | nil => rfl
      | cons c cs =>
          by_cases hc : c = '\n'
          · have hne : (s == '\n') = false := by
              simpa using Ne.symm hs
            rw [hc, Lexer.restOfLine_newLine]
            simp [List.isPrefixOf, hne]
          · rw [Lexer.restOfLine_cons hc]
            simp only [List.isPrefixOf, ih hspelling]

theorem longest?_restOfLine {c : Char} (hc : c ≠ '\n') (cs : List Char) :
    longest? (c :: Lexer.restOfLine cs) = longest? (c :: cs) := by
  unfold longest?
  congr 1
  funext m
  rw [← Lexer.restOfLine_cons hc, isPrefixOf_restOfLine m.newLine_not_mem_spelling]

theorem take_of_longest? {c : Char} {cs : List Char} {m : Mark} (h : longest? (c :: cs) = some m) :
    cs.take (m.spelling.length - 1) = m.spelling.toList.tail := by
  have hstarts : m.spelling.toList <+: c :: cs := by
    have hfound := List.find?_some h
    exact List.isPrefixOf_iff_prefix.mp hfound
  rw [← String.length_toList]
  cases hspelling : m.spelling.toList with
  | nil => rfl
  | cons s rest =>
      rw [hspelling] at hstarts
      exact (List.prefix_iff_eq_take.mp (List.cons_prefix_cons.mp hstarts).2).symm

end Mark

namespace Piece

open Lexer

theorem cutDecimal_starts (cs : List Char) : (cutDecimal cs).2 <+: cs := by
  have hfraction := isExtent_digits.followedBy isExtent_fractionTail
  have hstarts := (hfraction.followedBy isExtent_exponentTail).starts cs
  simp only [List.length_append] at hstarts
  exact hstarts

theorem cutDecimal_restOfLine (cs : List Char) : cutDecimal (restOfLine cs) = cutDecimal cs := by
  have hfraction := isExtent_digits.followedBy isExtent_fractionTail
  have hdrop := hfraction.drop_line cs
  simp only [List.length_append] at hdrop
  simp only [cutDecimal, isExtent_digits.onLine, isExtent_digits.drop_line,
    isExtent_fractionTail.onLine, hdrop, isExtent_exponentTail.onLine]

theorem cutRadix?_starts {cs : List Char} {shape : Shape} {tail : List Char}
    (h : cutRadix? cs = some (shape, tail)) : tail <+: cs := by
  cases cs with
  | nil => cases h
  | cons c cs =>
      rw [cutRadix?] at h
      split at h
      · split at h
        · cases h
        · cases h
          exact List.cons_prefix_cons.mpr ⟨rfl, isExtent_hexDigits.starts cs⟩
      · split at h
        · split at h
          · cases h
          · cases h
            exact List.cons_prefix_cons.mpr ⟨rfl, isExtent_binaryDigits.starts cs⟩
        · cases h

theorem cutRadix?_restOfLine (cs : List Char) : cutRadix? (restOfLine cs) = cutRadix? cs := by
  cases cs with
  | nil => rfl
  | cons c cs =>
      by_cases hc : c = '\n'
      · rw [hc]
        rfl
      · rw [restOfLine_cons hc]
        simp only [cutRadix?, isExtent_hexDigits.onLine, isExtent_binaryDigits.onLine]

theorem cutNumber_starts (c : Char) (cs : List Char) : (cutNumber c cs).2 <+: cs := by
  unfold cutNumber
  split
  · cases hradix : cutRadix? cs with
    | none => exact cutDecimal_starts cs
    | some found => exact cutRadix?_starts hradix
  · exact cutDecimal_starts cs

theorem cut_starts (c : Char) (cs : List Char) : (cut c cs).2 <+: cs := by
  unfold cut
  split_ifs
  · exact List.nil_prefix
  · exact isExtent_blanks.starts cs
  · exact isExtent_comment.starts cs
  · exact textTail_starts cs
  · exact cutNumber_starts c cs
  · exact isExtent_word.starts cs
  · split
    · exact List.take_prefix _ cs
    · exact List.nil_prefix

/-- The piece at a place is cut from the rest of the line. -/
theorem cut_restOfLine (c : Char) (cs : List Char) : cut c (restOfLine cs) = cut c cs := by
  by_cases hc : c = '\n'
  · rw [hc]
    rfl
  · have hmark := Mark.longest?_restOfLine hc cs
    simp only [cut, cutNumber, isExtent_blanks.onLine, isExtent_comment.onLine,
      textTail_restOfLine, cutRadix?_restOfLine, cutDecimal_restOfLine, isExtent_word.onLine,
      hmark]
    cases hfound : Mark.longest? (c :: cs) with
    | none => rfl
    | some m => simp only [Mark.take_of_longest? (hmark.trans hfound), Mark.take_of_longest? hfound]

theorem cut_append (c : Char) (cs rest : List Char) :
    cut c (cs ++ '\n' :: rest) = cut c cs := by
  rw [← cut_restOfLine, restOfLine_append, cut_restOfLine]

theorem newLine_not_mem_cut (c : Char) (cs : List Char) : '\n' ∉ (cut c cs).2 := by
  intro h
  rw [← cut_restOfLine] at h
  exact newLine_not_mem_restOfLine cs ((cut_starts c (restOfLine cs)).subset h)

theorem cutDecimal_shape_ne (cs : List Char) : (cutDecimal cs).1 ≠ .newLine := by
  unfold cutDecimal
  dsimp only
  split <;> exact Shape.noConfusion

theorem cutRadix?_shape_ne {cs : List Char} {shape : Shape} {tail : List Char}
    (h : cutRadix? cs = some (shape, tail)) : shape ≠ .newLine := by
  rintro rfl
  unfold cutRadix? at h
  repeat' split at h
  all_goals cases h

theorem cutNumber_shape_ne (c : Char) (cs : List Char) : (cutNumber c cs).1 ≠ .newLine := by
  unfold cutNumber
  split
  · cases hradix : cutRadix? cs with
    | none => exact cutDecimal_shape_ne cs
    | some found => exact cutRadix?_shape_ne hradix
  · exact cutDecimal_shape_ne cs

theorem cut_shape_eq_iff (c : Char) (cs : List Char) : (cut c cs).1 = .newLine ↔ c = '\n' := by
  constructor
  · intro h
    by_contra hc
    have hbreak : (c == '\n') = false := beq_eq_false_iff_ne.mpr hc
    rw [cut, hbreak] at h
    simp only [Bool.false_eq_true, if_false] at h
    split_ifs at h
    · exact cutNumber_shape_ne c cs h
    · split at h <;> cases h
  · rintro rfl
    rfl

end Piece

end Equate
