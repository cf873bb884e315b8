import Equate.Proofs.Decimal.Spelling

/-!
# Moving the point

The digits of a numeral are accumulated in two runs, those before the point and those behind
it, and each run counts its powers of ten in its own way. Both ways come to the same: the power
of a digit is told by its place among all digits and by the place of the point. A point that is
moved across digits is therefore made up for by the exponent, and the float is the same one,
because the same terms are added in the same order.
-/

namespace Equate
namespace Numeral

/-!
## Places counted from the first digit
-/

def powerAt (n : Numeral) (position : Nat) : Int :=
  saturate (n.whole.length + n.exponent - 1 - position)

theorem places_eq (n : Numeral) :
    n.places = (n.whole ++ n.fraction).zipIdx.map fun (digit, position) =>
      (digit, n.powerAt position) := by
  have hfraction : n.fraction.zipIdx 1 = n.fraction.zipIdx.map fun (d, i) => (d, 1 + i) :=
    List.zipIdx_eq_map_add
  have hbehind : n.fraction.zipIdx (0 + n.whole.length) =
      n.fraction.zipIdx.map fun (d, i) => (d, 0 + n.whole.length + i) :=
    List.zipIdx_eq_map_add
  rw [places, List.zipIdx_append, List.map_append, hfraction, hbehind, List.map_map, List.map_map]
  congr 1
  · refine List.map_congr_left ?_
    rintro ⟨d, i⟩ _
    have hpower : (n.whole.length : Int) - 1 - i + n.exponent =
        n.whole.length + n.exponent - 1 - i := by
      omega
    exact congrArg (fun z => (d, saturate z)) hpower
  · refine List.map_congr_left ?_
    rintro ⟨d, i⟩ _
    have hpower : n.exponent - (1 + i : Nat) =
        n.whole.length + n.exponent - 1 - (0 + n.whole.length + i : Nat) := by
      omega
    exact congrArg (fun z => (d, saturate z)) hpower

theorem toFloat_of_point {m n : Numeral} (hnegative : m.negative = n.negative)
    (hdigits : m.whole ++ m.fraction = n.whole ++ n.fraction)
    (hpoint : m.whole.length + m.exponent = n.whole.length + n.exponent) :
    m.toFloat = n.toFloat := by
  have hplaces : m.places = n.places := by
    rw [places_eq, places_eq, hdigits]
    unfold powerAt
    rw [hpoint]
  unfold toFloat sum
  rw [hnegative, hplaces]

/-!
## Spellings that differ in the point
-/

namespace Spelling

/--
The second spelling has its point in front of some digits behind which the first one has it, and
its exponent is greater by their number.
-/
structure Shifts (v : Spelling) (moved : List (Fin 10)) (w : Spelling) : Prop where
  sign : v.sign = w.sign
  whole : v.whole = w.whole ++ moved
  fraction : w.fraction.getD [] = moved ++ v.fraction.getD []
  exponent : w.exponentValue = v.exponentValue + moved.length

section

variable {v w : Spelling} {moved : List (Fin 10)} (h : Shifts v moved w)
include h

theorem Shifts.toFloat_eq {y z : Int} (hexponent : z = y + moved.length) :
    toFloat { v.numeral with exponent := y } = toFloat { w.numeral with exponent := z } := by
  apply toFloat_of_point
  · show (v.sign == some .minus) = (w.sign == some .minus)
    rw [h.sign]
  · show v.whole.map Fin.val ++ (v.fraction.getD []).map Fin.val =
      w.whole.map Fin.val ++ (w.fraction.getD []).map Fin.val
    rw [h.whole, h.fraction, List.map_append, List.map_append, List.append_assoc]
  · show ((v.whole.map Fin.val).length : Int) + y = (w.whole.map Fin.val).length + z
    rw [h.whole, hexponent, List.length_map, List.length_map, List.length_append]
    omega

end

/-- The float is the one that the exponent demands as it is written, unless the text is huge. -/
theorem toFloat_written (w : Spelling) (hleast : leastExponent ≤ w.exponentValue)
    (hgreatest : w.exponentValue ≤ greatestExponent)
    (hlength : w.exponentValue = leastExponent ->
      (w.text.length : Int) + 309 ≤ greatestExponent) :
    toFloat { w.numeral with exponent := w.exponentValue } = w.numeral.toFloat := by
  by_cases hends : w.exponentValue = leastExponent
  · have hexponent : saturate w.exponentValue = w.exponentValue := by
      unfold saturate
      omega
    have hnearest := w.toFloat_nearest (hlength hends)
    unfold nearest at hnearest
    rw [hexponent] at hnearest
    exact hnearest
  · have hexponent : saturateMagnitude w.exponentValue = w.exponentValue := by
      unfold saturateMagnitude
      unfold leastExponent greatestExponent at *
      omega
    conv_lhs => rw [← hexponent]
    rfl

end Spelling

/--
The point may be moved if the exponent makes up for it. As long as both exponents are signed
words, both texts are read as the same float. The least of the signed words is read as its
successor; this could show only where the point is moved at all, and in a text with nearly as
many digits as there are signed words.
-/
theorem float?_shift {v w : Spelling} {moved : List (Fin 10)} (h : v.Shifts moved w)
    (hleast : leastExponent ≤ v.exponentValue) (hgreatest : w.exponentValue ≤ greatestExponent)
    (hlength : v.exponentValue = leastExponent ->
      moved = [] ∨ (v.text.length : Int) + 309 ≤ greatestExponent) :
    exists x, float? (String.ofList v.text) = some x ∧
      float? (String.ofList w.text) = some x := by
  have hexponent := h.exponent
  have hsame : v.numeral.toFloat = w.numeral.toFloat := by
    by_cases hmoved : moved = []
    · -- Nothing is moved, and the one exponent is read in the same way twice.
      subst hmoved
      have hequal : w.exponentValue = v.exponentValue := hexponent.trans (Int.add_zero _)
      apply h.toFloat_eq
      rw [hequal]
      exact (Int.add_zero _).symm
    · have hpos : 0 < moved.length := List.length_pos_of_ne_nil hmoved
      have hv := v.toFloat_written hleast (by omega)
        fun hends => (hlength hends).resolve_left hmoved
      have hw := w.toFloat_written (by omega) hgreatest (by omega)
      rw [← hv, ← hw]
      exact h.toFloat_eq hexponent
  exact ⟨v.numeral.toFloat, float?_ofList v, hsame ▸ float?_ofList w⟩

/-- The point of the first text could be left out, and two digits are in front of it. -/
theorem float?_shift_quarter : exists v w : Spelling,
    String.ofList v.text = "-025e-1" ∧ String.ofList w.text = "-0.25e1" ∧
      v.Shifts [2, 5] w ∧
      exists x, float? "-025e-1" = some x ∧ float? "-0.25e1" = some x := by
  let v : Spelling := ⟨[], some .minus, [0, 2, 5], none,
    some ⟨false, some .minus, [1], by decide⟩, [], by simp, by simp, by decide⟩
  let w : Spelling := ⟨[], some .minus, [0], some [2, 5],
    some ⟨false, none, [1], by decide⟩, [], by simp, by simp, by decide⟩
  have htexts : String.ofList v.text = "-025e-1" ∧ String.ofList w.text = "-0.25e1" := by decide
  have hshifts : v.Shifts [2, 5] w := ⟨rfl, rfl, rfl, rfl⟩
  have hfloats := float?_shift hshifts (by decide) (by decide) (by decide)
  rw [htexts.1, htexts.2] at hfloats
  exact ⟨v, w, htexts.1, htexts.2, hshifts, hfloats⟩

end Numeral
end Equate
