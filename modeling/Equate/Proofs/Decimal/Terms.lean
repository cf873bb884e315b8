import Equate.Decimal.Numeral
import Mathlib.Data.List.Basic

/-!
# Terms out of range

A power of ten is multiplied up one factor at a time, and from the power `309` on it is
infinite. A digit at a place so far behind the point contributes nothing, and a numeral
without any nearer digit is zero whatever its digits are.
-/

namespace Equate
namespace Numeral

/-!
## Powers
-/

theorem timesTen_of_isInf {n : Nat} {x : Float} (hx : x.isInf = false)
    (h : (timesTen n x).isInf = true) (k : Nat) : timesTen (n + k) x = timesTen n x := by
  induction n generalizing x with
  | zero =>
      have hself : x.isInf = true := h
      rw [hx] at hself
      cases hself
  | succ n ih =>
      rw [Nat.succ_add]
      unfold timesTen at h ⊢
      dsimp only at h ⊢
      split
      · rfl
      · rename_i hy
        rw [if_neg hy] at h
        exact ih (Bool.eq_false_iff.mpr hy) h

theorem powerOfTen_309 : powerOfTen 309 = 1.0 / 0.0 := by
  decide +kernel

theorem powerOfTen_of_le {n : Nat} (h : 309 ≤ n) : powerOfTen n = 1.0 / 0.0 := by
  rcases Nat.exists_eq_add_of_le h with ⟨k, rfl⟩
  have hinfinite : (timesTen 309 1.0).isInf = true := by
    show (powerOfTen 309).isInf = true
    rw [powerOfTen_309]
    decide
  show timesTen (309 + k) 1.0 = _
  rw [timesTen_of_isInf (by decide) hinfinite]
  exact powerOfTen_309

/-!
## Terms
-/

theorem digit_div_infinity : forall d : Fin 10, d.val.toUInt64.toFloat / (1.0 / 0.0) = 0.0 := by
  decide +kernel

theorem term_of_le {digit : Nat} (hdigit : digit < 10) {power : Int} (h : power ≤ -309) :
    term digit power = 0.0 := by
  unfold term
  rw [if_neg (show ¬ 0 ≤ power by omega), powerOfTen_of_le (by omega)]
  split
  · rfl
  · exact digit_div_infinity ⟨digit, hdigit⟩

theorem foldl_zero {places : List (Nat × Int)}
    (h : forall place, place ∈ places -> term place.1 place.2 = 0.0) :
    places.foldl (fun x place => x + term place.1 place.2) 0.0 = 0.0 := by
  induction places with
  | nil => rfl
  | cons place places ih =>
      have hzero : (0.0 : Float) + 0.0 = 0.0 := by decide
      rw [List.foldl_cons, h place List.mem_cons_self, hzero]
      exact ih fun place hplace => h place (List.mem_cons_of_mem _ hplace)

theorem saturate_le {z : Int} (h : z ≤ -309) : saturate z ≤ -309 := by
  unfold saturate leastExponent greatestExponent
  omega

/-- A numeral is zero if its exponent moves all its digits out of range. -/
theorem sum_of_le {n : Numeral} (hwhole : forall d, d ∈ n.whole -> d < 10)
    (hfraction : forall d, d ∈ n.fraction -> d < 10)
    (h : n.whole.length + n.exponent ≤ -309) : n.sum = 0.0 := by
  apply foldl_zero
  intro place hplace
  rcases List.mem_append.mp hplace with hplace | hplace
  · rcases List.mem_map.mp hplace with ⟨⟨d, position⟩, hmem, rfl⟩
    apply term_of_le (hwhole d (List.fst_mem_of_mem_zipIdx hmem))
    show saturate (n.whole.length - 1 - position + n.exponent) ≤ -309
    exact saturate_le (by omega)
  · rcases List.mem_map.mp hplace with ⟨⟨d, position⟩, hmem, rfl⟩
    apply term_of_le (hfraction d (List.fst_mem_of_mem_zipIdx hmem))
    show saturate (n.exponent - position) ≤ -309
    exact saturate_le (by omega)

end Numeral
end Equate
