import Equate.Proofs.Binary64.Whole

/-!
# The nearest whole float

Of the integers that have a float, a word should be converted to the nearest one. This is what
happens below the top bit. A word with its top bit is halved first, and a lost half can make
a tie of what was none: the tie goes to the even mantissa, which is the farther one for one word
in 4096 at this magnitude.
-/

namespace Equate
namespace Binary64

open Float.Model Float.Model.UnpackedFloat

/-!
## Integers that have a float
-/

def IsWhole (z : Int) : Prop :=
  exists x : Float, Denotes x.toModel.unpack z

/-- The integer has a float, and no other one that has a float is nearer to the number. -/
def IsNearest (n : Nat) (r : Int) : Prop :=
  IsWhole r ∧ forall z, IsWhole z -> (r - n).natAbs ≤ (z - n).natAbs

theorem Scaled.exists_shift {m n : Nat} {e : Int} (h : Scaled m e n) :
    exists k d, n = k * 2 ^ d ∧ k < 2 ^ 53 := by
  rcases h with ⟨⟨_, hm⟩, j, _, hn⟩
  cases Nat.le_total 52 j with
  | inl hj =>
      refine ⟨m, j - 52, ?_, hm⟩
      have hpower : 2 ^ j = 2 ^ (j - 52) * 2 ^ 52 := by
        rw [← Nat.pow_add, Nat.sub_add_cancel hj]
      rw [hpower, ← Nat.mul_assoc] at hn
      exact (Nat.eq_of_mul_eq_mul_right (Nat.two_pow_pos 52) hn).symm
  | inr hj =>
      refine ⟨n, 0, (Nat.mul_one n).symm, ?_⟩
      have hle : n * 2 ^ 52 ≤ m * 2 ^ 52 := by
        rw [← hn]
        exact Nat.mul_le_mul_left m (Nat.pow_le_pow_right (by decide) hj)
      exact Nat.lt_of_le_of_lt (Nat.le_of_mul_le_mul_right hle (Nat.two_pow_pos 52)) hm

theorem IsWhole.exists_shift {z : Int} (h : IsWhole z) :
    exists k d, z.natAbs = k * 2 ^ d ∧ k < 2 ^ 53 := by
  rcases h with ⟨x, hx⟩
  generalize x.toModel.unpack = y at hx
  cases hx with
  | zero sign => exact ⟨0, 0, rfl, by decide⟩
  | positive hm h => exact h.exists_shift
  | negative hm h =>
      rw [Int.natAbs_neg]
      exact h.exists_shift

/-!
## Distances
-/

theorem nearestEven_distance (n k : Nat) :
    ((nearestEven n k * 2 ^ k : Nat) - (n : Int)).natAbs ≤ n % 2 ^ k ∧
      ((nearestEven n k * 2 ^ k : Nat) - (n : Int)).natAbs ≤ 2 ^ k - n % 2 ^ k := by
  have hpos := Nat.two_pow_pos k
  have hrest := Nat.mod_lt n hpos
  have hdivision := Nat.div_add_mod n (2 ^ k)
  have htwice : 2 * n = 2 ^ k * (2 * (n / 2 ^ k)) + 2 * (n % 2 ^ k) := by
    rw [Nat.mul_left_comm, ← Nat.mul_add, hdivision]
  have hhalves : 2 * n / 2 ^ k = 2 * (n / 2 ^ k) + 2 * (n % 2 ^ k) / 2 ^ k := by
    conv_lhs => rw [htwice]
    exact Nat.mul_add_div hpos _ _
  have hbeyond : 2 * n % 2 ^ k = 2 * (n % 2 ^ k) % 2 ^ k := by
    conv_lhs => rw [htwice]
    exact Nat.mul_add_mod _ _ _
  have hsucc : (n / 2 ^ k + 1) * 2 ^ k = 2 ^ k * (n / 2 ^ k) + 2 ^ k := by
    rw [Nat.add_mul, Nat.one_mul, Nat.mul_comm]
  unfold nearestEven
  rw [hhalves, hbeyond]
  rcases Nat.lt_or_ge (2 * (n % 2 ^ k)) (2 ^ k) with hless | hmore
  · rw [Nat.div_eq_of_lt hless, if_pos (by omega), Nat.mul_comm]
    omega
  · have hone : 2 * (n % 2 ^ k) / 2 ^ k = 1 :=
      Nat.div_eq_of_lt_le (by omega) (by omega)
    have hmod : 2 * (n % 2 ^ k) % 2 ^ k = 2 * (n % 2 ^ k) - 2 ^ k := by
      rw [Nat.mod_eq_sub_mod hmore, Nat.mod_eq_of_lt (by omega)]
    rw [hone, hmod, if_neg (by omega)]
    split
    · -- A tie is equally far from both multiples.
      rcases Nat.mod_two_eq_zero_or_one (n / 2 ^ k) with heven | hodd
      · rw [heven, Nat.add_zero, Nat.mul_comm]
        omega
      · rw [hodd, hsucc]
        omega
    · rw [hsucc]
      omega

/--
A number that is as near as both neighbours on a grid is nearest, if the grid is as fine as
floats of this magnitude can be.
-/
theorem isNearest_of_distance {n k : Nat} {r : Int} (hr : IsWhole r) (hn : 2 ^ (52 + k) ≤ n)
    (hbelow : (r - n).natAbs ≤ n % 2 ^ k) (habove : (r - n).natAbs ≤ 2 ^ k - n % 2 ^ k) :
    IsNearest n r := by
  refine ⟨hr, ?_⟩
  intro z hz
  have hpos := Nat.two_pow_pos k
  have hrest := Nat.mod_lt n hpos
  have hdivision := Nat.div_add_mod' n (2 ^ k)
  rcases Int.lt_or_le z 0 with hneg | hnonneg
  · omega
  rcases hz.exists_shift with ⟨m, d, hz, hm⟩
  rcases Nat.lt_or_ge d k with hfine | hcoarse
  · -- Floats on a finer grid are smaller than the number and than the multiple below it.
    have hless : m * 2 ^ d < 2 ^ (52 + k) :=
      calc
        m * 2 ^ d < 2 ^ 53 * 2 ^ d := Nat.mul_lt_mul_of_pos_right hm (Nat.two_pow_pos d)
        _ = 2 ^ (53 + d) := (Nat.pow_add 2 53 d).symm
        _ ≤ 2 ^ (52 + k) := Nat.pow_le_pow_right (by decide) (by omega)
    have hquotient : 2 ^ 52 ≤ n / 2 ^ k := by
      rw [Nat.le_div_iff_mul_le hpos, ← Nat.pow_add]
      exact hn
    have hmultiple : 2 ^ (52 + k) ≤ n / 2 ^ k * 2 ^ k := by
      rw [Nat.pow_add]
      exact Nat.mul_le_mul_right _ hquotient
    omega
  · have hmultiple : m * 2 ^ d = m * 2 ^ (d - k) * 2 ^ k := by
      rw [Nat.mul_assoc, ← Nat.pow_add, Nat.sub_add_cancel hcoarse]
    rw [hmultiple] at hz
    rcases Nat.lt_or_ge (n / 2 ^ k) (m * 2 ^ (d - k)) with hlarge | hsmall
    · have hstep : (n / 2 ^ k + 1) * 2 ^ k ≤ m * 2 ^ (d - k) * 2 ^ k :=
        Nat.mul_le_mul_right _ hlarge
      rw [Nat.add_mul, Nat.one_mul] at hstep
      omega
    · have hstep : m * 2 ^ (d - k) * 2 ^ k ≤ n / 2 ^ k * 2 ^ k := Nat.mul_le_mul_right _ hsmall
      omega

/-!
## Words
-/

theorem isWhole_roundInt (u : UInt64) : IsWhole (roundInt u.toNat) :=
  ⟨_, denotes_ofUnsigned u⟩

theorem isNearest_roundNat {n : Nat} (hn : IsWhole (roundNat n)) : IsNearest n (roundNat n) := by
  rcases Nat.lt_or_ge n.log2 53 with hsmall | hlarge
  · -- A number of 53 binary digits has a float itself.
    rw [roundNat_of_small (Nat.le_of_lt_succ hsmall)] at hn ⊢
    refine ⟨hn, ?_⟩
    intro z _
    omega
  · have hne : n ≠ 0 := by
      rintro rfl
      exact absurd hlarge (by decide)
    rcases nearestEven_distance n (n.log2 - 52) with ⟨hbelow, habove⟩
    refine isNearest_of_distance hn ?_ hbelow habove
    rw [Nat.add_sub_cancel' (by omega)]
    exact Nat.log2_self_le hne

section

variable {n : Nat} (hlow : 2 ^ 63 ≤ n) (hhigh : n < 2 ^ 64)
include hlow hhigh

theorem roundInt_of_top : roundInt n = (nearestEven (n / 2) 10 * 2 ^ 11 : Nat) := by
  have hlog : (n / 2).log2 = 62 := (Nat.log2_eq_iff (by omega)).mpr ⟨by omega, by omega⟩
  rw [roundInt_of_large hlow, roundNat, hlog]
  show (2 * (nearestEven (n / 2) 10 * 2 ^ 10 : Nat) : Int) = (nearestEven (n / 2) 10 * 2 ^ 11 : Nat)
  omega

theorem distance_of_top :
    (roundInt n - n).natAbs ≤ 1025 ∧
      (n % 4096 ≠ 1025 -> (roundInt n - n).natAbs ≤ n % 2 ^ 11 ∧
        (roundInt n - n).natAbs ≤ 2 ^ 11 - n % 2 ^ 11) ∧
      (n % 4096 = 1025 -> roundInt n = n - 1025) := by
  rw [roundInt_of_top hlow hhigh, nearestEven]
  split
  · omega
  · split <;> omega

theorem roundInt_of_multiple (h : n % 2048 = 0) : roundInt n = n := by
  have hdistance := (distance_of_top hlow hhigh).2.1 (by omega)
  omega

/-- The lost half matters for the words next to a tie that goes down. -/
theorem isNearest_of_top (hr : IsWhole (roundInt n)) :
    IsNearest n (roundInt n) ↔ n % 4096 ≠ 1025 := by
  rcases distance_of_top hlow hhigh with ⟨_, hnear, hfar⟩
  constructor
  · intro h heq
    have hword : (n + 1023).toUInt64.toNat = n + 1023 := Nat.mod_eq_of_lt (by omega)
    have hwhole := isWhole_roundInt (n + 1023).toUInt64
    rw [hword, roundInt_of_multiple (by omega) (by omega) (by omega)] at hwhole
    have hnearer := h.2 _ hwhole
    rw [hfar heq] at hnearer
    omega
  · intro hne
    exact isNearest_of_distance hr hlow (hnear hne).1 (hnear hne).2

end

/--
A word is converted to the nearest float, except one word in 4096 of those with their top bit.
Such a word is converted to a multiple of 2048, and this is at most 1025 away from it.
-/
theorem ofUnsigned_isNearest (u : UInt64) : exists r : Int,
    Denotes (ofUnsigned u).toModel.unpack r ∧
      (IsNearest u.toNat r ↔ ¬ (2 ^ 63 ≤ u.toNat ∧ u.toNat % 4096 = 1025)) ∧
      (2 ^ 63 ≤ u.toNat -> 2048 ∣ r ∧ (r - u.toNat).natAbs ≤ 1025) := by
  have hwhole := isWhole_roundInt u
  refine ⟨roundInt u.toNat, denotes_ofUnsigned u, ?_⟩
  rcases Nat.lt_or_ge u.toNat (2 ^ 63) with hsmall | hlarge
  · rw [roundInt_of_small hsmall] at hwhole ⊢
    have hnearest := isNearest_roundNat hwhole
    exact ⟨iff_of_true hnearest (by omega), by omega⟩
  · have hnearest := isNearest_of_top hlarge u.toNat_lt hwhole
    have hdistance := (distance_of_top hlarge u.toNat_lt).1
    refine ⟨by rw [hnearest]; omega, fun _ => ⟨?_, hdistance⟩⟩
    rw [roundInt_of_top hlarge u.toNat_lt]
    omega

/-- The greatest word is converted to the nearest float, which is no word any more. -/
theorem ofUnsigned_isNearest_greatest :
    2 ^ 63 ≤ (0xFFFFFFFFFFFFFFFF : UInt64).toNat ∧
      exists r : Int, Denotes (ofUnsigned 0xFFFFFFFFFFFFFFFF).toModel.unpack r ∧
        IsNearest 0xFFFFFFFFFFFFFFFF r ∧ r = 2 ^ 64 := by
  have hlarge : 2 ^ 63 ≤ (0xFFFFFFFFFFFFFFFF : UInt64).toNat := by decide
  rcases ofUnsigned_isNearest 0xFFFFFFFFFFFFFFFF with ⟨r, hr, hnearest, hdistance⟩
  rcases hdistance hlarge with ⟨hmultiple, hnear⟩
  have hword : (0xFFFFFFFFFFFFFFFF : UInt64).toNat = 2 ^ 64 - 1 := rfl
  rw [hword] at hnear
  exact ⟨hlarge, r, hr, hnearest.mpr (by decide), by omega⟩

/-- The word `2 ^ 63 + 1025` is converted to `2 ^ 63`, although `2 ^ 63 + 2048` is nearer. -/
theorem ofUnsigned_not_isNearest :
    Denotes (ofUnsigned 9223372036854776833).toModel.unpack (2 ^ 63) ∧
      ¬ IsNearest 9223372036854776833 (2 ^ 63) := by
  have hfar := (distance_of_top (n := 9223372036854776833) (by decide) (by decide)).2.2 (by decide)
  have hvalue : roundInt (9223372036854776833 : Nat) = 2 ^ 63 := hfar.trans (by decide)
  have hdenotes := denotes_ofUnsigned 9223372036854776833
  have hwhole := isWhole_roundInt 9223372036854776833
  have hword : (9223372036854776833 : UInt64).toNat = 9223372036854776833 := rfl
  rw [hword] at hdenotes hwhole
  have hnearest := isNearest_of_top (by decide) (by decide) hwhole
  rw [hvalue] at hdenotes hnearest
  exact ⟨hdenotes, fun h => hnearest.mp h (by decide)⟩

end Binary64
end Equate
