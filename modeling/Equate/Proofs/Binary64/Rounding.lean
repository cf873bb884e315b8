import Equate.Proofs.Binary64.Binade

/-!
# Rounding whole numbers

A natural number is rounded to 53 binary digits: to the nearest such number, and halfway
between two of them to the even one. Rounding leaves a number in its binade or moves it to
the start of the next, and it never changes the order of two numbers. The rounding of
floats does just this to a mantissa.
-/

namespace Equate
namespace Binary64

open Float.Model Float.Model.UnpackedFloat

/-!
## Rounding to a power of two
-/

/-- The quotient by a power of two, rounded to the nearest number, a tie to the even one. -/
def nearestEven (n k : Nat) : Nat :=
  if 2 * n / 2 ^ k % 2 = 0 then n / 2 ^ k
  else if 2 * n % 2 ^ k = 0 then n / 2 ^ k + n / 2 ^ k % 2
  else n / 2 ^ k + 1

theorem two_mul_div_two_pow (n k : Nat) : 2 * n / 2 ^ k / 2 = n / 2 ^ k := by
  rw [Nat.div_div_eq_div_mul, Nat.mul_comm (2 ^ k), Nat.mul_div_mul_left _ _ (by decide)]

theorem nearestEven_zero (n : Nat) : nearestEven n 0 = n := by
  unfold nearestEven
  rw [Nat.pow_zero, Nat.div_one, Nat.div_one, if_pos (Nat.mul_mod_right 2 n)]

theorem nearestEven_mul (m k : Nat) : nearestEven (m * 2 ^ k) k = m := by
  have hpos := Nat.two_pow_pos k
  have hhalves : 2 * (m * 2 ^ k) / 2 ^ k = 2 * m := by
    rw [← Nat.mul_assoc]
    exact Nat.mul_div_cancel _ hpos
  unfold nearestEven
  rw [hhalves, if_pos (Nat.mul_mod_right 2 m), Nat.mul_div_cancel _ hpos]

theorem nearestEven_bounds (n k : Nat) :
    n / 2 ^ k ≤ nearestEven n k ∧ nearestEven n k ≤ n / 2 ^ k + 1 := by
  unfold nearestEven
  split
  · omega
  · split <;> omega

theorem nearestEven_mono {m n : Nat} (h : m ≤ n) (k : Nat) :
    nearestEven m k ≤ nearestEven n k := by
  have hquotient : m / 2 ^ k ≤ n / 2 ^ k := Nat.div_le_div_right h
  have hm := nearestEven_bounds m k
  have hn := nearestEven_bounds n k
  rcases Nat.lt_or_eq_of_le hquotient with hlt | heq
  · omega
  · -- Above one quotient, first the half decides and then what is beyond the half.
    have htwice : 2 * m ≤ 2 * n := Nat.mul_le_mul_left 2 h
    have hhalves : 2 * m / 2 ^ k ≤ 2 * n / 2 ^ k := Nat.div_le_div_right htwice
    have hmhalf := two_mul_div_two_pow m k
    have hnhalf := two_mul_div_two_pow n k
    cases Decidable.em (2 * m / 2 ^ k % 2 = 0) with
    | inl heven =>
        have hdown : nearestEven m k = m / 2 ^ k := if_pos heven
        omega
    | inr hodd =>
        have hsame : 2 * m / 2 ^ k = 2 * n / 2 ^ k := by
          omega
        have hrest : 2 * m % 2 ^ k ≤ 2 * n % 2 ^ k := by
          have hmrest := Nat.div_add_mod (2 * m) (2 ^ k)
          have hnrest := Nat.div_add_mod (2 * n) (2 ^ k)
          rw [hsame] at hmrest
          omega
        unfold nearestEven
        rw [← hsame, ← heq, if_neg hodd, if_neg hodd]
        split
        · split <;> omega
        · rw [if_neg (by omega)]

/-!
## The mantissa of a float
-/

theorem mod_two_pow_eq_zero_iff (n k : Nat) :
    n % 2 ^ k = 0 ↔ 2 * n / 2 ^ k % 2 = 0 ∧ 2 * n % 2 ^ k = 0 := by
  have hpos := Nat.two_pow_pos k
  constructor
  · intro h
    rcases Nat.dvd_of_mod_eq_zero h with ⟨c, rfl⟩
    rw [Nat.mul_left_comm, Nat.mul_div_cancel_left _ hpos]
    exact ⟨Nat.mul_mod_right 2 c, Nat.mul_mod_right _ _⟩
  · rintro ⟨heven, hrest⟩
    rcases Nat.dvd_of_mod_eq_zero heven with ⟨b, hb⟩
    have htwice := Nat.div_add_mod (2 * n) (2 ^ k)
    rw [hb, hrest, Nat.add_zero, Nat.mul_left_comm] at htwice
    rw [← Nat.eq_of_mul_eq_mul_left (by decide) htwice]
    exact Nat.mul_mod_right _ _

theorem shiftRight_exact (n k : Nat) :
    ExtendedMantissa.ofMantissaAndAccuracy n .exact >>> k =
      ⟨n / 2 ^ k, 2 * n / 2 ^ k % 2 != 0, 2 * n % 2 ^ k != 0⟩ := by
  induction k with
  | zero =>
      rw [Nat.pow_zero, Nat.div_one, Nat.div_one, Nat.mul_mod_right, Nat.mod_one]
      rfl
  | succ k ih =>
      have hstep : ExtendedMantissa.ofMantissaAndAccuracy n .exact >>> (k + 1) =
          (ExtendedMantissa.ofMantissaAndAccuracy n .exact >>> k).shiftRightOne := rfl
      have hhalf : 2 * n / 2 ^ (k + 1) = n / 2 ^ k := by
        rw [Nat.pow_succ', Nat.mul_div_mul_left _ _ (by decide)]
      have hrest : 2 * n % 2 ^ (k + 1) = 2 * (n % 2 ^ k) := by
        rw [Nat.pow_succ', Nat.mul_mod_mul_left]
      have hsticky : (2 * (n % 2 ^ k) != 0) =
          ((2 * n / 2 ^ k % 2 != 0) || (2 * n % 2 ^ k != 0)) := by
        have hzero := mod_two_pow_eq_zero_iff n k
        grind
      rw [hstep, ih, hhalf, hrest, hsticky, Nat.pow_succ, ← Nat.div_div_eq_div_mul]
      rfl

theorem roundedMantissa_shiftRight (n k : Nat) :
    (ExtendedMantissa.ofMantissaAndAccuracy n .exact >>> k).roundedMantissa =
      nearestEven n k := by
  rw [shiftRight_exact]
  unfold nearestEven
  cases Decidable.em (2 * n / 2 ^ k % 2 = 0) with
  | inl heven =>
      rw [if_pos heven, heven]
      cases 2 * n % 2 ^ k != 0 <;> rfl
  | inr hodd =>
      rw [if_neg hodd, (bne_iff_ne.mpr hodd : (_ != 0) = true)]
      cases Decidable.em (2 * n % 2 ^ k = 0) with
      | inl htie =>
          rw [if_pos htie, htie]
          rfl
      | inr hbeyond =>
          rw [if_neg hbeyond, (bne_iff_ne.mpr hbeyond : (_ != 0) = true)]
          rfl

theorem nearestEven_mantissa_bounds {m : Nat} (hm : 52 ≤ m.log2) :
    2 ^ 52 ≤ nearestEven m (m.log2 - 52) ∧ nearestEven m (m.log2 - 52) ≤ 2 ^ 53 := by
  rcases div_pow_log2_bounds hm with ⟨hlow, hhigh⟩
  rcases nearestEven_bounds m (m.log2 - 52) with ⟨hle, hge⟩
  exact ⟨Nat.le_trans hlow hle, Nat.le_trans hge hhigh⟩

/--
A rounded mantissa has 53 digits. If it has grown to the next power of two, then the
exponent has grown by one instead.
-/
theorem roundWithAccuracy_eq (sign : Sign) {m : Nat} {e : Int} (hm : 52 ≤ m.log2)
    (h : -1074 ≤ m.log2 - 52 + e) :
    exists M, exists E : Int, exists hM : 0 < M,
      roundWithAccuracy Format.binary64 sign m e .exact = .finite sign M E hM ∧
        (2 ^ 52 ≤ M ∧ M < 2 ^ 53) ∧
        ((E = m.log2 - 52 + e ∧ M = nearestEven m (m.log2 - 52)) ∨
          (E = m.log2 - 52 + e + 1 ∧ 2 * M = nearestEven m (m.log2 - 52))) := by
  have hfirst := shiftToTargetExponent_eq hm h .exact
  have hrounded := roundedMantissa_shiftRight m (m.log2 - 52)
  rcases nearestEven_mantissa_bounds hm with ⟨hlow, hhigh⟩
  generalize nearestEven m (m.log2 - 52) = q at hrounded hlow hhigh ⊢
  have hlog : 52 ≤ q.log2 := (Nat.le_log2 (by omega)).mpr hlow
  have hlast := shiftToTargetExponent_eq (e := m.log2 - 52 + e) hlog (by omega) .exact
  have hmantissa := mantissa_shifted q (q.log2 - 52) .exact
  generalize ExtendedMantissa.ofMantissaAndAccuracy q .exact >>> (q.log2 - 52) = last
    at hlast hmantissa
  rcases Nat.lt_or_eq_of_le hhigh with hlt | rfl
  · rw [log2_of_mantissa hlow hlt] at hlast hmantissa
    have hsame : last.mantissa = q := hmantissa.trans (Nat.div_one q)
    have hpos : 0 < q := by
      omega
    refine ⟨q, m.log2 - 52 + e, hpos, ?_, ⟨hlow, hlt⟩, Or.inl ⟨rfl, rfl⟩⟩
    unfold roundWithAccuracy
    simp only [hfirst, hrounded, hlast, hsame, dif_neg (Nat.ne_of_gt hpos)]
    congr 1
    omega
  · rw [Nat.log2_two_pow] at hlast hmantissa
    have hhalf : last.mantissa = 2 ^ 52 := hmantissa.trans (by decide)
    refine ⟨2 ^ 52, m.log2 - 52 + e + 1, by decide, ?_, ⟨by decide, by decide⟩,
      Or.inr ⟨rfl, by decide⟩⟩
    unfold roundWithAccuracy
    simp only [hfirst, hrounded, hlast, hhalf]
    rw [dif_neg (by decide)]
    congr 1
    omega

/-!
## Natural numbers
-/

def roundNat (n : Nat) : Nat :=
  nearestEven n (n.log2 - 52) * 2 ^ (n.log2 - 52)

theorem roundNat_of_small {n : Nat} (h : n.log2 ≤ 52) : roundNat n = n := by
  unfold roundNat
  rw [Nat.sub_eq_zero_of_le h, nearestEven_zero, Nat.pow_zero, Nat.mul_one]

theorem roundNat_two_pow (k : Nat) : roundNat (2 ^ k) = 2 ^ k := by
  cases Nat.le_total k 52 with
  | inl hsmall => exact roundNat_of_small (Nat.log2_two_pow.trans_le hsmall)
  | inr hlarge =>
      have hpower : 2 ^ k = 2 ^ 52 * 2 ^ (k - 52) := by
        rw [← Nat.pow_add, Nat.add_sub_cancel' hlarge]
      unfold roundNat
      rw [Nat.log2_two_pow]
      conv_lhs => rw [hpower, nearestEven_mul]
      exact hpower.symm

theorem roundNat_bounds {n : Nat} (hn : n ≠ 0) :
    2 ^ n.log2 ≤ roundNat n ∧ roundNat n ≤ 2 ^ (n.log2 + 1) := by
  cases Nat.le_total n.log2 52 with
  | inl hsmall =>
      rw [roundNat_of_small hsmall]
      exact ⟨Nat.log2_self_le hn, Nat.le_of_lt Nat.lt_log2_self⟩
  | inr hlarge =>
      rcases nearestEven_mantissa_bounds hlarge with ⟨hlow, hhigh⟩
      have hfrom : 2 ^ n.log2 = 2 ^ 52 * 2 ^ (n.log2 - 52) := by
        rw [← Nat.pow_add, Nat.add_sub_cancel' hlarge]
      have hto : 2 ^ (n.log2 + 1) = 2 ^ 53 * 2 ^ (n.log2 - 52) := by
        rw [← Nat.pow_add, show 53 + (n.log2 - 52) = n.log2 + 1 by omega]
      rw [hfrom, hto]
      exact ⟨Nat.mul_le_mul_right _ hlow, Nat.mul_le_mul_right _ hhigh⟩

theorem roundNat_mono {m n : Nat} (h : m ≤ n) : roundNat m ≤ roundNat n := by
  cases Decidable.em (m = 0) with
  | inl hzero =>
      rw [hzero, roundNat_of_small (by decide)]
      exact Nat.zero_le _
  | inr hm =>
      have hn : n ≠ 0 := by
        omega
      have hlog : m.log2 ≤ n.log2 :=
        (Nat.le_log2 hn).mpr (Nat.le_trans (Nat.log2_self_le hm) h)
      rcases Nat.lt_or_eq_of_le hlog with hlt | heq
      · calc
          roundNat m ≤ 2 ^ (m.log2 + 1) := (roundNat_bounds hm).right
          _ ≤ 2 ^ n.log2 := Nat.pow_le_pow_right (by decide) hlt
          _ ≤ roundNat n := (roundNat_bounds hn).left
      · unfold roundNat
        rw [heq]
        exact Nat.mul_le_mul_right _ (nearestEven_mono h _)

end Binary64
end Equate
