import Equate.Proofs.Binary64.Accuracy

/-!
# Rounded arithmetic

Sums, products and quotients of floats without a minus sign are computed exactly, or with the two
bits that recall what was cut off, and are then rounded once. The float that comes out is the one
nearest to the sum, the product or the quotient of the numbers for which the operands stand.
-/

namespace Equate
namespace Binary64

open Float.Model Float.Model.UnpackedFloat

/-!
## Operations
-/

theorem Stands.rounds {x : UnpackedFloat} {v : ℚ} (h : Stands x v) : Rounds v x := by
  have hself (n : Nat) : IsRounded n n := by
    refine ⟨?_, ?_⟩
    · rw [sub_self, abs_zero]
      norm_num
    · rw [sub_self, abs_zero]
      intro h
      norm_num at h
  cases h with
  | zero =>
      refine ⟨0, -1074, ⟨le_refl _, ?_, Or.inr rfl⟩, ?_, Or.inl ?_⟩
      · exact mul_pos (by norm_num) (two_zpow_pos _)
      · rw [zero_div]
        exact_mod_cast hself 0
      · rw [Nat.cast_zero, zero_mul]
        exact .zero
  | @finite m e hm hcanonical =>
      have hpos := two_zpow_pos e
      refine ⟨m, e, ⟨hcanonical.least, ?_, ?_⟩, ?_, Or.inl (.finite hm hcanonical)⟩
      · rw [mul_lt_mul_iff_left₀ hpos]
        exact_mod_cast hcanonical.small
      · rw [mul_le_mul_iff_left₀ hpos]
        exact hcanonical.full.imp_left fun h => by exact_mod_cast h
      · rw [mul_div_cancel_right₀ _ hpos.ne']
        exact hself m

theorem natCast_shiftLeft (m k : Nat) (e : Int) :
    ((m <<< k : Nat) : ℚ) * 2 ^ (e - k) = m * 2 ^ e := by
  rw [Nat.shiftLeft_eq, zpow_sub₀ two_ne_zero, zpow_natCast]
  push_cast
  field_simp

theorem rounds_round {m : Nat} (hm : m ≠ 0) (e : Int) :
    Rounds (m * 2 ^ e)
      (Float.Model.pack (UnpackedFloat.round Format.binary64 .positive m e)).unpack := by
  unfold UnpackedFloat.round decreaseExponent
  simp only [targetExponent_eq_max]
  have hlog := log2_shiftLeft hm (e - max ((m.log2 : Int) - 52 + e) (-1074)).toNat
  rw [← natCast_shiftLeft m (e - max ((m.log2 : Int) - 52 + e) (-1074)).toNat e]
  exact rounds_roundWithAccuracy (recalls_exact _) (by omega)

theorem normalize_of_pos {m : Nat} (hm : 0 < m) (e : Int) (zeroSign : Sign) :
    UnpackedFloat.normalize Format.binary64 m e zeroSign =
      UnpackedFloat.round Format.binary64 .positive m e := by
  unfold UnpackedFloat.normalize
  rw [Int.compare_eq_gt.mpr (by omega)]
  rfl

theorem divCore_eq {m n : Nat} (hm : 0 < m) (hn : 0 < n) (e f : Int) :
    exists (k : Nat) (target : Int),
      divCore Format.binary64 m e n f =
        ((m <<< k) / n, target, accuracyOfFraction ((m <<< k) % n) n) ∧
      (52 ≤ ((m <<< k) / n).log2 ∨ target ≤ -1074) ∧
      (((m <<< k) / n : Nat) + ((m <<< k) % n : Nat) / n : ℚ) * 2 ^ target =
        m * 2 ^ e / (n * 2 ^ f) := by
  have htarget : Format.binary64.targetExponent (totalExponent m e - totalExponent n f) =
      max ((m.log2 : Int) - n.log2 + (e - f) - 53) (-1074) := by
    show max ((m.log2 : Int) + 1 + e - (n.log2 + 1 + f) - 53) (3 - 2 ^ 10 - 53) = _
    omega
  generalize hleast : min (e - f) (max ((m.log2 : Int) - n.log2 + (e - f) - 53) (-1074)) = target
  generalize hk : (e - f - target).toNat = k
  have hlog := log2_shiftLeft hm.ne' k
  refine ⟨k, target, ?_, ?_, ?_⟩
  · unfold divCore
    simp only [htarget, hleast, hk]
  · rcases le_or_gt target (-1074) with hend | hmore
    · exact Or.inr hend
    · left
      have hdigits : 53 + n.log2 ≤ (m <<< k).log2 := by
        omega
      have hquotient : 2 ^ 52 ≤ (m <<< k) / n := by
        rw [Nat.le_div_iff_mul_le hn]
        calc
          2 ^ 52 * n ≤ 2 ^ 52 * 2 ^ (n.log2 + 1) :=
            Nat.mul_le_mul_left _ (Nat.le_of_lt Nat.lt_log2_self)
          _ = 2 ^ (53 + n.log2) := by
            rw [← Nat.pow_add]
            congr 1
            omega
          _ ≤ 2 ^ (m <<< k).log2 := Nat.pow_le_pow_right (by decide) hdigits
          _ ≤ m <<< k := Nat.log2_self_le (Nat.shiftLeft_pos_iff.mpr hm).ne'
      exact (Nat.le_log2 (by omega)).mpr hquotient
  · have hshifted := natCast_shiftLeft m k (target + k)
    have hexponents : e = target + k + f := by
      omega
    have hne : (n : ℚ) ≠ 0 := Nat.cast_ne_zero.mpr hn.ne'
    have hdivision : ((m <<< k : Nat) : ℚ) = n * ((m <<< k) / n : Nat) + ((m <<< k) % n : Nat) := by
      exact_mod_cast (Nat.div_add_mod _ _).symm
    have hpower := (two_zpow_pos f).ne'
    rw [add_sub_cancel_right] at hshifted
    rw [hexponents, zpow_add₀ two_ne_zero (target + k), ← mul_assoc, ← hshifted,
      mul_div_mul_right _ _ hpower, hdivision]
    field_simp

theorem rounds_zero : Rounds 0 (Float.Model.pack (.zero .positive)).unpack := by
  rw [Stands.zero.unpack_pack]
  exact Stands.zero.rounds

section

variable {x y : UnpackedFloat} {v w : ℚ} (hx : Stands x v) (hy : Stands y w)
include hx hy

theorem rounds_add :
    Rounds (v + w) (Float.Model.pack (UnpackedFloat.add Format.binary64 x y)).unpack := by
  have hpacked := hx.unpack_pack
  have hpacked' := hy.unpack_pack
  have hrounds := hx.rounds
  have hrounds' := hy.rounds
  cases hx with
  | zero =>
      rw [zero_add]
      cases hy with
      | zero => exact hrounds
      | finite hn _ =>
          rw [← hpacked'] at hrounds'
          exact hrounds'
  | @finite m e hm _ =>
      cases hy with
      | zero =>
          rw [add_zero]
          rw [← hpacked] at hrounds
          exact hrounds
      | @finite n f hn _ =>
          -- Both mantissas are brought to the smaller exponent.
          have hsum : (m * 2 ^ e + n * 2 ^ f : ℚ) =
              (m <<< (e - min e f).toNat + n <<< (f - min e f).toNat : Nat) * 2 ^ min e f := by
            have hleft := natCast_shiftLeft m (e - min e f).toNat e
            have hright := natCast_shiftLeft n (f - min e f).toNat f
            rw [show e - (e - min e f).toNat = min e f by omega] at hleft
            rw [show f - (f - min e f).toNat = min e f by omega] at hright
            rw [← hleft, ← hright, Nat.cast_add, add_mul]
          have hpos : 0 < m <<< (e - min e f).toNat + n <<< (f - min e f).toNat :=
            Nat.add_pos_left (Nat.shiftLeft_pos_iff.mpr hm) _
          rw [hsum]
          have hadd : UnpackedFloat.add Format.binary64 (.finite .positive m e hm)
              (.finite .positive n f hn) = UnpackedFloat.normalize Format.binary64
                (m <<< (e - min e f).toNat + n <<< (f - min e f).toNat : Nat) (min e f)
                .positive := rfl
          rw [hadd, normalize_of_pos hpos]
          exact rounds_round hpos.ne' _

theorem rounds_mul :
    Rounds (v * w) (Float.Model.pack (UnpackedFloat.mul Format.binary64 x y)).unpack := by
  cases hx with
  | zero =>
      rw [zero_mul]
      cases hy with
      | zero => exact rounds_zero
      | finite _ _ => exact rounds_zero
  | @finite m e hm hcanonical =>
      cases hy with
      | zero =>
          rw [mul_zero]
          exact rounds_zero
      | @finite n f hn hcanonical' =>
          have hproduct : (m * 2 ^ e * (n * 2 ^ f) : ℚ) = (m * n : Nat) * 2 ^ (e + f) := by
            rw [zpow_add₀ two_ne_zero, Nat.cast_mul]
            ring
          have henough : 52 ≤ (m * n).log2 ∨ e + f ≤ -1074 := by
            have hne : m * n ≠ 0 := (Nat.mul_pos hm hn).ne'
            rcases hcanonical.full with hfull | hleast
            · exact Or.inl ((Nat.le_log2 hne).mpr (hfull.trans (Nat.le_mul_of_pos_right m hn)))
            · rcases hcanonical'.full with hfull | hleast'
              · exact Or.inl ((Nat.le_log2 hne).mpr (hfull.trans (Nat.le_mul_of_pos_left n hm)))
              · exact Or.inr (by omega)
          rw [hproduct]
          exact rounds_roundWithAccuracy (recalls_exact _) henough

theorem rounds_div (hw : 0 < w) :
    Rounds (v / w) (Float.Model.pack (UnpackedFloat.div Format.binary64 x y)).unpack := by
  cases hy with
  | zero => exact absurd hw (lt_irrefl 0)
  | @finite n f hn _ =>
      cases hx with
      | zero =>
          rw [zero_div]
          exact rounds_zero
      | @finite m e hm _ =>
          rcases divCore_eq hm hn e f with ⟨shift, target, hcore, henough, hvalue⟩
          have hdiv : UnpackedFloat.div Format.binary64 (.finite .positive m e hm)
              (.finite .positive n f hn) = roundWithAccuracy Format.binary64 .positive
                (divCore Format.binary64 m e n f).1 (divCore Format.binary64 m e n f).2.1
                (divCore Format.binary64 m e n f).2.2 := rfl
          rw [hdiv, hcore, ← hvalue]
          exact rounds_roundWithAccuracy (recalls_fraction _ (Nat.mod_lt _ hn)) henough

end

end Binary64
end Equate
