import Equate.Proofs.Binary64.Binade

/-!
# Rational values

A finite float stands for a rational number, and no other float without a minus sign stands for
it. The mantissa of a float is full unless the exponent is the least one, so that mantissa and
exponent can be told from the number, and packing keeps both.
-/

namespace Equate
namespace Binary64

open Float.Model Float.Model.UnpackedFloat

/-!
## Floats that are not negative
-/

/-- The mantissas and exponents of floats. Only at the least exponent a mantissa may be short. -/
structure Canonical (m : Nat) (e : Int) : Prop where
  small : m < 2 ^ 53
  least : -1074 ≤ e
  greatest : e ≤ 971
  full : 2 ^ 52 ≤ m ∨ e = -1074

/-- A float without a minus sign, and the number for which it stands. -/
inductive Stands : UnpackedFloat -> ℚ -> Prop where
  | zero : Stands (.zero .positive) 0
  | finite {m : Nat} {e : Int} (hm : 0 < m) : Canonical m e ->
      Stands (.finite .positive m e hm) (m * 2 ^ e)

theorem two_zpow_pos (e : Int) : (0 : ℚ) < 2 ^ e :=
  zpow_pos two_pos e

theorem Stands.nonneg {x : UnpackedFloat} {v : ℚ} (h : Stands x v) : 0 ≤ v := by
  cases h with
  | zero => exact le_refl 0
  | finite hm hcanonical => exact mul_nonneg (Nat.cast_nonneg _) (two_zpow_pos _).le

theorem Stands.isInf_eq_false {x : UnpackedFloat} {v : ℚ} (h : Stands x v) : x.isInf = false := by
  cases h with
  | zero => rfl
  | finite _ _ => rfl

theorem two_zpow_add_natCast (e : Int) (n : Nat) : (2 : ℚ) ^ (e + n) = 2 ^ e * 2 ^ n := by
  rw [zpow_add₀ two_ne_zero, zpow_natCast]

theorem two_pow_log2_mul (m : Nat) (e : Int) :
    (2 : ℚ) ^ (m.log2 + 1) * 2 ^ e = 2 ^ ((m.log2 : Int) + 1 + e) := by
  rw [zpow_add₀ two_ne_zero _ e, zpow_add_one₀ two_ne_zero, pow_succ, zpow_natCast]

theorem Canonical.unique {m n : Nat} {e f : Int} (hm : Canonical m e) (hn : Canonical n f)
    (h : (m * 2 ^ e : ℚ) = n * 2 ^ f) : m = n ∧ e = f := by
  wlog hle : e ≤ f generalizing m n e f
  · rcases this hn hm h.symm (by omega) with ⟨hmantissa, hexponent⟩
    exact ⟨hmantissa.symm, hexponent.symm⟩
  rcases Int.le.dest hle with ⟨k, rfl⟩
  rw [two_zpow_add_natCast, mul_comm (2 ^ e : ℚ), ← mul_assoc,
    mul_left_inj' (two_zpow_pos e).ne'] at h
  have hshifted : m = n * 2 ^ k := by
    exact_mod_cast h
  have hsmall := hm.small
  have hleast := hm.least
  cases k with
  | zero => exact ⟨by simpa using hshifted, by omega⟩
  | succ k =>
      -- A float with a greater exponent has a full mantissa.
      have hfull : 2 ^ 52 ≤ n := hn.full.resolve_right (by omega)
      have hdouble : 2 * n ≤ n * 2 ^ (k + 1) := by
        rw [Nat.mul_comm 2 n]
        exact Nat.mul_le_mul_left n (Nat.le_self_pow (Nat.succ_ne_zero k) 2)
      omega

theorem Stands.unique {x y : UnpackedFloat} {v : ℚ} (hx : Stands x v) (hy : Stands y v) :
    x = y := by
  generalize hw : v = w at hy
  cases hx with
  | zero =>
      cases hy with
      | zero => rfl
      | finite hn _ =>
          have hpos := mul_pos (Nat.cast_pos.mpr hn) (two_zpow_pos ‹Int›)
          exact absurd hw hpos.ne
  | finite hm hx =>
      cases hy with
      | zero =>
          have hpos := mul_pos (Nat.cast_pos.mpr hm) (two_zpow_pos ‹Int›)
          exact absurd hw hpos.ne'
      | finite hn hy =>
          rcases hx.unique hy hw with ⟨rfl, rfl⟩
          rfl

/-!
## Packing
-/

theorem unpack_pack_short (sign : Sign) {m : Nat} (hpos : 0 < m) (hm : m < 2 ^ 52) :
    (Float.Model.pack (.finite sign m (-1074) hpos)).unpack = .finite sign m (-1074) hpos := by
  have hlog : m.log2 < 52 := (Nat.log2_lt (Nat.ne_of_gt hpos)).mpr hm
  have hbits : m.log2 + 1 ≠ Format.binary64.mantissaBits := by
    show m.log2 + 1 ≠ 53
    omega
  have hvalue : (BitVec.ofNat 52 m).toNat = m := by
    rw [BitVec.toNat_ofNat, Nat.mod_eq_of_lt hm]
  have hne : BitVec.ofNat 52 m ≠ 0#52 := by
    intro h
    rw [h] at hvalue
    exact Nat.ne_of_gt hpos hvalue.symm
  show UnpackedFloat.unpack Format.binary64
    (UnpackedFloat.pack Format.binary64 (.finite sign m (-1074) hpos)) = _
  rw [UnpackedFloat.pack]
  simp only [if_neg hbits]
  rw [if_neg (by decide)]
  unfold UnpackedFloat.unpack
  simp only [unpackMantissa_packComponents, unpackExponent_packComponents,
    unpackSign_packComponents, Sign.ofBitVec_toBitVec, dif_neg hne, hvalue]
  rfl

theorem Canonical.unpack_pack {m : Nat} {e : Int} (h : Canonical m e) (sign : Sign)
    (hpos : 0 < m) :
    (Float.Model.pack (.finite sign m e hpos)).unpack = .finite sign m e hpos := by
  rcases Nat.lt_or_ge m (2 ^ 52) with hshort | hfull
  · cases h.full.resolve_left (Nat.not_le.mpr hshort)
    exact unpack_pack_short sign hpos hshort
  · exact Binary64.unpack_pack ⟨sign, m, e, hpos, rfl, ⟨hfull, h.small⟩, h.least, h.greatest⟩

theorem Stands.unpack_pack {x : UnpackedFloat} {v : ℚ} (h : Stands x v) :
    (Float.Model.pack x).unpack = x := by
  cases h with
  | zero => rfl
  | finite hm hcanonical => exact hcanonical.unpack_pack .positive hm

theorem canonical_of_unpack {x : Float.Model} {sign : Sign} {m : Nat} {e : Int} {hpos : 0 < m}
    (h : x.unpack = .finite sign m e hpos) : Canonical m e := by
  have hmantissa : (@unpackMantissa Format.binary64 x.toBits.toBitVec).toNat < 2 ^ 52 :=
    (@unpackMantissa Format.binary64 x.toBits.toBitVec).isLt
  have hexponent : (@unpackExponent Format.binary64 x.toBits.toBitVec).toNat < 2 ^ 11 :=
    (@unpackExponent Format.binary64 x.toBits.toBitVec).isLt
  have hbias : (Format.binary64.exponentBias : Int) + 52 = 1075 := rfl
  unfold Float.Model.unpack UnpackedFloat.unpack at h
  dsimp only at h
  split at h
  · split at h <;> cases h
  · rename_i hones
    split at h
    · rename_i hzero
      split at h
      · cases h
      · cases h
        have hleast : (@unpackExponent Format.binary64 x.toBits.toBitVec).toNat = 0 := by
          rw [hzero]
          rfl
        exact ⟨by omega, by omega, by omega, Or.inr (by omega)⟩
    · rename_i hnonzero
      cases h
      have hlow : (@unpackExponent Format.binary64 x.toBits.toBitVec).toNat ≠ 0 :=
        fun h => hnonzero (BitVec.eq_of_toNat_eq h)
      have hhigh : (@unpackExponent Format.binary64 x.toBits.toBitVec).toNat ≠ 2047 :=
        fun h => hones (BitVec.eq_of_toNat_eq h)
      have hvalue : (1#1 ++ @unpackMantissa Format.binary64 x.toBits.toBitVec).toNat =
          2 ^ 52 + (@unpackMantissa Format.binary64 x.toBits.toBitVec).toNat := by
        rw [BitVec.toNat_append, ← Nat.shiftLeft_add_eq_or_of_lt hmantissa]
        rfl
      rw [hvalue]
      exact ⟨by omega, by omega, by omega, Or.inl (Nat.le_add_right _ _)⟩

end Binary64
end Equate
