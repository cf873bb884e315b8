import Equate.Binary64
import Mathlib

/-!
# Binades

A binade holds the floats of one exponent that use the whole mantissa. Rounding keeps a
number that is large enough in the binade of its leading digit or moves it to the start
of the next one, and packing loses nothing there. A word other than zero is therefore
converted to a float other than zero, also on the way through half of the word.
-/

namespace Equate
namespace Binary64

open Float.Model Float.Model.UnpackedFloat

/-- A finite float with a mantissa of 53 digits and an exponent between two bounds. -/
def InBinades (lowest highest : Int) (x : UnpackedFloat) : Prop :=
  exists sign m e, exists h : 0 < m,
    x = .finite sign m e h ∧ (2 ^ 52 ≤ m ∧ m < 2 ^ 53) ∧ lowest ≤ e ∧ e ≤ highest

theorem InBinades.mono {lowest highest lowest' highest' : Int} {x : UnpackedFloat}
    (h : InBinades lowest highest x) (hlow : lowest' ≤ lowest) (hhigh : highest ≤ highest') :
    InBinades lowest' highest' x := by
  rcases h with ⟨sign, m, e, hpos, rfl, hm, hle, hge⟩
  exact ⟨sign, m, e, hpos, rfl, hm, Int.le_trans hlow hle, Int.le_trans hge hhigh⟩

theorem log2_of_mantissa {m : Nat} (hlow : 2 ^ 52 ≤ m) (hhigh : m < 2 ^ 53) :
    m.log2 = 52 :=
  (Nat.log2_eq_iff (by omega)).mpr ⟨hlow, hhigh⟩

/-!
## Packing
-/

/-- The mantissa with its leading digit, which a packed float leaves out. -/
theorem toNat_one_append {m : Nat} (hlow : 2 ^ 52 ≤ m) (hhigh : m < 2 ^ 53) :
    (1#1 ++ BitVec.ofNat 52 m).toNat = m := by
  have hmod : m % 2 ^ 52 = m - 2 ^ 52 := by
    omega
  rw [BitVec.toNat_append, BitVec.toNat_ofNat, BitVec.toNat_ofNat, hmod,
    ← Nat.shiftLeft_add_eq_or_of_lt (by omega), Nat.shiftLeft_eq]
  omega

theorem unpack_pack {x : UnpackedFloat} (h : InBinades (-1074) 971 x) :
    (Float.Model.pack x).unpack = x := by
  rcases h with ⟨sign, m, e, hpos, rfl, ⟨hlow, hhigh⟩, hle, hge⟩
  have hbits : m.log2 + 1 = Format.binary64.mantissaBits := by
    rw [log2_of_mantissa hlow hhigh]
    rfl
  rcases Int.eq_ofNat_of_zero_le (show 0 ≤ e + 1023 + 52 by omega) with ⟨n, hn⟩
  have hbiased : (e + Format.binary64.exponentBias +
      Format.binary64.mantissaBitsWithoutImplicit).toNat = n := by
    show (e + 1023 + 52).toNat = n
    omega
  have hsmall : ¬ 2 ^ Format.binary64.exponentBits ≤ n + 1 := by
    show ¬ 2 ^ 11 ≤ n + 1
    omega
  have hexponent : (BitVec.ofNat 11 n).toNat = n := by
    rw [BitVec.toNat_ofNat, Nat.mod_eq_of_lt (by omega)]
  have hones : BitVec.ofNat 11 n ≠ -1#11 := by
    intro h
    have hvalue : (-1#11).toNat = n := h ▸ hexponent
    have hall : (-1#11).toNat = 2047 := rfl
    omega
  have hzero : BitVec.ofNat 11 n ≠ 0#11 := by
    intro h
    have hvalue : (0#11).toNat = n := h ▸ hexponent
    have hnone : (0#11).toNat = 0 := rfl
    omega
  have hreturn : ((BitVec.ofNat 11 n).toNat : Int) -
      (Format.binary64.exponentBias + Format.binary64.mantissaBitsWithoutImplicit) = e := by
    rw [hexponent]
    show (n : Int) - (1023 + 52) = e
    omega
  show UnpackedFloat.unpack Format.binary64
    (UnpackedFloat.pack Format.binary64 (.finite sign m e hpos)) = _
  rw [UnpackedFloat.pack]
  simp only [hbiased, if_neg hsmall, if_pos hbits]
  unfold UnpackedFloat.unpack
  simp only [unpackMantissa_packComponents, unpackExponent_packComponents, if_neg hones,
    if_neg hzero, unpackSign_packComponents, Sign.ofBitVec_toBitVec,
    toNat_one_append hlow hhigh, hreturn]

theorem InBinades.pack {lowest highest : Int} {x : UnpackedFloat}
    (h : InBinades lowest highest x) (hlow : -1074 ≤ lowest) (hhigh : highest ≤ 971) :
    InBinades lowest highest (Float.Model.pack x).unpack := by
  rw [unpack_pack (h.mono hlow hhigh)]
  exact h

/-!
## Rounding

Rounding shifts the mantissa until 53 digits are left, rounds, and shifts once more if
the rounded mantissa has grown by a digit.
-/

theorem mantissa_shiftRight (em : ExtendedMantissa) (n : Nat) :
    (em >>> n).mantissa = em.mantissa / 2 ^ n := by
  induction n with
  | zero => exact (Nat.div_one em.mantissa).symm
  | succ n ih =>
      have hstep : (em >>> (n + 1)).mantissa = (em >>> n).mantissa / 2 := rfl
      rw [hstep, ih, Nat.div_div_eq_div_mul, Nat.pow_succ]

theorem roundedMantissa_bounds (em : ExtendedMantissa) :
    em.mantissa ≤ em.roundedMantissa ∧ em.roundedMantissa ≤ em.mantissa + 1 := by
  rcases em with ⟨m, roundBit, stickyBit⟩
  have hparity := Nat.mod_lt m (show 0 < 2 by decide)
  cases roundBit with
  | false => cases stickyBit <;> exact ⟨Nat.le_refl m, Nat.le_succ m⟩
  | true =>
      cases stickyBit with
      | false =>
          show m ≤ m + m % 2 ∧ m + m % 2 ≤ m + 1
          omega
      | true => exact ⟨Nat.le_succ m, Nat.le_refl (m + 1)⟩

theorem mantissa_ofMantissaAndAccuracy (m : Nat) (accuracy : Accuracy) :
    (ExtendedMantissa.ofMantissaAndAccuracy m accuracy).mantissa = m := by
  rcases accuracy with _ | order
  · rfl
  · cases order <;> rfl

theorem targetExponent_eq {m : Nat} {e : Int} (h : -1074 ≤ m.log2 - 52 + e) :
    Format.binary64.targetExponent (totalExponent m e) = m.log2 - 52 + e := by
  show max ((m.log2 : Int) + 1 + e - 53) (3 - 2 ^ 10 - 53) = _
  omega

theorem shiftToTargetExponent_eq {m : Nat} {e : Int} (hm : 52 ≤ m.log2)
    (h : -1074 ≤ m.log2 - 52 + e) (accuracy : Accuracy) :
    shiftToTargetExponent Format.binary64 m e accuracy =
      (ExtendedMantissa.ofMantissaAndAccuracy m accuracy >>> (m.log2 - 52),
        m.log2 - 52 + e) := by
  have hshift : ((m.log2 : Int) - 52 + e - e).toNat = m.log2 - 52 := by
    omega
  unfold shiftToTargetExponent shiftToExponent
  simp only [targetExponent_eq h, hshift]
  congr 1
  omega

theorem mantissa_shifted (m k : Nat) (accuracy : Accuracy) :
    (ExtendedMantissa.ofMantissaAndAccuracy m accuracy >>> k).mantissa = m / 2 ^ k := by
  rw [mantissa_shiftRight, mantissa_ofMantissaAndAccuracy]

theorem div_pow_log2_bounds {m : Nat} (hm : 52 ≤ m.log2) :
    2 ^ 52 ≤ m / 2 ^ (m.log2 - 52) ∧ m / 2 ^ (m.log2 - 52) < 2 ^ 53 := by
  have hne : m ≠ 0 := by
    intro h
    rw [h] at hm
    exact absurd hm (by decide)
  have hpos : 0 < 2 ^ (m.log2 - 52) := Nat.two_pow_pos _
  constructor
  · rw [Nat.le_div_iff_mul_le hpos, ← Nat.pow_add, Nat.add_sub_cancel' hm]
    exact Nat.log2_self_le hne
  · rw [Nat.div_lt_iff_lt_mul hpos, ← Nat.pow_add]
    have hexponent : 53 + (m.log2 - 52) = m.log2 + 1 := by
      omega
    rw [hexponent]
    exact Nat.lt_log2_self

theorem roundWithAccuracy_inBinades (sign : Sign) {m : Nat} {e : Int} (hm : 52 ≤ m.log2)
    (h : -1074 ≤ m.log2 - 52 + e) (accuracy : Accuracy) :
    InBinades (m.log2 - 52 + e) (m.log2 - 52 + e + 1)
      (roundWithAccuracy Format.binary64 sign m e accuracy) := by
  have hfirst := shiftToTargetExponent_eq hm h accuracy
  have hem := mantissa_shifted m (m.log2 - 52) accuracy
  generalize ExtendedMantissa.ofMantissaAndAccuracy m accuracy >>> (m.log2 - 52) = em
    at hfirst hem
  rcases div_pow_log2_bounds hm with ⟨hlow, hhigh⟩
  rcases roundedMantissa_bounds em with ⟨hle, hge⟩
  rw [hem] at hle hge
  have hne : em.roundedMantissa ≠ 0 := by
    omega
  -- The rounded mantissa has 53 digits, or it is the power of two with 54.
  have hleast : 52 ≤ em.roundedMantissa.log2 :=
    (Nat.le_log2 hne).mpr (Nat.le_trans hlow hle)
  have hmost : em.roundedMantissa.log2 < 54 :=
    (Nat.log2_lt hne).mpr (by omega)
  have hlast := shiftToTargetExponent_eq (e := m.log2 - 52 + e) hleast (by omega) .exact
  rcases div_pow_log2_bounds hleast with ⟨hlow', hhigh'⟩
  rw [← mantissa_shifted _ _ .exact] at hlow' hhigh'
  have hpos : 0 < (ExtendedMantissa.ofMantissaAndAccuracy em.roundedMantissa .exact >>>
      (em.roundedMantissa.log2 - 52)).mantissa := by
    omega
  unfold roundWithAccuracy
  simp only [hfirst, hlast, dif_neg (Nat.ne_of_gt hpos)]
  exact ⟨sign, _, _, hpos, rfl, ⟨hlow', hhigh'⟩, by omega, by omega⟩

theorem log2_shiftLeft {m : Nat} (hm : m ≠ 0) (n : Nat) :
    (m <<< n).log2 = m.log2 + n := by
  have hne : m <<< n ≠ 0 := by
    rw [Nat.shiftLeft_eq]
    exact Nat.mul_ne_zero hm (Nat.ne_of_gt (Nat.two_pow_pos n))
  rw [Nat.log2_eq_iff hne, Nat.shiftLeft_eq, Nat.pow_add,
    show m.log2 + n + 1 = m.log2 + 1 + n by omega, Nat.pow_add]
  constructor
  · exact Nat.mul_le_mul_right (2 ^ n) (Nat.log2_self_le hm)
  · exact Nat.mul_lt_mul_of_pos_right Nat.lt_log2_self (Nat.two_pow_pos n)

theorem round_inBinades (sign : Sign) {m : Nat} {e : Int} (hm : m ≠ 0)
    (h : -1074 ≤ m.log2 - 52 + e) :
    InBinades (m.log2 - 52 + e) (m.log2 - 52 + e + 1)
      (UnpackedFloat.round Format.binary64 sign m e) := by
  unfold UnpackedFloat.round decreaseExponent
  simp only [targetExponent_eq h]
  have hlog := log2_shiftLeft hm (e - (m.log2 - 52 + e)).toNat
  have hleast : 52 ≤ (m <<< (e - (m.log2 - 52 + e)).toNat).log2 := by
    omega
  have hrounded := roundWithAccuracy_inBinades sign (e := e - (e - (m.log2 - 52 + e)).toNat)
    hleast (by omega) .exact
  exact hrounded.mono (by omega) (by omega)

/-!
## Operations
-/

theorem mul_inBinades {a b c d : Int} {x y : UnpackedFloat} (hx : InBinades a b x)
    (hy : InBinades c d y) (h : -1126 ≤ a + c) :
    InBinades (a + c + 52) (b + d + 54) (UnpackedFloat.mul Format.binary64 x y) := by
  rcases hx with ⟨s, m, e, hpos, rfl, ⟨hlow, hhigh⟩, hle, hge⟩
  rcases hy with ⟨t, n, f, hpos', rfl, ⟨hlow', hhigh'⟩, hle', hge'⟩
  have hne : m * n ≠ 0 := Nat.ne_of_gt (Nat.mul_pos hpos hpos')
  have hfrom : 2 ^ 52 * 2 ^ 52 ≤ m * n := Nat.mul_le_mul hlow hlow'
  have hto : m * n < 2 ^ 53 * 2 ^ 53 := Nat.mul_lt_mul_of_lt_of_le hhigh (Nat.le_of_lt hhigh')
    (Nat.two_pow_pos 53)
  have hleast : 104 ≤ (m * n).log2 := (Nat.le_log2 hne).mpr hfrom
  have hmost : (m * n).log2 < 106 := (Nat.log2_lt hne).mpr hto
  have hrounded := roundWithAccuracy_inBinades (s * t) (m := m * n) (e := e + f)
    (by omega) (by omega) .exact
  exact hrounded.mono (by omega) (by omega)

theorem neg_inBinades {a b : Int} {x : UnpackedFloat} (hx : InBinades a b x) :
    InBinades a b x.neg := by
  rcases hx with ⟨s, m, e, hpos, rfl, hm, he⟩
  exact ⟨-s, m, e, hpos, rfl, hm, he⟩

/-!
## Zero
-/

theorem beq_zero_iff (x : Float) : (x == 0.0) = true ↔ x = 0.0 ∨ x = -0.0 := by
  constructor
  · intro h
    rcases Float.beq_iff_ne_nan_and_eq.mp h with ⟨_, _, hzero | ⟨hzero, _⟩ | ⟨hzero, _⟩⟩
    · exact Or.inl hzero
    · exact Or.inl hzero
    · exact Or.inr hzero
  · rintro (rfl | rfl)
    · rfl
    · rfl

theorem InBinades.not_beq_zero {lowest highest : Int} {x : Float}
    (h : InBinades lowest highest x.toModel.unpack) : ¬ (x == 0.0) = true := by
  intro heq
  rcases h with ⟨sign, m, e, hpos, hfinite, _⟩
  rcases (beq_zero_iff x).mp heq with rfl | rfl
  · have hzero : (0.0 : Float).toModel.unpack = .zero .positive := rfl
    rw [hzero] at hfinite
    cases hfinite
  · have hzero : (-0.0 : Float).toModel.unpack = .zero .negative := rfl
    rw [hzero] at hfinite
    cases hfinite

/-!
## Words
-/

theorem ofUInt64_eq_round {u : UInt64} (hu : u.toNat ≠ 0) :
    UnpackedFloat.ofUInt64 Format.binary64 u =
      UnpackedFloat.round Format.binary64 .positive u.toNat 0 := by
  have hpos : compare (u.toNat : Int) 0 = .gt := Int.compare_eq_gt.mpr (by omega)
  show UnpackedFloat.normalize Format.binary64 u.toNat 0 .positive = _
  unfold UnpackedFloat.normalize
  rw [hpos]
  rfl

theorem toFloat_inBinades {u : UInt64} (hu : u ≠ 0) :
    InBinades (-52) 12 u.toFloat.toModel.unpack := by
  have hne : u.toNat ≠ 0 := by
    intro h
    exact hu (UInt64.toNat_inj.mp h)
  have hmost : u.toNat.log2 < 64 := (Nat.log2_lt hne).mpr u.toNat_lt
  have hbinades : InBinades (-52) 12 (UnpackedFloat.ofUInt64 Format.binary64 u) := by
    rw [ofUInt64_eq_round hne]
    exact (round_inBinades .positive hne (by omega)).mono (by omega) (by omega)
  exact hbinades.pack (by decide) (by decide)

theorem two_inBinades : InBinades (-51) (-51) (2.0 : Float).toModel.unpack :=
  ⟨.positive, 2 ^ 52, -51, by decide, rfl, ⟨by decide, by decide⟩, by decide, by decide⟩

theorem ofUnsigned_inBinades {u : UInt64} (hu : u ≠ 0) :
    InBinades (-52) 15 (ofUnsigned u).toModel.unpack := by
  unfold ofUnsigned
  split
  · exact (toFloat_inBinades hu).mono (by decide) (by decide)
  · rename_i hlarge
    have hhalf : u >>> 1 ≠ 0 := by
      intro h
      have hvalue : u.toNat / 2 = 0 := by
        simpa [UInt64.toNat_shiftRight, Nat.shiftRight_eq_div_pow] using
          congrArg UInt64.toNat h
      have hlarge' : 2 ^ 63 ≤ u.toNat := by
        simpa [signBit, UInt64.lt_iff_toNat_lt] using hlarge
      omega
    have hproduct := mul_inBinades (toFloat_inBinades hhalf) two_inBinades (by decide)
    exact (hproduct.pack (by decide) (by decide)).mono (by decide) (by decide)

theorem ofSigned_inBinades {i : Int64} (hi : i ≠ 0) :
    InBinades (-52) 12 (ofSigned i).toModel.unpack := by
  have hword : i.toUInt64 ≠ 0 := by
    intro h
    exact hi (congrArg UInt64.toInt64 h)
  unfold ofSigned
  split
  · have hopposite : 0 - i.toUInt64 ≠ 0 := by
      intro h
      rw [UInt64.sub_eq_iff_eq_add, UInt64.zero_add] at h
      exact hword h.symm
    have hneg := neg_inBinades (toFloat_inBinades hopposite)
    exact hneg.pack (by decide) (by decide)
  · exact toFloat_inBinades hword

theorem ofUnsigned_beq_zero_iff (u : UInt64) : (ofUnsigned u == 0.0) = true ↔ u = 0 := by
  constructor
  · intro h
    cases Decidable.em (u = 0) with
    | inl hu => exact hu
    | inr hu => exact absurd h (ofUnsigned_inBinades hu).not_beq_zero
  · intro hu
    rw [hu]
    rfl

theorem ofSigned_beq_zero_iff (i : Int64) : (ofSigned i == 0.0) = true ↔ i = 0 := by
  constructor
  · intro h
    cases Decidable.em (i = 0) with
    | inl hi => exact hi
    | inr hi => exact absurd h (ofSigned_inBinades hi).not_beq_zero
  · intro hi
    rw [hi]
    rfl

end Binary64
end Equate
