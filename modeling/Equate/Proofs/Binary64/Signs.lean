import Equate.Proofs.Binary64.Closeness
import Equate.Proofs.Binary64.Rounding

/-!
# Signs and magnitudes

Every float but NaN has a sign, and every finite one has a magnitude. Both together tell a float
from all others. The sign is the greatest bit. A negation turns the sign and keeps the magnitude,
and a product with one keeps both.
-/

namespace Equate
namespace Binary64

open Float.Model Float.Model.UnpackedFloat

def sign? : UnpackedFloat -> Option Sign
  | .notANumber => none
  | .infinity s => some s
  | .zero s => some s
  | .finite s _ _ _ => some s

def magnitude? : UnpackedFloat -> Option ℚ
  | .notANumber => none
  | .infinity _ => none
  | .zero _ => some 0
  | .finite _ m e _ => some (m * 2 ^ e)

/-!
## Negation
-/

theorem sign?_neg (x : UnpackedFloat) : sign? x.neg = (sign? x).map (- ·) := by
  cases x <;> rfl

theorem magnitude?_neg (x : UnpackedFloat) : magnitude? x.neg = magnitude? x := by
  cases x <;> rfl

section

variable {x : UnpackedFloat} {v w : ℚ}

theorem Reaches.sign?_eq (h : Reaches x v) : sign? x = some .positive := by
  rcases h with hstands | ⟨rfl, _⟩
  · cases hstands with
    | zero => rfl
    | finite _ _ => rfl
  · rfl

theorem Stands.magnitude?_eq (h : Stands x v) : magnitude? x = some v := by
  cases h with
  | zero => rfl
  | finite _ _ => rfl

theorem Reaches.eq_of_magnitude? (h : Reaches x v) (hw : magnitude? x = some w) : w = v := by
  rcases h with hstands | ⟨rfl, _⟩
  · exact Option.some_inj.mp (hw.symm.trans hstands.magnitude?_eq)
  · cases hw

theorem Reaches.limit_le (h : Reaches x v) (hnone : magnitude? x = none) : 2 ^ 1024 ≤ v := by
  rcases h with hstands | ⟨_, hlimit⟩
  · cases hstands.magnitude?_eq.symm.trans hnone
  · exact hlimit

theorem Reaches.unpack_pack_neg (h : Reaches x v) : (Float.Model.pack x.neg).unpack = x.neg := by
  rcases h with hstands | ⟨rfl, _⟩
  · cases hstands with
    | zero => rfl
    | finite hm hcanonical => exact hcanonical.unpack_pack .negative hm
  · rfl

end

def signed : Sign -> UnpackedFloat -> UnpackedFloat
  | .positive, x => x
  | .negative, x => x.neg

theorem magnitude?_signed (s : Sign) (x : UnpackedFloat) :
    magnitude? (signed s x) = magnitude? x := by
  cases s with
  | positive => rfl
  | negative => exact magnitude?_neg x

theorem Reaches.sign?_signed {x : UnpackedFloat} {v : ℚ} (h : Reaches x v) (s : Sign) :
    sign? (signed s x) = some s := by
  cases s with
  | positive => exact h.sign?_eq
  | negative =>
      rw [signed, sign?_neg, h.sign?_eq]
      rfl

/-!
## Signs that can be read off
-/

section

variable {x : Float}

theorem isNaN_of_sign? (h : sign? x.toModel.unpack ≠ none) : x.isNaN = false := by
  show x.toModel.unpack.isNaN = false
  cases hu : x.toModel.unpack with
  | notANumber =>
      rw [hu] at h
      exact absurd rfl h
  | infinity s => rfl
  | zero s => rfl
  | finite s m e hm => rfl

theorem eq_unpackSign {s : Sign} (h : sign? x.toModel.unpack = some s) :
    s = .ofBitVec (@unpackSign Format.binary64 x.toBits.toBitVec) := by
  show s = .ofBitVec (@unpackSign Format.binary64 x.toModel.toBits.toBitVec)
  unfold Float.Model.unpack UnpackedFloat.unpack at h
  dsimp only at h
  split at h
  · split at h
    · exact (Option.some_inj.mp h).symm
    · cases h
  · split at h
    · split at h
      · exact (Option.some_inj.mp h).symm
      · exact (Option.some_inj.mp h).symm
    · exact (Option.some_inj.mp h).symm

theorem msb_toBits_iff {s : Sign} (h : sign? x.toModel.unpack = some s) :
    x.toBits.toBitVec.msb = true ↔ s = .negative := by
  have hbit : @unpackSign Format.binary64 x.toBits.toBitVec =
      BitVec.ofBool x.toBits.toBitVec.msb := by
    apply BitVec.eq_of_getLsbD_eq
    intro i hi
    cases Nat.lt_one_iff.mp hi
    rw [BitVec.msb_eq_getLsbD_last]
    simp only [unpackSign, BitVec.getLsbD_cast, BitVec.getLsbD_extractLsb, BitVec.getLsbD_ofBool]
    rfl
  rw [eq_unpackSign h, hbit]
  cases x.toBits.toBitVec.msb with
  | false => exact ⟨nofun, nofun⟩
  | true => exact ⟨fun _ => rfl, fun _ => rfl⟩

end

/-!
## Equality
-/

theorem compare_self {x : UnpackedFloat} (h : sign? x ≠ none) : x.compare x = some .eq := by
  cases x with
  | notANumber => exact absurd rfl h
  | infinity s => cases s <;> rfl
  | zero s => rfl
  | finite s m e hm =>
      have hself : (compare e e).then (compare m m) = .eq := by
        rw [Int.compare_eq_eq.mpr rfl, Nat.compare_eq_eq.mpr rfl]
        rfl
      cases s with
      | positive => exact congrArg some hself
      | negative => exact congrArg (fun order => some order.swap) hself

section

variable {x y : Float}

/-- Floats that are equal are the same one unless they are zeros with different signs. -/
theorem eq_of_beq (h : (x == y) = true)
    (hsign : sign? x.toModel.unpack = sign? y.toModel.unpack) : x = y := by
  rcases Float.beq_iff_ne_nan_and_eq.mp h with ⟨_, _, hsame | ⟨rfl, rfl⟩ | ⟨rfl, rfl⟩⟩
  · exact hsame
  · cases hsign
  · cases hsign

theorem beq_of_unpack (h : x.toModel.unpack = y.toModel.unpack)
    (hx : sign? x.toModel.unpack ≠ none) : (x == y) = true := by
  show (x.toModel.unpack.compare y.toModel.unpack == some .eq) = true
  rw [← h, compare_self hx]
  rfl

theorem ext_of_unpack (h : x.toModel.unpack = y.toModel.unpack)
    (hx : sign? x.toModel.unpack ≠ none) : x = y :=
  eq_of_beq (beq_of_unpack h hx) (congrArg sign? h)

theorem same_eq_decide (hsign : sign? x.toModel.unpack = sign? y.toModel.unpack)
    (hx : sign? x.toModel.unpack ≠ none) : same x y = decide (x = y) := by
  rw [same, isNaN_of_sign? hx, Bool.false_and, Bool.false_or, Bool.eq_iff_iff, decide_eq_true_eq]
  constructor
  · intro h
    exact eq_of_beq h hsign
  · rintro rfl
    exact beq_of_unpack rfl hx

end

/-!
## Products with one
-/

theorem roundWithAccuracy_shifted (sign : Sign) {m : Nat} {e : Int} (hpos : 0 < m)
    (h : Canonical m e) :
    roundWithAccuracy Format.binary64 sign (m * 2 ^ 52) (e + -52) .exact =
      .finite sign m e hpos := by
  have hlog : (m * 2 ^ 52).log2 = m.log2 + 52 := by
    rw [← Nat.shiftLeft_eq, log2_shiftLeft hpos.ne']
  have hsmall : m.log2 < 53 := (Nat.log2_lt hpos.ne').mpr h.small
  have htarget : max (((m * 2 ^ 52).log2 : Int) - 52 + (e + -52)) (-1074) = e := by
    have hleast := h.least
    rcases h.full with hfull | hend
    · have hlarge : 52 ≤ m.log2 := (Nat.le_log2 hpos.ne').mpr hfull
      omega
    · omega
  have hfirst := shiftToTargetExponent_eq_max (m * 2 ^ 52) (e + -52) .exact
  rw [htarget, show (e - (e + -52)).toNat = 52 by omega] at hfirst
  have hrounded := roundedMantissa_shiftRight (m * 2 ^ 52) 52
  rw [nearestEven_mul] at hrounded
  rcases shift_rounded h.small.le h.least with ⟨last, F, hlast, ⟨_, hmantissa, hF⟩ | ⟨hpower, _⟩⟩
  · have hexponent : e + -52 + (52 : Nat) = e := by
      omega
    unfold roundWithAccuracy
    simp only [hfirst, hexponent, hrounded, hlast, hmantissa, dif_neg hpos.ne', hF]
  · exact absurd h.small (by omega)

theorem float_mul_one {x : Float} (h : sign? x.toModel.unpack ≠ none) : x * 1.0 = x := by
  have hsign (s : Sign) : s * .positive = s := by
    cases s <;> rfl
  have hone : (1.0 : Float).toModel.unpack = .finite .positive (2 ^ 52) (-52) (by decide) := rfl
  have hproduct : (x * 1.0).toModel.unpack = x.toModel.unpack := by
    show (Float.Model.pack (UnpackedFloat.mul Format.binary64 x.toModel.unpack
      (1.0 : Float).toModel.unpack)).unpack = _
    rw [hone]
    cases hx : x.toModel.unpack with
    | notANumber =>
        rw [hx] at h
        exact absurd rfl h
    | infinity s => cases s <;> rfl
    | zero s => cases s <;> rfl
    | finite s m e hm =>
        have hcanonical := canonical_of_unpack hx
        show (Float.Model.pack (roundWithAccuracy Format.binary64 (s * .positive) (m * 2 ^ 52)
          (e + -52) .exact)).unpack = _
        rw [hsign, roundWithAccuracy_shifted s hm hcanonical, hcanonical.unpack_pack]
  refine ext_of_unpack hproduct ?_
  rw [hproduct]
  exact h

end Binary64
end Equate
