import Equate.Proofs.Binary64.Order
import Equate.Proofs.Binary64.Rounding
import Equate.Proofs.Number.Words

/-!
# Whole floats

A float may stand for an integer, and two such floats compare as their integers do. A word
is converted to a float that stands for its integer with 53 binary digits kept, also on the
way through half of the word. The conversion is therefore monotone: it may make different
words equal, but it never exchanges them.
-/

namespace Equate
namespace Binary64

open Float.Model Float.Model.UnpackedFloat

def Scaled (m : Nat) (e : Int) (n : Nat) : Prop :=
  (2 ^ 52 ≤ m ∧ m < 2 ^ 53) ∧ exists j : Nat, e = j - 52 ∧ m * 2 ^ j = n * 2 ^ 52

inductive Denotes : UnpackedFloat -> Int -> Prop where
  | zero (sign : Sign) : Denotes (.zero sign) 0
  | positive {m n : Nat} {e : Int} (hm : 0 < m) (h : Scaled m e n) :
      Denotes (.finite .positive m e hm) n
  | negative {m n : Nat} {e : Int} (hm : 0 < m) (h : Scaled m e n) :
      Denotes (.finite .negative m e hm) (-n)

/-!
## Order
-/

namespace Scaled

variable {m m' n n' : Nat} {e e' : Int}

theorem pos (h : Scaled m e n) : 0 < n := by
  rcases h with ⟨hm, j, _, hn⟩
  have hpos : 0 < m * 2 ^ j := Nat.mul_pos (by omega) (Nat.two_pow_pos j)
  rw [hn] at hpos
  exact Nat.pos_of_mul_pos_right hpos

theorem lt_of_exponent_lt (h : Scaled m e n) (h' : Scaled m' e' n') (hlt : e < e') :
    n < n' := by
  rcases h with ⟨⟨_, hm⟩, j, rfl, hn⟩
  rcases h' with ⟨⟨hm', _⟩, j', rfl, hn'⟩
  have hscaled : n * 2 ^ 52 < n' * 2 ^ 52 :=
    calc
      n * 2 ^ 52 = m * 2 ^ j := hn.symm
      _ < 2 ^ 53 * 2 ^ j := Nat.mul_lt_mul_of_pos_right hm (Nat.two_pow_pos j)
      _ = 2 ^ 52 * 2 ^ (j + 1) := by
        rw [← Nat.pow_add, ← Nat.pow_add, Nat.add_comm j 1, ← Nat.add_assoc]
      _ ≤ 2 ^ 52 * 2 ^ j' := Nat.mul_le_mul_left _ (Nat.pow_le_pow_right (by decide) (by omega))
      _ ≤ m' * 2 ^ j' := Nat.mul_le_mul_right _ hm'
      _ = n' * 2 ^ 52 := hn'
  exact Nat.lt_of_mul_lt_mul_right hscaled

theorem mantissa_lt_iff (h : Scaled m e n) (h' : Scaled m' e n') : m < m' ↔ n < n' := by
  rcases h with ⟨_, j, he, hn⟩
  rcases h' with ⟨_, j', he', hn'⟩
  have hj : j' = j := by
    omega
  rw [hj] at hn'
  rw [← Nat.mul_lt_mul_right (Nat.two_pow_pos j), hn, hn', Nat.mul_lt_mul_right (by decide)]

theorem compare_eq (h : Scaled m e n) (h' : Scaled m' e' n') :
    (compare e e').then (compare m m') = compare (n : Int) n' := by
  rcases Int.lt_trichotomy e e' with hlt | rfl | hgt
  · have hvalue := h.lt_of_exponent_lt h' hlt
    rw [Int.compare_eq_lt.mpr hlt, Int.compare_eq_lt.mpr (Int.ofNat_lt.mpr hvalue)]
    rfl
  · rw [Int.compare_eq_eq.mpr rfl, Ordering.eq_then, compare_natCast,
      Nat.compare_eq_ite_lt, Nat.compare_eq_ite_lt]
    simp only [h.mantissa_lt_iff h', h'.mantissa_lt_iff h]
  · have hvalue := h'.lt_of_exponent_lt h hgt
    rw [Int.compare_eq_gt.mpr hgt, Int.compare_eq_gt.mpr (Int.ofNat_lt.mpr hvalue)]
    rfl

end Scaled

theorem Denotes.compare_eq {x y : UnpackedFloat} {a b : Int} (hx : Denotes x a)
    (hy : Denotes y b) : x.compare y = some (compare a b) := by
  cases hx with
  | zero s =>
      cases hy with
      | zero t => rfl
      | positive hm h =>
          have hpos := h.pos
          exact congrArg some (Int.compare_eq_lt.mpr (by omega)).symm
      | negative hm h =>
          have hpos := h.pos
          exact congrArg some (Int.compare_eq_gt.mpr (by omega)).symm
  | positive hm h =>
      have hpos := h.pos
      cases hy with
      | zero t => exact congrArg some (Int.compare_eq_gt.mpr (by omega)).symm
      | positive hm' h' => exact congrArg some (h.compare_eq h')
      | negative hm' h' =>
          have hpos' := h'.pos
          exact congrArg some (Int.compare_eq_gt.mpr (by omega)).symm
  | negative hm h =>
      have hpos := h.pos
      cases hy with
      | zero t => exact congrArg some (Int.compare_eq_lt.mpr (by omega)).symm
      | positive hm' h' =>
          have hpos' := h'.pos
          exact congrArg some (Int.compare_eq_lt.mpr (by omega)).symm
      | negative hm' h' =>
          rw [compare_neg]
          exact congrArg (fun order => some order.swap) (h.compare_eq h')

/-!
## Operations
-/

theorem Denotes.neg {x : UnpackedFloat} {n : Int} (h : Denotes x n) : Denotes x.neg (-n) := by
  cases h with
  | zero s => exact .zero (-s)
  | positive hm h => exact .negative hm h
  | negative hm h =>
      rw [Int.neg_neg]
      exact .positive hm h

theorem denotes_rounded {m n j : Nat} {e : Int} (hm : 52 ≤ m.log2)
    (he : m.log2 - 52 + e = j - 52)
    (hn : nearestEven m (m.log2 - 52) * 2 ^ j = n * 2 ^ 52) :
    Denotes (roundWithAccuracy Format.binary64 .positive m e .exact) n := by
  have hexponent : -1074 ≤ m.log2 - 52 + e := by
    omega
  rcases roundWithAccuracy_eq .positive hm hexponent with
    ⟨M, E, hM, hrounded, hbounds, ⟨hE, hsame⟩ | ⟨hE, hhalf⟩⟩
  · rw [hrounded]
    rw [← hsame] at hn
    exact .positive hM ⟨hbounds, j, hE.trans he, hn⟩
  · rw [hrounded]
    rw [← hhalf, Nat.mul_comm 2, Nat.mul_assoc, ← Nat.pow_succ'] at hn
    exact .positive hM ⟨hbounds, j + 1, by omega, hn⟩

theorem denotes_round {n : Nat} (hn : n ≠ 0) :
    Denotes (UnpackedFloat.round Format.binary64 .positive n 0) (roundNat n) := by
  have htarget := targetExponent_eq (m := n) (e := 0) (by omega)
  unfold UnpackedFloat.round decreaseExponent
  simp only [htarget]
  cases Nat.le_total n.log2 52 with
  | inl hsmall =>
      -- A number of at most 53 digits is moved to the left and keeps them all.
      have hshift : (0 - ((n.log2 : Int) - 52 + 0)).toNat = 52 - n.log2 := by
        omega
      have hlog : (n <<< (52 - n.log2)).log2 = 52 := by
        rw [log2_shiftLeft hn, Nat.add_sub_cancel' hsmall]
      rw [hshift]
      apply denotes_rounded (j := n.log2) (Nat.le_of_eq hlog.symm)
      · omega
      · rw [hlog, Nat.sub_self, nearestEven_zero, Nat.shiftLeft_eq, Nat.mul_assoc,
          ← Nat.pow_add, Nat.sub_add_cancel hsmall, roundNat_of_small hsmall]
  | inr hlarge =>
      have hshift : (0 - ((n.log2 : Int) - 52 + 0)).toNat = 0 := by
        omega
      rw [hshift, Nat.shiftLeft_zero]
      apply denotes_rounded (j := n.log2) hlarge
      · omega
      · unfold roundNat
        rw [Nat.mul_assoc, ← Nat.pow_add, Nat.sub_add_cancel hlarge]

theorem Denotes.scaled {x : UnpackedFloat} {a : Int} (h : Denotes x a) {n : Nat} (hn : n ≠ 0)
    (ha : a = n) : exists m e, exists hm : 0 < m, x = .finite .positive m e hm ∧ Scaled m e n := by
  cases h with
  | zero s => omega
  | positive hm h => exact ⟨_, _, hm, rfl, Int.ofNat_inj.mp ha ▸ h⟩
  | negative hm h =>
      have hpos := h.pos
      omega

theorem Denotes.double {x : Float} {n : Nat} (hn : n ≠ 0)
    (hx : InBinades (-52) 12 x.toModel.unpack) (h : Denotes x.toModel.unpack n) :
    Denotes (x * 2.0).toModel.unpack ((2 * n : Nat) : Int) := by
  have hproduct := mul_inBinades hx two_inBinades (by decide)
  rcases h.scaled hn rfl with ⟨m, e, hm, hfinite, ⟨hlow, hhigh⟩, j, he, hvalue⟩
  have hlog : (m * 2 ^ 52).log2 = 104 := by
    rw [← Nat.shiftLeft_eq, log2_shiftLeft (Nat.ne_of_gt hm), log2_of_mantissa hlow hhigh]
  show Denotes (Float.Model.pack (UnpackedFloat.mul Format.binary64 x.toModel.unpack
    (2.0 : Float).toModel.unpack)).unpack _
  have htwo : (2.0 : Float).toModel.unpack = .finite .positive (2 ^ 52) (-51) (by decide) := rfl
  rw [unpack_pack (hproduct.mono (by decide) (by decide)), hfinite, htwo]
  have hrounded : nearestEven (m * 2 ^ 52) ((m * 2 ^ 52).log2 - 52) * 2 ^ (j + 1) =
      2 * n * 2 ^ 52 := by
    rw [hlog, nearestEven_mul, Nat.pow_succ, ← Nat.mul_assoc, hvalue, Nat.mul_comm _ 2,
      Nat.mul_assoc]
  exact denotes_rounded (e := e + -51) (by omega) (by omega) hrounded

/-!
## Words
-/

/-- The integer that a word is converted to. Beyond the signed words it is halved first. -/
def roundInt (n : Int) : Int :=
  if n < 0 then -roundNat n.natAbs
  else if n < 2 ^ 63 then roundNat n.toNat
  else (2 * roundNat (n.toNat / 2) : Nat)

theorem roundInt_of_neg {n : Int} (h : n < 0) : roundInt n = -roundNat n.natAbs :=
  if_pos h

theorem roundInt_of_small {n : Nat} (h : n < 2 ^ 63) : roundInt n = roundNat n := by
  unfold roundInt
  rw [if_neg (by omega), if_pos (by omega), Int.toNat_natCast]

theorem roundInt_of_large {n : Nat} (h : 2 ^ 63 ≤ n) :
    roundInt n = (2 * roundNat (n / 2) : Nat) := by
  unfold roundInt
  rw [if_neg (by omega), if_neg (by omega), Int.toNat_natCast]

theorem denotes_toFloat (u : UInt64) : Denotes u.toFloat.toModel.unpack (roundNat u.toNat) := by
  cases Decidable.em (u = 0) with
  | inl hzero =>
      rw [hzero]
      exact .zero .positive
  | inr hu =>
      have hne : u.toNat ≠ 0 := by
        intro h
        exact hu (UInt64.toNat_inj.mp h)
      have hmost : u.toNat.log2 < 64 := (Nat.log2_lt hne).mpr u.toNat_lt
      have hbinades := (round_inBinades .positive hne (e := 0) (by omega)).mono
        (show (-1074 : Int) ≤ _ by omega) (show _ ≤ (971 : Int) by omega)
      show Denotes (Float.Model.pack (UnpackedFloat.ofUInt64 Format.binary64 u)).unpack _
      rw [ofUInt64_eq_round hne, unpack_pack hbinades]
      exact denotes_round hne

theorem denotes_ofUnsigned (u : UInt64) :
    Denotes (ofUnsigned u).toModel.unpack (roundInt u.toNat) := by
  unfold ofUnsigned
  split
  · rename_i hsmall
    have hlt : u.toNat < 2 ^ 63 := UInt64.lt_iff_toNat_lt.mp hsmall
    rw [roundInt_of_small hlt]
    exact denotes_toFloat u
  · rename_i hlarge
    have hle : 2 ^ 63 ≤ u.toNat := Nat.le_of_not_lt (UInt64.lt_iff_toNat_lt.not.mp hlarge)
    have hhalf : (u >>> 1).toNat = u.toNat / 2 := by
      rw [UInt64.toNat_shiftRight]
      exact Nat.shiftRight_eq_div_pow _ 1
    have hne : u >>> 1 ≠ 0 := by
      intro h
      rw [h] at hhalf
      have hzero : (0 : UInt64).toNat = 0 := rfl
      omega
    have hrounded : roundNat (u.toNat / 2) ≠ 0 := by
      have hleast := (roundNat_bounds (n := u.toNat / 2) (by omega)).left
      have hpos := Nat.two_pow_pos (u.toNat / 2).log2
      omega
    rw [roundInt_of_large hle]
    apply Denotes.double hrounded (toFloat_inBinades hne)
    rw [← hhalf]
    exact denotes_toFloat _

theorem toNat_opposite {i : Int64} (h : i < 0) :
    (0 - i.toUInt64).toNat = i.toInt.natAbs := by
  have hbits : i.toInt ≡ i.toUInt64.toNat [ZMOD 2 ^ 64] :=
    Reading.value_modEq .signed i.toUInt64
  have hneg : i.toInt < 0 := Int64.lt_iff_toInt_lt.mp h
  have hlow := i.le_toInt
  have hhigh := i.toUInt64.toNat_lt
  have hzero : (0 : UInt64).toNat = 0 := rfl
  rw [UInt64.toNat_sub, hzero]
  unfold Int.ModEq at hbits
  omega

theorem denotes_ofSigned (i : Int64) :
    Denotes (ofSigned i).toModel.unpack (roundInt i.toInt) := by
  unfold ofSigned
  split
  · rename_i hneg
    have hlt : i.toInt < 0 := Int64.lt_iff_toInt_lt.mp hneg
    have hvalue := toNat_opposite hneg
    have hopposite : 0 - i.toUInt64 ≠ 0 := by
      intro h
      rw [h] at hvalue
      have hzero : (0 : UInt64).toNat = 0 := rfl
      omega
    have hbinades := (neg_inBinades (toFloat_inBinades hopposite)).mono
      (show (-1074 : Int) ≤ _ by decide) (show _ ≤ (971 : Int) by decide)
    rw [roundInt_of_neg hlt, ← hvalue]
    show Denotes (Float.Model.pack (0 - i.toUInt64).toFloat.toModel.unpack.neg).unpack _
    rw [unpack_pack hbinades]
    exact (denotes_toFloat _).neg
  · rename_i hnonneg
    have hlt := i.toInt_lt
    rw [Reading.toInt_of_not_neg hnonneg] at hlt ⊢
    rw [roundInt_of_small (by omega)]
    exact denotes_toFloat _

theorem roundInt_natCast_mono {m n : Nat} (h : m ≤ n) : roundInt m ≤ roundInt n := by
  cases Nat.lt_or_ge n (2 ^ 63) with
  | inl hsmall =>
      rw [roundInt_of_small hsmall, roundInt_of_small (Nat.lt_of_le_of_lt h hsmall)]
      exact Int.ofNat_le.mpr (roundNat_mono h)
  | inr hlarge =>
      rw [roundInt_of_large hlarge]
      cases Nat.lt_or_ge m (2 ^ 63) with
      | inl hsmall =>
          rw [roundInt_of_small hsmall]
          -- The first word that is halved is a power of two and separates the two kinds.
          have hupper : roundNat m ≤ 2 * roundNat (n / 2) :=
            calc
              roundNat m ≤ roundNat (2 ^ 63) := roundNat_mono (Nat.le_of_lt hsmall)
              _ = 2 * roundNat (2 ^ 62) := by
                rw [roundNat_two_pow, roundNat_two_pow, ← Nat.pow_succ']
              _ ≤ 2 * roundNat (n / 2) := Nat.mul_le_mul_left 2 (roundNat_mono (by omega))
          exact Int.ofNat_le.mpr hupper
      | inr hlarge' =>
          rw [roundInt_of_large hlarge']
          exact Int.ofNat_le.mpr
            (Nat.mul_le_mul_left 2 (roundNat_mono (Nat.div_le_div_right h)))

theorem roundInt_nonneg (n : Nat) : 0 ≤ roundInt n := by
  have hzero : roundInt (0 : Nat) = 0 := rfl
  rw [← hzero]
  exact roundInt_natCast_mono (Nat.zero_le n)

theorem roundInt_mono {m n : Int} (h : m ≤ n) : roundInt m ≤ roundInt n := by
  cases Int.lt_or_le m 0 with
  | inl hm =>
      rw [roundInt_of_neg hm]
      cases Int.lt_or_le n 0 with
      | inl hn =>
          rw [roundInt_of_neg hn]
          have habs : n.natAbs ≤ m.natAbs := by
            omega
          exact Int.neg_le_neg (Int.ofNat_le.mpr (roundNat_mono habs))
      | inr hn =>
          rcases Int.eq_ofNat_of_zero_le hn with ⟨k, rfl⟩
          exact Int.le_trans (Int.neg_nonpos_of_nonneg (Int.natCast_nonneg _))
            (roundInt_nonneg k)
  | inr hm =>
      rcases Int.eq_ofNat_of_zero_le hm with ⟨j, rfl⟩
      rcases Int.eq_ofNat_of_zero_le (Int.le_trans hm h) with ⟨k, rfl⟩
      exact roundInt_natCast_mono (Int.ofNat_le.mp h)

theorem denotes_number (k : Reading) (bits : UInt64) :
    Denotes (k.number bits).toFloat.toModel.unpack (roundInt (k.value bits)) := by
  cases k with
  | unsigned => exact denotes_ofUnsigned bits
  | signed => exact denotes_ofSigned bits.toInt64

/-- The conversion of words to floats keeps their order, if not its strictness. -/
theorem atMost_toFloat {k l : Reading} {a b : UInt64} (h : k.value a ≤ l.value b) :
    AtMost (k.number a).toFloat (l.number b).toFloat := by
  refine ⟨_, (denotes_number k a).compare_eq (denotes_number l b), ?_⟩
  exact Int.isLE_compare.mpr (roundInt_mono h)

end Binary64
end Equate
