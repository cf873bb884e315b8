import Equate.Proofs.Binary64.Arithmetic

/-!
# Closeness after some roundings

A rounding changes a number at most by a factor that is hardly more than one, except that the
least floats leave a slack. Both are kept count of: two numbers are close if some roundings and
some slack lie between them. Sums add up the slack and not the roundings, and the roundings of
one number after the other are counted together.
-/

namespace Equate
namespace Binary64

open Float.Model Float.Model.UnpackedFloat

/-!
## The factor of one rounding
-/

def growth : ℚ :=
  2 ^ 53 / (2 ^ 53 - 1)

theorem one_le_growth : 1 ≤ growth := by
  norm_num [growth]

theorem one_le_growth_pow (k : Nat) : 1 ≤ growth ^ k :=
  one_le_pow₀ one_le_growth

theorem growth_pow_pos (k : Nat) : 0 < growth ^ k :=
  lt_of_lt_of_le one_pos (one_le_growth_pow k)

theorem growth_pow_mono {k l : Nat} (h : k ≤ l) : growth ^ k ≤ growth ^ l :=
  pow_le_pow_right₀ one_le_growth h

theorem growth_pow_mul_le (k : Nat) : growth ^ k * (1 - k / 2 ^ 53) ≤ 1 := by
  have hone : growth * (1 - 1 / 2 ^ 53) = 1 := by
    norm_num [growth]
  have hbernoulli : 1 - (k : ℚ) / 2 ^ 53 ≤ (1 - 1 / 2 ^ 53) ^ k := by
    have hpower := one_add_mul_le_pow (show (-2 : ℚ) ≤ -(1 / 2 ^ 53) by norm_num) k
    calc
      1 - (k : ℚ) / 2 ^ 53 = 1 + k * -(1 / 2 ^ 53) := by ring
      _ ≤ (1 + -(1 / 2 ^ 53)) ^ k := hpower
      _ = (1 - 1 / 2 ^ 53) ^ k := by rw [← sub_eq_add_neg]
  calc
    growth ^ k * (1 - k / 2 ^ 53) ≤ growth ^ k * (1 - 1 / 2 ^ 53) ^ k :=
      mul_le_mul_of_nonneg_left hbernoulli (growth_pow_pos k).le
    _ = 1 := by rw [← mul_pow, hone, one_pow]

/-- Unless the roundings are very many, one more of them makes up for the higher orders. -/
theorem growth_pow_le {k : Nat} (hk : k ≤ 1000) : growth ^ k ≤ 1 + (k + 1) / 2 ^ 53 := by
  have hcast : (k : ℚ) ≤ 1000 := by
    exact_mod_cast hk
  have hnonneg : (0 : ℚ) ≤ k := Nat.cast_nonneg k
  have hpos : (0 : ℚ) < 1 - k / 2 ^ 53 := by
    linarith
  have hproduct : 1 ≤ (1 + (k + 1) / 2 ^ 53) * (1 - (k : ℚ) / 2 ^ 53) := by
    have hsquare : (k : ℚ) * (k + 1) ≤ 1000 * 1001 :=
      mul_le_mul hcast (by linarith) (by linarith) (by norm_num)
    linarith
  refine le_of_mul_le_mul_right ?_ hpos
  exact (growth_pow_mul_le k).trans hproduct

/-!
## Closeness
-/

/-- At most `k` roundings and a slack lie between two numbers. -/
structure Close (k : Nat) (slack a b : ℚ) : Prop where
  upper : a ≤ growth ^ k * (b + slack)
  lower : b ≤ growth ^ k * (a + slack)

namespace Close

variable {k l : Nat} {s t a b c d : ℚ}

theorem refl (ha : 0 ≤ a) (hs : 0 ≤ s) : Close k s a a := by
  have hself : a ≤ growth ^ k * (a + s) :=
    calc
      a ≤ a + s := le_add_of_nonneg_right hs
      _ ≤ growth ^ k * (a + s) :=
        le_mul_of_one_le_left (add_nonneg ha hs) (one_le_growth_pow k)
  exact ⟨hself, hself⟩

theorem eq (h : Close 0 0 a b) : a = b := by
  have hupper := h.upper
  have hlower := h.lower
  rw [pow_zero, one_mul, add_zero] at hupper hlower
  exact le_antisymm hupper hlower

theorem mono (h : Close k s a b) (ha : 0 ≤ a) (hb : 0 ≤ b) (ht : 0 ≤ t) (hk : k ≤ l)
    (hst : s ≤ t) : Close l t a b := by
  have hgrow {c : ℚ} (hc : 0 ≤ c) : growth ^ k * (c + s) ≤ growth ^ l * (c + t) :=
    calc
      growth ^ k * (c + s) ≤ growth ^ k * (c + t) :=
        mul_le_mul_of_nonneg_left (by linarith) (growth_pow_pos k).le
      _ ≤ growth ^ l * (c + t) :=
        mul_le_mul_of_nonneg_right (growth_pow_mono hk) (add_nonneg hc ht)
  exact ⟨h.upper.trans (hgrow hb), h.lower.trans (hgrow ha)⟩

theorem add (h : Close k s a b) (h' : Close k t c d) : Close k (s + t) (a + c) (b + d) := by
  constructor
  · calc
      a + c ≤ growth ^ k * (b + s) + growth ^ k * (d + t) := add_le_add h.upper h'.upper
      _ = growth ^ k * (b + d + (s + t)) := by ring
  · calc
      b + d ≤ growth ^ k * (a + s) + growth ^ k * (c + t) := add_le_add h.lower h'.lower
      _ = growth ^ k * (a + c + (s + t)) := by ring

theorem upper_trans (hs : 0 ≤ s) (h : a ≤ growth ^ k * (b + s)) (h' : b ≤ growth ^ l * (c + t)) :
    a ≤ growth ^ (k + l) * (c + (s + t)) := by
  have hslack : s ≤ growth ^ l * s := le_mul_of_one_le_left hs (one_le_growth_pow l)
  calc
    a ≤ growth ^ k * (b + s) := h
    _ ≤ growth ^ k * (growth ^ l * (c + t) + growth ^ l * s) :=
      mul_le_mul_of_nonneg_left (add_le_add h' hslack) (growth_pow_pos k).le
    _ = growth ^ (k + l) * (c + (s + t)) := by
      rw [pow_add]
      ring

theorem trans (h : Close k s a b) (h' : Close l t b c) (hs : 0 ≤ s) (ht : 0 ≤ t) :
    Close (k + l) (s + t) a c := by
  refine ⟨upper_trans hs h.upper h'.upper, ?_⟩
  have hlower := upper_trans ht h'.lower h.lower
  rwa [Nat.add_comm l k, add_comm t s] at hlower

theorem mul_right (h : Close k s a b) (hc : 0 ≤ c) : Close k (s * c) (a * c) (b * c) := by
  constructor
  · calc
      a * c ≤ growth ^ k * (b + s) * c := mul_le_mul_of_nonneg_right h.upper hc
      _ = growth ^ k * (b * c + s * c) := by ring
  · calc
      b * c ≤ growth ^ k * (a + s) * c := mul_le_mul_of_nonneg_right h.lower hc
      _ = growth ^ k * (a * c + s * c) := by ring

theorem div_left (h : Close k 0 a b) (ha : 0 < a) (hb : 0 < b) (hc : 0 ≤ c) :
    Close k 0 (c / a) (c / b) := by
  have hupper := h.upper
  have hlower := h.lower
  rw [add_zero] at hupper hlower
  constructor
  · rw [add_zero, div_le_iff₀ ha, mul_assoc, div_mul_eq_mul_div, ← mul_div_assoc, le_div_iff₀ hb,
      mul_left_comm]
    exact mul_le_mul_of_nonneg_left hlower hc
  · rw [add_zero, div_le_iff₀ hb, mul_assoc, div_mul_eq_mul_div, ← mul_div_assoc, le_div_iff₀ ha,
      mul_left_comm]
    exact mul_le_mul_of_nonneg_left hupper hc

theorem distance_le (h : Close k s a b) (ha : 0 ≤ a) (hb : 0 ≤ b) (hs : 0 ≤ s)
    (hk : k ≤ 1000) :
    |a - b| ≤ (k + 1) / 2 ^ 53 * b + 2 * s := by
  have hcast : (k : ℚ) ≤ 1000 := by
    exact_mod_cast hk
  have hnonneg : (0 : ℚ) ≤ k := Nat.cast_nonneg k
  have hupper : a ≤ (1 + (k + 1) / 2 ^ 53) * (b + s) :=
    h.upper.trans (mul_le_mul_of_nonneg_right (growth_pow_le hk) (add_nonneg hb hs))
  have hlower : b * (1 - k / 2 ^ 53) ≤ a + s :=
    calc
      b * (1 - k / 2 ^ 53) ≤ growth ^ k * (a + s) * (1 - k / 2 ^ 53) :=
        mul_le_mul_of_nonneg_right h.lower (by linarith)
      _ = growth ^ k * (1 - k / 2 ^ 53) * (a + s) := by ring
      _ ≤ a + s := mul_le_of_le_one_left (add_nonneg ha hs) (growth_pow_mul_le k)
  have hslack : (k + 1) / 2 ^ 53 * s ≤ s := mul_le_of_le_one_left hs (by linarith)
  have hpart : 0 ≤ b / 2 ^ 53 := by positivity
  rw [abs_le]
  constructor
  · linarith
  · linarith

theorem of_ratio (h : |a - b| ≤ b / 2 ^ 53) (hb : 0 ≤ b) : Close 1 0 a b := by
  rcases abs_le.mp h with ⟨hlow, hhigh⟩
  have hgrowth : 1 + 1 / 2 ^ 53 ≤ growth := by
    norm_num [growth]
  have hshrink : growth * (1 - 1 / 2 ^ 53) = 1 := by
    norm_num [growth]
  have hpos : 0 ≤ growth := le_trans zero_le_one one_le_growth
  constructor
  · calc
      a ≤ (1 + 1 / 2 ^ 53) * b := by linarith
      _ ≤ growth * b := mul_le_mul_of_nonneg_right hgrowth hb
      _ = growth ^ 1 * (b + 0) := by rw [pow_one, add_zero]
  · calc
      b = growth * ((1 - 1 / 2 ^ 53) * b) := by rw [← mul_assoc, hshrink, one_mul]
      _ ≤ growth * a := mul_le_mul_of_nonneg_left (by linarith) hpos
      _ = growth ^ 1 * (a + 0) := by rw [pow_one, add_zero]

theorem of_slack (h : |a - b| ≤ s) (ha : 0 ≤ a) (hb : 0 ≤ b) (hs : 0 ≤ s) : Close k s a b := by
  rcases abs_le.mp h with ⟨hlow, hhigh⟩
  constructor
  · calc
      a ≤ b + s := by linarith
      _ ≤ growth ^ k * (b + s) :=
        le_mul_of_one_le_left (add_nonneg hb hs) (one_le_growth_pow k)
  · calc
      b ≤ a + s := by linarith
      _ ≤ growth ^ k * (a + s) :=
        le_mul_of_one_le_left (add_nonneg ha hs) (one_le_growth_pow k)

end Close

/-!
## Rounded numbers
-/

theorem Reaches.nonneg {x : UnpackedFloat} {v : ℚ} (h : Reaches x v) : 0 ≤ v := by
  rcases h with hstands | ⟨_, hlimit⟩
  · exact hstands.nonneg
  · exact le_trans (by positivity) hlimit

def tiny : ℚ :=
  2 ^ (-1075 : Int)

theorem tiny_pos : 0 < tiny :=
  two_zpow_pos _

theorem Rounds.exists_close {u : ℚ} {x : UnpackedFloat} (h : Rounds u x) (hu : 0 ≤ u) :
    exists v, Reaches x v ∧ Close 1 tiny v u ∧ (2 ^ (-1022 : Int) ≤ u -> Close 1 0 v u) := by
  rcases h.exists_near with ⟨v, hx, hratio | hslack⟩
  · have hclose := Close.of_ratio hratio hu
    exact ⟨v, hx, hclose.mono hx.nonneg hu tiny_pos.le (le_refl 1) tiny_pos.le, fun _ => hclose⟩
  · refine ⟨v, hx, .of_slack hslack hx.nonneg hu tiny_pos.le, ?_⟩
    intro hnormal
    refine .of_ratio (hslack.trans ?_) hu
    have hsplit : (2 : ℚ) ^ (-1075 : Int) * 2 ^ 53 = 2 ^ (-1022 : Int) := by
      rw [← zpow_natCast, ← zpow_add₀ two_ne_zero]
      rfl
    rw [le_div_iff₀ (by norm_num), hsplit]
    exact hnormal

theorem Stands.add_infinity {x : UnpackedFloat} {v : ℚ} (h : Stands x v) :
    UnpackedFloat.add Format.binary64 x (.infinity .positive) = .infinity .positive ∧
      UnpackedFloat.add Format.binary64 (.infinity .positive) x = .infinity .positive := by
  cases h with
  | zero => exact ⟨rfl, rfl⟩
  | finite _ _ => exact ⟨rfl, rfl⟩

section

variable {x y : UnpackedFloat} {v w : ℚ} (hx : Reaches x v)
include hx

theorem Reaches.unpack_add_zero :
    (Float.Model.pack (UnpackedFloat.add Format.binary64 x (.zero .positive))).unpack = x := by
  rcases hx with hstands | ⟨rfl, _⟩
  · have hpacked := hstands.unpack_pack
    cases hstands with
    | zero => exact hpacked
    | finite _ _ => exact hpacked
  · rfl

theorem Reaches.unpack_zero_add :
    (Float.Model.pack (UnpackedFloat.add Format.binary64 (.zero .positive) x)).unpack = x := by
  rcases hx with hstands | ⟨rfl, _⟩
  · have hpacked := hstands.unpack_pack
    cases hstands with
    | zero => exact hpacked
    | finite _ _ => exact hpacked
  · rfl

theorem Reaches.exists_add (hy : Reaches y w) : exists r,
    Reaches (Float.Model.pack (UnpackedFloat.add Format.binary64 x y)).unpack r ∧
      Close 1 tiny r (v + w) := by
  have hv := hx.nonneg
  have hw := hy.nonneg
  have hself : Close 1 tiny (v + w) (v + w) := .refl (add_nonneg hv hw) tiny_pos.le
  rcases hx with hx | ⟨rfl, hlimit⟩
  · rcases hy with hy | ⟨rfl, hlimit⟩
    · rcases (rounds_add hx hy).exists_close (add_nonneg hv hw) with ⟨r, hr, hclose, _⟩
      exact ⟨r, hr, hclose⟩
    · refine ⟨v + w, Or.inr ⟨?_, hlimit.trans (le_add_of_nonneg_left hv)⟩, hself⟩
      rw [hx.add_infinity.1]
      rfl
  · refine ⟨v + w, Or.inr ⟨?_, hlimit.trans (le_add_of_nonneg_right hw)⟩, hself⟩
    rcases hy with hy | ⟨rfl, _⟩
    · rw [hy.add_infinity.2]
      rfl
    · rfl

end

end Binary64
end Equate
