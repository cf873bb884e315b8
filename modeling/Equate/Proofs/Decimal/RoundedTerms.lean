import Equate.Proofs.Binary64.Closeness
import Equate.Proofs.Binary64.Whole
import Equate.Proofs.Decimal.Terms

/-!
# Rounded terms

A power of ten that is multiplied up is exact as long as its odd factor has room in a float, and
each factor behind that is rounded once. The term of a digit is rounded once more. A term whose
power is out of range loses what it stands for, which is then less than any normal float, or it
is infinite like the number for which it stands.
-/

namespace Equate

namespace Binary64

open Float.Model Float.Model.UnpackedFloat

theorem Scaled.value_eq {m n : Nat} {e : Int} (h : Scaled m e n) : (m * 2 ^ e : ℚ) = n := by
  rcases h with ⟨_, j, rfl, hvalue⟩
  have hcast : (m * 2 ^ j : ℚ) = n * 2 ^ 52 := by
    exact_mod_cast hvalue
  rw [zpow_sub₀ two_ne_zero, zpow_natCast, ← mul_div_assoc, hcast]
  norm_num

theorem Scaled.canonical {m n : Nat} {e : Int} (h : Scaled m e n) (hsmall : n < 2 ^ 53) :
    Canonical m e := by
  rcases h with ⟨⟨hlow, hhigh⟩, j, rfl, hvalue⟩
  have hexponent : j < 53 := by
    have hpower : 2 ^ j * 2 ^ 52 < 2 ^ 53 * 2 ^ 52 :=
      calc
        2 ^ j * 2 ^ 52 ≤ m * 2 ^ j := by
          rw [Nat.mul_comm]
          exact Nat.mul_le_mul_right _ hlow
        _ = n * 2 ^ 52 := hvalue
        _ < 2 ^ 53 * 2 ^ 52 := Nat.mul_lt_mul_of_pos_right hsmall (by decide)
    exact (Nat.pow_lt_pow_iff_right (by decide)).mp (Nat.lt_of_mul_lt_mul_right hpower)
  exact ⟨hhigh, by omega, by omega, Or.inl hlow⟩

theorem Denotes.stands {x : UnpackedFloat} {n : Nat} (h : Denotes x n) (hn : 0 < n)
    (hsmall : n < 2 ^ 53) : Stands x n := by
  rcases h.scaled hn.ne' rfl with ⟨m, e, hm, rfl, hscaled⟩
  rw [← hscaled.value_eq]
  exact .finite hm (hscaled.canonical hsmall)

end Binary64

namespace Numeral

open Binary64
open Float.Model (UnpackedFloat)

/-!
## Powers of ten
-/

theorem timesTen_succ {n : Nat} {x : Float} (h : (timesTen n x).isInf = false)
    (hx : x.isInf = false) : timesTen (n + 1) x = timesTen n x * 10.0 := by
  induction n generalizing x with
  | zero =>
      unfold timesTen
      dsimp only
      split
      · rfl
      · rfl
  | succ n ih =>
      unfold timesTen at h
      dsimp only at h
      split at h
      · rename_i hinfinite
        rw [hinfinite] at h
        cases h
      · rename_i hfinite
        have hstep (k : Nat) : timesTen (k + 1) x = timesTen k (x * 10.0) := if_neg hfinite
        rw [hstep, hstep]
        exact ih h (Bool.eq_false_iff.mpr hfinite)

theorem ten_stands : Stands (10.0 : Float).toModel.unpack 10 := by
  have hvalue : ((5 * 2 ^ 50 : Nat) * 2 ^ (-49 : Int) : ℚ) = 10 := by
    norm_num
  rw [← hvalue]
  exact .finite (by decide) ⟨by decide, by decide, by decide, Or.inl (by decide)⟩

theorem one_stands : Stands (1.0 : Float).toModel.unpack 1 := by
  have hvalue : ((2 ^ 52 : Nat) * 2 ^ (-52 : Int) : ℚ) = 1 := by
    norm_num
  rw [← hvalue]
  exact .finite (by decide) ⟨by decide, by decide, by decide, Or.inl (by decide)⟩

theorem digit_stands {d : Nat} (hpos : 0 < d) (hd : d < 10) :
    Stands d.toUInt64.toFloat.toModel.unpack d := by
  have hword : d.toUInt64.toNat = d := Nat.mod_eq_of_lt (by omega)
  have hsmall : d.log2 ≤ 52 := Nat.le_of_lt_succ ((Nat.log2_lt hpos.ne').mpr (by omega))
  have hdenotes := denotes_toFloat d.toUInt64
  rw [hword, roundNat_of_small hsmall] at hdenotes
  exact hdenotes.stands hpos (by omega)

theorem growth_pow_le_half {k : Nat} (hk : k ≤ 1000) : growth ^ k ≤ 3 / 2 := by
  have hcast : (k : ℚ) ≤ 1000 := by
    exact_mod_cast hk
  have hbound := growth_pow_le hk
  linarith

theorem ten_pow_lt_limit {n : Nat} (hn : n ≤ 308) : (3 / 2 : ℚ) * 10 ^ n < 2 ^ 1024 := by
  have hlast : 3 * 10 ^ 308 < 2 ^ 1024 * 2 := by decide +kernel
  have hpower : 10 ^ n ≤ 10 ^ 308 := pow_le_pow_right₀ (by decide) hn
  rw [div_mul_eq_mul_div, div_lt_iff₀ two_pos]
  exact_mod_cast Nat.lt_of_le_of_lt (Nat.mul_le_mul_left 3 hpower) hlast

theorem limit_le_ten_pow {n : Nat} (hn : 309 ≤ n) : (2 ^ 1024 : ℚ) ≤ 10 ^ n := by
  have hfirst : 2 ^ 1024 ≤ 10 ^ 309 := by decide +kernel
  have hpower : 10 ^ 309 ≤ 10 ^ n := pow_le_pow_right₀ (by decide) hn
  exact_mod_cast hfirst.trans hpower

theorem half_le_of_close {n : Nat} {r : ℚ} (h : Close (n - 22) 0 r (10 ^ n)) (hn : n ≤ 308)
    (hr : 0 ≤ r) : 1 / 2 ≤ r := by
  have hlower := h.lower
  have hpower : (1 : ℚ) ≤ 10 ^ n := one_le_pow₀ (by norm_num)
  have hgrowth := mul_le_mul_of_nonneg_right (growth_pow_le_half (k := n - 22) (by omega)) hr
  rw [add_zero] at hlower
  linarith

theorem normal_of_half_le {u : ℚ} (h : 1 / 2 ≤ u) : 2 ^ (-1022 : Int) ≤ u := by
  have hhalf : (2 : ℚ) ^ (-1022 : Int) ≤ 2 ^ (-1 : Int) :=
    zpow_le_zpow_right₀ one_le_two (by decide)
  rw [zpow_neg_one] at hhalf
  linarith

theorem ten_pow_eq (n : Nat) : (10 : ℚ) ^ n = (5 ^ n : Nat) * 2 ^ (n : Int) := by
  rw [zpow_natCast, Nat.cast_pow, ← mul_pow]
  norm_num

theorem stands_next {n : Nat} (hn : n + 1 ≤ 22) {x : UnpackedFloat} (hx : Rounds (10 ^ n * 10) x) :
    Stands x (10 ^ (n + 1)) := by
  have hmantissa : 5 ^ (n + 1) < 2 ^ 53 :=
    Nat.lt_of_le_of_lt (Nat.pow_le_pow_right (by decide) hn) (by decide)
  have hlimit : ((5 ^ (n + 1) : Nat) * 2 ^ ((n + 1 : Nat) : Int) : ℚ) < 2 ^ 1024 := by
    rw [← ten_pow_eq]
    exact lt_of_le_of_lt (le_mul_of_one_le_left (by positivity) (by norm_num))
      (ten_pow_lt_limit (by omega))
  rw [← pow_succ, ten_pow_eq] at hx
  rw [ten_pow_eq]
  exact hx.stands_of_exact hmantissa (by omega) hlimit

theorem exists_next {n : Nat} (hn : n + 1 ≤ 308) (hexact : 22 ≤ n) {r : ℚ} (hr : 0 ≤ r)
    (hclose : Close (n - 22) 0 r (10 ^ n)) {x : UnpackedFloat} (hx : Rounds (r * 10) x) :
    exists v, Stands x v ∧ Close (n + 1 - 22) 0 v (10 ^ (n + 1)) := by
  have hhalf := half_le_of_close hclose (by omega) hr
  rcases hx.exists_close (by linarith) with ⟨v, hv, _, hnormal⟩
  have hscaled := hclose.mul_right (show (0 : ℚ) ≤ 10 by norm_num)
  rw [zero_mul, ← pow_succ] at hscaled
  have hboth := (hnormal (normal_of_half_le (by linarith))).trans hscaled le_rfl le_rfl
  rw [add_zero, show 1 + (n - 22) = n + 1 - 22 by omega] at hboth
  refine ⟨v, hv.resolve_right ?_, hboth⟩
  rintro ⟨_, hlimit⟩
  have hupper : v ≤ 3 / 2 * 10 ^ (n + 1) :=
    calc
      v ≤ growth ^ (n + 1 - 22) * (10 ^ (n + 1) + 0) := hboth.upper
      _ ≤ 3 / 2 * (10 ^ (n + 1) + 0) :=
        mul_le_mul_of_nonneg_right (growth_pow_le_half (by omega)) (by positivity)
      _ = 3 / 2 * 10 ^ (n + 1) := by rw [add_zero]
  exact absurd hlimit (not_le.mpr (hupper.trans_lt (ten_pow_lt_limit hn)))

/-- Up to `10 ^ 22` the powers are exact, and each factor more is rounded once. -/
theorem powerOfTen_stands {n : Nat} (hn : n ≤ 308) : exists r,
    Stands (powerOfTen n).toModel.unpack r ∧ Close (n - 22) 0 r (10 ^ n) := by
  induction n with
  | zero => exact ⟨1, one_stands, by simpa using Close.refl zero_le_one le_rfl⟩
  | succ n ih =>
      rcases ih (by omega) with ⟨r, hr, hclose⟩
      have hstep : powerOfTen (n + 1) = powerOfTen n * 10.0 :=
        timesTen_succ hr.isInf_eq_false (by decide)
      have hrounds := rounds_mul hr ten_stands
      rw [hstep]
      by_cases hexact : n + 1 ≤ 22
      · rw [Nat.sub_eq_zero_of_le (by omega)] at hclose
        rw [hclose.eq] at hrounds
        refine ⟨_, stands_next hexact hrounds, ?_⟩
        exact .refl (by positivity) le_rfl
      · exact exists_next hn (by omega) hr.nonneg hclose hrounds

theorem exact_power {n : Nat} (hn : n ≤ 22) : Stands (powerOfTen n).toModel.unpack (10 ^ n) := by
  rcases powerOfTen_stands (n := n) (by omega) with ⟨r, hr, hclose⟩
  rw [Nat.sub_eq_zero_of_le hn] at hclose
  rw [← hclose.eq]
  exact hr

/-!
## Terms
-/

theorem term_zero (p : Int) : term 0 p = 0.0 :=
  if_pos rfl

theorem term_of_nonneg {d : Nat} {p : Int} (hd : 0 < d) (hp : 0 ≤ p) :
    term d p = d.toUInt64.toFloat * powerOfTen p.toNat := by
  unfold term
  rw [if_neg hd.ne', if_pos hp]

theorem term_of_neg {d : Nat} {p : Int} (hd : 0 < d) (hp : p < 0) :
    term d p = d.toUInt64.toFloat / powerOfTen (-p).toNat := by
  unfold term
  rw [if_neg hd.ne', if_neg (Int.not_le.mpr hp)]

theorem digit_mul_infinity : forall d : Fin 10, 0 < d ->
    d.val.toUInt64.toFloat * (1.0 / 0.0) = 1.0 / 0.0 := by
  decide +kernel

theorem rounds_term {d : Nat} {p : Int} (hpos : 0 < d) (hd : d < 10) (hp : p.natAbs ≤ 22) :
    Rounds (d * 10 ^ p) (term d p).toModel.unpack := by
  have hdigit := digit_stands hpos hd
  rcases le_or_gt 0 p with hle | hlt
  · rcases Int.eq_ofNat_of_zero_le hle with ⟨n, rfl⟩
    rw [term_of_nonneg hpos hle, zpow_natCast]
    exact rounds_mul hdigit (exact_power (by omega))
  · rcases Int.exists_eq_neg_ofNat hlt.le with ⟨n, rfl⟩
    rw [term_of_neg hpos hlt, zpow_neg, zpow_natCast, ← div_eq_mul_inv, Int.neg_neg]
    exact rounds_div hdigit (exact_power (by omega)) (by positivity)

/-- What a term may miss below the normal floats and where its power is out of range. -/
def loss : ℚ :=
  10 ^ (-308 : Int)

theorem loss_pos : 0 < loss :=
  zpow_pos (by norm_num) _

theorem tiny_le_loss : tiny ≤ loss := by
  have hpowers : 10 ^ 308 ≤ 2 ^ 1075 := by decide +kernel
  have hpowers : (10 ^ 308 : ℚ) ≤ 2 ^ 1075 := by exact_mod_cast hpowers
  have htiny : tiny = (2 ^ 1075)⁻¹ := rfl
  have hloss : loss = (10 ^ 308)⁻¹ := rfl
  rw [htiny, hloss]
  exact inv_anti₀ (by positivity) hpowers

section

variable {d k : Nat} {p : Int} (hpos : 0 < d) (hd : d < 10)
include hpos hd

theorem exists_term_of_nonneg (hp : 0 ≤ p) (hp' : p ≤ 308) (hk : p ≤ k + 22) : exists t,
    Reaches (term d p).toModel.unpack t ∧ Close (k + 1) loss t (d * 10 ^ p) := by
  rcases Int.eq_ofNat_of_zero_le hp with ⟨n, rfl⟩
  rcases powerOfTen_stands (n := n) (by omega) with ⟨r, hr, hclose⟩
  have hone : (1 : ℚ) ≤ d := by
    exact_mod_cast hpos
  have hhalf := half_le_of_close hclose (by omega) hr.nonneg
  have hproduct : 1 / 2 ≤ d * r := hhalf.trans (le_mul_of_one_le_left hr.nonneg hone)
  have hrounds := rounds_mul (digit_stands hpos hd) hr
  rcases hrounds.exists_close (by linarith) with ⟨t, ht, _, hnormal⟩
  have hscaled := hclose.mul_right (zero_le_one.trans hone)
  rw [zero_mul, mul_comm r, mul_comm (10 ^ n)] at hscaled
  have hboth := (hnormal (normal_of_half_le hproduct)).trans hscaled le_rfl le_rfl
  rw [term_of_nonneg hpos hp, Int.toNat_natCast, zpow_natCast]
  refine ⟨t, ht, hboth.mono ht.nonneg (by positivity) loss_pos.le (by omega) ?_⟩
  rw [add_zero]
  exact loss_pos.le

theorem exists_term_of_neg (hp : p < 0) (hp' : -308 ≤ p) (hk : -p ≤ k + 22) : exists t,
    Reaches (term d p).toModel.unpack t ∧ Close (k + 1) loss t (d * 10 ^ p) := by
  rcases Int.exists_eq_neg_ofNat hp.le with ⟨n, rfl⟩
  rcases powerOfTen_stands (n := n) (by omega) with ⟨r, hr, hclose⟩
  have hhalf := half_le_of_close hclose (by omega) hr.nonneg
  have hrpos : 0 < r := by linarith
  have hdigit : (0 : ℚ) ≤ d := Nat.cast_nonneg d
  have hrounds := rounds_div (digit_stands hpos hd) hr hrpos
  rcases hrounds.exists_close (div_nonneg hdigit hr.nonneg) with ⟨t, ht, hslack, _⟩
  have hboth := hslack.trans (hclose.div_left hrpos (by positivity) hdigit) tiny_pos.le le_rfl
  rw [add_zero] at hboth
  rw [term_of_neg hpos hp, Int.neg_neg, Int.toNat_natCast, zpow_neg, zpow_natCast,
    ← div_eq_mul_inv]
  exact ⟨t, ht, hboth.mono ht.nonneg (by positivity) loss_pos.le (by omega) tiny_le_loss⟩

theorem reaches_term_of_great (hp : 309 ≤ p) :
    Reaches (term d p).toModel.unpack (d * 10 ^ p) := by
  rcases Int.eq_ofNat_of_zero_le (by omega : 0 ≤ p) with ⟨n, rfl⟩
  have hone : (1 : ℚ) ≤ d := by
    exact_mod_cast hpos
  right
  rw [term_of_nonneg hpos (Int.natCast_nonneg n), Int.toNat_natCast, zpow_natCast,
    powerOfTen_of_le (by omega), digit_mul_infinity ⟨d, hd⟩ hpos]
  exact ⟨rfl, (limit_le_ten_pow (by omega)).trans (le_mul_of_one_le_left (by positivity) hone)⟩

end

/-- A term is rounded once, and its power as often as it has factors beyond the exact ones. -/
theorem exists_term {d k : Nat} {p : Int} (hd : d < 10) (hk : min p.natAbs 308 ≤ k + 22) :
    exists t, Reaches (term d p).toModel.unpack t ∧ Close (k + 1) loss t (d * 10 ^ p) := by
  rcases Nat.eq_zero_or_pos d with rfl | hpos
  · rw [term_zero, Nat.cast_zero, zero_mul]
    exact ⟨0, Or.inl .zero, .refl le_rfl loss_pos.le⟩
  · by_cases hgreat : 309 ≤ p
    · exact ⟨_, reaches_term_of_great hpos hd hgreat, .refl (by positivity) loss_pos.le⟩
    · by_cases hlittle : p ≤ -309
      · rw [term_of_le hd hlittle]
        refine ⟨0, Or.inl .zero, .of_slack ?_ le_rfl (by positivity) loss_pos.le⟩
        have hdigit : (d : ℚ) ≤ 10 := by
          exact_mod_cast hd.le
        rw [zero_sub, abs_neg, abs_of_nonneg (by positivity)]
        calc
          (d * 10 ^ p : ℚ) ≤ 10 * 10 ^ (-309 : Int) :=
            mul_le_mul hdigit (zpow_le_zpow_right₀ (by norm_num) hlittle) (by positivity)
              (by norm_num)
          _ = loss := by
            rw [← zpow_one_add₀ (by norm_num)]
            rfl
      · rcases le_or_gt 0 p with hp | hp
        · exact exists_term_of_nonneg hpos hd hp (by omega) (by omega)
        · exact exists_term_of_neg hpos hd hp (by omega) (by omega)

end Numeral
end Equate
