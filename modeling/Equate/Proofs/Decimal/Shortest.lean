import Equate.Decimal.Shortest
import Equate.Proofs.Binary64.Accuracy

/-!
# What the shortest decimal denotes

The search for the shortest decimal goes through grids of powers of ten and compares natural
numbers. What is found denotes a rational number that lies in the interval of the float, on a grid
that is so coarse that it has few digits. An integer of 53 binary digits is found itself.
-/

namespace Equate
namespace Decimal

open Binary64

def value (d : Decimal) : ℚ :=
  d.digits * 10 ^ d.exponent

theorem value_of_nonneg {d : Decimal} (h : 0 ≤ d.exponent) :
    d.value = (d.digits * 10 ^ d.exponent.toNat : Nat) := by
  unfold value
  conv_lhs => rw [← Int.toNat_of_nonneg h, zpow_natCast]
  push_cast
  rfl

/-!
## Grids
-/

theorem pow_toNat {a : ℚ} (ha : a ≠ 0) (z : Int) : a ^ z.toNat = a ^ z * a ^ (-z).toNat := by
  rw [← zpow_natCast, ← zpow_natCast, ← zpow_add₀ ha]
  congr 1
  omega

theorem ten_zpow_pos (k : Int) : (0 : ℚ) < 10 ^ k :=
  zpow_pos (by norm_num) k

theorem cast_steps (b den : Nat) (k : Int) :
    ((b * den : Nat) * 10 ^ k : ℚ) = den * (b * 10 ^ k) := by
  rw [Nat.cast_mul]
  ring

section

variable {num den : Nat} {e k : Int} (h : unitPerStep e k = (num, den))
include h

theorem den_pos : 0 < den := by
  cases h
  exact Nat.mul_pos (Nat.pow_pos (by decide)) (Nat.pow_pos (by decide))

theorem unit_eq : (num * 10 ^ k : ℚ) = den * 2 ^ e := by
  cases h
  have hbinary := pow_toNat (a := 2) two_ne_zero e
  have hdecimal := pow_toNat (a := 10) (by norm_num) k
  simp only [Nat.pow_eq]
  push_cast
  rw [hbinary, hdecimal]
  ring

theorem cast_units (a : Nat) : ((a * num : Nat) * 10 ^ k : ℚ) = den * (a * 2 ^ e) := by
  rw [Nat.cast_mul, mul_assoc, unit_eq h]
  ring

theorem units_le_iff (a b : Nat) : a * num ≤ b * den ↔ (a * 2 ^ e : ℚ) ≤ b * 10 ^ k := by
  have hden : (0 : ℚ) < den := Nat.cast_pos.mpr (den_pos h)
  have hcast : a * num ≤ b * den ↔ ((a * num : Nat) : ℚ) ≤ (b * den : Nat) := Nat.cast_le.symm
  rw [hcast, ← mul_le_mul_iff_left₀ (ten_zpow_pos k), cast_units h, cast_steps,
    mul_le_mul_iff_right₀ hden]

theorem steps_le_iff (a b : Nat) : b * den ≤ a * num ↔ (b * 10 ^ k : ℚ) ≤ a * 2 ^ e := by
  have hden : (0 : ℚ) < den := Nat.cast_pos.mpr (den_pos h)
  have hcast : b * den ≤ a * num ↔ ((b * den : Nat) : ℚ) ≤ (a * num : Nat) := Nat.cast_le.symm
  rw [hcast, ← mul_le_mul_iff_left₀ (ten_zpow_pos k), cast_units h, cast_steps,
    mul_le_mul_iff_right₀ hden]

theorem units_lt_iff (a b : Nat) : a * num < b * den ↔ (a * 2 ^ e : ℚ) < b * 10 ^ k := by
  rw [← not_le, steps_le_iff h, not_le]

theorem steps_lt_iff (a b : Nat) : b * den < a * num ↔ (b * 10 ^ k : ℚ) < a * 2 ^ e := by
  rw [← not_le, units_le_iff h, not_le]

end

/-!
## Ends of the interval
-/

theorem quarter (q : Int) : (2 : ℚ) ^ q = 4 * 2 ^ (q - 2) := by
  rw [zpow_sub₀ two_ne_zero]
  norm_num
  ring

theorem cast_middle (m : Nat) (q : Int) :
    ((Interval.ofFloat m q).middle * 2 ^ (q - 2) : ℚ) = m * 2 ^ q := by
  rw [quarter q]
  show ((4 * m : Nat) : ℚ) * 2 ^ (q - 2) = _
  push_cast
  ring

theorem cast_high (m : Nat) (q : Int) :
    ((Interval.ofFloat m q).high * 2 ^ (q - 2) : ℚ) = (m + 1 / 2) * 2 ^ q := by
  rw [quarter q]
  show ((4 * m + 2 : Nat) : ℚ) * 2 ^ (q - 2) = _
  push_cast
  ring

theorem cast_low {m : Nat} (hm : 0 < m) (q : Int) :
    ((Interval.ofFloat m q).low * 2 ^ (q - 2) : ℚ) =
      if m = 2 ^ 52 ∧ q ≠ -1074 then ((m : ℚ) - 1 / 4) * 2 ^ q else (m - 1 / 2) * 2 ^ q := by
  rw [quarter q]
  show ((if m = Nat.pow 2 52 ∧ q ≠ -1074 then 4 * m - 1 else 4 * m - 2 : Nat) : ℚ) *
    2 ^ (q - 2) = _
  simp only [Nat.pow_eq]
  split
  · rw [Nat.cast_sub (by omega)]
    push_cast
    ring
  · rw [Nat.cast_sub (by omega)]
    push_cast
    ring

theorem inInterval_of_bounds {m : Nat} (hm : 0 < m) {q : Int} {v : ℚ}
    (hlow : ((Interval.ofFloat m q).low * 2 ^ (q - 2) : ℚ) ≤ v)
    (hhigh : v ≤ (Interval.ofFloat m q).high * 2 ^ (q - 2))
    (hopen : m % 2 ≠ 0 -> ((Interval.ofFloat m q).low * 2 ^ (q - 2) : ℚ) < v ∧
      v < (Interval.ofFloat m q).high * 2 ^ (q - 2)) : InInterval m q v := by
  have hpos := two_zpow_pos q
  rw [cast_low hm] at hlow hopen
  rw [cast_high] at hhigh hopen
  refine ⟨?_, hhigh, ?_, ?_⟩
  · split at hlow
    · linarith
    · exact hlow
  · intro hends
    by_contra hodd
    rcases hopen hodd with ⟨hlow', hhigh'⟩
    rcases hends with hend | hend
    · rw [hend] at hlow'
      split at hlow'
      · linarith
      · exact lt_irrefl _ hlow'
    · exact absurd hend hhigh'.ne
  · intro hm hq
    rw [if_pos ⟨hm, hq⟩] at hlow
    exact hlow

/-!
## Points of a grid
-/

theorem admits_iff (closed : Bool) (a b : Nat) :
    (if closed then decide (a ≤ b) else decide (a < b)) = true ↔
      a ≤ b ∧ (closed = false -> a < b) := by
  cases closed with
  | false =>
      rw [if_neg Bool.false_ne_true, decide_eq_true_eq]
      exact ⟨fun h => ⟨h.le, fun _ => h⟩, fun h => h.2 rfl⟩
  | true =>
      rw [if_pos rfl, decide_eq_true_eq]
      exact ⟨fun h => ⟨h, nofun⟩, fun h => h.1⟩

section

variable {i : Interval} {num den : Nat} {k : Int} (h : unitPerStep i.exponent k = (num, den))
include h

theorem gridPoint?_eq_some {digits : Nat} (hdigits : i.gridPoint? k = some digits) :
    (digits = i.middle * num / den ∧ i.low * num ≤ digits * den ∧
        (i.closed = false -> i.low * num < digits * den)) ∨
      (digits = i.middle * num / den + 1 ∧ digits * den ≤ i.high * num ∧
        (i.closed = false -> digits * den < i.high * num)) := by
  have hlow := admits_iff i.closed (i.low * num) (i.middle * num / den * den)
  have hhigh := admits_iff i.closed ((i.middle * num / den + 1) * den) (i.high * num)
  unfold Interval.gridPoint? at hdigits
  simp only [h] at hdigits
  generalize (if i.closed then decide (i.low * num ≤ i.middle * num / den * den)
    else decide (i.low * num < i.middle * num / den * den)) = hitsBelow at hlow hdigits
  generalize (if i.closed then decide ((i.middle * num / den + 1) * den ≤ i.high * num)
    else decide ((i.middle * num / den + 1) * den < i.high * num)) = hitsAbove at hhigh hdigits
  split at hdigits
  · rename_i hhit
    cases hdigits
    exact Or.inl ⟨rfl, hlow.mp (Bool.and_eq_true_iff.mp hhit).1⟩
  · split at hdigits
    · rename_i hhit
      cases hdigits
      exact Or.inr ⟨rfl, hhigh.mp hhit⟩
    · cases hdigits

theorem gridPoint?_eq_none (hnone : i.gridPoint? k = none) :
    i.middle * num / den * den ≤ i.low * num ∧
      i.high * num ≤ (i.middle * num / den + 1) * den := by
  have hlow := admits_iff i.closed (i.low * num) (i.middle * num / den * den)
  have hhigh := admits_iff i.closed ((i.middle * num / den + 1) * den) (i.high * num)
  unfold Interval.gridPoint? at hnone
  simp only [h] at hnone
  generalize (if i.closed then decide (i.low * num ≤ i.middle * num / den * den)
    else decide (i.low * num < i.middle * num / den * den)) = hitsBelow at hlow hnone
  generalize (if i.closed then decide ((i.middle * num / den + 1) * den ≤ i.high * num)
    else decide ((i.middle * num / den + 1) * den < i.high * num)) = hitsAbove at hhigh hnone
  split at hnone
  · cases hnone
  · rename_i hmissBelow
    split at hnone
    · cases hnone
    · rename_i hmissAbove
      rw [Bool.eq_false_iff.mpr hmissAbove] at hmissBelow
      constructor
      · by_contra hless
        rw [not_le] at hless
        rw [hlow.mpr ⟨hless.le, fun _ => hless⟩] at hmissBelow
        exact hmissBelow (Bool.or_true _)
      · by_contra hless
        rw [not_le] at hless
        exact hmissAbove (hhigh.mpr ⟨hless.le, fun _ => hless⟩)

end

section

variable {m : Nat} {q k : Int} (hm : 0 < m)
include hm

theorem low_lt_middle : (Interval.ofFloat m q).low < (Interval.ofFloat m q).middle := by
  show (if m = Nat.pow 2 52 ∧ q ≠ -1074 then 4 * m - 1 else 4 * m - 2) < 4 * m
  split <;> omega

theorem inInterval_of_gridPoint? {digits : Nat}
    (h : (Interval.ofFloat m q).gridPoint? k = some digits) :
    InInterval m q (digits * 10 ^ k) := by
  rcases hunit : unitPerStep (q - 2) k with ⟨num, den⟩
  have hden := den_pos hunit
  have hpos := two_zpow_pos (q - 2)
  have hclosed : m % 2 ≠ 0 -> (Interval.ofFloat m q).closed = false := by
    intro hodd
    exact decide_eq_false hodd
  have hlow : ((Interval.ofFloat m q).low : ℚ) < (Interval.ofFloat m q).middle := by
    exact_mod_cast low_lt_middle hm
  have hhigh : ((Interval.ofFloat m q).middle : ℚ) < (Interval.ofFloat m q).high := by
    have hless : (Interval.ofFloat m q).middle < (Interval.ofFloat m q).high :=
      Nat.lt_add_of_pos_right (by decide)
    exact_mod_cast hless
  have hlowEnd := mul_lt_mul_of_pos_right hlow hpos
  have hhighEnd := mul_lt_mul_of_pos_right hhigh hpos
  rcases gridPoint?_eq_some hunit h with ⟨hbelow, hle, hopen⟩ | ⟨habove, hle, hopen⟩
  · have hmiddle : digits * den ≤ (Interval.ofFloat m q).middle * num := by
      rw [hbelow]
      exact Nat.div_mul_le_self _ _
    rw [units_le_iff hunit] at hle
    rw [units_lt_iff hunit] at hopen
    rw [steps_le_iff hunit] at hmiddle
    exact inInterval_of_bounds hm hle (by linarith) fun hodd =>
      ⟨hopen (hclosed hodd), by linarith⟩
  · have hmiddle : (Interval.ofFloat m q).middle * num < digits * den := by
      rw [habove, Nat.mul_comm _ den]
      exact Nat.lt_mul_div_succ _ hden
    rw [steps_le_iff hunit] at hle
    rw [steps_lt_iff hunit] at hopen
    rw [units_lt_iff hunit] at hmiddle
    exact inInterval_of_bounds hm (by linarith) hle fun hodd =>
      ⟨by linarith, hopen (hclosed hodd)⟩

omit hm in
/-- Half a step of the float is no more than a step of the grid that is missed. -/
theorem half_le_of_gridPoint?_eq_none (h : (Interval.ofFloat m q).gridPoint? k = none) :
    (2 : ℚ) ^ q / 2 ≤ 10 ^ k := by
  rcases hunit : unitPerStep (q - 2) k with ⟨num, den⟩
  have hmiss := (gridPoint?_eq_none hunit h).2
  have hbelow : (Interval.ofFloat m q).middle * num / den * den ≤
      (Interval.ofFloat m q).middle * num := Nat.div_mul_le_self _ _
  rw [units_le_iff hunit, cast_high] at hmiss
  rw [steps_le_iff hunit, cast_middle] at hbelow
  push_cast at hmiss
  linarith

theorem gridPoint?_ne_none {n : Nat} (hn : (m * 2 ^ q : ℚ) = n * 10 ^ k) :
    (Interval.ofFloat m q).gridPoint? k ≠ none := by
  intro h
  rcases hunit : unitPerStep (q - 2) k with ⟨num, den⟩
  have hbelow := (gridPoint?_eq_none hunit h).1
  have hpoint : (Interval.ofFloat m q).middle * num = n * den := by
    apply le_antisymm
    · rw [units_le_iff hunit, cast_middle, hn]
    · rw [steps_le_iff hunit, cast_middle, hn]
  rw [hpoint, Nat.mul_div_cancel _ (den_pos hunit), steps_le_iff hunit, ← hn,
    ← cast_middle] at hbelow
  have hlow : ((Interval.ofFloat m q).low : ℚ) < (Interval.ofFloat m q).middle := by
    exact_mod_cast low_lt_middle hm
  have hless := mul_lt_mul_of_pos_right hlow (two_zpow_pos (q - 2))
  linarith

end

/-!
## Powers of ten between powers of two
-/

theorem ten_pow_bounds : ∀ k < 400,
    2 ^ (k * 217706 / 65536) ≤ 10 ^ k ∧ 10 ^ k < 2 ^ (k * 217706 / 65536 + 1) := by
  decide +kernel

theorem ten_zpow_bounds {j : Nat} (h : j < 400) :
    (2 : ℚ) ^ (j * 217706 / 65536 : Nat) ≤ 10 ^ j ∧
      (10 : ℚ) ^ j ≤ 2 ^ (j * 217706 / 65536 + 1 : Nat) := by
  rcases ten_pow_bounds j h with ⟨hlow, hhigh⟩
  exact ⟨by exact_mod_cast hlow, by exact_mod_cast hhigh.le⟩

section

variable {k n : Int} (hlow : -400 < k) (hhigh : k < 400)
include hlow hhigh

theorem ten_zpow_le (h : 217706 * k + 65536 ≤ 65536 * n) : (10 : ℚ) ^ k ≤ 2 ^ n := by
  rcases Int.le_total 0 k with hk | hk
  · rcases Int.eq_ofNat_of_zero_le hk with ⟨j, rfl⟩
    have hexponent : ((j * 217706 / 65536 + 1 : Nat) : Int) ≤ n := by
      omega
    calc
      (10 : ℚ) ^ (j : Int) = 10 ^ j := zpow_natCast 10 j
      _ ≤ 2 ^ (j * 217706 / 65536 + 1 : Nat) := (ten_zpow_bounds (by omega)).2
      _ = 2 ^ ((j * 217706 / 65536 + 1 : Nat) : Int) := (zpow_natCast 2 _).symm
      _ ≤ 2 ^ n := zpow_le_zpow_right₀ one_le_two hexponent
  · rcases Int.exists_eq_neg_ofNat hk with ⟨j, rfl⟩
    have hexponent : -((j * 217706 / 65536 : Nat) : Int) ≤ n := by
      omega
    calc
      (10 : ℚ) ^ (-(j : Int)) = (10 ^ j)⁻¹ := by rw [zpow_neg, zpow_natCast]
      _ ≤ (2 ^ (j * 217706 / 65536 : Nat))⁻¹ :=
        inv_anti₀ (by positivity) (ten_zpow_bounds (by omega)).1
      _ = 2 ^ (-((j * 217706 / 65536 : Nat) : Int)) := by rw [zpow_neg, zpow_natCast]
      _ ≤ 2 ^ n := zpow_le_zpow_right₀ one_le_two hexponent

theorem two_zpow_le (h : 65536 * n + 65536 ≤ 217706 * k) : (2 : ℚ) ^ n ≤ 10 ^ k := by
  have hinverse : (10 : ℚ) ^ (-k) ≤ 2 ^ (-n) := ten_zpow_le (by omega) (by omega) (by omega)
  rw [zpow_neg, zpow_neg] at hinverse
  exact (inv_le_inv₀ (ten_zpow_pos k) (two_zpow_pos n)).mp hinverse

end

/-!
## The search
-/

section

variable {i : Interval} {tries : Nat} {k : Int}

theorem firstPoint?_eq_some {d : Decimal} (h : i.firstPoint? tries k = some d) :
    i.gridPoint? d.exponent = some d.digits ∧ d.exponent ≤ k ∧ k - tries < d.exponent ∧
      (d.exponent = k ∨ i.gridPoint? (d.exponent + 1) = none) := by
  induction tries generalizing k with
  | zero => cases h
  | succ tries ih =>
      unfold Interval.firstPoint? at h
      cases hhere : i.gridPoint? k with
      | some digits =>
          rw [hhere] at h
          cases h
          refine ⟨hhere, le_refl k, ?_, Or.inl rfl⟩
          show k - (tries + 1 : Nat) < k
          omega
      | none =>
          rw [hhere] at h
          rcases ih h with ⟨hpoint, hle, hlt, hmiss⟩
          refine ⟨hpoint, by omega, by omega, Or.inr ?_⟩
          rcases hmiss with hfirst | hmiss
          · rw [hfirst, Int.sub_add_cancel]
            exact hhere
          · exact hmiss

theorem exists_firstPoint? {j : Int} (hj : j ≤ k) (hj' : k - tries < j)
    (hhit : i.gridPoint? j ≠ none) :
    exists d, i.firstPoint? tries k = some d ∧ j ≤ d.exponent := by
  induction tries generalizing k with
  | zero => omega
  | succ tries ih =>
      unfold Interval.firstPoint?
      cases hhere : i.gridPoint? k with
      | some digits => exact ⟨_, rfl, hj⟩
      | none =>
          have hne : j ≠ k := by
            rintro rfl
            exact hhit hhere
          exact ih (by omega) (by omega)

end

section

variable {m : Nat} {q : Int} (hm : 0 < m) (h : Canonical m q)
include hm h

theorem log2_lt_of_canonical : m.log2 < 53 :=
  (Nat.log2_lt hm.ne').mpr h.small

theorem exists_firstPoint?_coarsest : exists d,
    (Interval.ofFloat m q).firstPoint? 24 (coarsestExponent m q) = some d := by
  have hlog := log2_lt_of_canonical hm h
  have hleast := h.least
  have hgreatest := h.greatest
  have hcoarsest : coarsestExponent m q = (m.log2 + 1 + q) * 30103 / 100000 + 2 := rfl
  have hhit : (Interval.ofFloat m q).gridPoint? (coarsestExponent m q - 23) ≠ none := by
    intro hmiss
    have hhalf := half_le_of_gridPoint?_eq_none hmiss
    have hfine : (10 : ℚ) ^ (coarsestExponent m q - 23) ≤ 2 ^ (q - 2) :=
      ten_zpow_le (by omega) (by omega) (by omega)
    rw [quarter q] at hhalf
    have hpos := two_zpow_pos (q - 2)
    linarith
  have hsearch : exists d, (Interval.ofFloat m q).firstPoint? 24 (coarsestExponent m q) = some d ∧
      coarsestExponent m q - 23 ≤ d.exponent :=
    exists_firstPoint? (by omega) (by omega) hhit
  exact hsearch.imp fun d hd => hd.1

/-- The shortest decimal is found on a grid. -/
theorem shortest_found :
    (Interval.ofFloat m q).firstPoint? 24 (coarsestExponent m q) = some (shortest m q) := by
  rcases exists_firstPoint?_coarsest hm h with ⟨d, hd⟩
  unfold shortest
  rw [hd]
  rfl

theorem inInterval_shortest : InInterval m q (shortest m q).value :=
  inInterval_of_gridPoint? hm (firstPoint?_eq_some (shortest_found hm h)).1

theorem exponent_shortest :
    -350 < (shortest m q).exponent ∧ (shortest m q).exponent < 350 := by
  have hlog := log2_lt_of_canonical hm h
  have hleast := h.least
  have hgreatest := h.greatest
  have hcoarsest : coarsestExponent m q = (m.log2 + 1 + q) * 30103 / 100000 + 2 := rfl
  rcases firstPoint?_eq_some (shortest_found hm h) with ⟨_, hle, hlt, _⟩
  constructor <;> omega

/-- A grid that is coarse enough to miss a float leaves it few digits. -/
theorem digits_shortest_lt : (shortest m q).digits < 10 ^ 18 := by
  have hlog := log2_lt_of_canonical hm h
  have hleast := h.least
  have hgreatest := h.greatest
  have hcoarsest : coarsestExponent m q = (m.log2 + 1 + q) * 30103 / 100000 + 2 := rfl
  have habove := (inInterval_shortest hm h).above
  have hstep := ten_zpow_pos (shortest m q).exponent
  unfold value at habove
  rcases firstPoint?_eq_some (shortest_found hm h) with ⟨_, hle, hlt, hfirst | hmiss⟩
  · have hbelow : ((m : ℚ) + 1 / 2) * 2 ^ q < 10 ^ (shortest m q).exponent := by
      have hmantissa : (m : ℚ) + 1 ≤ 2 ^ (m.log2 + 1) := by
        exact_mod_cast Nat.lt_log2_self
      calc
        ((m : ℚ) + 1 / 2) * 2 ^ q < 2 ^ (m.log2 + 1) * 2 ^ q :=
          mul_lt_mul_of_pos_right (by linarith) (two_zpow_pos q)
        _ = 2 ^ ((m.log2 : Int) + 1 + q) := two_pow_log2_mul m q
        _ ≤ 10 ^ (shortest m q).exponent := by
          rw [hfirst]
          exact two_zpow_le (by omega) (by omega) (by omega)
    have hnone : ((shortest m q).digits : ℚ) < (1 : Nat) := by
      rw [Nat.cast_one]
      refine lt_of_mul_lt_mul_right ?_ hstep.le
      linarith
    have hnone : (shortest m q).digits < 1 := by exact_mod_cast hnone
    exact hnone.trans (by decide)
  · have hhalf := half_le_of_gridPoint?_eq_none hmiss
    rw [zpow_add_one₀ (by norm_num : (10 : ℚ) ≠ 0)] at hhalf
    have hmantissa : (m : ℚ) + 1 ≤ 2 ^ 53 := by
      exact_mod_cast h.small
    have hfew : ((shortest m q).digits : ℚ) < (10 ^ 18 : Nat) := by
      refine lt_of_mul_lt_mul_right ?_ hstep.le
      calc
        ((shortest m q).digits * 10 ^ (shortest m q).exponent : ℚ) ≤ (m + 1 / 2) * 2 ^ q := habove
        _ ≤ 2 ^ 53 * (20 * 10 ^ (shortest m q).exponent) :=
          mul_le_mul (by linarith) (by linarith) (two_zpow_pos q).le (by norm_num)
        _ < (10 ^ 18 : Nat) * 10 ^ (shortest m q).exponent := by
          rw [← mul_assoc]
          exact mul_lt_mul_of_pos_right (by norm_num) hstep
    exact_mod_cast hfew

omit hm in
theorem exponent_le_of_small {n : Nat} (hn : (m * 2 ^ q : ℚ) = n) (hsmall : n < 2 ^ 53) :
    q ≤ 0 := by
  by_contra hmore
  have hmantissa : (2 ^ 52 : ℚ) ≤ m := by
    exact_mod_cast h.full.resolve_right (by omega)
  have htwo : (2 : ℚ) ≤ 2 ^ q := by
    have hpower : (2 : ℚ) ^ (1 : Int) ≤ 2 ^ q := zpow_le_zpow_right₀ one_le_two (by omega)
    rwa [zpow_one] at hpower
  have hlarge : (2 ^ 52 * 2 : ℚ) ≤ n := by
    rw [← hn]
    exact mul_le_mul hmantissa htwo (by norm_num) (Nat.cast_nonneg m)
  have hsmall : (n : ℚ) < 2 ^ 53 := by
    exact_mod_cast hsmall
  linarith

omit h in
theorem log2_pos_of_whole {n : Nat} (hn : (m * 2 ^ q : ℚ) = n) : 0 < (m.log2 : Int) + 1 + q := by
  have hone : (1 : ℚ) ≤ n := by
    have hpos : (0 : ℚ) < n := by
      rw [← hn]
      exact mul_pos (Nat.cast_pos.mpr hm) (two_zpow_pos q)
    exact_mod_cast hpos
  have hmantissa : (m : ℚ) < 2 ^ (m.log2 + 1) := by
    exact_mod_cast Nat.lt_log2_self
  have hpower : (2 : ℚ) ^ (0 : Int) < 2 ^ ((m.log2 : Int) + 1 + q) :=
    calc
      (2 : ℚ) ^ (0 : Int) ≤ m * 2 ^ q := by
        rw [zpow_zero, hn]
        exact hone
      _ < 2 ^ (m.log2 + 1) * 2 ^ q := mul_lt_mul_of_pos_right hmantissa (two_zpow_pos q)
      _ = 2 ^ ((m.log2 : Int) + 1 + q) := two_pow_log2_mul m q
  exact (zpow_lt_zpow_iff_right₀ one_lt_two).mp hpower

theorem value_shortest_of_whole {n : Nat} (hn : (m * 2 ^ q : ℚ) = n) (hsmall : n < 2 ^ 53) :
    0 ≤ (shortest m q).exponent ∧ (shortest m q).value = n := by
  have hlog := log2_lt_of_canonical hm h
  have hq := exponent_le_of_small h hn hsmall
  have hdigits := log2_pos_of_whole hm hn
  have hcoarsest : coarsestExponent m q = (m.log2 + 1 + q) * 30103 / 100000 + 2 := rfl
  have hsearch : exists d, (Interval.ofFloat m q).firstPoint? 24 (coarsestExponent m q) = some d ∧
      0 ≤ d.exponent := by
    refine exists_firstPoint? (by omega) (by omega) (gridPoint?_ne_none hm (n := n) ?_)
    rw [zpow_zero, mul_one]
    exact hn
  have hexponent : 0 ≤ (shortest m q).exponent := by
    rcases hsearch with ⟨d, hd, hle⟩
    cases hd.symm.trans (shortest_found hm h)
    exact hle
  refine ⟨hexponent, ?_⟩
  have hinterval := inInterval_shortest hm h
  have hbelow := hinterval.below
  have habove := hinterval.above
  have hstep : (2 : ℚ) ^ q ≤ 1 := zpow_le_one_of_nonpos₀ one_le_two hq
  rw [value_of_nonneg hexponent] at hbelow habove ⊢
  generalize (shortest m q).digits * 10 ^ (shortest m q).exponent.toNat = k at hbelow habove ⊢
  have hless : (n : ℚ) < (k + 1 : Nat) := by
    push_cast
    linarith
  have hmore : (k : ℚ) < (n + 1 : Nat) := by
    push_cast
    linarith
  have hless : n < k + 1 := by exact_mod_cast hless
  have hmore : k < n + 1 := by exact_mod_cast hmore
  congr 1
  omega

end

end Decimal
end Equate
