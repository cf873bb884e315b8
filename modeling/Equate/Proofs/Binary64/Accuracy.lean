import Equate.Proofs.Binary64.Values

/-!
# Accuracy

A mantissa that has lost digits recalls with two bits what they were worth: whether it was at
least a half, and whether there was anything else. This is enough for the nearest mantissa to be
found, a tie going to the even one. What is rounded here is any rational number that is not
negative, however the mantissa and its accuracy have been computed.
-/

namespace Equate
namespace Binary64

open Float.Model Float.Model.UnpackedFloat

/-!
## Mantissas with two bits behind them
-/

structure IsRounded (w : ℚ) (n : Nat) : Prop where
  near : |w - n| ≤ 1 / 2
  even : |w - n| = 1 / 2 -> n % 2 = 0

/--
A mantissa has lost less than one. The bit behind it tells whether at least a half was lost, and
the last bit tells whether anything else was.
-/
def Recalls (em : ExtendedMantissa) (w : ℚ) : Prop :=
  exists rest : ℚ, 0 ≤ rest ∧ rest < 1 / 2 ∧ (em.stickyBit = true ↔ rest ≠ 0) ∧
    w = em.mantissa + (if em.roundBit then 1 / 2 else 0) + rest

theorem Recalls.shiftRightOne {em : ExtendedMantissa} {w : ℚ} (h : Recalls em w) :
    Recalls em.shiftRightOne (w / 2) := by
  rcases em with ⟨m, roundBit, stickyBit⟩
  rcases h with ⟨rest, hnonneg, hless, hsticky, rfl⟩
  have hhalves : (m : ℚ) = 2 * (m / 2 : Nat) + (m % 2 : Nat) := by
    exact_mod_cast (Nat.div_add_mod m 2).symm
  have hlost : (((m % 2 : Nat) : ℚ) / 2) = if m % 2 != 0 then 1 / 2 else 0 := by
    rcases Nat.mod_two_eq_zero_or_one m with heven | hodd
    · rw [heven]
      norm_num
    · rw [hodd]
      norm_num
  refine ⟨(if roundBit then 1 / 4 else 0) + rest / 2, ?_, ?_, ?_, ?_⟩
  · split <;> linarith
  · split <;> linarith
  · show (roundBit || stickyBit) = true ↔ _
    rw [Bool.or_eq_true]
    change (stickyBit = true ↔ _) at hsticky
    rw [hsticky]
    cases roundBit with
    | false => simp
    | true => exact iff_of_true (Or.inl rfl) (by simp only [if_true]; linarith)
  · show _ = ((m / 2 : Nat) : ℚ) + (if m % 2 != 0 then 1 / 2 else 0) + _
    rw [← hlost]
    cases roundBit
    · simp only [Bool.false_eq_true, if_false]
      linarith
    · simp only [if_true]
      linarith

theorem Recalls.shiftRight {em : ExtendedMantissa} {w : ℚ} (h : Recalls em w) (n : Nat) :
    Recalls (em >>> n) (w / 2 ^ n) := by
  induction n with
  | zero =>
      rw [pow_zero, div_one]
      exact h
  | succ n ih =>
      rw [pow_succ, ← div_div]
      exact ih.shiftRightOne

theorem Recalls.isRounded {em : ExtendedMantissa} {w : ℚ} (h : Recalls em w) :
    IsRounded w em.roundedMantissa := by
  rcases em with ⟨m, roundBit, stickyBit⟩
  rcases h with ⟨rest, hnonneg, hless, hsticky, rfl⟩
  cases roundBit with
  | false =>
      have hdown : (⟨m, false, stickyBit⟩ : ExtendedMantissa).roundedMantissa = m := by
        cases stickyBit <;> rfl
      have hdistance : |((m : ℚ) + (if false then 1 / 2 else 0) + rest) - m| = rest := by
        rw [if_neg Bool.false_ne_true, add_zero, add_sub_cancel_left, abs_of_nonneg hnonneg]
      rw [hdown]
      change IsRounded (m + (if false then 1 / 2 else 0) + rest) m
      refine ⟨hdistance.trans_le hless.le, ?_⟩
      intro htie
      rw [hdistance] at htie
      exact absurd htie hless.ne
  | true =>
      cases stickyBit with
      | false =>
          have hzero : rest = 0 := by
            by_contra hne
            cases hsticky.mpr hne
          have hup : (⟨m, true, false⟩ : ExtendedMantissa).roundedMantissa = m + m % 2 := rfl
          rw [hup, hzero]
          change IsRounded (m + (if true then 1 / 2 else 0) + 0) (m + m % 2)
          rw [if_pos rfl, add_zero]
          rcases Nat.mod_two_eq_zero_or_one m with heven | hodd
          · rw [heven]
            refine ⟨?_, fun _ => heven⟩
            rw [Nat.add_zero, add_sub_cancel_left, abs_of_nonneg (by norm_num)]
          · rw [hodd]
            refine ⟨?_, fun _ => by omega⟩
            rw [Nat.cast_add_one, add_sub_add_left_eq_sub]
            norm_num
      | true =>
          have hne : rest ≠ 0 := hsticky.mp rfl
          have hpos : 0 < rest := lt_of_le_of_ne hnonneg hne.symm
          have hup : (⟨m, true, true⟩ : ExtendedMantissa).roundedMantissa = m + 1 := rfl
          have hdistance : |((m : ℚ) + (if true then 1 / 2 else 0) + rest) - (m + 1 : Nat)| =
              1 / 2 - rest := by
            rw [if_pos rfl, Nat.cast_add_one, abs_of_neg (by linarith)]
            ring
          rw [hup]
          change IsRounded (m + (if true then 1 / 2 else 0) + rest) (m + 1)
          refine ⟨by rw [hdistance]; linarith, ?_⟩
          intro htie
          rw [hdistance] at htie
          linarith

theorem recalls_exact (m : Nat) : Recalls (.ofMantissaAndAccuracy m .exact) m :=
  ⟨0, le_refl 0, by norm_num, by simp [ExtendedMantissa.ofMantissaAndAccuracy],
    by simp [ExtendedMantissa.ofMantissaAndAccuracy]⟩

theorem recalls_fraction (m : Nat) {rest divisor : Nat} (h : rest < divisor) :
    Recalls (.ofMantissaAndAccuracy m (accuracyOfFraction rest divisor))
      (m + rest / divisor) := by
  have hdivisor : (0 : ℚ) < divisor := by
    exact_mod_cast Nat.zero_lt_of_lt h
  have hsmall : (rest : ℚ) / divisor < 1 := by
    rw [div_lt_one hdivisor]
    exact_mod_cast h
  unfold accuracyOfFraction
  by_cases hzero : rest = 0
  · rw [if_pos hzero, hzero, Nat.cast_zero, zero_div, add_zero]
    exact recalls_exact m
  · have hpos : (0 : ℚ) < rest / divisor :=
      div_pos (by exact_mod_cast Nat.pos_of_ne_zero hzero) hdivisor
    rw [if_neg hzero]
    cases hcompare : compare (2 * rest) divisor with
    | lt =>
        have hless : (2 * rest : ℚ) < divisor := by
          exact_mod_cast Nat.compare_eq_lt.mp hcompare
        refine ⟨rest / divisor, hpos.le, ?_, iff_of_true rfl hpos.ne', ?_⟩
        · rw [div_lt_iff₀ hdivisor]
          linarith
        · simp [ExtendedMantissa.ofMantissaAndAccuracy]
    | eq =>
        have htie : (2 * rest : ℚ) = divisor := by
          exact_mod_cast Nat.compare_eq_eq.mp hcompare
        refine ⟨0, le_refl 0, by norm_num, by simp [ExtendedMantissa.ofMantissaAndAccuracy], ?_⟩
        have hhalf : (rest : ℚ) / divisor = 1 / 2 := by
          rw [div_eq_iff hdivisor.ne']
          linarith
        rw [hhalf]
        simp [ExtendedMantissa.ofMantissaAndAccuracy]
    | gt =>
        have hmore : (divisor : ℚ) < 2 * rest := by
          exact_mod_cast Nat.compare_eq_gt.mp hcompare
        have hhalf : (1 : ℚ) / 2 < rest / divisor := by
          rw [lt_div_iff₀ hdivisor]
          linarith
        refine ⟨rest / divisor - 1 / 2, by linarith, by linarith, ?_, ?_⟩
        · refine iff_of_true rfl ?_
          linarith
        · simp [ExtendedMantissa.ofMantissaAndAccuracy]

/-!
## Rounding
-/

/-- The exponent at which 53 digits of a number are left, or else the least one. -/
structure HasScale (u : ℚ) (E : Int) : Prop where
  least : -1074 ≤ E
  high : u < 2 ^ 53 * 2 ^ E
  low : 2 ^ 52 * 2 ^ E ≤ u ∨ E = -1074

/-- A float stands for a number, or the number is too great and the float is infinite. -/
def Reaches (x : UnpackedFloat) (v : ℚ) : Prop :=
  Stands x v ∨ x = .infinity .positive ∧ 2 ^ 1024 ≤ v

def Rounds (u : ℚ) (x : UnpackedFloat) : Prop :=
  exists (n : Nat) (E : Int), HasScale u E ∧ IsRounded (u / 2 ^ E) n ∧ Reaches x (n * 2 ^ E)

theorem targetExponent_eq_max (m : Nat) (e : Int) :
    Format.binary64.targetExponent (totalExponent m e) = max (m.log2 - 52 + e) (-1074) := by
  show max ((m.log2 : Int) + 1 + e - 53) (3 - 2 ^ 10 - 53) = _
  omega

theorem Recalls.bounds {em : ExtendedMantissa} {w : ℚ} (h : Recalls em w) :
    em.mantissa ≤ w ∧ w < em.mantissa + 1 := by
  rcases h with ⟨rest, hnonneg, hless, _, rfl⟩
  constructor
  · split <;> linarith
  · split <;> linarith

theorem hasScale_of_mantissa {m : Nat} {e : Int} {w : ℚ} (henough : 52 ≤ m.log2 ∨ e ≤ -1074)
    (hlow : (m : ℚ) ≤ w) (hhigh : w < m + 1) :
    HasScale (w * 2 ^ e) (max (m.log2 - 52 + e) (-1074)) := by
  have hmost : (m.log2 : Int) + 1 + e ≤ 53 + max (m.log2 - 52 + e) (-1074) := by
    omega
  refine ⟨by omega, ?_, ?_⟩
  · have hpower : (m : ℚ) + 1 ≤ 2 ^ (m.log2 + 1) := by
      exact_mod_cast Nat.lt_log2_self
    calc
      w * 2 ^ e < 2 ^ (m.log2 + 1) * 2 ^ e :=
        mul_lt_mul_of_pos_right (hhigh.trans_le hpower) (two_zpow_pos e)
      _ = 2 ^ ((m.log2 : Int) + 1 + e) := two_pow_log2_mul m e
      _ ≤ 2 ^ (53 + max ((m.log2 : Int) - 52 + e) (-1074)) :=
        zpow_le_zpow_right₀ one_le_two hmost
      _ = 2 ^ 53 * 2 ^ max ((m.log2 : Int) - 52 + e) (-1074) := zpow_add₀ two_ne_zero 53 _
  · rcases Int.le_total ((m.log2 : Int) - 52 + e) (-1074) with hleast | hmore
    · exact Or.inr (max_eq_right hleast)
    · rw [max_eq_left hmore]
      rcases Nat.eq_zero_or_pos m with rfl | hpos
      · right
        change (52 : Nat) ≤ 0 ∨ _ at henough
        change -1074 ≤ (0 : Int) - 52 + e at hmore
        omega
      · left
        have hpower : (2 : ℚ) ^ m.log2 ≤ m := by
          exact_mod_cast Nat.log2_self_le hpos.ne'
        calc
          (2 : ℚ) ^ 52 * 2 ^ ((m.log2 : Int) - 52 + e) = 2 ^ m.log2 * 2 ^ e := by
            rw [zpow_add₀ two_ne_zero, zpow_sub₀ two_ne_zero, zpow_natCast]
            norm_num
            ring
          _ ≤ w * 2 ^ e := mul_le_mul_of_nonneg_right (hpower.trans hlow) (two_zpow_pos e).le

theorem unpack_pack_huge (sign : Sign) {m : Nat} {e : Int} (hpos : 0 < m) (h : 972 ≤ e) :
    (Float.Model.pack (.finite sign m e hpos)).unpack = .infinity sign := by
  have hlarge : 2 ^ Format.binary64.exponentBits ≤ (e + Format.binary64.exponentBias +
      Format.binary64.mantissaBitsWithoutImplicit).toNat + 1 := by
    show 2 ^ 11 ≤ (e + 1023 + 52).toNat + 1
    omega
  show UnpackedFloat.unpack Format.binary64
    (UnpackedFloat.pack Format.binary64 (.finite sign m e hpos)) = _
  rw [UnpackedFloat.pack]
  simp only [if_pos hlarge]
  cases sign <;> rfl

theorem reaches_pack {m : Nat} {e : Int} (hpos : 0 < m) (hsmall : m < 2 ^ 53)
    (hleast : -1074 ≤ e) (hfull : 2 ^ 52 ≤ m ∨ e = -1074) :
    Reaches (Float.Model.pack (.finite .positive m e hpos)).unpack (m * 2 ^ e) := by
  rcases Int.lt_or_le 971 e with hgreat | hgreatest
  · right
    refine ⟨unpack_pack_huge .positive hpos hgreat, ?_⟩
    have hmantissa : (2 ^ 52 : ℚ) ≤ m := by
      exact_mod_cast hfull.resolve_right (by omega)
    calc
      (2 ^ 1024 : ℚ) = 2 ^ 52 * 2 ^ (972 : Int) := by
        rw [show (972 : Int) = (972 : Nat) from rfl, zpow_natCast, ← pow_add]
      _ ≤ m * 2 ^ e := mul_le_mul hmantissa (zpow_le_zpow_right₀ one_le_two hgreat)
        (two_zpow_pos 972).le (Nat.cast_nonneg m)
  · left
    have hcanonical : Canonical m e := ⟨hsmall, hleast, hgreatest, hfull⟩
    rw [hcanonical.unpack_pack]
    exact .finite hpos hcanonical

theorem HasScale.mantissa_bounds {u : ℚ} {E : Int} {n : Nat} (hscale : HasScale u E)
    (hn : IsRounded (u / 2 ^ E) n) : n ≤ 2 ^ 53 ∧ (2 ^ 52 ≤ n ∨ E = -1074) := by
  have hnear := abs_le.mp hn.near
  have hhigh : u / 2 ^ E < 2 ^ 53 := by
    rw [div_lt_iff₀ (two_zpow_pos E)]
    exact hscale.high
  constructor
  · have hbound : (n : ℚ) < (2 ^ 53 + 1 : Nat) := by
      push_cast
      linarith
    have hless : n < 2 ^ 53 + 1 := by
      exact_mod_cast hbound
    omega
  · refine hscale.low.imp_left ?_
    intro hlow
    rw [← le_div_iff₀ (two_zpow_pos E)] at hlow
    have hbound : ((2 ^ 52 : Nat) : ℚ) < (n + 1 : Nat) := by
      push_cast
      linarith
    have hless : 2 ^ 52 < n + 1 := by
      exact_mod_cast hbound
    omega

theorem shiftToTargetExponent_eq_max (m : Nat) (e : Int) (accuracy : Accuracy) :
    shiftToTargetExponent Format.binary64 m e accuracy =
      (ExtendedMantissa.ofMantissaAndAccuracy m accuracy >>>
        (max ((m.log2 : Int) - 52 + e) (-1074) - e).toNat,
        e + (max ((m.log2 : Int) - 52 + e) (-1074) - e).toNat) := by
  unfold shiftToTargetExponent shiftToExponent
  simp only [targetExponent_eq_max]

theorem shift_rounded {n : Nat} {T : Int} (hn : n ≤ 2 ^ 53) (hT : -1074 ≤ T) :
    exists em F, shiftToTargetExponent Format.binary64 n T .exact = (em, F) ∧
      ((n < 2 ^ 53 ∧ em.mantissa = n ∧ F = T) ∨
        (n = 2 ^ 53 ∧ em.mantissa = 2 ^ 52 ∧ F = T + 1)) := by
  refine ⟨_, _, shiftToTargetExponent_eq_max n T .exact, ?_⟩
  rw [mantissa_shifted]
  rcases Nat.lt_or_eq_of_le hn with hless | rfl
  · have hlog : n.log2 ≤ 52 := by
      rcases Nat.eq_zero_or_pos n with rfl | hpos
      · decide
      · exact Nat.le_of_lt_succ ((Nat.log2_lt hpos.ne').mpr hless)
    have hstays : (max ((n.log2 : Int) - 52 + T) (-1074) - T).toNat = 0 := by
      omega
    left
    rw [hstays, Nat.pow_zero, Nat.div_one]
    exact ⟨hless, rfl, Int.add_zero T⟩
  · have hgrows : (max (((2 ^ 53 : Nat).log2 : Int) - 52 + T) (-1074) - T).toNat = 1 := by
      rw [Nat.log2_two_pow]
      omega
    right
    rw [hgrows]
    exact ⟨rfl, by decide, rfl⟩

/-- A mantissa that recalls enough of a number is rounded to the nearest float. -/
theorem rounds_roundWithAccuracy {m : Nat} {e : Int} {accuracy : Accuracy} {w : ℚ}
    (hw : Recalls (.ofMantissaAndAccuracy m accuracy) w) (henough : 52 ≤ m.log2 ∨ e ≤ -1074) :
    Rounds (w * 2 ^ e) (Float.Model.pack
      (roundWithAccuracy Format.binary64 .positive m e accuracy)).unpack := by
  have hbounds := hw.bounds
  rw [mantissa_ofMantissaAndAccuracy] at hbounds
  have hscale := hasScale_of_mantissa henough hbounds.1 hbounds.2
  have hfirst := shiftToTargetExponent_eq_max m e accuracy
  generalize hshift : (max ((m.log2 : Int) - 52 + e) (-1074) - e).toNat = k at hfirst
  have hexponent : max ((m.log2 : Int) - 52 + e) (-1074) = e + k := by
    omega
  rw [hexponent] at hscale
  have hunits : w * 2 ^ e / 2 ^ (e + k) = w / 2 ^ k := by
    rw [two_zpow_add_natCast, mul_comm (2 ^ e : ℚ), mul_div_mul_right _ _ (two_zpow_pos e).ne']
  have hrounded := (hw.shiftRight k).isRounded
  generalize ExtendedMantissa.ofMantissaAndAccuracy m accuracy >>> k = em at hfirst hrounded
  rw [← hunits] at hrounded
  rcases hscale.mantissa_bounds hrounded with ⟨hmost, hfull⟩
  have hleast := hscale.least
  refine ⟨em.roundedMantissa, e + k, hscale, hrounded, ?_⟩
  rcases shift_rounded hmost hleast with ⟨last, F, hlast, hcases⟩
  unfold roundWithAccuracy
  simp only [hfirst, hlast]
  rcases hcases with ⟨hless, hmantissa, rfl⟩ | ⟨hpower, hmantissa, rfl⟩
  · simp only [hmantissa]
    split
    · rename_i hzero
      left
      rw [hzero, Nat.cast_zero, zero_mul]
      exact .zero
    · exact reaches_pack _ hless hleast hfull
  · have hvalue : (em.roundedMantissa : ℚ) * 2 ^ (e + k) = (2 ^ 52 : Nat) * 2 ^ (e + k + 1) := by
      rw [hpower, zpow_add_one₀ two_ne_zero]
      norm_num
      ring
    simp only [hmantissa, hvalue]
    rw [dif_neg (by decide)]
    exact reaches_pack (by decide) (by decide) (by omega) (Or.inl (by decide))

/-!
## What rounding does to a number
-/

theorem HasScale.le {u v : ℚ} {E F : Int} (hE : HasScale u E) (h : u ≤ v)
    (hF : v < 2 ^ 53 * 2 ^ F) (hleast : -1074 ≤ F) : E ≤ F := by
  rcases hE.low with hlow | rfl
  · have hless : (2 : ℚ) ^ (52 + E) < 2 ^ (53 + F) := by
      rw [zpow_add₀ two_ne_zero, zpow_add₀ two_ne_zero]
      exact (hlow.trans h).trans_lt hF
    have hexponents := (zpow_lt_zpow_iff_right₀ one_lt_two).mp hless
    omega
  · exact hleast

theorem HasScale.unique {u : ℚ} {E F : Int} (hE : HasScale u E) (hF : HasScale u F) : E = F :=
  le_antisymm (hE.le (le_refl u) hF.high hF.least) (hF.le (le_refl u) hE.high hE.least)

theorem IsRounded.distance {u : ℚ} {n : Nat} {E : Int} (h : IsRounded (u / 2 ^ E) n) :
    |n * 2 ^ E - u| ≤ 2 ^ E / 2 := by
  have hpos := two_zpow_pos E
  have hunits : (n * 2 ^ E - u : ℚ) = -((u / 2 ^ E - n) * 2 ^ E) := by
    field_simp
    ring
  rw [hunits, abs_neg, abs_mul, abs_of_pos hpos]
  calc
    |u / 2 ^ E - n| * 2 ^ E ≤ 1 / 2 * 2 ^ E := mul_le_mul_of_nonneg_right h.near hpos.le
    _ = 2 ^ E / 2 := by ring

/-- A rounded number has changed by one part in `2 ^ 53`, or by half of the least float. -/
theorem Rounds.exists_near {u : ℚ} {x : UnpackedFloat} (h : Rounds u x) :
    exists v, Reaches x v ∧ (|v - u| ≤ u / 2 ^ 53 ∨ |v - u| ≤ 2 ^ (-1075 : Int)) := by
  rcases h with ⟨n, E, hscale, hn, hx⟩
  refine ⟨_, hx, ?_⟩
  rcases hscale.low with hlow | rfl
  · left
    refine hn.distance.trans ?_
    rw [le_div_iff₀ (by norm_num)]
    linarith
  · right
    have hhalf : (2 : ℚ) ^ (-1074 : Int) / 2 = 2 ^ (-1075 : Int) := by
      rw [show (-1074 : Int) = -1075 + 1 from rfl, zpow_add_one₀ two_ne_zero]
      exact mul_div_cancel_right₀ _ two_ne_zero
    exact hn.distance.trans_eq hhalf

theorem IsRounded.eq_of_natCast {m n : Nat} (h : IsRounded m n) : n = m := by
  rcases abs_le.mp h.near with ⟨hlow, hhigh⟩
  have hless : (m : ℚ) < (n + 1 : Nat) := by
    push_cast
    linarith
  have hmore : (n : ℚ) < (m + 1 : Nat) := by
    push_cast
    linarith
  have hless : m < n + 1 := by exact_mod_cast hless
  have hmore : n < m + 1 := by exact_mod_cast hmore
  omega

theorem Rounds.stands_of_exact {m : Nat} {e : Int} {x : UnpackedFloat} (h : Rounds (m * 2 ^ e) x)
    (hm : m < 2 ^ 53) (he : -1074 ≤ e) (hlimit : (m * 2 ^ e : ℚ) < 2 ^ 1024) :
    Stands x (m * 2 ^ e) := by
  rcases h with ⟨n, E, hscale, hn, hx⟩
  have hmantissa : (m : ℚ) < 2 ^ 53 := by
    exact_mod_cast hm
  have hle : E ≤ e :=
    hscale.le (le_refl _) (mul_lt_mul_of_pos_right hmantissa (two_zpow_pos e)) he
  rcases Int.le.dest hle with ⟨k, rfl⟩
  have hunits : (m * 2 ^ (E + k) / 2 ^ E : ℚ) = (m * 2 ^ k : Nat) := by
    rw [two_zpow_add_natCast]
    push_cast
    field_simp
  rw [hunits] at hn
  have hvalue : (n * 2 ^ E : ℚ) = m * 2 ^ (E + k) := by
    rw [hn.eq_of_natCast, two_zpow_add_natCast]
    push_cast
    ring
  rw [hvalue] at hx
  exact hx.resolve_right fun hinfinite => absurd hlimit (not_lt.mpr hinfinite.2)

/-- The numbers that are rounded to a float, half a step to either side. -/
structure InInterval (m : Nat) (q : Int) (u : ℚ) : Prop where
  below : (m - 1 / 2) * 2 ^ q ≤ u
  above : u ≤ (m + 1 / 2) * 2 ^ q
  even : u = (m - 1 / 2) * 2 ^ q ∨ u = (m + 1 / 2) * 2 ^ q -> m % 2 = 0
  /-- Below a power of two the steps are half as wide. -/
  narrow : m = 2 ^ 52 -> q ≠ -1074 -> (m - 1 / 4) * 2 ^ q ≤ u

theorem IsRounded.eq_of_even {w : ℚ} {m n : Nat} (hn : IsRounded w n) (hm : IsRounded w m) :
    n = m := by
  by_contra hne
  rcases abs_le.mp hn.near with ⟨hlow, hhigh⟩
  rcases abs_le.mp hm.near with ⟨hlow', hhigh'⟩
  -- Both are half a step away on different sides, and one of them is odd.
  wlog hless : n < m generalizing m n
  · exact this hm hn (Ne.symm hne) hlow' hhigh' hlow hhigh (by omega)
  have hsucc : (n : ℚ) + 1 ≤ m := by
    exact_mod_cast hless
  have hright : w - n = 1 / 2 := by linarith
  have hleft : w - m = -(1 / 2) := by linarith
  have hneighbour : (m : ℚ) = (n + 1 : Nat) := by
    push_cast
    linarith
  have heven := hn.even (by rw [hright]; norm_num)
  have heven' := hm.even (by rw [hleft]; norm_num)
  have hneighbour : m = n + 1 := by exact_mod_cast hneighbour
  omega

theorem Canonical.lt_limit {m : Nat} {q : Int} (h : Canonical m q) :
    (m * 2 ^ q : ℚ) < 2 ^ 1024 := by
  have hsmall : (m : ℚ) < 2 ^ 53 := by
    exact_mod_cast h.small
  calc
    (m * 2 ^ q : ℚ) < 2 ^ 53 * 2 ^ q := mul_lt_mul_of_pos_right hsmall (two_zpow_pos q)
    _ ≤ 2 ^ 53 * 2 ^ (971 : Int) :=
      mul_le_mul_of_nonneg_left (zpow_le_zpow_right₀ one_le_two h.greatest) (by norm_num)
    _ = 2 ^ 1024 := by
      rw [show (971 : Int) = (971 : Nat) from rfl, zpow_natCast, ← pow_add]

namespace InInterval

variable {m : Nat} {q : Int} {u : ℚ} (hu : InInterval m q u)
include hu

theorem isRounded : IsRounded (u / 2 ^ q) m := by
  have hpos := two_zpow_pos q
  have hlow : (m : ℚ) - 1 / 2 ≤ u / 2 ^ q := (le_div_iff₀ hpos).mpr hu.below
  have hhigh : u / 2 ^ q ≤ m + 1 / 2 := (div_le_iff₀ hpos).mpr hu.above
  refine ⟨abs_le.mpr ⟨by linarith, by linarith⟩, ?_⟩
  intro htie
  apply hu.even
  rcases (abs_eq (by norm_num)).mp htie with hright | hleft
  · right
    rw [← div_eq_iff hpos.ne']
    linarith
  · left
    rw [← div_eq_iff hpos.ne']
    linarith

theorem lt_of_canonical (h : Canonical m q) : u < 2 ^ 53 * 2 ^ q := by
  have hmantissa : (m : ℚ) + 1 ≤ 2 ^ 53 := by
    exact_mod_cast h.small
  calc
    u ≤ (m + 1 / 2) * 2 ^ q := hu.above
    _ < 2 ^ 53 * 2 ^ q := mul_lt_mul_of_pos_right (by linarith) (two_zpow_pos q)

theorem rounds_up (h : Canonical m q) (hq : q ≠ -1074) (hless : u < 2 ^ 52 * 2 ^ q) :
    m = 2 ^ 52 ∧ HasScale u (q - 1) ∧ IsRounded (u / 2 ^ (q - 1)) (2 ^ 53) := by
  have hpos := two_zpow_pos q
  have hfull := h.full.resolve_right hq
  have hleast := h.least
  have hmantissa : m = 2 ^ 52 := by
    have hbound : ((m : ℚ) - 1 / 2) * 2 ^ q < 2 ^ 52 * 2 ^ q := hu.below.trans_lt hless
    rw [mul_lt_mul_iff_left₀ hpos] at hbound
    have hsmall : (m : ℚ) < (2 ^ 52 + 1 : Nat) := by
      push_cast
      linarith
    have hsmall : m < 2 ^ 52 + 1 := by exact_mod_cast hsmall
    omega
  have hhalf : (2 : ℚ) ^ q = 2 * 2 ^ (q - 1) := by
    rw [zpow_sub_one₀ two_ne_zero]
    ring
  have hstep := two_zpow_pos (q - 1)
  have hlow := hu.narrow hmantissa hq
  rw [hmantissa, hhalf] at hlow
  rw [hhalf] at hless
  push_cast at hlow
  have hbelow : 2 ^ 53 - 1 / 2 ≤ u / 2 ^ (q - 1) := by
    rw [le_div_iff₀ hstep]
    linarith
  have habove : u / 2 ^ (q - 1) < 2 ^ 53 := by
    rw [div_lt_iff₀ hstep]
    linarith
  refine ⟨hmantissa, ⟨by omega, by linarith, Or.inl (by linarith)⟩, ?_, fun _ => by decide⟩
  push_cast
  exact abs_le.mpr ⟨by linarith, by linarith⟩

end InInterval

/-- The float of an interval is what the numbers in it are rounded to. -/
theorem Rounds.stands_of_interval {m : Nat} {q : Int} {u : ℚ} {x : UnpackedFloat}
    (h : Rounds u x) (hcanonical : Canonical m q) (hu : InInterval m q u) :
    Stands x (m * 2 ^ q) := by
  rcases h with ⟨n, E, hscale, hn, hx⟩
  have hvalue : (n * 2 ^ E : ℚ) = m * 2 ^ q := by
    by_cases hlow : 2 ^ 52 * 2 ^ q ≤ u ∨ q = -1074
    · have hscale' : HasScale u q :=
        ⟨hcanonical.least, hu.lt_of_canonical hcanonical, hlow⟩
      cases hscale.unique hscale'
      rw [hn.eq_of_even hu.isRounded]
    · rw [not_or, not_le] at hlow
      rcases hu.rounds_up hcanonical hlow.2 hlow.1 with ⟨hm, hscale', hn'⟩
      cases hscale.unique hscale'
      rw [hn.eq_of_even hn', hm, zpow_sub_one₀ two_ne_zero]
      norm_num
      ring
  rw [hvalue] at hx
  exact hx.resolve_right fun hinfinite => absurd hcanonical.lt_limit (not_lt.mpr hinfinite.2)

end Binary64
end Equate
