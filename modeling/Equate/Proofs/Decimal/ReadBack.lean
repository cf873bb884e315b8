import Equate.Proofs.Binary64.Signs
import Equate.Proofs.Decimal.PrintedSums

/-!
# Printed floats that are read back

The text of a finite float is read as a float with the same sign and nearly the same magnitude.
The magnitude is the same where the sum of the terms has no error or where a lone digit is rounded
once, because the shortest decimal of a float lies in its interval.
-/

namespace Equate
namespace Decimal

open Binary64 Numeral
open Float.Model (UnpackedFloat)

/-!
## Floats that are read back
-/

/--
The float that is read has the sign of the one that was printed. Its magnitude is nearly the same,
and it is infinite only if the printed one was close to that.
-/
structure NearlySame (x y : UnpackedFloat) : Prop where
  sign : sign? y = sign? x
  near : forall v w, magnitude? x = some v -> magnitude? y = some w ->
    |w - v| ≤ v / 2 ^ 44 + 10 ^ (-306 : Int)
  nearer : forall v w, magnitude? x = some v -> magnitude? y = some w ->
    10 ^ (-4 : Int) ≤ v -> v ≤ 10 ^ (22 : Int) -> |w - v| ≤ v / 2 ^ 48
  finite : forall v, magnitude? x = some v -> v ≤ (1 - 1 / 2 ^ 43) * 2 ^ 1024 ->
    magnitude? y ≠ none

/--
Decimals without a fraction whose odd factors have room in a float, and lone digits with an exact
power of ten.
-/
def IsReadExactly (d : Decimal) : Prop :=
  0 ≤ d.exponent ∧ d.digits * 5 ^ d.exponent.toNat < 2 ^ 53 ∨
    d.digits < 10 ∧ d.exponent.natAbs ≤ 22

theorem Shows.stands_zero {w : Spelling} {s : UnpackedFloat.Sign} (h : Shows w s ⟨0, 0⟩) :
    Stands w.numeral.sum.toModel.unpack 0 := by
  have hmoderate : IsModerate ⟨0, 0⟩ := ⟨by decide, by decide, by decide⟩
  have hvalue : value ⟨0, 0⟩ = 0 := by
    rw [value, Nat.cast_zero, zero_mul]
  have hstands := h.stands_of_whole hmoderate (e := 0) (by decide) rfl (by decide)
  rw [hvalue] at hstands
  exact hstands

section

variable {x : Float} {s : UnpackedFloat.Sign} {d : Decimal} {w : Spelling} {v : ℚ}
  (hx : Shown x.toModel.unpack s d) (hv : magnitude? x.toModel.unpack = some v)
  (hw : Shows w s d)
include hx hv hw

theorem exists_near_shown : exists r, Reaches w.numeral.sum.toModel.unpack r ∧
    |r - v| ≤ v / 2 ^ 44 + 10 ^ (-306 : Int) ∧
      (10 ^ (-4 : Int) ≤ v -> v ≤ 10 ^ (22 : Int) -> |r - v| ≤ v / 2 ^ 48) := by
  generalize hu : x.toModel.unpack = u at hx hv
  cases hx with
  | zero s =>
      cases hv
      refine ⟨0, Or.inl hw.stands_zero, ?_, fun _ _ => ?_⟩
      · rw [sub_zero, abs_zero, zero_div, zero_add]
        exact (ten_zpow_pos _).le
      · rw [sub_zero, abs_zero, zero_div]
  | @finite s m q hm =>
      cases hv
      have hcanonical := canonical_of_unpack hu
      have hpos : (0 : ℚ) ≤ m * 2 ^ q := by
        positivity
      by_cases hmiddle : (10 : ℚ) ^ (-4 : Int) ≤ m * 2 ^ q ∧ (m * 2 ^ q : ℚ) ≤ 10 ^ (22 : Int)
      · have hspans := spans_shortest_of_middle hm hcanonical hmiddle.1 hmiddle.2
        rcases hw.exists_near_shortest hm hcanonical (Nat.zero_le _) hspans with ⟨r, hr, hnear⟩
        rw [Nat.cast_zero, zero_add] at hnear
        refine ⟨r, hr, by linarith, ?_⟩
        intro hlow _
        have hslack : (10 : ℚ) ^ (-306 : Int) ≤ 10 ^ (-20 : Int) :=
          zpow_le_zpow_right₀ (by norm_num) (by decide)
        generalize (10 : ℚ) ^ (-306 : Int) = slack at hnear hslack
        norm_num at hlow hslack
        linarith
      · have hspans := spans_all (shortest m q)
        rcases hw.exists_near_shortest hm hcanonical le_rfl hspans with ⟨r, hr, hnear⟩
        refine ⟨r, hr, ?_, fun hlow hhigh => absurd ⟨hlow, hhigh⟩ hmiddle⟩
        generalize (10 : ℚ) ^ (-306 : Int) = slack at hnear ⊢
        push_cast at hnear
        linarith

theorem stands_shown (hexact : IsReadExactly d) : Stands w.numeral.sum.toModel.unpack v := by
  generalize hu : x.toModel.unpack = u at hx hv
  cases hx with
  | zero s =>
      cases hv
      exact hw.stands_zero
  | @finite s m q hm =>
      cases hv
      have hcanonical := canonical_of_unpack hu
      have hmoderate := isModerate_shortest hm hcanonical
      have hpos := digits_shortest_pos hm hcanonical
      have hinterval := inInterval_shortest hm hcanonical
      rcases hexact with ⟨hwhole, hodd⟩ | ⟨hdigit, hexponent⟩
      · have hstands := hw.stands_of_whole hmoderate (exponent_le_of_odd hpos hodd)
          (Int.toNat_of_nonneg hwhole).symm hodd
        exact hstands.rounds.stands_of_interval hcanonical hinterval
      · have hrounds := hw.rounds_of_digit hmoderate hpos hdigit hexponent
        exact hrounds.stands_of_interval hcanonical hinterval

end

theorem Shown.sign?_eq {u : UnpackedFloat} {s : UnpackedFloat.Sign} {d : Decimal}
    (h : Shown u s d) : sign? u = some s := by
  cases h with
  | zero s => rfl
  | finite s q hm => rfl

theorem Shown.exists_magnitude {u : UnpackedFloat} {s : UnpackedFloat.Sign} {d : Decimal}
    (h : Shown u s d) : exists v, magnitude? u = some v := by
  cases h with
  | zero s => exact ⟨_, rfl⟩
  | finite s q hm => exact ⟨_, rfl⟩

theorem Shown.unique {u : UnpackedFloat} {s s' : UnpackedFloat.Sign} {d d' : Decimal}
    (h : Shown u s d) (h' : Shown u s' d') : s = s' ∧ d = d' := by
  cases h with
  | zero s =>
      cases h'
      exact ⟨rfl, rfl⟩
  | finite s q hm =>
      cases h'
      exact ⟨rfl, rfl⟩

theorem Shows.unpack_toFloat {w : Spelling} {s : UnpackedFloat.Sign} {d : Decimal}
    (h : Shows w s d) {r : ℚ} (hr : Reaches w.numeral.sum.toModel.unpack r) :
    w.numeral.toFloat.toModel.unpack = signed s w.numeral.sum.toModel.unpack := by
  have hnegative : w.numeral.negative = (signOf s == some .minus) :=
    congrArg (fun sign => sign == some Numeral.Sign.minus) h.sign
  have hsign : w.numeral.floatSign = s := by
    unfold floatSign
    rw [hnegative]
    cases s with
    | positive => rfl
    | negative => rfl
  rw [Numeral.unpack_toFloat hr, hsign]

section

variable {x : Float} {s : UnpackedFloat.Sign} {d : Decimal} {w : Spelling}
  (hx : Shown x.toModel.unpack s d) (hw : Shows w s d)
include hx hw

theorem nearlySame_toFloat : NearlySame x.toModel.unpack w.numeral.toFloat.toModel.unpack := by
  rcases hx.exists_magnitude with ⟨v, hv⟩
  rcases exists_near_shown hx hv hw with ⟨r, hr, hnear, hnearer⟩
  have hunpack := hw.unpack_toFloat hr
  have hmagnitude := magnitude?_signed s w.numeral.sum.toModel.unpack
  rw [← hunpack] at hmagnitude
  constructor
  · rw [hunpack, hr.sign?_signed, hx.sign?_eq]
  · intro v' r' hv' hr'
    cases hv.symm.trans hv'
    rw [hmagnitude] at hr'
    rw [hr.eq_of_magnitude? hr']
    exact hnear
  · intro v' r' hv' hr'
    cases hv.symm.trans hv'
    rw [hmagnitude] at hr'
    rw [hr.eq_of_magnitude? hr']
    exact hnearer
  · intro v' hv' hlimit hnone
    cases hv.symm.trans hv'
    rw [hmagnitude] at hnone
    have hinfinite := hr.limit_le hnone
    have habove := (abs_le.mp hnear).2
    have hslack : (10 : ℚ) ^ (-306 : Int) ≤ 1 := zpow_le_one_of_nonpos₀ (by norm_num) (by decide)
    have hlarge : (2 : ℚ) ^ 45 ≤ 2 ^ 1024 := pow_le_pow_right₀ one_le_two (by decide)
    generalize (2 : ℚ) ^ 1024 = limit at hlimit hinfinite hlarge
    generalize (10 : ℚ) ^ (-306 : Int) = slack at hnear habove hslack hnearer
    norm_num at hlarge
    linarith

theorem toFloat_eq_of_stands {v : ℚ} (hv : magnitude? x.toModel.unpack = some v)
    (hs : Stands w.numeral.sum.toModel.unpack v) : w.numeral.toFloat = x := by
  have hunpack := hw.unpack_toFloat (Or.inl hs)
  have hsame : w.numeral.toFloat.toModel.unpack = x.toModel.unpack := by
    rw [hunpack]
    generalize hu : x.toModel.unpack = u at hx hv
    cases hx with
    | zero s =>
        cases hv
        rw [hs.unique .zero]
        cases s <;> rfl
    | @finite s m q hm =>
        cases hv
        rw [hs.unique (.finite hm (canonical_of_unpack hu))]
        cases s <;> rfl
  refine ext_of_unpack hsame ?_
  rw [hsame, hx.sign?_eq]
  exact Option.some_ne_none _

end

theorem isReadExactly_of_scaled {m n : Nat} {q : Int} (hm : 0 < m) (h : Scaled m q n)
    (hsmall : n < 2 ^ 53) : IsReadExactly (shortest m q) := by
  rcases value_shortest_of_whole hm (h.canonical hsmall) h.value_eq hsmall with ⟨hwhole, hvalue⟩
  left
  refine ⟨hwhole, ?_⟩
  have hsame : (shortest m q).digits * 10 ^ (shortest m q).exponent.toNat = n := by
    rw [value_of_nonneg hwhole] at hvalue
    exact_mod_cast hvalue
  calc
    (shortest m q).digits * 5 ^ (shortest m q).exponent.toNat ≤
        (shortest m q).digits * 10 ^ (shortest m q).exponent.toNat :=
      Nat.mul_le_mul_left _ (Nat.pow_le_pow_left (by decide) _)
    _ = n := hsame
    _ < 2 ^ 53 := hsmall

theorem isReadExactly_of_denotes {u : UnpackedFloat} {s : UnpackedFloat.Sign} {d : Decimal}
    (hu : Shown u s d) {z : Int} (hz : Denotes u z) (hsmall : z.natAbs < 2 ^ 53) :
    IsReadExactly d := by
  cases hu with
  | zero s => exact Or.inl ⟨le_rfl, by decide⟩
  | finite s q hm =>
      cases hz with
      | positive _ hscaled => exact isReadExactly_of_scaled hm hscaled (by omega)
      | negative _ hscaled => exact isReadExactly_of_scaled hm hscaled (by omega)

/-- The text of a finite float is read as nearly this float, and often as the float itself. -/
theorem exists_readBack {x : Float} (h : x.isFinite = true) : exists y,
    float? (canonical.text x) = some y ∧ NearlySame x.toModel.unpack y.toModel.unpack ∧
      (forall s d, Shown x.toModel.unpack s d -> IsReadExactly d -> y = x) ∧
      forall z, Denotes x.toModel.unpack z -> z.natAbs < 2 ^ 53 -> y = x := by
  rcases exists_shows h with ⟨s, d, w, hx, htext, hw, _⟩
  rcases hx.exists_magnitude with ⟨v, hv⟩
  have hexact (hd : IsReadExactly d) : w.numeral.toFloat = x :=
    toFloat_eq_of_stands hx hw hv (stands_shown hx hv hw hd)
  refine ⟨w.numeral.toFloat, ?_, nearlySame_toFloat hx hw, ?_, ?_⟩
  · rw [Layout.text, ← htext]
    exact float?_ofList w
  · intro s' d' hx' hd'
    rw [(hx.unique hx').2] at hexact
    exact hexact hd'
  · intro z hz hsmall
    exact hexact (isReadExactly_of_denotes hx hz hsmall)

end Decimal
end Equate
