import Equate.Proofs.Binary64.Signs
import Equate.Proofs.Decimal.Printed
import Equate.Proofs.Decimal.RoundedTerms
import Equate.Proofs.Decimal.Shift

/-!
# Errors of the accumulation

The float of a numeral is the sum of its terms from the most significant one down. A zero leaves
the sum as it is, and each other digit costs one rounding of its term and one of the sum. As long
as a sum has room in a float there is no error at all, and none but that of its term if there is
only one digit.
-/

namespace Equate
namespace Numeral

open Binary64
open Decimal (integerOf)
open Float.Model (UnpackedFloat)

/-!
## Digits at their places
-/

def descend (p : Int) : List (Fin 10) -> List (Nat × Int)
  | [] => []
  | d :: ds => (d.val, p) :: descend (p - 1) ds

def accumulate (x : Float) (places : List (Nat × Int)) : Float :=
  places.foldl (fun x place => x + term place.1 place.2) x

def total (places : List (Nat × Int)) : ℚ :=
  (places.map fun place => (place.1 * 10 ^ place.2 : ℚ)).sum

theorem total_cons (place : Nat × Int) (places : List (Nat × Int)) :
    total (place :: places) = place.1 * 10 ^ place.2 + total places :=
  rfl

theorem total_nonneg (places : List (Nat × Int)) : 0 ≤ total places := by
  induction places with
  | nil => exact le_rfl
  | cons place places ih =>
      rw [total_cons]
      positivity

theorem total_append (l l' : List (Nat × Int)) : total (l ++ l') = total l + total l' := by
  unfold total
  rw [List.map_append, List.sum_append]

theorem accumulate_append (x : Float) (l l' : List (Nat × Int)) :
    accumulate x (l ++ l') = accumulate (accumulate x l) l' :=
  List.foldl_append

section

variable {p : Int} {ds es : List (Fin 10)}

theorem descend_append (p : Int) (ds es : List (Fin 10)) :
    descend p (ds ++ es) = descend p ds ++ descend (p - ds.length) es := by
  induction ds generalizing p with
  | nil => simp [descend]
  | cons d ds ih =>
      have hpower : p - 1 - ds.length = p - (d :: ds).length := by
        rw [List.length_cons]
        omega
      rw [List.cons_append, descend, descend, ih, hpower, List.cons_append]

theorem length_descend (p : Int) (ds : List (Fin 10)) : (descend p ds).length = ds.length := by
  induction ds generalizing p with
  | nil => rfl
  | cons d ds ih => exact congrArg Nat.succ (ih (p - 1))

theorem mem_descend {place : Nat × Int} (h : place ∈ descend p ds) :
    place.1 < 10 ∧ p - ds.length < place.2 ∧ place.2 ≤ p := by
  induction ds generalizing p with
  | nil => cases h
  | cons d ds ih =>
      rw [List.length_cons]
      rcases List.mem_cons.mp h with rfl | hmem
      · exact ⟨d.isLt, by dsimp only; omega, le_rfl⟩
      · rcases ih hmem with ⟨hdigit, hlow, hhigh⟩
        exact ⟨hdigit, by omega, by omega⟩

theorem mem_descend_zeros {n : Nat} {place : Nat × Int}
    (h : place ∈ descend p (List.replicate n 0)) : place.1 = 0 := by
  induction n generalizing p with
  | zero => cases h
  | succ n ih =>
      rcases List.mem_cons.mp h with rfl | hmem
      · rfl
      · exact ih hmem

theorem integerOf_append (ds es : List (Fin 10)) :
    integerOf (ds ++ es) = integerOf ds * 10 ^ es.length + integerOf es := by
  unfold integerOf
  rw [List.reverse_append, List.map_append, Nat.ofDigits_append, List.length_map,
    List.length_reverse, Nat.add_comm, Nat.mul_comm]

theorem integerOf_zeros (n : Nat) : integerOf (List.replicate n 0) = 0 := by
  unfold integerOf
  rw [List.reverse_replicate, List.map_replicate]
  exact Nat.ofDigits_replicate_zero

theorem integerOf_cons (d : Fin 10) (ds : List (Fin 10)) :
    integerOf (d :: ds) = d * 10 ^ ds.length + integerOf ds := by
  have hdigit : integerOf [d] = d := Nat.ofDigits_singleton
  rw [← List.singleton_append, integerOf_append, hdigit]

theorem total_descend (p : Int) (ds : List (Fin 10)) :
    total (descend p ds) = integerOf ds * 10 ^ (p + 1 - ds.length) := by
  induction ds generalizing p with
  | nil =>
      show (0 : ℚ) = (0 : Nat) * _
      rw [Nat.cast_zero, zero_mul]
  | cons d ds ih =>
      have hpower : (10 : ℚ) ^ p = 10 ^ ds.length * 10 ^ (p - ds.length) := by
        rw [← zpow_natCast, ← zpow_add₀ (by norm_num)]
        congr 1
        omega
      have hexponents : p - 1 + 1 - ds.length = p - ds.length ∧
          p + 1 - (d :: ds).length = p - ds.length := by
        rw [List.length_cons]
        omega
      rw [descend, total_cons, ih, integerOf_cons, hexponents.1, hexponents.2, hpower]
      push_cast
      ring

theorem total_descend_zeros (p : Int) (n : Nat) : total (descend p (List.replicate n 0)) = 0 := by
  rw [total_descend, integerOf_zeros, Nat.cast_zero, zero_mul]

/-- The signed words reach far beyond the powers that make a difference. -/
theorem term_saturate {d : Nat} (hd : d < 10) (p : Int) : term d (saturate p) = term d p := by
  rcases Nat.eq_zero_or_pos d with rfl | hpos
  · rw [term_zero, term_zero]
  · by_cases hgreat : greatestExponent < p
    · have hsaturated : saturate p = greatestExponent := by
        unfold saturate greatestExponent leastExponent at *
        omega
      unfold greatestExponent at hsaturated hgreat
      rw [hsaturated, term_of_nonneg hpos (by decide), term_of_nonneg hpos (by omega),
        powerOfTen_of_le (by decide), powerOfTen_of_le (by omega)]
    · by_cases hlittle : p < leastExponent
      · unfold leastExponent at hlittle
        have hp : p ≤ -309 := by
          omega
        rw [term_of_le hd hp, term_of_le hd (saturate_le hp)]
      · have hsame : saturate p = p := by
          unfold saturate
          omega
        rw [hsame]

theorem foldl_zipIdx (P : Int) (ds : List (Fin 10)) (i : Nat) (x : Float) :
    (((ds.map Fin.val).zipIdx i).map fun (d, j) => (d, saturate (P - j))).foldl
      (fun x place => x + term place.1 place.2) x = accumulate x (descend (P - i) ds) := by
  induction ds generalizing i x with
  | nil => rfl
  | cons d ds ih =>
      have hpower : P - i - 1 = P - (i + 1 : Nat) := by
        omega
      rw [List.map_cons, List.zipIdx_cons, List.map_cons, List.foldl_cons, ih,
        term_saturate d.isLt, descend, hpower]
      rfl

theorem sum_eq_accumulate {n : Numeral} (h : n.whole ++ n.fraction = ds.map Fin.val) :
    n.sum = accumulate 0.0 (descend (n.whole.length + n.exponent - 1) ds) := by
  have hsum := foldl_zipIdx (n.whole.length + n.exponent - 1) ds 0 0.0
  rw [← h] at hsum
  unfold sum
  rw [places_eq]
  rw [Nat.cast_zero, Int.sub_zero] at hsum
  exact hsum

end

/-!
## Sums of terms
-/

theorem reaches_zero : Reaches (0.0 : Float).toModel.unpack 0 :=
  Or.inl .zero

section

variable {places : List (Nat × Int)}

def significant (places : List (Nat × Int)) : Nat :=
  places.countP fun place => place.1 ≠ 0

theorem significant_append (l l' : List (Nat × Int)) :
    significant (l ++ l') = significant l + significant l' :=
  List.countP_append

theorem significant_descend_zeros (p : Int) (n : Nat) :
    significant (descend p (List.replicate n 0)) = 0 := by
  refine List.countP_eq_zero.mpr ?_
  intro place hplace
  simp [mem_descend_zeros hplace]

theorem unpack_accumulate_zeros (h : forall place, place ∈ places -> place.1 = 0) {x : Float}
    {v : ℚ} (hx : Reaches x.toModel.unpack v) :
    (accumulate x places).toModel.unpack = x.toModel.unpack := by
  induction places generalizing x with
  | nil => rfl
  | cons place places ih =>
      have hkept : (x + 0.0).toModel.unpack = x.toModel.unpack := hx.unpack_add_zero
      have hstep : accumulate x (place :: places) = accumulate (x + 0.0) places := by
        show accumulate (x + term place.1 place.2) places = _
        rw [h place List.mem_cons_self, term_zero]
      rw [← hkept] at hx
      rw [hstep, ih (fun place hplace => h place (List.mem_cons_of_mem _ hplace)) hx, hkept]

theorem exists_sum {k n d : Nat} {p : Int} (hd : d < 10) (hp : min p.natAbs 308 ≤ k + 22)
    {x : Float} {v u : ℚ} (hx : Reaches x.toModel.unpack v) (hu : 0 ≤ u)
    (hclose : Close (k + 1 + n) (n * (2 * loss)) v u) :
    exists r, Reaches (x + term d p).toModel.unpack r ∧
      Close (k + 1 + (n + 1)) ((n + 1 : Nat) * (2 * loss)) r (u + d * 10 ^ p) := by
  have hloss := loss_pos
  have hnumber : (0 : ℚ) ≤ d * 10 ^ p := by
    positivity
  rcases exists_term hd hp with ⟨t, ht, hterm⟩
  rcases hx.exists_add ht with ⟨r, hr, hrounded⟩
  have hterm' := hterm.mono ht.nonneg hnumber hloss.le (Nat.le_add_right (k + 1) n) le_rfl
  have hboth := hrounded.trans (hclose.add hterm') tiny_pos.le (by positivity)
  refine ⟨r, hr, hboth.mono hr.nonneg (add_nonneg hu hnumber) (by positivity) (by omega) ?_⟩
  have htiny := tiny_le_loss
  push_cast
  linarith

/-- Each digit that is not zero costs its term and one sum. -/
theorem exists_accumulate {k : Nat}
    (h : forall place, place ∈ places ->
      place.1 < 10 ∧ (place.1 ≠ 0 -> min place.2.natAbs 308 ≤ k + 22))
    {x : Float} {n : Nat} {v u : ℚ} (hx : Reaches x.toModel.unpack v) (hu : 0 ≤ u)
    (hclose : Close (k + 1 + n) (n * (2 * loss)) v u) :
    exists r, Reaches (accumulate x places).toModel.unpack r ∧
      Close (k + 1 + (n + significant places)) ((n + significant places : Nat) * (2 * loss)) r
        (u + total places) := by
  induction places generalizing x n v u with
  | nil =>
      refine ⟨v, hx, ?_⟩
      rw [show total [] = 0 from rfl, add_zero]
      exact hclose
  | cons place places ih =>
      rcases place with ⟨d, p⟩
      rcases h (d, p) List.mem_cons_self with ⟨hd, hpower⟩
      have hrest := fun place hplace => h place (List.mem_cons_of_mem (d, p) hplace)
      have hstep : accumulate x ((d, p) :: places) = accumulate (x + term d p) places := rfl
      rw [hstep, total_cons, ← add_assoc u]
      by_cases hzero : d = 0
      · have hkept : (x + term d p).toModel.unpack = x.toModel.unpack := by
          rw [hzero, term_zero]
          exact hx.unpack_add_zero
        have hcount : significant ((d, p) :: places) = significant places :=
          List.countP_cons_of_neg (by simp [hzero])
        rw [← hkept] at hx
        dsimp only
        rw [hcount, hzero, Nat.cast_zero, zero_mul, add_zero, ← hzero]
        exact ih hrest hx hu hclose
      · have hcount : significant ((d, p) :: places) = significant places + 1 :=
          List.countP_cons_of_pos (by simp [hzero])
        rcases exists_sum hd (hpower hzero) hx hu hclose with ⟨s, hs, hsum⟩
        rw [hcount, Nat.add_comm (significant places) 1, ← Nat.add_assoc n]
        exact ih hrest hs (add_nonneg hu (by positivity)) hsum

theorem unpack_accumulate_lone {before after : List (Nat × Int)}
    (hbefore : forall place, place ∈ before -> place.1 = 0)
    (hafter : forall place, place ∈ after -> place.1 = 0) {d : Nat} {p : Int} {t : ℚ}
    (ht : Reaches (term d p).toModel.unpack t) :
    (accumulate 0.0 (before ++ (d, p) :: after)).toModel.unpack = (term d p).toModel.unpack := by
  have hzero := unpack_accumulate_zeros hbefore reaches_zero
  have hsum : (accumulate 0.0 before + term d p).toModel.unpack = (term d p).toModel.unpack := by
    show (Float.Model.pack (UnpackedFloat.add Float.Model.Format.binary64
      (accumulate 0.0 before).toModel.unpack (term d p).toModel.unpack)).unpack = _
    rw [hzero]
    exact ht.unpack_zero_add
  have hsplit : accumulate 0.0 (before ++ (d, p) :: after) =
      accumulate (accumulate 0.0 before + term d p) after := accumulate_append _ _ _
  rw [← hsum] at ht
  rw [hsplit, unpack_accumulate_zeros hafter ht, hsum]

end

/-!
## Floats of numerals
-/

/-- A sum of terms is zero, positive or infinite. -/
theorem exists_reaches_sum {n : Numeral}
    (h : forall place, place ∈ n.places -> place.1 < 10) :
    exists v, Reaches n.sum.toModel.unpack v := by
  have hplaces : forall place, place ∈ n.places ->
      place.1 < 10 ∧ (place.1 ≠ 0 -> min place.2.natAbs 308 ≤ 286 + 22) :=
    fun place hplace => ⟨h place hplace, fun _ => Nat.min_le_right _ _⟩
  have hclose : Close (286 + 1 + 0) ((0 : Nat) * (2 * loss)) 0 0 := .refl le_rfl (by simp)
  rcases exists_accumulate hplaces reaches_zero le_rfl hclose with ⟨v, hv, _⟩
  exact ⟨v, hv⟩

def floatSign (n : Numeral) : UnpackedFloat.Sign :=
  if n.negative then .negative else .positive

theorem unpack_toFloat {n : Numeral} {v : ℚ} (h : Reaches n.sum.toModel.unpack v) :
    n.toFloat.toModel.unpack = signed n.floatSign n.sum.toModel.unpack := by
  unfold toFloat floatSign
  cases n.negative with
  | false => rfl
  | true => exact h.unpack_pack_neg

/-!
## Exact sums
-/

theorem lt_limit_of_lt {e : Nat} (he : e ≤ 22) {u : ℚ} (h : u < 2 ^ 53 * 2 ^ (e : Int)) :
    u < 2 ^ 1024 :=
  calc
    u < 2 ^ 53 * 2 ^ (e : Int) := h
    _ = 2 ^ (53 + e) := by rw [zpow_natCast, ← pow_add]
    _ ≤ 2 ^ 1024 := pow_le_pow_right₀ one_le_two (by omega)

theorem exponent_le_of_odd {n e : Nat} (hn : 0 < n) (h : n * 5 ^ e < 2 ^ 53) : e ≤ 22 := by
  by_contra hmore
  have hodd : 5 ^ 23 ≤ n * 5 ^ e :=
    calc
      5 ^ 23 ≤ 5 ^ e := Nat.pow_le_pow_right (by decide) (by omega)
      _ ≤ n * 5 ^ e := Nat.le_mul_of_pos_left _ hn
  exact absurd (hodd.trans_lt h) (by decide)

section

variable {e : Nat} (he : e ≤ 22)
include he

theorem exists_exact_term {d : Nat} {p : Int} (hpos : 0 < d) (hd : d < 10) (hp : (e : Int) ≤ p)
    (hsmall : (d * 10 ^ p : ℚ) < 2 ^ 53 * 2 ^ (e : Int)) : exists c : Nat,
      (d * 10 ^ p : ℚ) = c * 2 ^ (e : Int) ∧
        Stands (term d p).toModel.unpack (c * 2 ^ (e : Int)) := by
  rcases Int.eq_ofNat_of_zero_le (by omega : 0 ≤ p) with ⟨n, rfl⟩
  have hvalue : (d * 10 ^ (n : Int) : ℚ) = (d * 5 ^ n * 2 ^ (n - e) : Nat) * 2 ^ (e : Int) := by
    have hpower : (2 : ℚ) ^ n = 2 ^ (n - e) * 2 ^ e := by
      rw [← pow_add, Nat.sub_add_cancel (by omega)]
    rw [zpow_natCast, zpow_natCast, ten_pow_eq, zpow_natCast, hpower]
    push_cast
    ring
  have hmantissa : d * 5 ^ n * 2 ^ (n - e) < 2 ^ 53 := by
    rw [hvalue, mul_lt_mul_iff_left₀ (two_zpow_pos _)] at hsmall
    exact_mod_cast hsmall
  have hexact : n ≤ 22 := by
    refine exponent_le_of_odd hpos (hmantissa.trans_le' ?_)
    exact Nat.le_mul_of_pos_right _ (Nat.two_pow_pos _)
  have hrounds := rounds_term hpos hd (p := n) (by omega)
  rw [hvalue] at hrounds hsmall
  refine ⟨_, hvalue, ?_⟩
  exact hrounds.stands_of_exact hmantissa (by omega) (lt_limit_of_lt he hsmall)

theorem exists_exact_sum {d : Nat} {p : Int} (hpos : 0 < d) (hd : d < 10) (hp : (e : Int) ≤ p)
    {x : Float} {m : Nat} (hx : Stands x.toModel.unpack (m * 2 ^ (e : Int)))
    (hsmall : (m * 2 ^ (e : Int) + d * 10 ^ p : ℚ) < 2 ^ 53 * 2 ^ (e : Int)) : exists c : Nat,
      (m * 2 ^ (e : Int) + d * 10 ^ p : ℚ) = c * 2 ^ (e : Int) ∧
        Stands (x + term d p).toModel.unpack (c * 2 ^ (e : Int)) := by
  have hleft := hx.nonneg
  rcases exists_exact_term he hpos hd hp (by linarith) with ⟨c, hvalue, hterm⟩
  have hsum : (m * 2 ^ (e : Int) + c * 2 ^ (e : Int) : ℚ) = (m + c : Nat) * 2 ^ (e : Int) := by
    rw [Nat.cast_add, add_mul]
  have hrounds := rounds_add hx hterm
  rw [hvalue, hsum] at hsmall ⊢
  rw [hsum] at hrounds
  have hmantissa : m + c < 2 ^ 53 := by
    have hless := hsmall
    rw [mul_lt_mul_iff_left₀ (two_zpow_pos _)] at hless
    exact_mod_cast hless
  exact ⟨_, rfl, hrounds.stands_of_exact hmantissa (by omega) (lt_limit_of_lt he hsmall)⟩

theorem accumulate_stands {places : List (Nat × Int)}
    (h : forall place, place ∈ places ->
      place.1 < 10 ∧ (place.1 ≠ 0 -> (e : Int) ≤ place.2))
    {x : Float} {m : Nat} (hx : Stands x.toModel.unpack (m * 2 ^ (e : Int)))
    (hsmall : m * 2 ^ (e : Int) + total places < 2 ^ 53 * 2 ^ (e : Int)) :
    Stands (accumulate x places).toModel.unpack (m * 2 ^ (e : Int) + total places) := by
  induction places generalizing x m with
  | nil =>
      rw [show total [] = 0 from rfl, add_zero]
      exact hx
  | cons place places ih =>
      rcases place with ⟨d, p⟩
      rcases h (d, p) List.mem_cons_self with ⟨hd, hpower⟩
      have hrest := fun place hplace => h place (List.mem_cons_of_mem (d, p) hplace)
      have hstep : accumulate x ((d, p) :: places) = accumulate (x + term d p) places := rfl
      rw [total_cons, ← add_assoc] at hsmall
      rw [hstep, total_cons, ← add_assoc]
      dsimp only at hsmall hpower hd ⊢
      rcases Nat.eq_zero_or_pos d with rfl | hpos
      · have hkept : (x + 0.0).toModel.unpack = x.toModel.unpack :=
          Reaches.unpack_add_zero (Or.inl hx)
        rw [← hkept] at hx
        rw [Nat.cast_zero, zero_mul, add_zero] at hsmall ⊢
        rw [term_zero]
        exact ih hrest hx hsmall
      · have hothers := total_nonneg places
        rcases exists_exact_sum he hpos hd (hpower hpos.ne') hx (by linarith) with
          ⟨c, hvalue, hsum⟩
        rw [hvalue] at hsmall ⊢
        exact ih hrest hsum hsmall

end

end Numeral
end Equate
