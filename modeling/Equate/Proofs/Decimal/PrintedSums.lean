import Equate.Proofs.Decimal.Accumulation
import Equate.Proofs.Decimal.Shortest

/-!
# Sums of printed digits

The digits of a printed float stand between zeros, and their places are those of the shortest
decimal. What they add up to when they are read is therefore near the float: the decimal lies in
the interval of the float, its digits are few, and its powers are those between which the
magnitude of the float lies.
-/

namespace Equate
namespace Decimal

open Binary64 Numeral
open Float.Model (UnpackedFloat)

/-!
## Digits between zeros
-/

/-- The places of digits with zeros around them, whose last digit counts units of `10 ^ e`. -/
def paddedPlaces (before after : Nat) (ds : List (Fin 10)) (e : Int) : List (Nat × Int) :=
  descend (before + ds.length + e - 1) (List.replicate before 0 ++ (ds ++ List.replicate after 0))

section

variable (before after : Nat) (ds : List (Fin 10)) (e : Int)

theorem paddedPlaces_eq : paddedPlaces before after ds e =
    descend (before + ds.length + e - 1) (List.replicate before 0) ++
      (descend (e + ds.length - 1) ds ++ descend (e - 1) (List.replicate after 0)) := by
  have hfirst : before + ds.length + e - 1 - before = e + ds.length - 1 := by
    omega
  have hbehind : e + ds.length - 1 - ds.length = e - 1 := by
    omega
  unfold paddedPlaces
  rw [descend_append, descend_append, List.length_replicate, hfirst, hbehind]

theorem total_paddedPlaces : total (paddedPlaces before after ds e) = integerOf ds * 10 ^ e := by
  have hexponent : e + ds.length - 1 + 1 - ds.length = e := by
    omega
  rw [paddedPlaces_eq, total_append, total_append, total_descend_zeros, total_descend_zeros,
    zero_add, add_zero, total_descend, hexponent]

variable {before after ds e}

theorem significant_paddedPlaces_le :
    significant (paddedPlaces before after ds e) ≤ ds.length := by
  have hcount : significant (paddedPlaces before after ds e) =
      significant (descend (e + ds.length - 1) ds) := by
    rw [paddedPlaces_eq, significant_append, significant_append, significant_descend_zeros,
      significant_descend_zeros, Nat.zero_add, Nat.add_zero]
  calc
    significant (paddedPlaces before after ds e) =
        significant (descend (e + ds.length - 1) ds) := hcount
    _ ≤ (descend (e + ds.length - 1) ds).length := List.countP_le_length
    _ = ds.length := length_descend _ _

theorem mem_paddedPlaces {place : Nat × Int} (h : place ∈ paddedPlaces before after ds e) :
    place.1 < 10 ∧ (place.1 ≠ 0 -> e ≤ place.2 ∧ place.2 < e + ds.length) := by
  refine ⟨(mem_descend h).1, ?_⟩
  intro hne
  rw [paddedPlaces_eq, List.mem_append, List.mem_append] at h
  rcases h with hzero | hmem | hzero
  · exact absurd (mem_descend_zeros hzero) hne
  · rcases mem_descend hmem with ⟨_, hlow, hhigh⟩
    omega
  · exact absurd (mem_descend_zeros hzero) hne

end

/-!
## Sums of shown decimals
-/

theorem length_le_of_digitsOf {n : Nat} {ds : List (Fin 10)} (h : digitsOf n = digitsText ds)
    {k : Nat} (hk : 0 < k) (hn : n < 10 ^ k) : ds.length ≤ k := by
  have hlength : (digitsOf n).length ≤ k := (Nat.length_toDigits_le_iff (by decide) hk).mpr hn
  rw [h, length_digitsText] at hlength
  exact hlength

theorem le_of_digitsOf {n : Nat} {ds : List (Fin 10)} (h : digitsOf n = digitsText ds)
    (hn : 0 < n) : 10 ^ (ds.length - 1) ≤ n := by
  by_contra hless
  rcases Nat.eq_zero_or_pos (ds.length - 1) with hzero | hpos
  · rw [hzero] at hless
    omega
  · have hshort := length_le_of_digitsOf h hpos (Nat.lt_of_not_le hless)
    omega

structure IsModerate (d : Decimal) : Prop where
  digits : d.digits < 10 ^ 18
  least : -400 ≤ d.exponent
  greatest : d.exponent ≤ 400

theorem Shows.exists_sum {w : Spelling} {s : UnpackedFloat.Sign} {d : Decimal} (h : Shows w s d)
    (hd : IsModerate d) : exists (ds : List (Fin 10)) (before after : Nat),
      digitsOf d.digits = digitsText ds ∧ integerOf ds = d.digits ∧ ds.length ≤ 18 ∧
        w.numeral.sum = accumulate 0.0 (paddedPlaces before after ds d.exponent) := by
  rcases h.fraction with ⟨fs, hfs, hlaid⟩
  rcases hlaid.exists_digits with ⟨ds, before, after, htext, hvalue, hdigits, hpoint, hform⟩
  have hlength := length_le_of_digitsOf htext (by decide) hd.digits
  have hleast := hd.least
  have hgreatest := hd.greatest
  refine ⟨ds, before, after, htext, hvalue, hlength, ?_⟩
  have hexponent : saturateMagnitude w.exponentValue = w.exponentValue := by
    unfold saturateMagnitude greatestExponent
    omega
  have hall : w.numeral.whole ++ w.numeral.fraction =
      (List.replicate before 0 ++ (ds ++ List.replicate after 0)).map Fin.val := by
    show w.whole.map Fin.val ++ (w.fraction.getD []).map Fin.val = _
    rw [hfs, Option.getD_some, ← List.map_append, hdigits]
  have hplace : (w.numeral.whole.length : Int) + w.numeral.exponent - 1 =
      before + ds.length + d.exponent - 1 := by
    show ((w.whole.map Fin.val).length : Int) + saturateMagnitude w.exponentValue - 1 = _
    rw [hexponent, List.length_map]
    omega
  rw [sum_eq_accumulate hall, hplace]
  rfl

/-- The powers at which a decimal has its digits, beyond the exact powers of ten. -/
def Spans (d : Decimal) (k : Nat) : Prop :=
  forall p : Int, d.exponent ≤ p -> p < d.exponent + (digitsOf d.digits).length ->
    min p.natAbs 308 ≤ k + 22

theorem spans_all (d : Decimal) : Spans d 286 := by
  intro p _ _
  omega

theorem value_nonneg (d : Decimal) : 0 ≤ d.value :=
  mul_nonneg (Nat.cast_nonneg _) (ten_zpow_pos _).le

theorem total_eq_value (before after : Nat) {ds : List (Fin 10)} {d : Decimal}
    (h : integerOf ds = d.digits) : total (paddedPlaces before after ds d.exponent) = d.value := by
  rw [total_paddedPlaces, h]
  rfl

section

variable {w : Spelling} {s : UnpackedFloat.Sign} {d : Decimal} (h : Shows w s d)
  (hd : IsModerate d)
include h hd

/-- The sum misses the decimal by the roundings of its powers, its terms and its sums. -/
theorem Shows.exists_near {k : Nat} (hk : k ≤ 286) (hspans : Spans d k) : exists r,
    Reaches w.numeral.sum.toModel.unpack r ∧
      |r - d.value| ≤ (k + 20) / 2 ^ 53 * d.value + 72 * loss := by
  rcases h.exists_sum hd with ⟨ds, before, after, htext, hvalue, hlength, hsum⟩
  have hloss := loss_pos
  have hnonneg := d.value_nonneg
  have htotal := total_eq_value before after hvalue
  have hplaces : forall place, place ∈ paddedPlaces before after ds d.exponent ->
      place.1 < 10 ∧ (place.1 ≠ 0 -> min place.2.natAbs 308 ≤ k + 22) := by
    intro place hplace
    rcases mem_paddedPlaces hplace with ⟨hdigit, hpower⟩
    refine ⟨hdigit, ?_⟩
    intro hne
    have hlast := (hpower hne).2
    rw [← length_digitsText, ← htext] at hlast
    exact hspans _ (hpower hne).1 hlast
  have hstart : Close (k + 1 + 0) ((0 : Nat) * (2 * loss)) 0 0 :=
    .refl le_rfl (by rw [Nat.cast_zero, zero_mul])
  rcases exists_accumulate hplaces reaches_zero le_rfl hstart with ⟨r, hr, hclose⟩
  have hcount : significant (paddedPlaces before after ds d.exponent) ≤ 18 :=
    significant_paddedPlaces_le.trans hlength
  have hcast : (significant (paddedPlaces before after ds d.exponent) : ℚ) ≤ 18 := by
    exact_mod_cast hcount
  simp only [htotal, zero_add] at hclose
  have hmost : Close (k + 19) (36 * loss) r d.value := by
    refine hclose.mono hr.nonneg hnonneg (by positivity) (by omega) ?_
    have hproduct := mul_le_mul_of_nonneg_right hcast (show 0 ≤ 2 * loss by positivity)
    linarith
  have hdistance := hmost.distance_le hr.nonneg hnonneg (by positivity) (by omega)
  rw [← hsum] at hr
  refine ⟨r, hr, ?_⟩
  push_cast at hdistance
  linarith

/-- A decimal without a fraction whose odd factors have room in a float is read exactly. -/
theorem Shows.stands_of_whole {e : Nat} (he : e ≤ 22) (hexponent : d.exponent = e)
    (hsmall : d.digits * 5 ^ e < 2 ^ 53) : Stands w.numeral.sum.toModel.unpack d.value := by
  rcases h.exists_sum hd with ⟨ds, before, after, _, hvalue, _, hsum⟩
  have htotal := total_eq_value before after hvalue
  have hplaces : forall place, place ∈ paddedPlaces before after ds d.exponent ->
      place.1 < 10 ∧ (place.1 ≠ 0 -> (e : Int) ≤ place.2) := by
    intro place hplace
    rcases mem_paddedPlaces hplace with ⟨hdigit, hpower⟩
    rw [← hexponent]
    exact ⟨hdigit, fun hne => (hpower hne).1⟩
  have hnumber : d.value = (d.digits * 5 ^ e : Nat) * 2 ^ (e : Int) := by
    unfold value
    rw [hexponent, zpow_natCast, ten_pow_eq]
    push_cast
    ring
  have hstart : Stands (0.0 : Float).toModel.unpack ((0 : Nat) * 2 ^ (e : Int)) := by
    rw [Nat.cast_zero, zero_mul]
    exact .zero
  have hfits : (0 : Nat) * 2 ^ (e : Int) + total (paddedPlaces before after ds d.exponent) <
      2 ^ 53 * 2 ^ (e : Int) := by
    rw [htotal, hnumber, Nat.cast_zero, zero_mul, zero_add, mul_lt_mul_iff_left₀ (two_zpow_pos _)]
    exact_mod_cast hsmall
  have hstands := accumulate_stands he hplaces hstart hfits
  rw [htotal, Nat.cast_zero, zero_mul, zero_add, ← hsum] at hstands
  exact hstands

theorem Shows.rounds_of_digit (hpos : 0 < d.digits) (hdigit : d.digits < 10)
    (hexponent : d.exponent.natAbs ≤ 22) : Rounds d.value w.numeral.sum.toModel.unpack := by
  rcases h.exists_sum hd with ⟨ds, before, after, htext, hvalue, _, hsum⟩
  have hlength : ds.length ≤ 1 := length_le_of_digitsOf htext (by decide) hdigit
  have hrounds := rounds_term hpos hdigit hexponent
  cases ds with
  | nil =>
      rw [← hvalue] at hpos
      exact absurd hpos (lt_irrefl 0)
  | cons c ds =>
      rw [List.length_cons] at hlength
      cases List.length_eq_zero_iff.mp (by omega : ds.length = 0)
      have hlone : c.val = d.digits := by
        rw [← hvalue]
        exact Nat.ofDigits_singleton.symm
      have hpower : d.exponent + (1 : Nat) - 1 = d.exponent := by
        omega
      rcases hrounds.exists_near with ⟨t, ht, _⟩
      have hsame : w.numeral.sum.toModel.unpack =
          (term d.digits d.exponent).toModel.unpack := by
        rw [hsum, paddedPlaces_eq]
        show (accumulate 0.0 (_ ++ (c.val, d.exponent + (1 : Nat) - 1) :: _)).toModel.unpack = _
        rw [hlone, hpower]
        exact unpack_accumulate_lone (fun _ => mem_descend_zeros) (fun _ => mem_descend_zeros) ht
      rw [hsame]
      exact hrounds

end

/-!
## Sums of shortest decimals
-/

theorem hundred_loss : 10 ^ (-306 : Int) = 100 * loss := by
  have hsplit : (10 : ℚ) ^ (-306 : Int) = 10 ^ (2 : Int) * 10 ^ (-308 : Int) :=
    zpow_add₀ (by norm_num) 2 (-308)
  rw [hsplit, loss]
  norm_num

section

variable {m : Nat} {q : Int} (hm : 0 < m) (h : Canonical m q)
include hm h

theorem isModerate_shortest : IsModerate (shortest m q) := by
  rcases exponent_shortest hm h with ⟨hlow, hhigh⟩
  exact ⟨digits_shortest_lt hm h, by omega, by omega⟩

theorem distance_shortest :
    |(shortest m q).value - m * 2 ^ q| ≤ m * 2 ^ q / 2 ^ 53 + tiny := by
  have hinterval := inInterval_shortest hm h
  have hbelow := hinterval.below
  have habove := hinterval.above
  have hpos := two_zpow_pos q
  have htiny := tiny_pos
  have hhalf : (2 : ℚ) ^ q / 2 ≤ m * 2 ^ q / 2 ^ 53 + tiny := by
    rcases h.full with hfull | rfl
    · have hmantissa : (2 ^ 52 : ℚ) ≤ m := by
        exact_mod_cast hfull
      have hproduct := mul_le_mul_of_nonneg_right hmantissa hpos.le
      linarith
    · have hleast : (2 : ℚ) ^ (-1074 : Int) / 2 = tiny := by
        rw [tiny, show (-1074 : Int) = -1075 + 1 from rfl, zpow_add_one₀ two_ne_zero]
        exact mul_div_cancel_right₀ _ two_ne_zero
      rw [hleast]
      exact le_add_of_nonneg_left (by positivity)
  rw [abs_le]
  constructor <;> linarith

theorem digits_shortest_pos : 0 < (shortest m q).digits := by
  have hbelow := (inInterval_shortest hm h).below
  have hone : (1 : ℚ) ≤ m := by
    exact_mod_cast hm
  have hpos : (0 : ℚ) < (shortest m q).value :=
    (mul_pos (by linarith) (two_zpow_pos q)).trans_le hbelow
  have hdigits := pos_of_mul_pos_left hpos (ten_zpow_pos _).le
  exact_mod_cast hdigits

theorem spans_shortest_of_middle (hlow : (10 : ℚ) ^ (-4 : Int) ≤ m * 2 ^ q)
    (hhigh : (m * 2 ^ q : ℚ) ≤ 10 ^ (22 : Int)) : Spans (shortest m q) 0 := by
  rcases abs_le.mp (distance_shortest hm h) with ⟨hbelow, habove⟩
  have hstep := ten_zpow_pos (shortest m q).exponent
  have htiny : tiny ≤ 10 ^ (-6 : Int) :=
    tiny_le_loss.trans (zpow_le_zpow_right₀ (by norm_num) (by decide))
  have hleast : -5 < 18 + (shortest m q).exponent := by
    have hdigits : ((shortest m q).digits : ℚ) < 10 ^ 18 := by
      exact_mod_cast digits_shortest_lt hm h
    have hpowers : (10 : ℚ) ^ (-5 : Int) < 10 ^ (18 + (shortest m q).exponent) :=
      calc
        (10 : ℚ) ^ (-5 : Int) < (shortest m q).value := by
          norm_num at hlow htiny ⊢
          linarith
        _ < 10 ^ 18 * 10 ^ (shortest m q).exponent := mul_lt_mul_of_pos_right hdigits hstep
        _ = 10 ^ (18 + (shortest m q).exponent) := (zpow_add₀ (by norm_num) 18 _).symm
    exact (zpow_lt_zpow_iff_right₀ (by norm_num)).mp hpowers
  have hgreatest : ((digitsOf (shortest m q).digits).length - 1 : Nat) +
      (shortest m q).exponent < 23 := by
    rcases exists_digitsOf (shortest m q).digits with ⟨ds, htext, _⟩
    have hdigits : (10 ^ (ds.length - 1) : ℚ) ≤ (shortest m q).digits := by
      exact_mod_cast le_of_digitsOf htext (digits_shortest_pos hm h)
    rw [htext, length_digitsText]
    have hpowers : (10 : ℚ) ^ ((ds.length - 1 : Nat) + (shortest m q).exponent) <
        10 ^ (23 : Int) :=
      calc
        (10 : ℚ) ^ ((ds.length - 1 : Nat) + (shortest m q).exponent) =
            10 ^ (ds.length - 1) * 10 ^ (shortest m q).exponent := by
          rw [zpow_add₀ (by norm_num), zpow_natCast]
        _ ≤ (shortest m q).value := mul_le_mul_of_nonneg_right hdigits hstep.le
        _ < 10 ^ (23 : Int) := by
          norm_num at hhigh htiny ⊢
          linarith
    exact (zpow_lt_zpow_iff_right₀ (by norm_num)).mp hpowers
  intro p hp hp'
  omega

theorem Shows.exists_near_shortest {w : Spelling} {s : UnpackedFloat.Sign}
    (hw : Shows w s (shortest m q)) {k : Nat} (hk : k ≤ 286) (hspans : Spans (shortest m q) k) :
    exists r, Reaches w.numeral.sum.toModel.unpack r ∧
      |r - m * 2 ^ q| ≤ (k + 22) / 2 ^ 53 * (m * 2 ^ q) + 10 ^ (-306 : Int) := by
  rcases hw.exists_near (isModerate_shortest hm h) hk hspans with ⟨r, hr, hnear⟩
  refine ⟨r, hr, ?_⟩
  have hdistance := distance_shortest hm h
  have hloss := tiny_le_loss
  have htiny := tiny_pos
  rw [hundred_loss]
  have hv : (0 : ℚ) ≤ m * 2 ^ q := by
    positivity
  generalize (m * 2 ^ q : ℚ) = v at hdistance hv ⊢
  generalize (shortest m q).value = u at hdistance hnear
  have hrate : ((k : ℚ) + 20) / 2 ^ 53 ≤ 1 := by
    have hcast : (k : ℚ) ≤ 286 := by
      exact_mod_cast hk
    linarith
  have herror : 0 ≤ v / 2 ^ 53 + tiny := add_nonneg (by positivity) htiny.le
  have hu : ((k : ℚ) + 20) / 2 ^ 53 * u ≤ (k + 20) / 2 ^ 53 * v + (v / 2 ^ 53 + tiny) := by
    have habove := (abs_le.mp hdistance).2
    calc
      ((k : ℚ) + 20) / 2 ^ 53 * u ≤ (k + 20) / 2 ^ 53 * (v + (v / 2 ^ 53 + tiny)) :=
        mul_le_mul_of_nonneg_left (by linarith) (by positivity)
      _ = (k + 20) / 2 ^ 53 * v + (k + 20) / 2 ^ 53 * (v / 2 ^ 53 + tiny) := mul_add _ _ _
      _ ≤ (k + 20) / 2 ^ 53 * v + (v / 2 ^ 53 + tiny) :=
        add_le_add_right (mul_le_of_le_one_left herror hrate) _
  calc
    |r - v| ≤ |r - u| + |u - v| := abs_sub_le r u v
    _ ≤ (k + 22) / 2 ^ 53 * v + 100 * loss := by linarith

end

end Decimal
end Equate
