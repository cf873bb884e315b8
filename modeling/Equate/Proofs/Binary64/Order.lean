import Equate.Binary64
import Mathlib.Order.Defs.LinearOrder

/-!
# The order of floats

All floats but NaN stand in one line. A float has a place there, which is given by its
sign, its exponent and its mantissa, and two floats compare as their places do. The laws
of an order follow from those of lexicographic comparison. NaN has no place and is
compared with no float.
-/

namespace Equate
namespace Binary64

open Float.Model Float.Model.UnpackedFloat

/-!
## Places
-/

structure Place where
  side : Int
  exponent : Int
  mantissa : Int

def Place.compare : Place -> Place -> Ordering :=
  compareLex (compareOn side) (compareLex (compareOn exponent) (compareOn mantissa))

/--
Both zeros stand in the middle and the infinities outside. Below zero the exponent and the
mantissa count downwards.
-/
def place? : UnpackedFloat -> Option Place
  | .notANumber => none
  | .infinity .negative => some ⟨-2, 0, 0⟩
  | .finite .negative m e _ => some ⟨-1, -e, -m⟩
  | .zero _ => some ⟨0, 0, 0⟩
  | .finite .positive m e _ => some ⟨1, e, m⟩
  | .infinity .positive => some ⟨2, 0, 0⟩

theorem place?_eq_none_iff (x : UnpackedFloat) : place? x = none ↔ x.isNaN = true := by
  rcases x with (_ | _) | _ | _ | ⟨_ | _, m, e, hm⟩
  case notANumber => exact ⟨fun _ => rfl, fun _ => rfl⟩
  all_goals
    constructor
    · intro h
      cases h
    · intro h
      cases h

theorem compare_natCast (m n : Nat) : compare (m : Int) n = compare m n := by
  rw [Int.compare_eq_ite_lt, Nat.compare_eq_ite_lt]
  simp only [Int.ofNat_lt]

theorem compare_neg (a b : Int) : compare (-a) (-b) = (compare a b).swap := by
  rw [Int.compare_swap, Int.compare_eq_ite_lt, Int.compare_eq_ite_lt]
  simp only [Int.neg_lt_neg_iff]

theorem compare_finite_positive {m n : Nat} {e f : Int} (hm : 0 < m) (hn : 0 < n) :
    (finite .positive m e hm).compare (finite .positive n f hn) =
      some (Place.compare ⟨1, e, m⟩ ⟨1, f, n⟩) := by
  show some ((compare e f).then (compare m n)) =
    some ((compare e f).then (compare (m : Int) n))
  rw [compare_natCast]

theorem compare_finite_negative {m n : Nat} {e f : Int} (hm : 0 < m) (hn : 0 < n) :
    (finite .negative m e hm).compare (finite .negative n f hn) =
      some (Place.compare ⟨-1, -e, -m⟩ ⟨-1, -f, -n⟩) := by
  show some ((compare e f).then (compare m n)).swap =
    some ((compare (-e) (-f)).then (compare (-(m : Int)) (-(n : Int))))
  rw [compare_neg, compare_neg, compare_natCast, Ordering.swap_then]

/-- Two floats are compared by their places. -/
theorem compare_eq_place (x y : UnpackedFloat) :
    x.compare y = (place? x).bind fun p => (place? y).map p.compare := by
  rcases x with (_ | _) | _ | _ | ⟨_ | _, m, e, hm⟩ <;>
    rcases y with (_ | _) | _ | _ | ⟨_ | _, n, f, hn⟩
  case finite.negative.finite.negative => exact compare_finite_negative hm hn
  case finite.positive.finite.positive => exact compare_finite_positive hm hn
  all_goals rfl

/-!
## Laws
-/

instance : Std.TransCmp Place.compare :=
  inferInstanceAs (Std.TransCmp (compareLex _ (compareLex _ _)))

section

variable {x y z : Float}

theorem compare?_eq_some_iff {order : Ordering} : compare? x y = some order ↔
    exists p q, place? x.toModel.unpack = some p ∧ place? y.toModel.unpack = some q ∧
      p.compare q = order := by
  show x.toModel.unpack.compare y.toModel.unpack = some order ↔ _
  rw [compare_eq_place]
  simp only [Option.bind_eq_some_iff, Option.map_eq_some_iff]
  constructor
  · rintro ⟨p, hp, q, hq, horder⟩
    exact ⟨p, q, hp, hq, horder⟩
  · rintro ⟨p, q, hp, hq, horder⟩
    exact ⟨p, hp, q, hq, horder⟩

theorem compare?_eq_none_iff : compare? x y = none ↔ x.isNaN = true ∨ y.isNaN = true := by
  show x.toModel.unpack.compare y.toModel.unpack = none ↔
    x.toModel.unpack.isNaN = true ∨ y.toModel.unpack.isNaN = true
  rw [compare_eq_place, ← place?_eq_none_iff, ← place?_eq_none_iff]
  cases place? x.toModel.unpack <;> cases place? y.toModel.unpack <;> simp

theorem compare?_swap (x y : Float) : compare? y x = (compare? x y).map Ordering.swap := by
  show y.toModel.unpack.compare x.toModel.unpack =
    (x.toModel.unpack.compare y.toModel.unpack).map Ordering.swap
  rw [compare_eq_place, compare_eq_place]
  rcases place? x.toModel.unpack with _ | p <;> rcases place? y.toModel.unpack with _ | q
  · rfl
  · rfl
  · rfl
  · exact congrArg some Std.OrientedCmp.eq_swap

def AtMost (x y : Float) : Prop :=
  exists order, compare? x y = some order ∧ order.isLE = true

theorem atMost_of_lt (h : compare? x y = some .lt) : AtMost x y :=
  ⟨.lt, h, rfl⟩

theorem lt_of_lt_of_atMost (h : compare? x y = some .lt) (h' : AtMost y z) :
    compare? x z = some .lt := by
  rcases h' with ⟨order, horder, hle⟩
  rcases compare?_eq_some_iff.mp h with ⟨p, q, hp, hq, hlt⟩
  rcases compare?_eq_some_iff.mp horder with ⟨q', r, hq', hr, rfl⟩
  cases hq.symm.trans hq'
  exact compare?_eq_some_iff.mpr ⟨p, r, hp, hr, Std.TransCmp.lt_of_lt_of_isLE hlt hle⟩

theorem lt_of_atMost_of_lt (h : AtMost x y) (h' : compare? y z = some .lt) :
    compare? x z = some .lt := by
  rcases h with ⟨order, horder, hle⟩
  rcases compare?_eq_some_iff.mp horder with ⟨p, q, hp, hq, rfl⟩
  rcases compare?_eq_some_iff.mp h' with ⟨q', r, hq', hr, hlt⟩
  cases hq.symm.trans hq'
  exact compare?_eq_some_iff.mpr ⟨p, r, hp, hr, Std.TransCmp.lt_of_isLE_of_lt hle hlt⟩

end

/-!
## Equal floats
-/

theorem beq_iff_compare? (x y : Float) : (x == y) = true ↔ compare? x y = some .eq := by
  show (x.toModel.unpack.compare y.toModel.unpack == some .eq) = true ↔ _
  rw [beq_iff_eq]
  rfl

theorem Place.compare_eq_iff (p q : Place) : p.compare q = .eq ↔ p = q := by
  unfold Place.compare
  rw [compareLex_eq_eq, compareLex_eq_eq, compareOn, compareOn, compareOn,
    Std.compare_eq_iff_eq, Std.compare_eq_iff_eq, Std.compare_eq_iff_eq]
  constructor
  · rintro ⟨hside, hexponent, hmantissa⟩
    cases p
    cases q
    cases hside
    cases hexponent
    cases hmantissa
    rfl
  · intro h
    rw [h]
    exact ⟨rfl, rfl, rfl⟩

theorem same_iff (x y : Float) :
    same x y = true ↔ place? x.toModel.unpack = place? y.toModel.unpack := by
  unfold same
  rw [Bool.or_eq_true, Bool.and_eq_true, beq_iff_compare?, compare?_eq_some_iff]
  show x.toModel.unpack.isNaN = true ∧ y.toModel.unpack.isNaN = true ∨ _ ↔ _
  rw [← place?_eq_none_iff, ← place?_eq_none_iff]
  simp only [Place.compare_eq_iff]
  cases place? x.toModel.unpack <;> cases place? y.toModel.unpack <;> simp [eq_comm]

end Binary64
end Equate
