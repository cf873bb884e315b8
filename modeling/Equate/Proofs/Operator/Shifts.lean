import Equate.Operator.Binary
import Equate.Proofs.Number.Words

/-!
# Shifts

A word of either kind is shifted by a word of either kind, and its own kind decides what
moves in from the left. On integers a shift to the left multiplies by a power of two modulo
the number of words, and a shift to the right is the exact floor division by it. The power
is the count modulo `64`, also for a negative count and for one beyond the signed words: the
count is taken from its bits, to which both readings are congruent.
-/

namespace Equate

open Reading

/-!
## Counts
-/

/-- By how many places a word is shifted for the integer that the count stands for. -/
def shiftDistance (count : Int) : Nat :=
  (count % 64).toNat

theorem shiftDistance_add_mul (count j : Int) :
    shiftDistance (count + 64 * j) = shiftDistance count := by
  unfold shiftDistance
  rw [Int.add_mul_emod_self_left]

theorem toNat_shiftCount (l : Reading) (b : UInt64) :
    (shiftCount (l.number b)).toNat = shiftDistance (l.value b) := by
  have hcount : shiftCount (l.number b) = b % 64 := by
    cases l <;> rfl
  have hvalue := l.value_modEq b
  rw [hcount]
  unfold shiftDistance
  unfold Int.ModEq at hvalue
  show b.toNat % 64 = _
  omega

theorem shiftCount_lt (n : Number) : (shiftCount n).toNat < 64 :=
  Nat.mod_lt _ (by decide)

theorem shiftCount_eq {l l' : Reading} {b b' : UInt64}
    (h : shiftDistance (l.value b) = shiftDistance (l'.value b')) :
    shiftCount (l.number b) = shiftCount (l'.number b') := by
  apply UInt64.toNat_inj.mp
  rw [toNat_shiftCount, toNat_shiftCount, h]

namespace ShiftOp

/-!
## Words
-/

theorem onNumbers_left (k : Reading) (a : UInt64) (c : Number) :
    ShiftOp.left.onNumbers (k.number a) c = k.number (a <<< shiftCount c) := by
  cases k with
  | unsigned => rfl
  | signed => exact congrArg Number.signed (toInt64_shiftLeft a (shiftCount_lt c)).symm

theorem onNumbers_right (k : Reading) (a : UInt64) (c : Number) :
    ShiftOp.right.onNumbers (k.number a) c = k.number (k.shiftRight a (shiftCount c)) := by
  cases k <;> rfl

def Gives (op : ShiftOp) (x c z : Number) : Prop :=
  forall arena, (BinaryOp.shift op).apply (.number x) (.number c) arena =
    (.ok (.number z), arena)

theorem gives_iff {op : ShiftOp} {x c z : Number} : op.Gives x c z ↔ op.onNumbers x c = z := by
  constructor
  · intro h
    exact Value.number.inj (Except.ok.inj (congrArg Prod.fst (h none)))
  · rintro rfl arena
    rfl

theorem onNumbers_congr {c c' : Number} (h : shiftCount c = shiftCount c') (op : ShiftOp)
    (x : Number) : op.onNumbers x c = op.onNumbers x c' := by
  unfold onNumbers
  rw [h]

end ShiftOp

/-- The shifts of a word of the kind `k` that stands for `X`, by a word that stands for `C`. -/
structure Shifted (x c : Number) (k : Reading) (X C : Int) : Prop where
  left : exists w, ShiftOp.left.Gives x c (k.number w) ∧
    k.value w ≡ X * 2 ^ shiftDistance C [ZMOD 2 ^ 64]
  right : exists w, ShiftOp.right.Gives x c (k.number w) ∧
    k.value w = X.fdiv (2 ^ shiftDistance C)
  periodic : forall (l : Reading) (b : UInt64) (j : Int), l.value b = C + 64 * j ->
    forall op z, ShiftOp.Gives op x (l.number b) z ↔ ShiftOp.Gives op x c z
  restored : k.least ≤ X * 2 ^ shiftDistance C -> X * 2 ^ shiftDistance C < k.least + 2 ^ 64 ->
    exists y z, ShiftOp.left.Gives x c y ∧ ShiftOp.right.Gives y c z ∧ z = x ∧
      forall arena, (BinaryOp.comparison .equal).apply (.number z) (.number x) arena =
        (.ok (.ofBool true), arena)

section

variable (k l : Reading) (a b : UInt64)

theorem value_onLeft :
    k.value (a <<< shiftCount (l.number b)) ≡ k.value a * 2 ^ shiftDistance (l.value b)
      [ZMOD 2 ^ 64] := by
  rw [← toNat_shiftCount]
  exact k.value_shiftLeft a (shiftCount_lt _)

theorem value_onRight :
    k.value (k.shiftRight a (shiftCount (l.number b))) =
      (k.value a).fdiv (2 ^ shiftDistance (l.value b)) := by
  have hpower : (0 : Int) ≤ 2 ^ shiftDistance (l.value b) := Int.pow_nonneg (by decide)
  rw [k.value_shiftRight a (shiftCount_lt _), toNat_shiftCount,
    Int.fdiv_eq_ediv_of_nonneg _ hpower]

theorem shiftRight_shiftLeft
    (h : k.value (a <<< shiftCount (l.number b)) = k.value a * 2 ^ shiftDistance (l.value b)) :
    k.shiftRight (a <<< shiftCount (l.number b)) (shiftCount (l.number b)) = a := by
  have hpower : (2 : Int) ^ shiftDistance (l.value b) ≠ 0 := Int.pow_ne_zero (by decide)
  apply eq_of_value_modEq (k := k)
  rw [value_onRight, h, Int.mul_fdiv_cancel _ hpower]

theorem equal_self (arena : Option Arena) :
    (BinaryOp.comparison .equal).apply (.number (k.number a)) (.number (k.number a)) arena =
      (.ok (.ofBool true), arena) := by
  have hself : (k.number a).compare? (k.number a) = some .eq := by
    rw [compare?_number, Std.compare_self]
  show (Except.ok (Value.ofBool (ComparisonOp.equal.holds _)), arena) = _
  rw [hself]
  rfl

end

open ShiftOp in
/--
Shifts of words are exact multiplication modulo the number of words and exact floor
division, by a power of two that the count fixes modulo `64`.
-/
theorem shifts_exact (k l : Reading) (a b : UInt64) :
    Shifted (k.number a) (l.number b) k (k.value a) (l.value b) where
  left := ⟨_, gives_iff.mpr (onNumbers_left k a _), value_onLeft k l a b⟩
  right := ⟨_, gives_iff.mpr (onNumbers_right k a _), value_onRight k l a b⟩
  periodic := by
    intro l' b' j hcount op z
    have hdistance : shiftDistance (l'.value b') = shiftDistance (l.value b) := by
      rw [hcount, shiftDistance_add_mul]
    rw [gives_iff, gives_iff, onNumbers_congr (shiftCount_eq hdistance)]
  restored := by
    intro hlow hhigh
    have hvalue := (value_eq_iff_of_modEq (value_onLeft k l a b)).mpr ⟨hlow, hhigh⟩
    have hback : ShiftOp.right.onNumbers (k.number (a <<< shiftCount (l.number b)))
        (l.number b) = k.number a := by
      rw [onNumbers_right, shiftRight_shiftLeft k l a b hvalue]
    exact ⟨_, k.number a, gives_iff.mpr (onNumbers_left k a _), gives_iff.mpr hback, rfl,
      equal_self k a⟩

end Equate
