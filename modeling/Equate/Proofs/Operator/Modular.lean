import Equate.Operator.Binary
import Equate.Proofs.Number.Words

/-!
# Arithmetic modulo the number of words

Two words are read alike before they are added, subtracted, multiplied or divided: both
unsigned, or both signed. The result is the word of that reading that is congruent to the
exact result on integers. One difference of unsigned words is an exception, because the
kind of the result changes below zero. Division is exact but for one quotient, so that
quotient and remainder make up the dividend again, bit by bit.
-/

namespace Equate

namespace ArithmeticOp

/-!
## One rule for each reading
-/

def onWords (op : ArithmeticOp) : Reading -> UInt64 -> UInt64 -> Except Diagnostic Number
  | .unsigned, a, b => op.onUnsigned a b
  | .signed, a, b => op.onSigned a.toInt64 b.toInt64

theorem onNumbers_words (op : ArithmeticOp) (k l : Reading) (a b : UInt64) :
    op.onNumbers (k.number a) (l.number b) = op.onWords (k.join l) a b := by
  cases k <;> cases l <;> rfl

/-!
## Operations with a condition

The difference of two unsigned words is taken without wrapping, so that it must not lie
below zero, and no word can be divided by zero. Here these operations have no result at all
where they must not be used. All other operations wrap and have a result for all words.
-/

def provided? (condition : Prop) [Decidable condition] (result : α) : Option α :=
  if condition then some result else none

def onUnsigned? (op : ArithmeticOp) (a b : UInt64) : Option (Except Diagnostic Number) :=
  match op with
  | .add => some (.ok (.unsigned (a + b)))
  | .sub =>
      if a < b then some (.ok (.signed (a - b).toInt64))
      else provided? (b ≤ a) (.ok (.unsigned (a - b)))
  | .mul => some (.ok (.unsigned (a * b)))
  | .div =>
      if b = 0 then some (.error .divisionByZero)
      else provided? (b ≠ 0) (.ok (.unsigned (a / b)))
  | .mod =>
      if b = 0 then some (.error .divisionByZero)
      else provided? (b ≠ 0) (.ok (.unsigned (a % b)))

def onSigned? (op : ArithmeticOp) (a b : Int64) : Option (Except Diagnostic Number) :=
  match op with
  | .add => some (.ok (.signed (a + b)))
  | .sub => some (.ok (.signed (a - b)))
  | .mul => some (.ok (.signed (a * b)))
  | .div =>
      if b = 0 then some (.error .divisionByZero)
      else provided? (b ≠ 0) (.ok (.signed (a / b)))
  | .mod =>
      if b = 0 then some (.error .divisionByZero)
      else provided? (b ≠ 0) (.ok (.signed (a % b)))

def onWords? (op : ArithmeticOp) : Reading -> UInt64 -> UInt64 -> Option (Except Diagnostic Number)
  | .unsigned, a, b => op.onUnsigned? a b
  | .signed, a, b => op.onSigned? a.toInt64 b.toInt64

theorem provided?_of_holds {condition : Prop} [Decidable condition] (h : condition) (result : α) :
    provided? condition result = some result :=
  if_pos h

theorem guarded_by_zero [DecidableEq β] (zero b : β) (refusal result : α) :
    (if b = zero then some refusal else provided? (b ≠ zero) result) =
      some (if b = zero then refusal else result) := by
  split
  · rfl
  · rename_i h
    exact provided?_of_holds h result

theorem onUnsigned?_eq (op : ArithmeticOp) (a b : UInt64) :
    op.onUnsigned? a b = some (op.onUnsigned a b) := by
  cases op with
  | add => rfl
  | mul => rfl
  | div => exact guarded_by_zero 0 b _ _
  | mod => exact guarded_by_zero 0 b _ _
  | sub =>
      unfold onUnsigned? onUnsigned
      simp only
      split
      · rfl
      · rename_i h
        exact provided?_of_holds (UInt64.not_lt.mp h) _

theorem onSigned?_eq (op : ArithmeticOp) (a b : Int64) :
    op.onSigned? a b = some (op.onSigned a b) := by
  cases op with
  | add => rfl
  | sub => rfl
  | mul => rfl
  | div => exact guarded_by_zero 0 b _ _
  | mod => exact guarded_by_zero 0 b _ _

theorem onWords?_eq (op : ArithmeticOp) (m : Reading) (a b : UInt64) :
    op.onWords? m a b = some (op.onWords m a b) := by
  cases m with
  | unsigned => exact onUnsigned?_eq op a b
  | signed => exact onSigned?_eq op a.toInt64 b.toInt64

/-!
## Results
-/

section

variable (m : Reading) (a b : UInt64)

theorem onWords_add : add.onWords m a b = .ok (m.number (a + b)) := by
  cases m with
  | unsigned => rfl
  | signed =>
      show Except.ok (Number.signed (a.toInt64 + b.toInt64)) = _
      rw [← UInt64.toInt64_add]
      rfl

theorem onWords_mul : mul.onWords m a b = .ok (m.number (a * b)) := by
  cases m with
  | unsigned => rfl
  | signed =>
      show Except.ok (Number.signed (a.toInt64 * b.toInt64)) = _
      rw [← UInt64.toInt64_mul]
      rfl

/-- An unsigned difference below zero becomes signed, and keeps its bits. -/
theorem onWords_sub :
    sub.onWords m a b =
      .ok ((if m = .unsigned ∧ a < b then Reading.signed else m).number (a - b)) := by
  cases m with
  | unsigned =>
      by_cases h : a < b
      · simp [onWords, onUnsigned, h, Reading.number]
      · simp [onWords, onUnsigned, h, Reading.number]
  | signed =>
      show Except.ok (Number.signed (a.toInt64 - b.toInt64)) = _
      rw [← UInt64.toInt64_sub]
      rfl

variable {b} (hb : b ≠ 0)
include hb

theorem onWords_div : div.onWords m a b = .ok (m.number (m.quotient a b)) := by
  cases m with
  | unsigned => exact if_neg hb
  | signed => exact if_neg (mt (Number.toInt64_eq_zero_iff b).mp hb)

theorem onWords_mod : mod.onWords m a b = .ok (m.number (m.remainder a b)) := by
  cases m with
  | unsigned => exact if_neg hb
  | signed => exact if_neg (mt (Number.toInt64_eq_zero_iff b).mp hb)

end

end ArithmeticOp

/-!
## The operators on words
-/

def ArithmeticOp.Gives (op : ArithmeticOp) (x y z : Number) : Prop :=
  forall arena, (BinaryOp.arithmetic op).apply (.number x) (.number y) arena =
    (.ok (.number z), arena)

theorem BinaryOp.apply_arithmetic (op : ArithmeticOp) (x y : Number) (arena : Option Arena) :
    (arithmetic op).apply (.number x) (.number y) arena =
      ((op.onNumbers x y).map .number, arena) := by
  cases op <;> rfl

theorem ArithmeticOp.gives_of_onWords {op : ArithmeticOp} {k l : Reading} {a b : UInt64}
    {z : Number} (h : op.onWords (k.join l) a b = .ok z) :
    op.Gives (k.number a) (l.number b) z := by
  intro arena
  rw [BinaryOp.apply_arithmetic, ArithmeticOp.onNumbers_words, h]
  rfl

/-- Arithmetic on two words whose common reading `m` takes them for `X` and `Y`. -/
structure Modular (x y : Number) (m : Reading) (X Y : Int) : Prop where
  sum : exists w, ArithmeticOp.add.Gives x y (m.number w) ∧
    m.value w ≡ X + Y [ZMOD 2 ^ 64]
  product : exists w, ArithmeticOp.mul.Gives x y (m.number w) ∧
    m.value w ≡ X * Y [ZMOD 2 ^ 64]
  difference : ¬ (m = .unsigned ∧ X < Y) -> exists w,
    ArithmeticOp.sub.Gives x y (m.number w) ∧ m.value w ≡ X - Y [ZMOD 2 ^ 64]
  deficit : m = .unsigned ∧ X < Y -> exists w,
    ArithmeticOp.sub.Gives x y (Reading.signed.number w) ∧
      Reading.signed.value w ≡ X - Y [ZMOD 2 ^ 64] ∧
      (Reading.signed.value w = X - Y ↔ Y - X ≤ 2 ^ 63)
  quotient : Y ≠ 0 -> exists w, ArithmeticOp.div.Gives x y (m.number w) ∧
    m.value w ≡ X.tdiv Y [ZMOD 2 ^ 64] ∧
    (m.value w = X.tdiv Y ↔ ¬ (m = .signed ∧ X = -2 ^ 63 ∧ Y = -1))
  remainder : Y ≠ 0 -> exists w, ArithmeticOp.mod.Gives x y (m.number w) ∧
    m.value w = X - Y * X.tdiv Y
  restored : Y ≠ 0 -> exists q p r, ArithmeticOp.div.Gives x y q ∧
    ArithmeticOp.mul.Gives q y p ∧ ArithmeticOp.mod.Gives x y r ∧
    ArithmeticOp.add.Gives p r (m.number x.toUnsigned)

open ArithmeticOp Reading in
theorem modular_words (k l : Reading) (a b : UInt64) :
    Modular (k.number a) (l.number b) (k.join l) ((k.join l).value a) ((k.join l).value b) where
  sum := ⟨a + b, gives_of_onWords (onWords_add _ a b), value_add _ a b⟩
  product := ⟨a * b, gives_of_onWords (onWords_mul _ a b), value_mul _ a b⟩
  difference h := by
    have hcondition : ¬ (k.join l = .unsigned ∧ a < b) := by
      rintro ⟨hm, hlt⟩
      apply h
      rw [hm]
      exact ⟨rfl, Int.ofNat_lt.mpr (UInt64.lt_iff_toNat_lt.mp hlt)⟩
    refine ⟨a - b, gives_of_onWords ?_, value_sub _ a b⟩
    rw [onWords_sub, if_neg hcondition]
  deficit h := by
    rcases h with ⟨hm, hlt⟩
    rw [hm] at hlt ⊢
    have hwords : a < b := UInt64.lt_iff_toNat_lt.mpr (Int.ofNat_lt.mp hlt)
    have hvalue : signed.value (a - b) ≡ unsigned.value a - unsigned.value b [ZMOD 2 ^ 64] :=
      (value_modEq_value .signed .unsigned (a - b)).trans (value_sub .unsigned a b)
    refine ⟨a - b, gives_of_onWords ?_, hvalue, ?_⟩
    · rw [onWords_sub, if_pos ⟨hm, hwords⟩]
    · rw [value_eq_iff_of_modEq hvalue]
      show -2 ^ 63 ≤ unsigned.value a - unsigned.value b ∧
        unsigned.value a - unsigned.value b < -2 ^ 63 + 2 ^ 64 ↔ _
      omega
  quotient hY := by
    have hb := ne_zero_of_value hY
    exact ⟨_, gives_of_onWords (onWords_div _ a hb), value_quotient _ a b,
      value_quotient_eq_iff _ a b⟩
  remainder hY := by
    have hb := ne_zero_of_value hY
    refine ⟨_, gives_of_onWords (onWords_mod _ a hb), ?_⟩
    rw [value_remainder, Int.tmod_def]
  restored hY := by
    have hb := ne_zero_of_value hY
    refine ⟨_, (k.join l).number ((k.join l).quotient a b * b), _,
      gives_of_onWords (onWords_div _ a hb), gives_of_onWords ?_,
      gives_of_onWords (onWords_mod _ a hb), gives_of_onWords ?_⟩
    · rw [onWords_mul, join_join_right]
    · rw [onWords_add, join_self, quotient_mul_add_remainder, toUnsigned_number]

/-!
## Unary operators
-/

section

variable (k : Reading) (a : UInt64)

theorem apply_negate : UnaryOp.negate.apply (.number (k.number a)) =
    .ok (.number (Reading.signed.number (0 - a))) := by
  have hnegate : (k.number a).negate = .signed (-a.toInt64) := by
    cases k <;> rfl
  show Except.ok (Value.number (k.number a).negate) = _
  rw [hnegate, UInt64.zero_sub, Reading.number, UInt64.toInt64_neg]

theorem apply_plus : UnaryOp.plus.apply (.number (k.number a)) =
    .ok (.number (Reading.signed.number a)) := by
  cases k <;> rfl

theorem apply_complement : UnaryOp.complement.apply (.number (k.number a)) =
    .ok (.number (Reading.unsigned.number (~~~a))) := by
  cases k <;> rfl

end

/--
Arithmetic on words of any kinds is exact arithmetic modulo the number of words, and no
operation on the way is used where it has no result. The unary operators do the same to
the bits of one word.
-/
theorem operators_modular :
    (forall (k l : Reading) (a b : UInt64),
      Modular (k.number a) (l.number b) (k.join l) ((k.join l).value a) ((k.join l).value b) ∧
        forall op : ArithmeticOp, exists outcome, op.onWords? (k.join l) a b = some outcome ∧
          forall arena, (BinaryOp.arithmetic op).apply (.number (k.number a))
            (.number (l.number b)) arena = (outcome.map .number, arena)) ∧
    forall (k : Reading) (a : UInt64),
      (exists w, UnaryOp.negate.apply (.number (k.number a)) =
        .ok (.number (Reading.signed.number w)) ∧
          Reading.signed.value w ≡ 0 - a.toNat [ZMOD 2 ^ 64]) ∧
      UnaryOp.plus.apply (.number (k.number a)) = .ok (.number (Reading.signed.number a)) ∧
      exists w, UnaryOp.complement.apply (.number (k.number a)) =
        .ok (.number (Reading.unsigned.number w)) ∧
          Reading.unsigned.value w = 2 ^ 64 - 1 - a.toNat := by
  constructor
  · intro k l a b
    refine ⟨modular_words k l a b, ?_⟩
    intro op
    refine ⟨_, op.onWords?_eq (k.join l) a b, ?_⟩
    intro arena
    rw [BinaryOp.apply_arithmetic, ArithmeticOp.onNumbers_words]
  · intro k a
    refine ⟨⟨0 - a, apply_negate k a, ?_⟩, apply_plus k a, ~~~a, apply_complement k a, ?_⟩
    · exact (Reading.value_sub .signed 0 a).trans
        ((Int.ModEq.refl 0).sub (Reading.value_modEq .signed a))
    · have hbound : a.toNat < UInt64.size := a.toNat_lt
      have hsize : UInt64.size = 2 ^ 64 := rfl
      show ((~~~a).toNat : Int) = _
      rw [UInt64.toNat_not]
      omega

end Equate
