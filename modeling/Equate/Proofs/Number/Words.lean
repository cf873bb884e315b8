import Equate.Value
import Mathlib.Data.Int.ModEq

/-!
# Words as integers

The bits of a word stand for an integer under each of two readings. Both integers are
congruent to the bits modulo the number of words, and each reading tells all words apart.
An operation on bits is therefore known by one congruence, whatever the reading, and a
congruence determines a word. Words are compared by the integers they stand for.
-/

namespace Equate

inductive Reading where
  | unsigned
  | signed
deriving DecidableEq

namespace Reading

def value : Reading -> UInt64 -> Int
  | .unsigned, bits => bits.toNat
  | .signed, bits => bits.toInt64.toInt

def number : Reading -> UInt64 -> Number
  | .unsigned, bits => .unsigned bits
  | .signed, bits => .signed bits.toInt64

/-- Two words are read unsigned together only if both of them are unsigned. -/
def join : Reading -> Reading -> Reading
  | .unsigned, .unsigned => .unsigned
  | _, _ => .signed

def least : Reading -> Int
  | .unsigned => 0
  | .signed => -2 ^ 63

theorem join_self (k : Reading) : k.join k = k := by
  cases k <;> rfl

theorem join_join_right (k l : Reading) : (k.join l).join l = k.join l := by
  cases k <;> cases l <;> rfl

theorem toUnsigned_number (k : Reading) (bits : UInt64) : (k.number bits).toUnsigned = bits := by
  cases k <;> rfl

theorem ne_zero_of_value {k : Reading} {bits : UInt64} (h : k.value bits ≠ 0) : bits ≠ 0 := by
  rintro rfl
  cases k <;> exact h rfl

end Reading

def Value.integer? : Value -> Option Int
  | .number (.unsigned u) => some u.toNat
  | .number (.signed i) => some i.toInt
  | _ => none

namespace Number

theorem float_or_word (n : Number) :
    (exists x, n = .float x) ∨ exists (k : Reading) (bits : UInt64), n = k.number bits := by
  cases n with
  | float x => exact Or.inl ⟨x, rfl⟩
  | signed i => exact Or.inr ⟨.signed, i.toUInt64, rfl⟩
  | unsigned u => exact Or.inr ⟨.unsigned, u, rfl⟩

theorem toInt64_eq_zero_iff (u : UInt64) : u.toInt64 = 0 ↔ u = 0 := by
  constructor
  · intro h
    exact congrArg Int64.toUInt64 h
  · intro h
    rw [h]
    rfl

end Number

namespace Reading

/-!
## Congruence
-/

theorem least_le_value (k : Reading) (bits : UInt64) : k.least ≤ k.value bits := by
  cases k with
  | unsigned => exact Int.natCast_nonneg bits.toNat
  | signed => exact bits.toInt64.le_toInt

theorem value_lt (k : Reading) (bits : UInt64) : k.value bits < k.least + 2 ^ 64 := by
  cases k with
  | unsigned =>
      have hbound := bits.toNat_lt
      show (bits.toNat : Int) < 0 + 2 ^ 64
      omega
  | signed => exact bits.toInt64.toInt_lt

theorem value_modEq (k : Reading) (bits : UInt64) :
    k.value bits ≡ bits.toNat [ZMOD 2 ^ 64] := by
  cases k with
  | unsigned => exact Int.ModEq.refl _
  | signed =>
      have hvalue : bits.toInt64.toInt = (bits.toNat : Int).bmod (2 ^ 64) :=
        BitVec.toInt_eq_toNat_bmod bits.toBitVec
      show bits.toInt64.toInt % 2 ^ 64 = _
      rw [hvalue]
      exact Int.bmod_emod

theorem value_modEq_value (k l : Reading) (bits : UInt64) :
    k.value bits ≡ l.value bits [ZMOD 2 ^ 64] :=
  (k.value_modEq bits).trans (l.value_modEq bits).symm

theorem eq_of_value_modEq {k : Reading} {a b : UInt64}
    (h : k.value a ≡ k.value b [ZMOD 2 ^ 64]) : a = b := by
  have hbits : (a.toNat : Int) ≡ b.toNat [ZMOD 2 ^ 64] :=
    (k.value_modEq a).symm.trans (h.trans (k.value_modEq b))
  have ha := a.toNat_lt
  have hb := b.toNat_lt
  apply UInt64.toNat_inj.mp
  unfold Int.ModEq at hbits
  omega

theorem value_eq_iff_of_modEq {k : Reading} {bits : UInt64} {n : Int}
    (h : k.value bits ≡ n [ZMOD 2 ^ 64]) :
    k.value bits = n ↔ k.least ≤ n ∧ n < k.least + 2 ^ 64 := by
  have hlow := k.least_le_value bits
  have hhigh := k.value_lt bits
  unfold Int.ModEq at h
  constructor
  · intro heq
    rw [← heq]
    exact ⟨hlow, hhigh⟩
  · intro hn
    omega

/-!
## Operations on bits
-/

theorem value_add (k : Reading) (a b : UInt64) :
    k.value (a + b) ≡ k.value a + k.value b [ZMOD 2 ^ 64] := by
  have hbits : ((a + b).toNat : Int) ≡ a.toNat + b.toNat [ZMOD 2 ^ 64] := by
    rw [UInt64.toNat_add, Int.natCast_mod, Nat.cast_add]
    exact Int.mod_modEq _ _
  exact (k.value_modEq (a + b)).trans
    (hbits.trans ((k.value_modEq a).add (k.value_modEq b)).symm)

theorem value_sub (k : Reading) (a b : UInt64) :
    k.value (a - b) ≡ k.value a - k.value b [ZMOD 2 ^ 64] := by
  -- A difference is known by what has to be added to it.
  have hsum := k.value_add (a - b) b
  rw [UInt64.sub_add_cancel] at hsum
  have hdifference := hsum.symm.sub_right (k.value b)
  rw [Int.add_sub_cancel] at hdifference
  exact hdifference

theorem value_mul (k : Reading) (a b : UInt64) :
    k.value (a * b) ≡ k.value a * k.value b [ZMOD 2 ^ 64] := by
  have hbits : ((a * b).toNat : Int) ≡ a.toNat * b.toNat [ZMOD 2 ^ 64] := by
    rw [UInt64.toNat_mul, Int.natCast_mod, Nat.cast_mul]
    exact Int.mod_modEq _ _
  exact (k.value_modEq (a * b)).trans
    (hbits.trans ((k.value_modEq a).mul (k.value_modEq b)).symm)

def quotient : Reading -> UInt64 -> UInt64 -> UInt64
  | .unsigned, a, b => a / b
  | .signed, a, b => (a.toInt64 / b.toInt64).toUInt64

def remainder : Reading -> UInt64 -> UInt64 -> UInt64
  | .unsigned, a, b => a % b
  | .signed, a, b => (a.toInt64 % b.toInt64).toUInt64

theorem value_quotient (k : Reading) (a b : UInt64) :
    k.value (k.quotient a b) ≡ (k.value a).tdiv (k.value b) [ZMOD 2 ^ 64] := by
  cases k with
  | unsigned =>
      show ((a / b).toNat : Int) ≡ (a.toNat : Int).tdiv b.toNat [ZMOD 2 ^ 64]
      rw [UInt64.toNat_div, Int.ofNat_tdiv]
  | signed =>
      show (a.toInt64 / b.toInt64).toInt ≡ _ [ZMOD 2 ^ 64]
      rw [Int64.toInt_div]
      exact Int.bmod_emod

theorem value_remainder (k : Reading) (a b : UInt64) :
    k.value (k.remainder a b) = (k.value a).tmod (k.value b) := by
  cases k with
  | unsigned =>
      show ((a % b).toNat : Int) = (a.toNat : Int).tmod b.toNat
      rw [UInt64.toNat_mod, Int.ofNat_tmod]
  | signed => exact Int64.toInt_mod a.toInt64 b.toInt64

/-- A signed quotient is signed again, but for the least integer divided by `-1`. -/
theorem tdiv_bounds {x y : Int} (hlow : -2 ^ 63 ≤ x) (hhigh : x < 2 ^ 63)
    (h : ¬ (x = -2 ^ 63 ∧ y = -1)) : -2 ^ 63 ≤ x.tdiv y ∧ x.tdiv y < 2 ^ 63 := by
  have habs : (x.tdiv y).natAbs = x.natAbs / y.natAbs := Int.natAbs_tdiv x y
  have hle : x.natAbs / y.natAbs ≤ x.natAbs := Nat.div_le_self x.natAbs y.natAbs
  refine ⟨by omega, ?_⟩
  by_contra hlarge
  have hx : x = -2 ^ 63 := by
    omega
  have hself : x.natAbs / y.natAbs = x.natAbs := by
    omega
  rcases Nat.div_eq_self.mp hself with hzero | hone
  · omega
  · rcases Int.natAbs_eq_iff.mp hone with hy | hy
    · have hquotient : x.tdiv y = x := by
        rw [hy]
        exact Int.tdiv_one x
      omega
    · exact h ⟨hx, hy⟩

theorem value_quotient_eq_iff (k : Reading) (a b : UInt64) :
    k.value (k.quotient a b) = (k.value a).tdiv (k.value b) ↔
      ¬ (k = .signed ∧ k.value a = -2 ^ 63 ∧ k.value b = -1) := by
  rw [value_eq_iff_of_modEq (k.value_quotient a b)]
  have hlow := k.least_le_value a
  have hhigh := k.value_lt a
  cases k with
  | unsigned =>
      have hnonneg : 0 ≤ value .unsigned b := least_le_value .unsigned b
      simp only [reduceCtorEq, false_and, not_false_eq_true, iff_true]
      exact ⟨Int.tdiv_nonneg hlow hnonneg,
        Int.lt_of_le_of_lt (Int.tdiv_le_self _ hlow) hhigh⟩
  | signed =>
      simp only [true_and]
      constructor
      · rintro ⟨_, hlt⟩ ⟨ha, hb⟩
        rw [ha, hb] at hlt
        exact absurd hlt (by decide)
      · exact tdiv_bounds hlow hhigh

theorem quotient_mul_add_remainder (k : Reading) (a b : UInt64) :
    k.quotient a b * b + k.remainder a b = a := by
  apply eq_of_value_modEq (k := k)
  have hproduct : k.value (k.quotient a b * b) ≡
      (k.value a).tdiv (k.value b) * k.value b [ZMOD 2 ^ 64] :=
    (k.value_mul _ b).trans ((k.value_quotient a b).mul_right (k.value b))
  have hsum := (k.value_add (k.quotient a b * b) (k.remainder a b)).trans
    (hproduct.add_right (k.value (k.remainder a b)))
  rw [k.value_remainder a b, Int.mul_comm, Int.mul_tdiv_add_tmod] at hsum
  exact hsum

/-!
## Shifts

A shift by fewer places than a word has multiplies by a power of two, or divides by one.
-/

theorem umod_width {c : UInt64} (h : c.toNat < 64) : c.toBitVec % 64 = c.toBitVec := by
  apply BitVec.eq_of_toNat_eq
  show c.toNat % 64 = c.toNat
  exact Nat.mod_eq_of_lt h

/-- A count of less than the width is not changed on the way to a shift of signed words. -/
theorem smod_width {c : UInt64} (h : c.toNat < 64) : c.toBitVec.smod 64 = c.toBitVec := by
  have hmsb : c.toBitVec.msb = false := by
    rw [BitVec.msb_eq_false_iff_two_mul_lt]
    show 2 * c.toNat < 2 ^ 64
    omega
  have hwidth : (64 : BitVec 64).msb = false := rfl
  rw [BitVec.smod_eq, hmsb, hwidth]
  exact umod_width h

theorem toInt64_shiftLeft (a : UInt64) {c : UInt64} (h : c.toNat < 64) :
    (a <<< c).toInt64 = a.toInt64 <<< c.toInt64 := by
  apply Int64.toBitVec_inj.mp
  rw [Int64.toBitVec_shiftLeft]
  show (a <<< c).toBitVec = a.toBitVec <<< c.toBitVec.smod 64
  rw [smod_width h, UInt64.toBitVec_shiftLeft, umod_width h]

theorem value_shiftLeft (k : Reading) (a : UInt64) {c : UInt64} (h : c.toNat < 64) :
    k.value (a <<< c) ≡ k.value a * 2 ^ c.toNat [ZMOD 2 ^ 64] := by
  have hbits : ((a <<< c).toNat : Int) ≡ a.toNat * 2 ^ c.toNat [ZMOD 2 ^ 64] := by
    rw [UInt64.toNat_shiftLeft, Nat.mod_eq_of_lt h, Nat.shiftLeft_eq, Int.natCast_mod,
      Nat.cast_mul, Nat.cast_pow]
    exact Int.mod_modEq _ _
  exact (k.value_modEq (a <<< c)).trans (hbits.trans ((k.value_modEq a).symm.mul_right _))

def shiftRight : Reading -> UInt64 -> UInt64 -> UInt64
  | .unsigned, a, c => a >>> c
  | .signed, a, c => (a.toInt64 >>> c.toInt64).toUInt64

theorem value_shiftRight (k : Reading) (a : UInt64) {c : UInt64} (h : c.toNat < 64) :
    k.value (k.shiftRight a c) = k.value a / 2 ^ c.toNat := by
  cases k with
  | unsigned =>
      show ((a >>> c).toNat : Int) = a.toNat / 2 ^ c.toNat
      rw [UInt64.toNat_shiftRight, Nat.mod_eq_of_lt h, Nat.shiftRight_eq_div_pow, Int.natCast_ediv,
        Nat.cast_pow]
      rfl
  | signed =>
      show (a.toInt64 >>> c.toInt64).toBitVec.toInt = _
      rw [Int64.toBitVec_shiftRight]
      show (a.toBitVec.sshiftRight' (c.toBitVec.smod 64)).toInt = _
      rw [smod_width h, BitVec.toInt_sshiftRight', Int.shiftRight_eq_div_pow, Nat.cast_pow]
      rfl

/-!
## Order
-/

theorem compare_toNat (a b : UInt64) : compare a b = compare (a.toNat : Int) b.toNat := by
  simp only [compare, compareOfLessAndEq, UInt64.lt_iff_toNat_lt, ← UInt64.toNat_inj,
    Int.ofNat_lt, Int.ofNat_inj]

theorem compare_toInt (i j : Int64) : compare i j = compare i.toInt j.toInt := by
  simp only [compare, compareOfLessAndEq, Int64.lt_iff_toInt_lt, ← Int64.toInt_inj]

theorem toInt_of_not_neg {i : Int64} (h : ¬ i < 0) : i.toInt = (i.toUInt64.toNat : Int) := by
  have hle : 0 ≤ i := Int64.not_lt.mp h
  have hnonneg : 0 ≤ i.toInt := Int64.le_iff_toInt_le.mp hle
  rw [Int64.toNat_toUInt64_of_le hle]
  exact (Int.toNat_of_nonneg hnonneg).symm

theorem compareMixed_eq (i : Int64) (u : UInt64) :
    Number.compareMixed i u = compare i.toInt u.toNat := by
  unfold Number.compareMixed
  split
  · rename_i hneg
    have hlt : i.toInt < 0 := Int64.lt_iff_toInt_lt.mp hneg
    exact (Int.compare_eq_lt.mpr (by omega)).symm
  · rename_i hnonneg
    rw [toInt_of_not_neg hnonneg, compare_toNat]

theorem compare?_number (k l : Reading) (a b : UInt64) :
    (k.number a).compare? (l.number b) = some (compare (k.value a) (l.value b)) := by
  cases k with
  | unsigned =>
      cases l with
      | unsigned => exact congrArg some (compare_toNat a b)
      | signed =>
          show some (Number.compareMixed b.toInt64 a).swap = _
          rw [compareMixed_eq, Int.compare_swap]
          rfl
  | signed =>
      cases l with
      | unsigned => exact congrArg some (compareMixed_eq a.toInt64 b)
      | signed => exact congrArg some (compare_toInt a.toInt64 b.toInt64)

end Reading
end Equate
