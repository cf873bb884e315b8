import Equate.Proofs.Script.Results
import Equate.Proofs.Token.Integers

/-!
# Integers that scripts give back

An integer that is printed and run again is the same integer. An integer below zero is printed
with a minus, which is an operator, so that its absolute value is read first and is unsigned. The
absolute value of the least signed word is beyond the signed words, but not beyond the unsigned
ones, and negation gives the least signed word back.
-/

namespace Equate

namespace Reading

theorem toNat_neg_of_neg {i : Int64} (h : i < 0) : ((-i).toUInt64.toNat : Int) = -i.toInt := by
  have hneg : i.toInt < 0 := Int64.lt_iff_toInt_lt.mp h
  have hleast : -2 ^ 63 ≤ i.toInt := i.le_toInt
  have hbits : (-i).toUInt64 = 0 - i.toUInt64 := by
    rw [Int64.toUInt64_neg, UInt64.zero_sub]
  have hdifference := value_sub .unsigned 0 i.toUInt64
  have hvalue : value .unsigned (0 - i.toUInt64) ≡ -i.toInt [ZMOD 2 ^ 64] := by
    have hzero : value .unsigned 0 = 0 := rfl
    rw [hzero, Int.zero_sub] at hdifference
    exact hdifference.trans (value_modEq_value .unsigned .signed i.toUInt64).neg
  rw [hbits]
  refine (value_eq_iff_of_modEq hvalue).mpr ⟨?_, ?_⟩
  · show (0 : Int) ≤ -i.toInt
    omega
  · show -i.toInt < 0 + 2 ^ 64
    omega

end Reading

namespace Value

theorem toText_of_neg {i : Int64} (h : i < 0) :
    (signed i).toText = "-" ++ toString (-i).toUInt64.toNat := by
  have hneg : ¬ 0 ≤ i.toInt := Int.not_le.mpr (Int64.lt_iff_toInt_lt.mp h)
  have habs : (-i.toInt).toNat = (-i).toUInt64.toNat := by
    rw [← Reading.toNat_neg_of_neg h]
    rfl
  change toString i.toInt = _
  rw [Int.toString_eq_repr, Int.repr_eq_if, if_neg hneg, habs]
  rfl

theorem toText_of_not_neg {i : Int64} (h : ¬ i < 0) :
    (signed i).toText = (unsigned i.toUInt64).toText := by
  change toString i.toInt = toString i.toUInt64.toNat
  rw [Reading.toInt_of_not_neg h]
  rfl

end Value

namespace Script

theorem hasResult_radix (r : Radix) (capital : Nat -> Bool) (zeros : Nat) (n : UInt64) :
    HasResult (r.text capital zeros n.toNat) (.unsigned n) :=
  hasResult_of_expression (tokenize_radix r capital zeros n) rfl fun _ => ⟨rfl, rfl⟩

theorem hasResult_unsigned (n : UInt64) : HasResult (Value.unsigned n).toText (.unsigned n) := by
  change HasResult (toString n.toNat) _
  rw [← Radix.decimal_text]
  exact hasResult_radix .decimal _ 0 n

theorem hasResult_signed {i : Int64} (h : i < 0) :
    HasResult (Value.signed i).toText (.signed i) := by
  rw [Value.toText_of_neg h]
  refine hasResult_of_expression (tokenize_minus _) rfl fun _ => ⟨?_, rfl⟩
  change some (Value.signed (-(-i).toUInt64.toInt64)) = _
  rw [Int64.toInt64_toUInt64, Int64.neg_neg]

/--
Integers that are printed and run again are given back. An unsigned word and a negative one give
themselves, down to the least one, and a signed word that is not negative gives the unsigned word
of the same integer. An unsigned word in any radix is given back as well, with any number of zeros
before its digits and with capitals for any of the small letters.
-/
theorem hasResult_integers :
    (forall n : UInt64, HasResult (Value.unsigned n).toText (.unsigned n)) ∧
      (forall i : Int64, i < 0 -> HasResult (Value.signed i).toText (.signed i)) ∧
      (forall i : Int64, 0 ≤ i -> exists n : UInt64, (n.toNat : Int) = i.toInt ∧
        HasResult (Value.signed i).toText (.unsigned n)) ∧
      forall (r : Radix) (capital : Nat -> Bool) (zeros : Nat) (n : UInt64),
        HasResult (r.text capital zeros n.toNat) (.unsigned n) := by
  refine ⟨hasResult_unsigned, fun i => hasResult_signed, ?_, hasResult_radix⟩
  intro i hi
  have hnonneg : ¬ i < 0 := Int64.not_lt.mpr hi
  refine ⟨i.toUInt64, (Reading.toInt_of_not_neg hnonneg).symm, ?_⟩
  rw [Value.toText_of_not_neg hnonneg]
  exact hasResult_unsigned i.toUInt64

/-- The least signed word, zero and the greatest unsigned word with capitals. -/
theorem hasResult_integers_extreme :
    run "-9223372036854775808" {} = .ok (some (.signed Int64.minValue)) ∧
      (exists n : UInt64, n.toNat = (0 : Int) ∧ run "0" {} = .ok (some (.unsigned n))) ∧
      run "0X00FFFFFFFFFFFFFFFF" {} = .ok (some (.unsigned 18446744073709551615)) := by
  rcases hasResult_integers with ⟨_, hnegative, hnonneg, hradix⟩
  refine ⟨(hnegative Int64.minValue (by decide)).alone 0, ?_, ?_⟩
  · rcases hnonneg 0 (by decide) with ⟨n, hn, hresult⟩
    exact ⟨n, hn, hresult.alone 0⟩
  · exact (hradix .hexadecimal (fun _ => true) 2 18446744073709551615).alone 0

end Script
end Equate
