import Equate.Proofs.Decimal.Accumulation

/-!
# Safe reading

A text that is read is never read as NaN, whatever its length and its exponent. Terms and sums
are zero, positive or infinite, so that no zero meets an infinity in a product and no infinity
another one in a difference. The sign comes last and is the one that is spelled.

The counting that goes with it stays in machine words. Positions, exponents and powers are signed
words, and so are the magnitudes of all powers but the least, which has an unsigned one. The reader
is written down here once more with a failure for each difference, negation, step or magnitude that
is out of this range. On no text does it fail in this way, and it reads the same floats.
-/

namespace Equate
namespace Numeral

open Binary64
open Float.Model (UnpackedFloat)

/-!
## Arithmetic on words
-/

inductive Failure where
  | malformed
  | overflow
deriving DecidableEq

def IsWord (z : Int) : Prop :=
  leastExponent ≤ z ∧ z ≤ greatestExponent

instance (z : Int) : Decidable (IsWord z) :=
  inferInstanceAs (Decidable (_ ∧ _))

def word (z : Int) : Except Failure Int :=
  if IsWord z then .ok z else .error .overflow

/--
A magnitude has to be a signed word, or else that of the least signed word, which the type of
magnitudes holds as well.
-/
def magnitudeWord (z : Int) : Except Failure Nat :=
  if IsWord z.natAbs ∨ z = leastExponent then .ok z.natAbs else .error .overflow

section

variable {z : Int}

theorem isWord_saturate (z : Int) : IsWord (saturate z) := by
  unfold IsWord saturate leastExponent greatestExponent
  omega

theorem saturate_of_isWord (h : IsWord z) : saturate z = z := by
  unfold IsWord at h
  unfold saturate
  omega

theorem word_of_isWord (h : IsWord z) : word z = .ok z :=
  if_pos h

theorem magnitudeWord_of_isWord (h : IsWord z) : magnitudeWord z = .ok z.natAbs := by
  have hmagnitude : IsWord z.natAbs ∨ z = leastExponent := by
    unfold IsWord leastExponent greatestExponent at *
    omega
  exact if_pos hmagnitude

example : magnitudeWord leastExponent = .ok (greatestExponent.toNat + 1) := by
  rfl

end

/-!
## Accumulation in words
-/

def checkedTerm (digit : Nat) (power : Int) : Except Failure Float :=
  if digit = 0 then .ok 0.0
  else do
    let size ← magnitudeWord power
    if 0 ≤ power then .ok (digit.toUInt64.toFloat * powerOfTen size)
    else .ok (digit.toUInt64.toFloat / powerOfTen size)

/--
Add up the terms of a run of digits. The position is counted on before the next digit is looked
for, so that it runs ahead by one behind the last digit.
-/
def checkedRun (powerAt : Int -> Except Failure Int) :
    Int -> Float -> List Nat -> Except Failure Float
  | position, x, [] => do
      let _ ← word (position + 1)
      return x
  | position, x, digit :: digits => do
      let next ← word (position + 1)
      let power ← powerAt position
      let t ← checkedTerm digit power
      checkedRun powerAt next (x + t) digits

def checkedWholePower (n : Numeral) (position : Int) : Except Failure Int := do
  let last ← word (saturate n.whole.length - 1)
  let behind ← word (last - position)
  return saturate (behind + n.exponent)

def checkedFractionPower (n : Numeral) (position : Int) : Except Failure Int :=
  .ok (saturate (n.exponent - position))

def checkedFloat (n : Numeral) : Except Failure Float := do
  let x ← checkedRun n.checkedWholePower 0 0.0 n.whole
  let x ← checkedRun n.checkedFractionPower 1 x n.fraction
  return if n.negative then -x else x

theorem checkedTerm_eq {power : Int} (h : IsWord power) (digit : Nat) :
    checkedTerm digit power = .ok (term digit power) := by
  unfold checkedTerm term
  split
  · rfl
  · rw [magnitudeWord_of_isWord h]
    show (if 0 ≤ power then _ else _) = _
    split
    · rw [show power.natAbs = power.toNat by omega]
    · rw [show power.natAbs = (-power).toNat by omega]

section

variable {powerAt : Int -> Except Failure Int}

theorem checkedRun_cons {position power : Int} (hnext : IsWord (position + 1))
    (hpower : powerAt position = .ok power) (hword : IsWord power) (x : Float) (digit : Nat)
    (digits : List Nat) : checkedRun powerAt position x (digit :: digits) =
      checkedRun powerAt (position + 1) (x + term digit power) digits := by
  rw [checkedRun, word_of_isWord hnext, hpower]
  show (checkedTerm digit power).bind _ = _
  rw [checkedTerm_eq hword]
  rfl

theorem isWord_next {first length : Nat} (h : (first + length + 1 : Int) ≤ greatestExponent) :
    IsWord (first + 1 : Int) := by
  unfold IsWord leastExponent
  omega

/-- A run of digits does not overflow if its powers and its positions do not. -/
theorem checkedRun_eq (power : Nat -> Int) (digits : List Nat) (first : Nat) (x : Float)
    (hpower : forall position, first ≤ position -> position < first + digits.length ->
      powerAt position = .ok (power position) ∧ IsWord (power position))
    (hlast : (first + digits.length + 1 : Int) ≤ greatestExponent) :
    checkedRun powerAt first x digits =
      .ok (accumulate x ((digits.zipIdx first).map fun (d, i) => (d, power i))) := by
  induction digits generalizing first x with
  | nil =>
      rw [checkedRun, word_of_isWord (isWord_next hlast)]
      rfl
  | cons digit digits ih =>
      rcases hpower first le_rfl (Nat.lt_add_of_pos_right (Nat.succ_pos _)) with ⟨hfirst, hword⟩
      rw [checkedRun_cons (isWord_next hlast) hfirst hword]
      rw [List.length_cons] at hpower hlast
      refine ih (first + 1) (x + term digit (power first)) ?_ ?_
      · intro position hlow hhigh
        exact hpower position (by omega) (by omega)
      · push_cast at hlast ⊢
        omega

end

def wholePower (n : Numeral) (position : Nat) : Int :=
  saturate ((n.whole.length : Int) - 1 - position + n.exponent)

def fractionPower (n : Numeral) (position : Nat) : Int :=
  saturate (n.exponent - position)

theorem sum_eq_runs (n : Numeral) : n.sum =
    accumulate (accumulate 0.0 (n.whole.zipIdx.map fun (d, i) => (d, n.wholePower i)))
      ((n.fraction.zipIdx 1).map fun (d, i) => (d, n.fractionPower i)) :=
  accumulate_append _ _ _

section

variable {n : Numeral}

theorem checkedWholePower_eq (hlength : (n.whole.length : Int) ≤ greatestExponent)
    {position : Nat} (h : position < n.whole.length) :
    n.checkedWholePower position = .ok (n.wholePower position) := by
  have hsaturated : saturate n.whole.length = n.whole.length :=
    saturate_of_isWord ⟨by unfold leastExponent; omega, hlength⟩
  have hlast : IsWord ((n.whole.length : Int) - 1) := by
    unfold IsWord leastExponent
    omega
  have hbehind : IsWord ((n.whole.length : Int) - 1 - position) := by
    unfold IsWord leastExponent
    omega
  unfold checkedWholePower
  rw [hsaturated, word_of_isWord hlast]
  show (word ((n.whole.length : Int) - 1 - position)).bind _ = _
  rw [word_of_isWord hbehind]
  rfl

theorem checkedRun_whole (h : (n.whole.length + 1 : Int) ≤ greatestExponent) (x : Float) :
    checkedRun n.checkedWholePower 0 x n.whole =
      .ok (accumulate x (n.whole.zipIdx.map fun (d, i) => (d, n.wholePower i))) := by
  refine checkedRun_eq n.wholePower n.whole 0 x ?_ ?_
  · intro position _ hposition
    exact ⟨checkedWholePower_eq (by omega) (by omega), isWord_saturate _⟩
  · push_cast
    omega

theorem checkedRun_fraction (h : (n.fraction.length + 2 : Int) ≤ greatestExponent) (x : Float) :
    checkedRun n.checkedFractionPower 1 x n.fraction =
      .ok (accumulate x ((n.fraction.zipIdx 1).map fun (d, i) => (d, n.fractionPower i))) := by
  refine checkedRun_eq n.fractionPower n.fraction 1 x ?_ ?_
  · intro position _ _
    exact ⟨rfl, isWord_saturate _⟩
  · push_cast
    omega

theorem checkedFloat_eq (hwhole : (n.whole.length + 1 : Int) ≤ greatestExponent)
    (hfraction : (n.fraction.length + 2 : Int) ≤ greatestExponent) :
    n.checkedFloat = .ok n.toFloat := by
  unfold checkedFloat toFloat
  rw [checkedRun_whole hwhole]
  show (checkedRun n.checkedFractionPower 1 _ n.fraction).bind _ = _
  rw [checkedRun_fraction hfraction, sum_eq_runs]
  rfl

end

/-!
## Scanning in words
-/

def checkedExponentValue (cs : List Char) : Except Failure (Int × List Char) :=
  let (negative, cs) := takeSign cs
  match takeDigits cs with
  | ([], _) => .error .malformed
  | (digits, cs) => do
      let exponent ← if negative then word (-magnitude digits) else .ok (magnitude digits)
      return (exponent, cs)

def checkedExponent : List Char -> Except Failure (Int × List Char)
  | 'E' :: cs => checkedExponentValue cs
  | 'e' :: cs => checkedExponentValue cs
  | cs => .ok (0, cs)

def checkedScan (cs : List Char) : Except Failure Numeral :=
  let (negative, cs) := takeSign (cs.dropWhile Text.isBlank)
  let (whole, cs) := takeDigits cs
  let (fraction, cs) := takeFraction cs
  if whole.isEmpty && fraction.isEmpty then .error .malformed
  else do
    let (exponent, cs) ← checkedExponent cs
    if (cs.dropWhile Text.isBlank).isEmpty then .ok ⟨negative, whole, fraction, exponent⟩
    else .error .malformed

/-- Read a numeral with its positions, exponents and powers in machine words. -/
def checkedFloat? (s : String) : Except Failure Float := do
  let n ← checkedScan s.toList
  n.checkedFloat

def accepted : Option α -> Except Failure α
  | none => .error .malformed
  | some a => .ok a

theorem isWord_neg_magnitude (digits : List Nat) : IsWord (-magnitude digits) := by
  have hgreatest : 0 ≤ greatestExponent := by decide
  rw [magnitude_eq]
  unfold IsWord leastExponent greatestExponent
  omega

theorem checkedExponentValue_eq (cs : List Char) :
    checkedExponentValue cs = accepted (takeExponentValue cs) := by
  unfold checkedExponentValue takeExponentValue
  generalize takeSign cs = signed
  rcases signed with ⟨negative, unsigned⟩
  dsimp only
  generalize takeDigits unsigned = taken
  rcases taken with ⟨_ | ⟨digit, digits⟩, rest⟩
  · rfl
  · cases negative with
    | false => rfl
    | true =>
        show (word (-magnitude (digit :: digits))).bind _ = _
        rw [word_of_isWord (isWord_neg_magnitude _)]
        rfl

theorem checkedExponent_eq (cs : List Char) :
    checkedExponent cs = accepted (takeExponent cs) := by
  unfold checkedExponent
  split
  · exact checkedExponentValue_eq _
  · exact checkedExponentValue_eq _
  · rename_i hcapital hsmall
    unfold takeExponent
    split
    · exact absurd rfl (hcapital _)
    · exact absurd rfl (hsmall _)
    · rfl

theorem checkedScan_eq (cs : List Char) : checkedScan cs = accepted (scan cs) := by
  unfold checkedScan scan
  generalize takeSign (cs.dropWhile Text.isBlank) = signed
  rcases signed with ⟨negative, unsigned⟩
  dsimp only
  generalize takeDigits unsigned = taken
  rcases taken with ⟨whole, fractional⟩
  dsimp only
  generalize takeFraction fractional = taken
  rcases taken with ⟨fraction, exponential⟩
  dsimp only
  split
  · rfl
  · rw [checkedExponent_eq]
    cases takeExponent exponential with
    | none => rfl
    | some found =>
        rcases found with ⟨exponent, rest⟩
        show (if (rest.dropWhile Text.isBlank).isEmpty then _ else _) =
          accepted (if _ then _ else _)
        split
        · rfl
        · rfl

theorem Spelling.length_fraction_lt (w : Spelling) :
    (w.fraction.getD []).length < w.text.length := by
  have hdigit := w.some_digit
  cases hfraction : w.fraction with
  | none =>
      rw [hfraction] at hdigit
      have hwhole := List.length_pos_of_ne_nil (hdigit.resolve_right (absurd rfl))
      simp only [text, digitsText, List.length_append, List.length_map, Option.getD_none,
        List.length_nil]
      omega
  | some ds =>
      simp only [text, hfraction, pointText, digitsText, List.length_append, List.length_cons,
        List.length_map, Option.getD_some]
      omega

theorem Spelling.length_whole_le (w : Spelling) : w.whole.length ≤ w.text.length := by
  simp only [text, digitsText, List.length_append, List.length_map]
  omega

/-- Nothing overflows in a text that is shorter than signed words can count. -/
theorem checkedFloat?_eq {s : String} (h : (s.length : Int) < greatestExponent) :
    checkedFloat? s = accepted (float? s) := by
  unfold checkedFloat? float?
  rw [checkedScan_eq]
  cases hscan : scan s.toList with
  | none => rfl
  | some n =>
      rcases exists_spelling hscan with ⟨w, htext, rfl⟩
      have hlength : w.text.length = s.length := by
        rw [htext, String.length_toList]
      have hwhole := w.length_whole_le
      have hfraction := w.length_fraction_lt
      refine checkedFloat_eq ?_ ?_
      · show ((w.whole.map Fin.val).length + 1 : Int) ≤ greatestExponent
        rw [List.length_map]
        omega
      · show (((w.fraction.getD []).map Fin.val).length + 2 : Int) ≤ greatestExponent
        rw [List.length_map]
        omega

/-!
## Signs and zeros
-/

theorem mem_of_mem_places {n : Numeral} {place : Nat × Int} (h : place ∈ n.places) :
    place.1 ∈ n.whole ++ n.fraction := by
  rw [places_eq] at h
  rcases List.mem_map.mp h with ⟨⟨d, i⟩, hmem, rfl⟩
  exact List.fst_mem_of_mem_zipIdx hmem

theorem sum_of_zeros {n : Numeral} (h : forall d, d ∈ n.whole ++ n.fraction -> d = 0) :
    n.sum = 0.0 := by
  apply foldl_zero
  intro place hplace
  rw [h place.1 (mem_of_mem_places hplace)]
  exact term_zero place.2

namespace Spelling

variable (w : Spelling)

theorem numeral_digits : w.numeral.whole ++ w.numeral.fraction =
    (w.whole ++ w.fraction.getD []).map Fin.val :=
  List.map_append.symm

theorem sign?_toFloat : sign? w.numeral.toFloat.toModel.unpack = some w.numeral.floatSign := by
  have hdigits : forall place, place ∈ w.numeral.places -> place.1 < 10 := by
    intro place hplace
    have hmem := mem_of_mem_places hplace
    rw [numeral_digits] at hmem
    exact lt_ten_of_mem hmem
  rcases exists_reaches_sum hdigits with ⟨v, hv⟩
  rw [unpack_toFloat hv, hv.sign?_signed]

theorem isNaN_toFloat : w.numeral.toFloat.isNaN = false := by
  apply isNaN_of_sign?
  rw [sign?_toFloat]
  exact Option.some_ne_none _

theorem msb_toFloat_iff : w.numeral.toFloat.toBits.toBitVec.msb = true ↔ w.sign = some .minus := by
  rw [msb_toBits_iff w.sign?_toFloat]
  show (if w.sign == some .minus then UnpackedFloat.Sign.negative else .positive) = .negative ↔ _
  rcases w.sign with _ | (_ | _)
  · exact ⟨nofun, nofun⟩
  · exact ⟨nofun, nofun⟩
  · exact ⟨fun _ => rfl, fun _ => rfl⟩

theorem toFloat_of_zeros (h : forall d, d ∈ w.whole ++ w.fraction.getD [] -> d = 0) :
    w.numeral.toFloat = if w.sign = some .minus then -0.0 else 0.0 := by
  have hsum : w.numeral.sum = 0.0 := by
    apply sum_of_zeros
    intro d hd
    rw [numeral_digits] at hd
    rcases List.mem_map.mp hd with ⟨digit, hdigit, rfl⟩
    exact congrArg Fin.val (h digit hdigit)
  unfold toFloat
  rw [hsum]
  show (if w.sign == some .minus then (-0.0 : Float) else 0.0) = _
  simp only [beq_iff_eq]

end Spelling

/--
A text of any length and with any exponent is not read as NaN. The greatest bit of its float is set
just if a minus is spelled in front of the digits, and the float is zero if all these digits are
zero. While the text is read, no position, exponent or power leaves the signed words, and neither
does the magnitude of a power other than the least. For this alone the text has to be shorter than
signed words can count, as every text is that fits into a memory.
-/
theorem float?_safe {s : String} {x : Float} (h : float? s = some x) :
    x.isNaN = false ∧
      (exists w : Spelling, w.text = s.toList) ∧
      (forall w : Spelling, w.text = s.toList ->
        (x.toBits.toBitVec.msb = true ↔ w.sign = some .minus) ∧
          ((forall d, d ∈ w.whole ++ w.fraction.getD [] -> d = 0) ->
            x = if w.sign = some .minus then -0.0 else 0.0)) ∧
      ((s.length : Int) < greatestExponent -> checkedFloat? s = .ok x) := by
  have hspelled : exists w : Spelling, w.text = s.toList := (exists_float?_iff s).mp ⟨x, h⟩
  have hfloat (w : Spelling) (htext : w.text = s.toList) : w.numeral.toFloat = x := by
    have hread := float?_ofList w
    rw [htext, String.ofList_toList, h] at hread
    exact (Option.some_inj.mp hread).symm
  refine ⟨?_, hspelled, ?_, ?_⟩
  · rcases hspelled with ⟨w, htext⟩
    rw [← hfloat w htext]
    exact w.isNaN_toFloat
  · intro w htext
    rw [← hfloat w htext]
    exact ⟨w.msb_toFloat_iff, w.toFloat_of_zeros⟩
  · intro hlength
    rw [checkedFloat?_eq hlength, h]
    rfl

/--
The digit of the first text that is not zero stands at the least power, whose magnitude takes an
unsigned word. The second text has no digit but zeros in front of an exponent that is saturated.
-/
theorem float?_safe_least :
    (float? "-0.1e-9223372036854775807" = some (-0.0) ∧ (-0.0 : Float).isNaN = false ∧
      checkedFloat? "-0.1e-9223372036854775807" = .ok (-0.0)) ∧
    exists w : Spelling, w.text = "-0.0e99999999999999999999".toList ∧ w.sign = some .minus ∧
      exists x, float? "-0.0e99999999999999999999" = some x ∧
        x.toBits.toBitVec.msb = true ∧ x = -0.0 := by
  let least : ExponentSpelling :=
    ⟨false, some .minus, [9, 2, 2, 3, 3, 7, 2, 0, 3, 6, 8, 5, 4, 7, 7, 5, 8, 0, 7], by decide⟩
  let great : ExponentSpelling := ⟨false, none, List.replicate 20 9, by decide⟩
  let v : Spelling :=
    ⟨[], some .minus, [0], some [1], some least, [], by simp, by simp, by decide⟩
  let w : Spelling :=
    ⟨[], some .minus, [0], some [0], some great, [], by simp, by simp, by decide⟩
  have hv : String.ofList v.text = "-0.1e-9223372036854775807" := by decide
  have hw : w.text = "-0.0e99999999999999999999".toList := by decide
  have hleast : float? "-0.1e-9223372036854775807" = some (-0.0) := by
    have hsum : v.numeral.sum = 0.0 := v.sum_of_exponent (z := v.numeral.exponent) (by decide)
    rw [← hv, float?_ofList, toFloat, hsum]
    rfl
  have hzeros : float? "-0.0e99999999999999999999" = some w.numeral.toFloat := by
    rw [← String.ofList_toList (s := "-0.0e99999999999999999999"), ← hw]
    exact float?_ofList w
  rcases float?_safe hleast with ⟨hnan, _, _, hwords⟩
  rcases float?_safe hzeros with ⟨_, _, hspelled, _⟩
  rcases hspelled w hw with ⟨hsign, hzero⟩
  exact ⟨⟨hleast, hnan, hwords (by decide)⟩, w, hw, rfl, _, hzeros, hsign.mpr rfl,
    hzero (by decide)⟩

/--
The one digit that counts has the least power, whose magnitude is no signed word. The minus of
the text is that of its exponent, and the float that is read has no sign.
-/
theorem magnitude_leaves_words :
    let s := "0.1e-9223372036854775807"
    (exists n, checkedScan s.toList = .ok n ∧ n.fraction = [1] ∧
      n.checkedFractionPower 1 = .ok leastExponent) ∧
      (exists size : Nat, magnitudeWord leastExponent = .ok size ∧ ¬ IsWord size) ∧
      '-' ∈ s.toList ∧ exists x, float? s = some x ∧ x.toBits.toBitVec.msb = false := by
  intro s
  let n : Numeral := ⟨false, [0], [1], -greatestExponent⟩
  have hscan : scan s.toList = some n := by decide +kernel
  have hchecked : checkedScan s.toList = .ok n := by
    rw [checkedScan_eq, hscan]
    rfl
  have hfloat : float? s = some n.toFloat := congrArg (Option.map toFloat) hscan
  have hsign : n.toFloat.toBits.toBitVec.msb = false := by
    rcases exists_spelling hscan with ⟨w, _, hw⟩
    have hpositive : (w.sign == some .minus) = false := congrArg Numeral.negative hw
    rw [← hw, Bool.eq_false_iff, Ne, w.msb_toFloat_iff, ← beq_iff_eq, hpositive]
    exact Bool.false_ne_true
  exact ⟨⟨n, hchecked, rfl, by decide⟩, ⟨2 ^ 63, rfl, by decide⟩, by decide, n.toFloat, hfloat,
    hsign⟩

end Numeral
end Equate
