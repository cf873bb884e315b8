import Equate.Decimal.Layout
import Equate.Proofs.Decimal.Spelling
import Equate.Proofs.Token.LongestMatch

/-!
# Printed floats

The text of a finite float is the spelling of a numeral. Its digits are those of the shortest
decimal, with zeros in front of them and behind them as far as the layout needs some, and its
exponent makes up for the place of the point. Digits stand on both sides of the point in either
notation.
-/

namespace Equate
namespace Decimal

open Numeral
open Float.Model (UnpackedFloat)

/-!
## Digits
-/

def integerOf (ds : List (Fin 10)) : Nat :=
  Nat.ofDigits 10 (ds.reverse.map Fin.val)

theorem integerOf_append_singleton (ds : List (Fin 10)) (d : Fin 10) :
    integerOf (ds ++ [d]) = 10 * integerOf ds + d := by
  unfold integerOf
  rw [List.reverse_append, List.reverse_singleton, List.singleton_append, List.map_cons,
    Nat.ofDigits_cons, Nat.add_comm]

theorem digitsText_zeros (n : Nat) : digitsText (List.replicate n 0) = List.replicate n '0' :=
  List.map_replicate

theorem digitsText_append (ds es : List (Fin 10)) :
    digitsText (ds ++ es) = digitsText ds ++ digitsText es :=
  List.map_append

theorem length_digitsText (ds : List (Fin 10)) : (digitsText ds).length = ds.length :=
  List.length_map digitChar

theorem exists_digitsOf (n : Nat) : exists ds : List (Fin 10),
    digitsOf n = digitsText ds ∧ ds ≠ [] ∧ integerOf ds = n := by
  unfold digitsOf
  induction n using Nat.strong_induction_on with
  | _ n ih =>
      rw [Nat.toDigits_eq_if (by decide)]
      split
      · rename_i hlt
        exact ⟨[⟨n, hlt⟩], rfl, List.cons_ne_nil _ _, Nat.ofDigits_singleton⟩
      · have hsmaller : n / 10 < n := by omega
        rcases ih _ hsmaller with ⟨ds, htext, _, hvalue⟩
        refine ⟨ds ++ [⟨n % 10, Nat.mod_lt n (by decide)⟩], ?_, by simp, ?_⟩
        · rw [htext, digitsText_append]
          rfl
        · rw [integerOf_append_singleton, hvalue]
          exact Nat.div_add_mod n 10

/-!
## Notations
-/

/--
The digits before a point and behind it are those of a decimal between zeros, and the exponent
makes up for the place of the point. There is none unless a lone digit stands before the point.
-/
structure IsLaidOut (d : Decimal) (whole fraction : List (Fin 10)) (exponent : Int) : Prop where
  whole_ne_nil : whole ≠ []
  fraction_ne_nil : fraction ≠ []
  exists_digits : exists (ds : List (Fin 10)) (before after : Nat),
    digitsOf d.digits = digitsText ds ∧ integerOf ds = d.digits ∧
    whole ++ fraction = List.replicate before 0 ++ (ds ++ List.replicate after 0) ∧
    whole.length + exponent = before + ds.length + d.exponent ∧
    (exponent = 0 ∨ before = 0 ∧ whole.length = 1)

theorem exists_plain (d : Decimal) : exists whole fraction : List (Fin 10),
    plain d = digitsText whole ++ '.' :: digitsText fraction ∧ IsLaidOut d whole fraction 0 := by
  rcases exists_digitsOf d.digits with ⟨ds, htext, hne, hvalue⟩
  have hlength : 0 < ds.length := List.length_pos_of_ne_nil hne
  unfold plain
  rw [htext]
  dsimp only
  rw [length_digitsText]
  split
  · -- The point stands in front of the digits, with zeros between them.
    rename_i hpoint
    refine ⟨[0], List.replicate (-(ds.length + d.exponent)).toNat 0 ++ ds, ?_, ?_⟩
    · rw [digitsText_append, digitsText_zeros]
      rfl
    · refine ⟨by simp, by simp [hne], ds, (-(ds.length + d.exponent)).toNat + 1, 0, htext, hvalue,
        ?_, ?_, Or.inl rfl⟩
      · rw [List.replicate_succ, List.replicate_zero, List.append_nil]
        rfl
      · rw [List.length_singleton]
        omega
  · split
    · rename_i hpoint
      refine ⟨ds ++ List.replicate (ds.length + d.exponent - ds.length).toNat 0, [0], ?_, ?_⟩
      · rw [digitsText_append, digitsText_zeros]
        simp
        rfl
      · refine ⟨by simp [hne], by simp, ds, 0, (ds.length + d.exponent - ds.length).toNat + 1,
          htext, hvalue, ?_, ?_, Or.inl rfl⟩
        · rw [List.replicate_succ', List.append_assoc]
          rfl
        · rw [List.length_append, List.length_replicate]
          omega
    · -- The point stands among the digits.
      refine ⟨ds.take (ds.length + d.exponent).toNat, ds.drop (ds.length + d.exponent).toNat,
        ?_, ?_⟩
      · simp only [digitsText, List.map_take, List.map_drop]
      · refine ⟨?_, ?_, ds, 0, 0, htext, hvalue, ?_, ?_, Or.inl rfl⟩
        · rw [← List.length_pos_iff_ne_nil, List.length_take]
          omega
        · rw [← List.length_pos_iff_ne_nil, List.length_drop]
          omega
        · rw [List.take_append_drop]
          simp
        · rw [List.length_take]
          omega

theorem exists_exponentDigits (e : Int) : exists w : ExponentSpelling,
    'E' :: exponentDigits e = w.text ∧ w.capital = true ∧ w.sign ≠ some .plus ∧ w.value = e := by
  rcases exists_digitsOf e.natAbs with ⟨ds, htext, hne, hvalue⟩
  unfold exponentDigits
  rw [htext]
  split
  · rename_i hneg
    refine ⟨⟨true, some .minus, ds, hne⟩, rfl, rfl, nofun, ?_⟩
    show -((integerOf ds : Nat) : Int) = e
    omega
  · refine ⟨⟨true, none, ds, hne⟩, rfl, rfl, nofun, ?_⟩
    show ((integerOf ds : Nat) : Int) = e
    omega

theorem exists_scientific (d : Decimal) :
    exists (digit : Fin 10) (fraction : List (Fin 10)) (e : Int),
      scientific 'E' true d =
        digitsText [digit] ++ ('.' :: digitsText fraction ++ 'E' :: exponentDigits e) ∧
      IsLaidOut d [digit] fraction e := by
  rcases exists_digitsOf d.digits with ⟨ds, htext, hne, hvalue⟩
  rcases List.exists_cons_of_ne_nil hne with ⟨digit, rest, rfl⟩
  unfold scientific
  rw [htext]
  dsimp only
  rw [length_digitsText]
  cases rest with
  | nil =>
      refine ⟨digit, [0], _, rfl, by simp, by simp, [digit], 0, 1, htext, hvalue,
        rfl, ?_, Or.inr ⟨rfl, rfl⟩⟩
      simp
  | cons next rest =>
      refine ⟨digit, next :: rest, _, rfl, by simp, by simp, digit :: next :: rest, 0, 0,
        htext, hvalue, by simp, ?_, Or.inr ⟨rfl, rfl⟩⟩
      simp

/-!
## Languages
-/

open Computability
open Lexer (oneOf someOf cons_mem_oneOf_mul mem_someOf_iff)

def minus : Language Char :=
  1 + oneOf fun c => c == '-'

def plainText : Language Char :=
  minus * (someOf Char.isDigit * Lexer.fraction)

def scientificText : Language Char :=
  minus * (oneOf Char.isDigit * (Lexer.fraction * (oneOf (fun c => c == 'E') *
    (minus * someOf Char.isDigit))))

theorem digitsText_mem {ds : List (Fin 10)} (h : ds ≠ []) :
    digitsText ds ∈ someOf Char.isDigit :=
  mem_someOf_iff.mpr ⟨mt List.map_eq_nil_iff.mp h, fun _ => isDigit_of_mem⟩

theorem point_mem {ds : List (Fin 10)} (h : ds ≠ []) : '.' :: digitsText ds ∈ Lexer.fraction :=
  cons_mem_oneOf_mul rfl (digitsText_mem h)

theorem signText_mem {sign : Option Sign} (h : sign ≠ some .plus) : signText sign ∈ minus := by
  rcases sign with _ | (_ | _)
  · exact Or.inl rfl
  · exact absurd rfl h
  · exact Or.inr ⟨'-', rfl, rfl⟩

/-!
## Spellings of floats
-/

def signOf : UnpackedFloat.Sign -> Option Sign
  | .positive => none
  | .negative => some .minus

theorem signOf_ne_plus (s : UnpackedFloat.Sign) : signOf s ≠ some .plus := by
  cases s <;> decide

theorem withSign_eq (s : UnpackedFloat.Sign) (text : List Char) :
    withSign s text = signText (signOf s) ++ text := by
  cases s <;> rfl

/-- A spelling without blanks, in which a decimal is laid out behind a sign. -/
structure Shows (w : Spelling) (s : UnpackedFloat.Sign) (d : Decimal) : Prop where
  before : w.before = []
  after : w.after = []
  sign : w.sign = signOf s
  fraction : exists fs, w.fraction = some fs ∧ IsLaidOut d w.whole fs w.exponentValue

section

variable (s : UnpackedFloat.Sign) (d : Decimal)

theorem exists_shows_plain : exists w : Spelling, w.text = withSign s (plain d) ∧
    Shows w s d ∧ w.text ∈ plainText := by
  rcases exists_plain d with ⟨whole, fs, htext, hlaid⟩
  have hspelled : withSign s (plain d) =
      signText (signOf s) ++ (digitsText whole ++ '.' :: digitsText fs) := by
    rw [withSign_eq, htext]
  let w : Spelling := ⟨[], signOf s, whole, some fs, none, [], nofun, nofun,
    Or.inl hlaid.whole_ne_nil⟩
  have hw : w.text = withSign s (plain d) := by
    rw [hspelled]
    simp [w, Spelling.text, pointText, exponentText]
  refine ⟨w, hw, ⟨rfl, rfl, rfl, fs, rfl, hlaid⟩, ?_⟩
  rw [hw, hspelled]
  exact Language.append_mem_mul (signText_mem (signOf_ne_plus s))
    (Language.append_mem_mul (digitsText_mem hlaid.whole_ne_nil) (point_mem hlaid.fraction_ne_nil))

theorem exists_shows_scientific : exists w : Spelling,
    w.text = withSign s (scientific 'E' true d) ∧ Shows w s d ∧ w.text ∈ scientificText := by
  rcases exists_scientific d with ⟨digit, fs, e, htext, hlaid⟩
  rcases exists_exponentDigits e with ⟨exponent, hexponent, hcapital, hsign, hvalue⟩
  have hspelled : withSign s (scientific 'E' true d) = signText (signOf s) ++
      (digitsText [digit] ++ ('.' :: digitsText fs ++ exponent.text)) := by
    rw [withSign_eq, htext, hexponent]
  let w : Spelling := ⟨[], signOf s, [digit], some fs, some exponent, [], nofun, nofun,
    Or.inl hlaid.whole_ne_nil⟩
  have hw : w.text = withSign s (scientific 'E' true d) := by
    rw [hspelled]
    simp [w, Spelling.text, pointText, exponentText]
  have hlaid' : IsLaidOut d w.whole fs w.exponentValue := by
    show IsLaidOut d [digit] fs exponent.value
    rw [hvalue]
    exact hlaid
  refine ⟨w, hw, ⟨rfl, rfl, rfl, fs, rfl, hlaid'⟩, ?_⟩
  rw [hw, hspelled, ExponentSpelling.text, hcapital]
  exact Language.append_mem_mul (signText_mem (signOf_ne_plus s))
    (Language.append_mem_mul ⟨_, isDigit_digitChar digit, rfl⟩
      (Language.append_mem_mul (point_mem hlaid.fraction_ne_nil)
        (cons_mem_oneOf_mul rfl (Language.append_mem_mul (signText_mem hsign)
          (digitsText_mem exponent.digits_ne_nil)))))

end

inductive Shown : UnpackedFloat -> UnpackedFloat.Sign -> Decimal -> Prop where
  | zero (s : UnpackedFloat.Sign) : Shown (.zero s) s ⟨0, 0⟩
  | finite (s : UnpackedFloat.Sign) {m : Nat} (q : Int) (h : 0 < m) :
      Shown (.finite s m q h) s (shortest m q)

def IsPlain (x : Float) : Prop :=
  x == 0.0 ∨ 0.001 ≤ x.abs ∧ x.abs < 10000000.0

theorem beq_zero_of_zero {x : Float} {s : UnpackedFloat.Sign}
    (h : x.toModel.unpack = .zero s) : x == 0.0 := by
  show (x.toModel.unpack.compare (0.0 : Float).toModel.unpack == some .eq) = true
  rw [h]
  rfl

theorem not_beq_zero_of_finite {x : Float} {s : UnpackedFloat.Sign} {m : Nat}
    {q : Int} {hm : 0 < m} (h : x.toModel.unpack = .finite s m q hm) : ¬ x == 0.0 := by
  show ¬ (x.toModel.unpack.compare (0.0 : Float).toModel.unpack == some .eq) = true
  rw [h]
  cases s <;> exact Bool.false_ne_true

theorem isPlain_iff {x : Float} (h : ¬ x == 0.0) :
    canonical.isPlain x.abs = true ↔ IsPlain x := by
  unfold Layout.isPlain IsPlain
  rw [Bool.and_eq_true, decide_eq_true_eq, decide_eq_true_eq, or_iff_right h]
  rfl

/-- The text of a finite float is laid out as its magnitude demands. -/
theorem exists_shows {x : Float} (h : x.isFinite = true) : exists s d, exists w : Spelling,
    Shown x.toModel.unpack s d ∧ w.text = canonical.chars x ∧ Shows w s d ∧
      (IsPlain x -> w.text ∈ plainText) ∧ (¬ IsPlain x -> w.text ∈ scientificText) := by
  change x.toModel.unpack.isFinite = true at h
  unfold Layout.chars
  cases hx : x.toModel.unpack with
  | notANumber =>
      rw [hx] at h
      cases h
  | infinity s =>
      rw [hx] at h
      cases h
  | zero s =>
      rcases exists_shows_plain s ⟨0, 0⟩ with ⟨w, hw, hshows, hmem⟩
      refine ⟨s, _, w, .zero s, hw, hshows, fun _ => hmem, ?_⟩
      intro hnot
      exact absurd (Or.inl (beq_zero_of_zero hx)) hnot
  | finite s m q hm =>
      have hplain := isPlain_iff (not_beq_zero_of_finite hx)
      by_cases hrange : canonical.isPlain x.abs = true
      · rcases exists_shows_plain s (shortest m q) with ⟨w, hw, hshows, hmem⟩
        refine ⟨s, _, w, .finite s q hm, ?_, hshows, fun _ => hmem, ?_⟩
        · dsimp only
          rw [Layout.finite, if_pos hrange]
          exact hw
        · intro hnot
          exact absurd (hplain.mp hrange) hnot
      · rcases exists_shows_scientific s (shortest m q) with ⟨w, hw, hshows, hmem⟩
        refine ⟨s, _, w, .finite s q hm, ?_, hshows, ?_, fun _ => hmem⟩
        · dsimp only
          rw [Layout.finite, if_neg hrange]
          exact hw
        · intro hyes
          exact absurd (hplain.mpr hyes) hrange

end Decimal
end Equate
