import Equate.Proofs.Decimal.Printed
import Equate.Proofs.Operator.Faults

/-!
# Numbers that are printed and read

The canonical text of a number is a numeral unless the number is NaN or infinite. An operator
that reads its operands as numbers therefore finds no fault with the text of a finite number,
and it refuses the texts of the other three.
-/

namespace Equate
namespace Number

open Decimal Numeral

/-!
## Texts of numbers
-/

def IsFinite : Number -> Prop
  | .float x => x.isFinite = true
  | .signed _ => True
  | .unsigned _ => True

theorem exists_float?_of_integer (sign : Option Sign) (n : Nat) : exists y,
    float? (String.ofList (signText sign ++ Nat.toDigits 10 n)) = some y := by
  rcases exists_digitsOf n with ⟨ds, htext, hne, _⟩
  change Nat.toDigits 10 n = _ at htext
  rw [exists_float?_iff, String.toList_ofList, htext]
  refine ⟨⟨[], sign, ds, none, none, [], nofun, nofun, Or.inl hne⟩, ?_⟩
  simp [Spelling.text, pointText, exponentText]

theorem exists_float?_signed (i : Int) : exists y, float? (toString i) = some y := by
  rw [Int.toString_eq_repr, Int.repr_eq_if]
  split
  · rw [Nat.repr_eq_ofList_toDigits]
    exact exists_float?_of_integer none _
  · have htext : "-" ++ (-i).toNat.repr =
        String.ofList (signText (some .minus) ++ Nat.toDigits 10 (-i).toNat) := by
      rw [Nat.repr_eq_ofList_toDigits, String.ofList_append]
      rfl
    rw [htext]
    exact exists_float?_of_integer (some .minus) _

theorem float?_not_finite {x : Float} (h : x.isFinite = false) :
    float? (canonical.text x) = none := by
  change x.toModel.unpack.isFinite = false at h
  unfold Layout.text Layout.chars
  cases hx : x.toModel.unpack with
  | notANumber =>
      show float? (String.ofList "NaN".toList) = none
      decide +kernel
  | infinity s =>
      show float? (String.ofList (withSign s "Infinity".toList)) = none
      cases s <;> decide +kernel
  | zero s =>
      rw [hx] at h
      cases h
  | finite s m q hm =>
      rw [hx] at h
      cases h

/-- Exactly the finite numbers have a text that is a numeral. -/
theorem exists_float?_toText_iff (n : Number) :
    (exists y, float? n.toText = some y) ↔ n.IsFinite := by
  cases n with
  | signed i => exact iff_of_true (exists_float?_signed i.toInt) trivial
  | unsigned u =>
      refine iff_of_true ?_ trivial
      show exists y, float? (toString u.toNat) = some y
      rw [Nat.toString_eq_ofList_toDigits]
      exact exists_float?_of_integer none u.toNat
  | float x =>
      constructor
      · rintro ⟨y, hy⟩
        by_contra hinfinite
        have hnone : float? (canonical.text x) = none :=
          float?_not_finite (Bool.eq_false_iff.mpr hinfinite)
        cases hnone.symm.trans hy
      · intro hfinite
        rcases exists_shows hfinite with ⟨s, d, w, _, hw, _⟩
        show exists y, float? (canonical.text x) = some y
        rw [exists_float?_iff, Layout.text, String.toList_ofList]
        exact ⟨w, hw⟩

theorem float?_toText_eq_none_iff (n : Number) : float? n.toText = none ↔ ¬ n.IsFinite := by
  rw [← exists_float?_toText_iff, Option.eq_none_iff_forall_ne_some, not_exists]

end Number

/-!
## Operators on texts
-/

namespace Value

theorem unreadable_text_iff {s t : String} :
    (text s).Unreadable t ↔ s = t ∧ Numeral.float? s = none := by
  unfold Unreadable
  rw [text.injEq]
  constructor
  · rintro ⟨rfl, hnone⟩
    exact ⟨rfl, hnone⟩
  · rintro ⟨rfl, hnone⟩
    exact ⟨rfl, hnone⟩

end Value

namespace BinaryOp

theorem rejectsText_of_error {op : BinaryOp} {l r : Value} {arena : Option Arena} {t : String}
    (h : (op.apply l r arena).1 = .error (.notANumeral t)) : op.RejectsText l r t := by
  cases (apply_eq_error_iff op l r arena _).mp h with
  | text _ htext => exact htext

theorem error_of_rejectsText {op : BinaryOp} {l r : Value} {t : String}
    (h : op.RejectsText l r t) (hl : l.isFunction = false) (hr : r.isFunction = false)
    (arena : Option Arena) : (op.apply l r arena).1 = .error (.notANumeral t) := by
  refine (apply_eq_error_iff op l r arena _).mpr (.text ?_ h)
  rintro ⟨_, hfunction⟩
  rw [hl, hr] at hfunction
  simp at hfunction

end BinaryOp

/-- An operator never refuses a text as an operand: it blames another one, or none. -/
structure NeverRefused (s : String) : Prop where
  left : forall (op : BinaryOp) (v : Value) (arena : Option Arena) (t : String),
    (op.apply (.text s) v arena).1 = .error (.notANumeral t) -> v.Unreadable t
  right : forall (op : BinaryOp) (v : Value) (arena : Option Arena) (t : String),
    (op.apply v (.text s) arena).1 = .error (.notANumeral t) -> v.Unreadable t
  unary : forall (op : UnaryOp) (t : String), op.apply (.text s) ≠ .error (.notANumeral t)

/--
An operator that reads numbers refuses a text, unless it refuses a function or another text on
its left. Addition joins texts, and the logical negation of a text is no reading.
-/
structure AlwaysRefused (s : String) : Prop where
  left : forall (op : BinaryOp) (v : Value) (arena : Option Arena),
    op.family.isNumeric = true -> op ≠ .arithmetic .add -> v.isFunction = false ->
      (op.apply (.text s) v arena).1 = .error (.notANumeral s)
  right : forall (op : BinaryOp) (v : Value) (arena : Option Arena),
    op.family.isNumeric = true -> op ≠ .arithmetic .add -> v.isFunction = false ->
      (forall t, ¬ v.Unreadable t) -> (op.apply v (.text s) arena).1 = .error (.notANumeral s)
  unary : forall op : UnaryOp, op ≠ .not -> op.apply (.text s) = .error (.notANumeral s)

theorem neverRefused_of_some {s : String} {y : Float} (h : Numeral.float? s = some y) :
    NeverRefused s := by
  have hreadable : forall t, ¬ (Value.text s).Unreadable t := by
    intro t ht
    rw [Value.unreadable_text_iff, h] at ht
    cases ht.2
  constructor
  · intro op v arena t herror
    rcases (BinaryOp.rejectsText_of_error herror).2.2 with hself | ⟨_, hother⟩
    · exact absurd hself (hreadable t)
    · exact hother
  · intro op v arena t herror
    rcases (BinaryOp.rejectsText_of_error herror).2.2 with hother | ⟨_, hself⟩
    · exact hother
    · exact absurd hself (hreadable t)
  · intro op t herror
    cases (op.apply_eq_error_iff _ _).mp herror with
    | text _ hself => exact hreadable t hself

theorem alwaysRefused_of_none {s : String} (h : Numeral.float? s = none) : AlwaysRefused s := by
  have hunreadable : (Value.text s).Unreadable s := ⟨rfl, h⟩
  constructor
  · intro op v arena hop hadd hv
    exact BinaryOp.error_of_rejectsText ⟨hop, hadd, Or.inl hunreadable⟩ rfl hv arena
  · intro op v arena hop hadd hv hreadable
    exact BinaryOp.error_of_rejectsText ⟨hop, hadd, Or.inr ⟨hreadable, hunreadable⟩⟩ hv rfl arena
  · intro op hop
    exact (op.apply_eq_error_iff _ _).mpr (.text hop hunreadable)

/--
The text of a finite float has digits on both sides of a point, and an exponent exactly outside
of the plain range. The texts of finite numbers are the ones that are read as floats again, and
they are never refused as operands, as those of NaN and the infinities always are.
-/
theorem numbers_readable :
    (forall x : Float, x.isFinite = true ->
      (Decimal.IsPlain x -> (Decimal.canonical.text x).toList ∈ Decimal.plainText) ∧
        (¬ Decimal.IsPlain x -> (Decimal.canonical.text x).toList ∈ Decimal.scientificText)) ∧
      (forall n : Number, (exists y, Numeral.float? n.toText = some y) ↔ n.IsFinite) ∧
      (forall n : Number, n.IsFinite -> NeverRefused n.toText) ∧
      forall n : Number, ¬ n.IsFinite -> AlwaysRefused n.toText := by
  refine ⟨?_, Number.exists_float?_toText_iff, ?_, ?_⟩
  · intro x hx
    rcases Decimal.exists_shows hx with ⟨_, _, w, _, hw, _, hforms⟩
    rw [Decimal.Layout.text, String.toList_ofList, ← hw]
    exact hforms
  · intro n hn
    rcases n.exists_float?_toText_iff.mpr hn with ⟨y, hy⟩
    exact neverRefused_of_some hy
  · intro n hn
    exact alwaysRefused_of_none (n.float?_toText_eq_none_iff.mpr hn)

/-- A thousandth is still written plainly, and what is below it has an exponent. -/
theorem numbers_readable_thousandth :
    ((0.001 : Float).isFinite = true ∧ Decimal.IsPlain 0.001 ∧
      "0.001".toList ∈ Decimal.plainText) ∧
    ((-0.00099 : Float).isFinite = true ∧ ¬ Decimal.IsPlain (-0.00099) ∧
      "-9.9E-4".toList ∈ Decimal.scientificText) ∧
    (UnaryOp.apply .negate (.text "-9.9E-4") ≠ .error (.notANumeral "-9.9E-4")) ∧
    (BinaryOp.apply (.arithmetic .mul) (.text "NaN") (.unsigned 1) none).1 =
      .error (.notANumeral "NaN") := by
  have hplain : Decimal.IsPlain 0.001 := by
    unfold Decimal.IsPlain
    decide
  have hnot : ¬ Decimal.IsPlain (-0.00099) := by
    unfold Decimal.IsPlain
    decide
  have htext : Decimal.canonical.text 0.001 = "0.001" := by decide +kernel
  have htext' : Decimal.canonical.text (-0.00099) = "-9.9E-4" := by decide +kernel
  have hfinite : (0.001 : Float).isFinite = true := by decide
  have hfinite' : (-0.00099 : Float).isFinite = true := by decide
  have hnan : ¬ (Number.float (0.0 / 0.0)).IsFinite := by
    unfold Number.IsFinite
    decide
  have hmem := (numbers_readable.1 0.001 hfinite).1 hplain
  have hmem' := (numbers_readable.1 (-0.00099) hfinite').2 hnot
  have hnever := numbers_readable.2.2.1 (.float (-0.00099)) hfinite'
  have halways := numbers_readable.2.2.2 (.float (0.0 / 0.0)) hnan
  change NeverRefused (Decimal.canonical.text (-0.00099)) at hnever
  rw [htext] at hmem
  rw [htext'] at hmem' hnever
  exact ⟨⟨hfinite, hplain, hmem⟩, ⟨hfinite', hnot, hmem'⟩, hnever.unary .negate "-9.9E-4",
    halways.left (.arithmetic .mul) (.unsigned 1) none rfl (by decide) rfl⟩

end Equate
