import Equate.Proofs.Operator.Comparison

/-!
# Equalities

Values have two equalities. The strict one looks at kinds and payloads and asks no arena.
The loose one is read off the comparison that also ranks values, by numbers, by texts or by
the arena. They share no definition, and for values of one kind they agree all the same.
The exception is NaN, which strictly equals itself and loosely equals nothing.
-/

namespace Equate

open Value (Unordered)

namespace Value

/-!
## Values of one kind
-/

inductive Alike : Value -> Value -> Prop where
  | float (x y : Float) : Alike (.float x) (.float y)
  | signed (i j : Int64) : Alike (.signed i) (.signed j)
  | unsigned (u v : UInt64) : Alike (.unsigned u) (.unsigned v)
  | text (s t : String) : Alike (.text s) (.text t)
  | function (f g : Function) : Alike (.function f) (.function g)

theorem alike_iff (a b : Value) : Alike a b ↔ a.kind = b.kind := by
  constructor
  · intro h
    cases h <;> rfl
  · intro h
    rcases a with (x | i | u) | s | f <;> rcases b with (y | j | v) | t | g
    case number.float.number.float => exact .float x y
    case number.signed.number.signed => exact .signed i j
    case number.unsigned.number.unsigned => exact .unsigned u v
    case text.text => exact .text s t
    case function.function => exact .function f g
    all_goals cases h

/-!
## What strict equality sees

A value is reduced to as much of its kind and payload as two identical values have in
common: both zeros have one place, NaN has none, and a function is its handle.
-/

inductive Identity where
  | float (place : Option Binary64.Place)
  | signed (i : Int64)
  | unsigned (u : UInt64)
  | text (s : String)
  | function (handle : Nat)

def identity : Value -> Identity
  | .number (.float x) => .float (Binary64.place? x.toModel.unpack)
  | .number (.signed i) => .signed i
  | .number (.unsigned u) => .unsigned u
  | .text s => .text s
  | .function f => .function f.id

theorem kind_eq_of_identity_eq {a b : Value} (h : a.identity = b.identity) :
    a.kind = b.kind := by
  rcases a with (x | i | u) | s | f <;> rcases b with (y | j | v) | t | g
  all_goals first | rfl | cases h

theorem Alike.identical_iff {a b : Value} (h : Alike a b) :
    a.identical b = true ↔ a.identity = b.identity := by
  cases h with
  | float x y =>
      show Binary64.same x y = true ↔ Identity.float _ = Identity.float _
      rw [Binary64.same_iff, Identity.float.injEq]
  | signed i j =>
      show (i == j) = true ↔ Identity.signed i = Identity.signed j
      rw [beq_iff_eq, Identity.signed.injEq]
  | unsigned u v =>
      show (u == v) = true ↔ Identity.unsigned u = Identity.unsigned v
      rw [beq_iff_eq, Identity.unsigned.injEq]
  | text s t =>
      show (s == t) = true ↔ Identity.text s = Identity.text t
      rw [beq_iff_eq, Identity.text.injEq]
  | function f g =>
      show (f.id == g.id) = true ↔ Identity.function f.id = Identity.function g.id
      rw [beq_iff_eq, Identity.function.injEq]

theorem identical_iff (a b : Value) : a.identical b = true ↔ a.identity = b.identity := by
  by_cases hkind : a.kind = b.kind
  · exact ((alike_iff a b).mpr hkind).identical_iff
  · rw [identical_of_kind_ne hkind]
    constructor
    · intro h
      cases h
    · intro h
      exact absurd (kind_eq_of_identity_eq h) hkind

theorem kind_eq_of_identical {a b : Value} (h : a.identical b = true) : a.kind = b.kind :=
  kind_eq_of_identity_eq ((identical_iff a b).mp h)

theorem equivalence_identical : Equivalence fun a b : Value => a.identical b = true := by
  simp only [identical_iff]
  exact ⟨fun _ => rfl, Eq.symm, Eq.trans⟩

/-!
## Loose equality within a kind
-/

def isNaN : Value -> Bool
  | .number n => n.isNaN
  | _ => false

theorem isNaN_iff (v : Value) : v.isNaN = true ↔ v.identity = .float none := by
  rcases v with (x | i | u) | s | f
  · show x.toModel.unpack.isNaN = true ↔ Identity.float _ = Identity.float none
    rw [← Binary64.place?_eq_none_iff, Identity.float.injEq]
  all_goals simp [isNaN, Number.isNaN, identity]

theorem Alike.unordered_iff {a b : Value} (h : Alike a b) :
    Unordered a b ↔ a.isNaN = true ∨ b.isNaN = true := by
  constructor
  · rintro ⟨m, n, rfl, rfl, hnan⟩
    exact hnan
  · intro hnan
    cases h with
    | float x y => exact ⟨_, _, rfl, rfl, hnan⟩
    | signed i j => exact ⟨_, _, rfl, rfl, hnan⟩
    | unsigned u v => exact ⟨_, _, rfl, rfl, hnan⟩
    | text s t => simp [isNaN] at hnan
    | function f g => simp [isNaN] at hnan

/-- Two values of one kind compare as equal if they are identical, but for NaN. -/
theorem Alike.compare?_eq_iff {a b : Value} (h : Alike a b) (hnan : ¬ Unordered a b)
    (arena : Option Arena) :
    (a.compare? b arena).1 = some .eq ↔ a.identical b = true := by
  cases h with
  | float x y =>
      show Binary64.compare? x y = some .eq ↔ (x.isNaN && y.isNaN || x == y) = true
      have hx : x.isNaN = false := by
        apply Bool.eq_false_iff.mpr
        intro hx
        exact hnan ⟨_, _, rfl, rfl, Or.inl hx⟩
      rw [hx, Bool.false_and, Bool.false_or, Binary64.beq_iff_compare?]
  | signed i j =>
      show some (compare i j) = some .eq ↔ (i == j) = true
      rw [Option.some.injEq, Std.compare_eq_iff_eq, beq_iff_eq]
  | unsigned u v =>
      show some (compare u v) = some .eq ↔ (u == v) = true
      rw [Option.some.injEq, Std.compare_eq_iff_eq, beq_iff_eq]
  | text s t =>
      show some (compare s t) = some .eq ↔ (s == t) = true
      rw [Option.some.injEq, Std.compare_eq_iff_eq, beq_iff_eq]
  | function f g =>
      show some ((arena.getD {}).compare f g).1 = some .eq ↔ (f.id == g.id) = true
      have hagrees := Arena.compare_agrees (Arena.Continues.refl ((arena.getD {}).compare f g).2)
      rw [Option.some.injEq, beq_iff_eq]
      exact hagrees.2.1

end Value

/-!
## The operators
-/

def AlwaysAnswers (o : StrictOp) (a b : Value) (truth : Bool) : Prop :=
  forall arena, (BinaryOp.strict o).apply a b arena = (.ok (.ofBool truth), arena)

theorem alwaysAnswers_iff {o : StrictOp} {a b : Value} {truth : Bool} :
    AlwaysAnswers o a b truth ↔ o.holds (a.identical b) = truth := by
  constructor
  · intro h
    exact Value.ofBool_injective (Except.ok.inj (congrArg Prod.fst (h none)))
  · rintro rfl arena
    rfl

theorem alwaysAnswers_equal_iff {a b : Value} {truth : Bool} :
    AlwaysAnswers .equal a b truth ↔ a.identical b = truth :=
  alwaysAnswers_iff

/-- How the strict and the loose equality of two values stand to each other. -/
structure Matched (a b : Value) : Prop where
  negated : exists truth, AlwaysAnswers .equal a b truth ∧ AlwaysAnswers .notEqual a b !truth
  mismatched : a.kind ≠ b.kind -> AlwaysAnswers .equal a b false
  agreed : a.kind = b.kind -> a.isNaN = false -> b.isNaN = false -> forall arena truth,
    AlwaysAnswers .equal a b truth ↔ Answers .equal a b arena truth
  implied : AlwaysAnswers .equal a b true ->
    (a.isNaN = true ∧ b.isNaN = true) ∨ forall arena, Answers .equal a b arena true
  excepted : a.isNaN = true -> b.isNaN = true ->
    AlwaysAnswers .equal a b true ∧ forall arena, Answers .equal a b arena false

theorem Value.Alike.answers_iff {a b : Value} (h : Alike a b) (hnan : ¬ Unordered a b)
    (arena : Option Arena) (truth : Bool) :
    Answers .equal a b arena truth ↔ AlwaysAnswers .equal a b truth := by
  have hequal : ComparisonOp.equal.holds (a.compare? b arena).1 = a.identical b := by
    rw [Bool.eq_iff_iff, ← h.compare?_eq_iff hnan arena]
    exact beq_iff_eq
  rw [Equate.answers_iff, alwaysAnswers_equal_iff, hequal]

theorem matched (a b : Value) : Matched a b where
  negated := ⟨_, alwaysAnswers_iff.mpr rfl, alwaysAnswers_iff.mpr rfl⟩
  mismatched h := alwaysAnswers_equal_iff.mpr (Value.identical_of_kind_ne h)
  agreed := by
    intro hkind ha hb arena truth
    have halike := (Value.alike_iff a b).mpr hkind
    refine (halike.answers_iff ?_ arena truth).symm
    rw [halike.unordered_iff, ha, hb]
    simp
  implied := by
    intro h
    have hidentical := alwaysAnswers_equal_iff.mp h
    have halike := (Value.alike_iff a b).mpr (Value.kind_eq_of_identical hidentical)
    by_cases hnan : Unordered a b
    · left
      -- Identical values are NaN together, so that one NaN makes two.
      have hboth : a.isNaN = true ↔ b.isNaN = true := by
        rw [Value.isNaN_iff, Value.isNaN_iff, (Value.identical_iff a b).mp hidentical]
      rcases halike.unordered_iff.mp hnan with ha | hb
      · exact ⟨ha, hboth.mp ha⟩
      · exact ⟨hboth.mpr hb, hb⟩
    · right
      intro arena
      exact (halike.answers_iff hnan arena true).mpr h
  excepted := by
    intro ha hb
    have hidentity : a.identity = b.identity :=
      (Value.isNaN_iff a).mp ha |>.trans ((Value.isNaN_iff b).mp hb).symm
    have halike := (Value.alike_iff a b).mpr (Value.kind_eq_of_identity_eq hidentity)
    have hunordered := halike.unordered_iff.mpr (Or.inl ha)
    refine ⟨alwaysAnswers_equal_iff.mpr ((Value.identical_iff a b).mpr hidentity), ?_⟩
    intro arena
    exact (consistent a b arena).unordered hunordered .equal

/--
Strict equality is an equivalence of values that does not depend on the arena. It holds
within one kind only, where it is the loose equality of every arena but for NaN.
-/
theorem equalities_matched :
    Equivalence (fun a b : Value => AlwaysAnswers .equal a b true) ∧
      forall a b, Matched a b := by
  refine ⟨?_, matched⟩
  simp only [alwaysAnswers_equal_iff]
  exact Value.equivalence_identical

end Equate
