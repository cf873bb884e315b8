import Equate.Proofs.Binary64.Whole
import Equate.Proofs.Value.Order

/-!
# Comparisons

The six operators of comparison read one order of their operands. From the first question
about two values on they answer alike, and they answer for the exchanged operands as their
mirrored operators do. The order itself is that of the integers for words, the one by
Unicode scalar values for texts, and it sets every function above all other values. On the
integers with the functions, and on the texts with the functions, it is a total preorder.
-/

namespace Equate

open Arena (Covers)

/-!
## Unordered numbers
-/

theorem Binary64.Denotes.isNaN_eq_false {x : Float.Model.UnpackedFloat} {n : Int}
    (h : Denotes x n) : x.isNaN = false := by
  cases h <;> rfl

namespace Number

def isNaN : Number -> Bool
  | .float x => x.isNaN
  | _ => false

theorem isNaN_word (k : Reading) (bits : UInt64) : (k.number bits).isNaN = false := by
  cases k <;> rfl

theorem isNaN_toFloat (n : Number) : n.toFloat.isNaN = n.isNaN := by
  rcases n.float_or_word with ⟨x, rfl⟩ | ⟨k, bits, rfl⟩
  · rfl
  · rw [isNaN_word]
    exact (Binary64.denotes_number k bits).isNaN_eq_false

theorem compare?_eq_none_iff (a b : Number) :
    a.compare? b = none ↔ a.isNaN = true ∨ b.isNaN = true := by
  rcases a.float_or_word with ⟨x, rfl⟩ | ⟨k, m, rfl⟩
  · rw [compare?_float_left, Binary64.compare?_eq_none_iff, isNaN_toFloat]
    rfl
  · rcases b.float_or_word with ⟨y, rfl⟩ | ⟨l, n, rfl⟩
    · rw [compare?_float_right, Binary64.compare?_eq_none_iff, isNaN_toFloat]
      rfl
    · rw [Reading.compare?_number, isNaN_word, isNaN_word]
      simp

end Number

namespace Value

def Unordered (a b : Value) : Prop :=
  exists m n, a = .number m ∧ b = .number n ∧ (m.isNaN = true ∨ n.isNaN = true)

theorem compare?_eq_none_iff (a b : Value) (arena : Option Arena) :
    (a.compare? b arena).1 = none ↔ Unordered a b := by
  rcases a with m | s | f <;> rcases b with n | t | g
  case number.number =>
    show m.compare? n = none ↔ _
    rw [Number.compare?_eq_none_iff]
    constructor
    · intro h
      exact ⟨m, n, rfl, rfl, h⟩
    · rintro ⟨_, _, hm, hn, h⟩
      cases hm
      cases hn
      exact h
  all_goals simp [compare?, Unordered]

/-!
## Texts
-/

/-- The Unicode scalar values of a text. Lists of them are compared lexicographically. -/
def scalars (s : String) : List Nat :=
  s.toList.map Char.toNat

theorem scalars_lt_iff (s t : String) : scalars s < scalars t ↔ s < t := by
  rw [String.lt_iff_toList_lt]
  unfold scalars
  generalize s.toList = cs
  generalize t.toList = ds
  induction cs generalizing ds with
  | nil => cases ds <;> simp
  | cons c cs ih =>
      cases ds with
      | nil => simp
      | cons d ds =>
          rw [List.map_cons, List.map_cons, List.cons_lt_cons_iff, List.cons_lt_cons_iff, ih,
            Char.toNat_inj]
          rfl

theorem compare_text_eq_lt_iff (s t : String) :
    compare s t = .lt ↔ scalars s < scalars t := by
  rw [scalars_lt_iff]
  exact compare_lt_iff_lt

end Value

/-!
## Operators
-/

open Value (Unordered scalars)

def ComparisonOp.mirror : ComparisonOp -> ComparisonOp
  | .less => .greater
  | .lessEqual => .greaterEqual
  | .greater => .less
  | .greaterEqual => .lessEqual
  | .equal => .equal
  | .notEqual => .notEqual

theorem ComparisonOp.holds_mirror (o : ComparisonOp) (order : Option Ordering) :
    o.mirror.holds (order.map Ordering.swap) = o.holds order := by
  cases o <;> rcases order with _ | (_ | _ | _) <;> rfl

def ComparisonOp.ofOrdering : Ordering -> ComparisonOp
  | .lt => .less
  | .eq => .equal
  | .gt => .greater

theorem ComparisonOp.eq_ofOrdering_iff (o : ComparisonOp) (order : Ordering) :
    o ∈ [ComparisonOp.less, .equal, .greater] ∧ o.holds (some order) = true ↔
      o = ofOrdering order := by
  cases o <;> cases order <;> decide

/-- From the first question about two values on the operator has one answer. -/
def Answers (o : ComparisonOp) (a b : Value) (arena : Option Arena) (truth : Bool) : Prop :=
  forall later, later = arena ∨ Covers later (a.compare? b arena).2 ->
    ((BinaryOp.comparison o).apply a b later).1 = .ok (.ofBool truth)

theorem Value.ofBool_injective {s t : Bool} (h : Value.ofBool s = Value.ofBool t) : s = t := by
  cases s <;> cases t
  · rfl
  · cases h
  · cases h
  · rfl

theorem answers_iff {o : ComparisonOp} {a b : Value} {arena : Option Arena} {truth : Bool} :
    Answers o a b arena truth ↔ o.holds (a.compare? b arena).1 = truth := by
  constructor
  · intro h
    exact Value.ofBool_injective (Except.ok.inj (h arena (Or.inl rfl)))
  · rintro rfl later (rfl | hlater)
    · rfl
    · show Except.ok (Value.ofBool (o.holds (a.compare? b later).1)) = _
      rw [(Value.settling_compare? a b).again hlater]

/-- What the operators answer for two values, the first question being asked of an arena. -/
structure Consistent (a b : Value) (arena : Option Arena) : Prop where
  mirrored : forall later, Covers later (a.compare? b arena).2 ->
    b.compare? a later = ((a.compare? b arena).1.map Ordering.swap, later)
  answered : forall o, exists truth, Answers o a b arena truth
  reversed : forall o truth later, Covers later (a.compare? b arena).2 ->
    (Answers o a b arena truth ↔ Answers o.mirror b a later truth)
  different : forall truth, Answers .notEqual a b arena truth ↔ Answers .equal a b arena !truth
  exclusive : ¬ Unordered a b -> ∃! o,
    o ∈ [ComparisonOp.less, .equal, .greater] ∧ Answers o a b arena true
  negated : ¬ Unordered a b -> forall truth,
    Answers .lessEqual a b arena truth ↔ Answers .greater a b arena !truth
  unordered : Unordered a b -> forall o, Answers o a b arena (o == .notEqual)
  integers : forall m n, a.integer? = some m -> b.integer? = some n ->
    (a.compare? b arena).1 = some (compare m n)
  texts : forall s t, a = .text s -> b = .text t ->
    ((a.compare? b arena).1 = some .lt ↔ scalars s < scalars t) ∧
      ((a.compare? b arena).1 = some .eq ↔ s = t) ∧
      ((a.compare? b arena).1 = some .gt ↔ scalars t < scalars s)
  above : a.isFunction = true -> b.isFunction = false ->
    (a.compare? b arena).1 = some .gt ∧ (b.compare? a arena).1 = some .lt

/-- A question in the other order finds the arena settled. -/
theorem Value.compare?_arena_mirrored {a b : Value} {arena later : Option Arena}
    (h : Covers later (a.compare? b arena).2) : (b.compare? a later).2 = later := by
  rcases a with m | s | f <;> rcases b with n | t | g
  case function.function =>
    rcases later with _ | later
    · cases h
    · have hsettled := (Arena.settled_compare (arena.getD {}) f g).mono h
      exact congrArg some (Arena.compare_arena_of_settled hsettled.symm)
  all_goals rfl

theorem Value.compare?_mirrored {a b : Value} {arena later : Option Arena}
    (h : Covers later (a.compare? b arena).2) :
    b.compare? a later = ((a.compare? b arena).1.map Ordering.swap, later) := by
  have harena := Value.compare?_arena_mirrored h
  have hback : (b.compare? a later).1 = b.orderIn later a := by
    apply Value.compare?_eq_orderIn
    rw [harena]
    exact Covers.refl later
  rw [Value.orderIn_swap, ← Value.compare?_eq_orderIn h] at hback
  exact Prod.ext hback harena

theorem consistent (a b : Value) (arena : Option Arena) : Consistent a b arena where
  mirrored := fun _ => Value.compare?_mirrored
  answered o := ⟨_, answers_iff.mpr rfl⟩
  reversed := by
    intro o truth later h
    rw [answers_iff, answers_iff, Value.compare?_mirrored h, ComparisonOp.holds_mirror]
  different := by
    intro truth
    rw [answers_iff, answers_iff]
    rcases (a.compare? b arena).1 with _ | (_ | _ | _) <;> cases truth <;> decide
  exclusive := by
    intro h
    rw [← Value.compare?_eq_none_iff a b arena] at h
    rcases Option.ne_none_iff_exists'.mp h with ⟨order, horder⟩
    simp only [answers_iff, horder, ComparisonOp.eq_ofOrdering_iff]
    exact existsUnique_eq
  negated := by
    intro h truth
    rw [← Value.compare?_eq_none_iff a b arena] at h
    rcases Option.ne_none_iff_exists'.mp h with ⟨order, horder⟩
    rw [answers_iff, answers_iff, horder]
    cases order <;> cases truth <;> decide
  unordered := by
    intro h o
    rw [answers_iff, (a.compare?_eq_none_iff b arena).mpr h]
    cases o <;> rfl
  integers := by
    intro m n ha hb
    rw [Value.compare?_of_integer? ha hb]
  texts := by
    rintro s t rfl rfl
    have hanswer : ((Value.text s).compare? (.text t) arena).1 = some (compare s t) := rfl
    simp only [hanswer, Option.some.injEq, ← Value.compare_text_eq_lt_iff,
      Std.OrientedCmp.gt_iff_lt, Std.compare_eq_iff_eq, and_self]
  above := by
    intro ha hb
    rcases a with m | s | f
    · cases ha
    · cases ha
    · rcases b with n | t | g
      · exact ⟨rfl, rfl⟩
      · exact ⟨rfl, rfl⟩
      · cases hb

/-!
## Total preorders
-/

structure IsTotalPreorder (le : Value -> Value -> Prop) : Prop where
  total : forall a b, le a b ∨ le b a
  trans : forall a b c, le a b -> le b c -> le a c

/-- The answers of a run about a class of values are those of one total preorder. -/
def Preordered (C : Value -> Prop) (last : Option Arena) : Prop :=
  exists le, IsTotalPreorder le ∧ forall a b arena, C a -> C b ->
    Covers last (a.compare? b arena).2 ->
      (Answers .lessEqual a b arena true ↔ le a b) ∧
        (Answers .greaterEqual a b arena true ↔ le b a)

section

variable (cmp : Value -> Value -> Ordering) [Std.TransCmp cmp]

theorem isTotalPreorder_isLE : IsTotalPreorder fun a b => (cmp a b).isLE = true where
  total := by
    intro a b
    have hswap : cmp b a = (cmp a b).swap := Std.OrientedCmp.eq_swap
    rw [hswap]
    cases cmp a b
    · exact Or.inl rfl
    · exact Or.inl rfl
    · exact Or.inr rfl
  trans _ _ _ := Std.TransCmp.isLE_trans

theorem preordered_of_orderIn {C : Value -> Prop} {last : Option Arena}
    (h : forall {a b}, C a -> C b -> a.orderIn last b = some (cmp a b)) :
    Preordered C last := by
  refine ⟨_, isTotalPreorder_isLE cmp, ?_⟩
  intro a b arena ha hb hlast
  have hswap : cmp b a = (cmp a b).swap := Std.OrientedCmp.eq_swap
  rw [answers_iff, answers_iff, Value.compare?_eq_orderIn hlast, h ha hb, hswap]
  cases cmp a b <;> decide

end

/--
The six operators are consistent with each other whenever they are asked, they are exact on
integers, and within one class of values they are those of a total preorder.
-/
theorem comparisons_consistent :
    (forall a b arena, Consistent a b arena) ∧
      forall last, Preordered Value.Integral last ∧ Preordered Value.Textual last := by
  refine ⟨consistent, ?_⟩
  intro last
  constructor
  · exact preordered_of_orderIn _ fun ha hb => Value.orderIn_of_integral ha hb last
  · exact preordered_of_orderIn _ fun ha hb => Value.orderIn_of_textual ha hb last

end Equate
