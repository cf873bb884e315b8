import Equate.Proofs.Binary64.Order
import Equate.Proofs.Evaluation.Stability
import Equate.Proofs.Number.Words

/-!
# The order of values

Comparing functions changes the arena, so that the order of two values seems to depend on
when it is asked for. It does not: all answers of a run are read off the arena at its end,
where functions are ranked by their positions, and no other value is looked up there. On
the integers with the functions, and on the texts with the functions, these answers are
those of one comparison that is oriented and transitive.
-/

namespace Equate

open Arena (Covers)

/-!
## The end of a run
-/

namespace Arena

/-- Functions stand by their positions, and by their numbers where the positions are equal. -/
def order (arena : Arena) (f g : Function) : Ordering :=
  (Ord.compare (arena.position f.id) (arena.position g.id)).then (Ord.compare f.id g.id)

instance transCmp_order (arena : Arena) : Std.TransCmp arena.order :=
  inferInstanceAs (Std.TransCmp
    (compareLex (compareOn fun f => arena.position f.id) (compareOn Function.id)))

theorem order_eq_lt_iff (arena : Arena) (f g : Function) :
    arena.order f g = .lt ↔ arena.Before f.id g.id := by
  unfold order Before
  rw [Ordering.then_eq_lt, Nat.compare_eq_lt, Nat.compare_eq_eq, Nat.compare_eq_lt]

theorem order_eq_of_agrees {arena : Arena} {f g : Function} {answer : Ordering}
    (h : Agrees arena.Before f g answer) : answer = arena.order f g := by
  rcases h with ⟨hlt, heq, hgt⟩
  cases answer with
  | lt => exact ((order_eq_lt_iff arena f g).mpr (hlt.mp rfl)).symm
  | eq =>
      unfold order
      rw [heq.mp rfl, Nat.compare_eq_eq.mpr rfl, Nat.compare_eq_eq.mpr rfl]
      rfl
  | gt =>
      have hlt := (order_eq_lt_iff arena g f).mpr (hgt.mp rfl)
      exact (Std.OrientedCmp.gt_of_lt hlt).symm

end Arena

namespace Value

/-- The order of two values in the arena at the end of a run. -/
def orderIn (last : Option Arena) : Value -> Value -> Option Ordering
  | .function f, .function g => some ((last.getD {}).order f g)
  | l, r => (l.compare? r last).1

/-- Every answer of a run is read off the arena at its end. -/
theorem compare?_eq_orderIn {l r : Value} {arena last : Option Arena}
    (h : Covers last (l.compare? r arena).2) : (l.compare? r arena).1 = orderIn last l r := by
  rcases l with a | s | f <;> rcases r with b | t | g
  case function.function =>
    rcases last with _ | last
    · cases h
    · exact congrArg some (Arena.order_eq_of_agrees (Arena.compare_agrees h))
  all_goals rfl

end Value

/-!
## Reversal
-/

namespace Number

theorem compare?_float_left (x : Float) (b : Number) :
    (float x).compare? b = Binary64.compare? x b.toFloat := by
  cases b <;> rfl

theorem compare?_float_right (a : Number) (y : Float) :
    a.compare? (float y) = Binary64.compare? a.toFloat y := by
  cases a <;> rfl

theorem compare?_swap (a b : Number) : b.compare? a = (a.compare? b).map Ordering.swap := by
  rcases a.float_or_word with ⟨x, rfl⟩ | ⟨k, m, rfl⟩
  · rw [compare?_float_left, compare?_float_right]
    exact Binary64.compare?_swap x b.toFloat
  · rcases b.float_or_word with ⟨y, rfl⟩ | ⟨l, n, rfl⟩
    · rw [compare?_float_left, compare?_float_right]
      exact Binary64.compare?_swap (k.number m).toFloat y
    · rw [Reading.compare?_number, Reading.compare?_number, ← Int.compare_swap]
      rfl

end Number

theorem Value.orderIn_swap (last : Option Arena) (l r : Value) :
    r.orderIn last l = (l.orderIn last r).map Ordering.swap := by
  rcases l with a | s | f <;> rcases r with b | t | g
  case number.number => exact a.compare?_swap b
  case number.text => exact congrArg some Std.OrientedOrd.eq_swap
  case text.number => exact congrArg some Std.OrientedOrd.eq_swap
  case text.text => exact congrArg some Std.OrientedOrd.eq_swap
  case function.function => exact congrArg some Std.OrientedCmp.eq_swap
  all_goals rfl

/-!
## Values with one order
-/

namespace Value

def function? : Value -> Option Function
  | .function f => some f
  | _ => none

/-- Functions stand above all other values, and these stand by a key. -/
def rank [Ord β] (key : Value -> β) (last : Option Arena) (l r : Value) : Ordering :=
  match l.function?, r.function? with
  | some f, some g => (last.getD {}).order f g
  | some _, none => .gt
  | none, some _ => .lt
  | none, none => compare (key l) (key r)

instance transCmp_rank [Ord β] [Std.TransOrd β] (key : Value -> β) (last : Option Arena) :
    Std.TransCmp (rank key last) where
  eq_swap := by
    intro a b
    unfold rank
    rcases a.function? with _ | f <;> rcases b.function? with _ | g
    · exact Std.OrientedOrd.eq_swap
    · rfl
    · rfl
    · show (last.getD {}).order f g = _
      exact Std.OrientedCmp.eq_swap
  isLE_trans := by
    intro a b c
    unfold rank
    rcases a.function? with _ | f <;> rcases b.function? with _ | g <;>
      rcases c.function? with _ | h <;> intro hab hbc
    case none.none.none => exact Std.TransOrd.isLE_trans hab hbc
    case some.some.some =>
      have hfirst : ((last.getD {}).order f g).isLE = true := hab
      exact Std.TransCmp.isLE_trans hfirst hbc
    case none.none.some => rfl
    case none.some.some => rfl
    case none.some.none => cases hbc
    case some.some.none => cases hbc
    case some.none.none => cases hab
    case some.none.some => cases hab

inductive Integral : Value -> Prop where
  | integer {v : Value} {n : Int} (h : v.integer? = some n) : Integral v
  | function (f : Function) : Integral (.function f)

inductive Textual : Value -> Prop where
  | text (s : String) : Textual (.text s)
  | function (f : Function) : Textual (.function f)

theorem eq_word_of_integer? {v : Value} {n : Int} (h : v.integer? = some n) :
    exists (k : Reading) (bits : UInt64), v = .number (k.number bits) ∧ k.value bits = n := by
  rcases v with (x | i | u) | s | f
  · cases h
  · exact ⟨.signed, i.toUInt64, rfl, Option.some.inj h⟩
  · exact ⟨.unsigned, u, rfl, Option.some.inj h⟩
  · cases h
  · cases h

theorem compare?_of_integer? {l r : Value} {m n : Int} (hl : l.integer? = some m)
    (hr : r.integer? = some n) (arena : Option Arena) :
    l.compare? r arena = (some (compare m n), arena) := by
  rcases eq_word_of_integer? hl with ⟨k, a, rfl, rfl⟩
  rcases eq_word_of_integer? hr with ⟨k', b, rfl, rfl⟩
  exact congrArg (·, arena) (Reading.compare?_number k k' a b)

theorem orderIn_of_integral {l r : Value} (hl : l.Integral) (hr : r.Integral)
    (last : Option Arena) :
    l.orderIn last r = some (rank (fun v => v.integer?.getD 0) last l r) := by
  cases hl with
  | function f =>
      cases hr with
      | function g => rfl
      | integer h =>
          rcases eq_word_of_integer? h with ⟨k, bits, rfl, _⟩
          rfl
  | integer h =>
      rcases eq_word_of_integer? h with ⟨k, a, rfl, _⟩
      cases hr with
      | function g => rfl
      | integer h' =>
          rcases eq_word_of_integer? h' with ⟨k', b, rfl, _⟩
          show (k.number a).compare? (k'.number b) = _
          rw [Reading.compare?_number]
          cases k <;> cases k' <;> rfl

theorem orderIn_of_textual {l r : Value} (hl : l.Textual) (hr : r.Textual)
    (last : Option Arena) : l.orderIn last r = some (rank toText last l r) := by
  cases hl <;> cases hr <;> rfl

end Value
end Equate
