import Equate.Proofs.Binary64.Whole
import Equate.Proofs.Evaluation.Extremes

/-!
# Transitivity

Three values are compared by up to three different orders: numbers as numbers, functions
by the arena, and texts by their characters, to which a number contributes its canonical
text. A chain of lesser values is one nevertheless, also across words and floats, unless a
text meets two numbers whose canonical texts stand in another order than they do. Then the
least of three values depends on the order in which they are looked at.
-/

namespace Equate

open Arena (Covers)

/-!
## Numbers
-/

namespace Number

open Binary64

theorem atMost_of_compare?_lt {a b : Number} (h : a.compare? b = some .lt) :
    AtMost a.toFloat b.toFloat := by
  rcases a.float_or_word with ⟨x, rfl⟩ | ⟨k, m, rfl⟩
  · rw [compare?_float_left] at h
    exact atMost_of_lt h
  · rcases b.float_or_word with ⟨y, rfl⟩ | ⟨l, n, rfl⟩
    · rw [compare?_float_right] at h
      exact atMost_of_lt h
    · rw [Reading.compare?_number, Option.some.injEq, Int.compare_eq_lt] at h
      exact atMost_toFloat (Int.le_of_lt h)

theorem value_lt_of_toFloat_lt {k l : Reading} {m n : UInt64}
    (h : Binary64.compare? (k.number m).toFloat (l.number n).toFloat = some .lt) :
    k.value m < l.value n := by
  apply Int.not_le.mp
  intro hle
  rcases atMost_toFloat hle with ⟨order, horder, hatMost⟩
  rw [Binary64.compare?_swap, h] at horder
  cases horder
  cases hatMost

theorem compare?_lt_trans {a b c : Number} (hab : a.compare? b = some .lt)
    (hbc : b.compare? c = some .lt) : a.compare? c = some .lt := by
  rcases a.float_or_word with ⟨x, rfl⟩ | ⟨k, m, rfl⟩
  · rw [compare?_float_left] at hab ⊢
    exact lt_of_lt_of_atMost hab (atMost_of_compare?_lt hbc)
  rcases c.float_or_word with ⟨z, rfl⟩ | ⟨l, n, rfl⟩
  · rw [compare?_float_right] at hbc ⊢
    exact lt_of_atMost_of_lt (atMost_of_compare?_lt hab) hbc
  rw [Reading.compare?_number, Option.some.injEq, Int.compare_eq_lt]
  rcases b.float_or_word with ⟨y, rfl⟩ | ⟨k', j, rfl⟩
  · rw [compare?_float_right] at hab
    rw [compare?_float_left] at hbc
    exact value_lt_of_toFloat_lt (lt_of_lt_of_atMost hab (atMost_of_lt hbc))
  · rw [Reading.compare?_number, Option.some.injEq, Int.compare_eq_lt] at hab hbc
    exact Int.lt_trans hab hbc

end Number

/-!
## Values
-/

namespace Value

/-- Two numbers whose canonical texts stand in another order than they do. -/
def Crossed (a b : Value) : Prop :=
  exists m n, a = .number m ∧ b = .number n ∧
    m.compare? n ≠ some (compare m.toText n.toText)

def Mixed (a b c : Value) : Prop :=
  (a.isText = true ∧ Crossed b c) ∨ (b.isText = true ∧ Crossed a c) ∨
    (c.isText = true ∧ Crossed a b)

theorem orderIn_of_not_crossed {a b : Value} (h : ¬ Crossed a b) (last : Option Arena) :
    a.orderIn last b = some (rank toText last a b) := by
  rcases a with m | s | f <;> rcases b with n | t | g
  case number.number =>
    by_contra hne
    exact h ⟨m, n, rfl, rfl, hne⟩
  all_goals rfl

/-- A chain of lesser values with two crossed numbers in it. -/
theorem lt_trans_of_crossed {a b c : Value} {last : Option Arena} (hmixed : ¬ Mixed a b c)
    (hcrossed : Crossed a b ∨ Crossed b c ∨ Crossed a c)
    (hab : a.orderIn last b = some .lt) (hbc : b.orderIn last c = some .lt) :
    a.orderIn last c = some .lt := by
  rcases hcrossed with h | h | h
  · rcases id h with ⟨m, n, rfl, rfl, _⟩
    cases c with
    | number k => exact Number.compare?_lt_trans hab hbc
    | text s => exact absurd (Or.inr (Or.inr ⟨rfl, h⟩)) hmixed
    | function f => rfl
  · rcases id h with ⟨m, n, rfl, rfl, _⟩
    cases a with
    | number k => exact Number.compare?_lt_trans hab hbc
    | text s => exact absurd (Or.inl ⟨rfl, h⟩) hmixed
    | function f => cases hab
  · rcases id h with ⟨m, n, rfl, rfl, _⟩
    cases b with
    | number k => exact Number.compare?_lt_trans hab hbc
    | text s => exact absurd (Or.inr (Or.inl ⟨rfl, h⟩)) hmixed
    | function f => cases hbc

theorem orderIn_lt_trans {a b c : Value} {last : Option Arena} (hmixed : ¬ Mixed a b c)
    (hab : a.orderIn last b = some .lt) (hbc : b.orderIn last c = some .lt) :
    a.orderIn last c = some .lt := by
  cases Classical.em (Crossed a b ∨ Crossed b c ∨ Crossed a c) with
  | inl hcrossed => exact lt_trans_of_crossed hmixed hcrossed hab hbc
  | inr hnone =>
      rcases not_or.mp hnone with ⟨hfirst, hrest⟩
      rcases not_or.mp hrest with ⟨hsecond, hthird⟩
      rw [orderIn_of_not_crossed hfirst, Option.some.injEq] at hab
      rw [orderIn_of_not_crossed hsecond, Option.some.injEq] at hbc
      rw [orderIn_of_not_crossed hthird, Option.some.injEq]
      exact Std.TransCmp.lt_trans hab hbc

theorem compare?_of_not_function {l r : Value} (hl : l.isFunction = false)
    (hr : r.isFunction = false) (arena last : Option Arena) :
    l.compare? r arena = (l.orderIn last r, arena) := by
  rcases l with m | s | f <;> rcases r with n | t | g
  case function.function => cases hl
  case function.number => cases hl
  case function.text => cases hl
  case number.function => cases hr
  case text.function => cases hr
  all_goals rfl

theorem Mixed.not_function {a b c : Value} (h : Mixed a b c) :
    a.isFunction = false ∧ b.isFunction = false ∧ c.isFunction = false := by
  have htext : forall {v : Value}, v.isText = true -> v.isFunction = false := by
    intro v hv
    cases v with
    | text s => rfl
    | number n => cases hv
    | function f => cases hv
  rcases h with ⟨h, _, _, rfl, rfl, _⟩ | ⟨h, _, _, rfl, rfl, _⟩ | ⟨h, _, _, rfl, rfl, _⟩
  · exact ⟨htext h, rfl, rfl⟩
  · exact ⟨rfl, htext h, rfl⟩
  · exact ⟨rfl, rfl, htext h⟩

theorem orderIn_eq_gt_iff {last : Option Arena} {l r : Value} :
    l.orderIn last r = some .gt ↔ r.orderIn last l = some .lt := by
  rw [orderIn_swap last l r]
  rcases l.orderIn last r with _ | (_ | _ | _) <;> simp

end Value

/-!
## Selections
-/

section

open Evaluation Interpretation

def selected (b : Builtin) (vs : List Value) (arena : Option Arena) : Option Value :=
  ((Expr.call (.constant (some (.function ⟨0, .builtin b⟩)))
    (vs.map fun v => .constant (some v))).evaluate {} ⟨arena, []⟩).1

theorem yields_constant (v : Value) (arena : Option Arena) :
    Yields (Expr.constant (some v)).evaluate {} arena (some v) [] arena :=
  yields_pure (some v) {} arena

theorem determined_constants (vs : List Value) (arena : Option Arena) :
    Expr.Determined {} arena (vs.map fun v => .constant (some v)) vs [] arena := by
  induction vs with
  | nil => exact .nil
  | cons v vs ih => exact .cons (yields_constant v arena) ih

variable {b : Builtin} {keep : Ordering} (hb : b.keep? = some keep)
include hb

theorem selected_eq {v best : Value} {vs : List Value} {arena after : Option Arena}
    (h : Yields (vs.foldlM (better keep) v) {} arena best [] after) :
    selected b (v :: vs) arena = some best := by
  have hvalues := (determined_constants (v :: vs) arena).values
  have hcall := yields_call rfl hb (yields_constant (.function ⟨0, .builtin b⟩) arena)
    (hvalues.bind (h.map some))
  exact congrArg Prod.fst (hcall [])

theorem selected_three {u v w : Value} {first second : Option Ordering} {arena : Option Arena}
    (hfirst : v.compare? u arena = (first, arena))
    (hsecond : w.compare? (if first = some keep then v else u) arena = (second, arena)) :
    selected b [u, v, w] arena =
      some (if second = some keep then w else if first = some keep then v else u) := by
  have hstep := yields_better keep {} u v arena
  have hlast := yields_better keep {} (if first = some keep then v else u) w arena
  simp only [hfirst] at hstep
  simp only [hsecond] at hlast
  exact selected_eq hb (hstep.bind (hlast.bind (yields_pure _ {} arena)))

/-- Two steps that do not add up to one make the selection depend on the order. -/
theorem selected_ne {x y z : Value} {last : Option Arena} (hx : x.isFunction = false)
    (hy : y.isFunction = false) (hz : z.isFunction = false)
    (hxy : x.orderIn last y = some keep) (hyz : y.orderIn last z = some keep)
    (hxz : x.orderIn last z ≠ some keep) (arena : Option Arena) :
    selected b [x, y, z] arena ≠ selected b [z, x, y] arena := by
  have hyx : y.orderIn last x ≠ some keep := by
    rw [Value.orderIn_swap, hxy, Option.map_some, ne_eq, Option.some.injEq]
    cases keep with
    | lt => exact nofun
    | eq => exact absurd rfl (Builtin.keep?_ne_eq hb)
    | gt => exact nofun
  have hkept : selected b [x, y, z] arena =
      some (if z.orderIn last x = some keep then z else x) := by
    have hlast : z.compare? (if y.orderIn last x = some keep then y else x) arena =
        (z.orderIn last x, arena) := by
      rw [if_neg hyx]
      exact Value.compare?_of_not_function hz hx arena last
    rw [selected_three hb (Value.compare?_of_not_function hy hx arena last) hlast, if_neg hyx]
  have hreplaced : selected b [z, x, y] arena = some y := by
    have hlast : y.compare? (if x.orderIn last z = some keep then x else z) arena =
        (some keep, arena) := by
      rw [if_neg hxz, ← hyz]
      exact Value.compare?_of_not_function hy hz arena last
    rw [selected_three hb (Value.compare?_of_not_function hx hz arena last) hlast, if_pos rfl]
  rw [hkept, hreplaced, ne_eq, Option.some.injEq]
  split
  · rintro rfl
    exact hxz hxy
  · rintro rfl
    exact hyx hxy

end

/--
In a run the lesser of two values is less than what the other one is less than, but for a
text beside two numbers that their canonical texts would order differently. Where it is not,
the extreme value depends on the order of the arguments.
-/
theorem less_transitive {a b c : Value} {first second third last : Option Arena}
    (hfirst : Covers last (a.compare? b first).2)
    (hsecond : Covers last (b.compare? c second).2)
    (hthird : Covers last (a.compare? c third).2)
    (hab : (a.compare? b first).1 = some .lt) (hbc : (b.compare? c second).1 = some .lt) :
    (¬ Value.Mixed a b c -> (a.compare? c third).1 = some .lt) ∧
      ((a.compare? c third).1 ≠ some .lt -> forall arena,
        selected .min [a, b, c] arena ≠ selected .min [c, a, b] arena ∧
          selected .max [c, b, a] arena ≠ selected .max [a, c, b] arena) := by
  rw [Value.compare?_eq_orderIn hfirst] at hab
  rw [Value.compare?_eq_orderIn hsecond] at hbc
  rw [Value.compare?_eq_orderIn hthird]
  refine ⟨fun hmixed => Value.orderIn_lt_trans hmixed hab hbc, ?_⟩
  intro hac arena
  have hmixed : Value.Mixed a b c := by
    by_contra hnone
    exact hac (Value.orderIn_lt_trans hnone hab hbc)
  rcases hmixed.not_function with ⟨ha, hb, hc⟩
  constructor
  · exact selected_ne rfl ha hb hc hab hbc hac arena
  · rw [← Value.orderIn_eq_gt_iff] at hab hbc
    rw [ne_eq, ← Value.orderIn_eq_gt_iff] at hac
    exact selected_ne rfl hc hb ha hbc hab hac arena

/-- A float lies between two words that no float stands for. -/
theorem less_transitive_words :
    ((Value.unsigned 0x20000000000001).compare? (.float 9007199254740994.0) none).1 = some .lt ∧
      ((Value.float 9007199254740994.0).compare? (.signed 0x20000000000003) none).1 = some .lt ∧
      ((Value.unsigned 0x20000000000001).compare? (.signed 0x20000000000003) none).1 =
        some .lt := by
  have hmixed : ¬ Value.Mixed (.unsigned 0x20000000000001) (.float 9007199254740994.0)
      (.signed 0x20000000000003) := by
    intro h
    rcases h with ⟨htext, _⟩ | ⟨htext, _⟩ | ⟨htext, _⟩ <;> cases htext
  have hfirst : ((Value.unsigned 0x20000000000001).compare? (.float 9007199254740994.0)
      none).1 = some .lt := by
    decide
  have hsecond : ((Value.float 9007199254740994.0).compare? (.signed 0x20000000000003)
      none).1 = some .lt := by
    decide
  have hchain := @less_transitive (.unsigned 0x20000000000001) (.float 9007199254740994.0)
    (.signed 0x20000000000003) none none none none trivial trivial trivial hfirst hsecond
  exact ⟨hfirst, hsecond, hchain.left hmixed⟩

/--
Ten is less than the text `5`, which is less than nine. The least of the three is nine or
the text, depending on their order.
-/
theorem less_not_transitive :
    ((Value.unsigned 10).compare? (.text "5") none).1 = some .lt ∧
      ((Value.text "5").compare? (.unsigned 9) none).1 = some .lt ∧
      ((Value.unsigned 10).compare? (.unsigned 9) none).1 = some .gt ∧
      selected .min [.unsigned 10, .text "5", .unsigned 9] none = some (.unsigned 9) ∧
      selected .min [.unsigned 9, .unsigned 10, .text "5"] none = some (.text "5") := by
  decide

end Equate
