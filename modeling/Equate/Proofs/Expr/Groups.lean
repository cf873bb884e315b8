import Equate.Evaluation

/-!
# Groups mean nothing by themselves

A group keeps operands together while an expression is read. In the tree that has been read
it stands for its inside, wherever the inside is asked for its value or for its name.
-/

namespace Equate
namespace Expr

mutual

def strip : Expr -> Expr
  | .constant v => .constant v
  | .counter => .counter
  | .name n => .name n
  | .unary op e => .unary op e.strip
  | .binary op l r => .binary op l.strip r.strip
  | .group e => e.strip
  | .conditional c t f => .conditional c.strip t.strip f.strip
  | .index s i => .index s.strip i.strip
  | .member l r => .member l.strip r.strip
  | .call f args => .call f.strip (stripAll args)

def stripAll : List Expr -> List Expr
  | [] => []
  | e :: es => e.strip :: stripAll es

end

mutual

def IsGroupFree : Expr -> Prop
  | .constant _ => True
  | .counter => True
  | .name _ => True
  | .unary _ e => e.IsGroupFree
  | .binary _ l r => l.IsGroupFree ∧ r.IsGroupFree
  | .group _ => False
  | .conditional c t f => c.IsGroupFree ∧ t.IsGroupFree ∧ f.IsGroupFree
  | .index s i => s.IsGroupFree ∧ i.IsGroupFree
  | .member l r => l.IsGroupFree ∧ r.IsGroupFree
  | .call f args => f.IsGroupFree ∧ AllGroupFree args

def AllGroupFree : List Expr -> Prop
  | [] => True
  | e :: es => e.IsGroupFree ∧ AllGroupFree es

end

/-!
## What is left
-/

mutual

theorem isGroupFree_strip : (e : Expr) -> e.strip.IsGroupFree
  | .constant _ => trivial
  | .counter => trivial
  | .name _ => trivial
  | .unary _ e => isGroupFree_strip e
  | .binary _ l r => ⟨isGroupFree_strip l, isGroupFree_strip r⟩
  | .group e => isGroupFree_strip e
  | .conditional c t f => ⟨isGroupFree_strip c, isGroupFree_strip t, isGroupFree_strip f⟩
  | .index s i => ⟨isGroupFree_strip s, isGroupFree_strip i⟩
  | .member l r => ⟨isGroupFree_strip l, isGroupFree_strip r⟩
  | .call f args => ⟨isGroupFree_strip f, allGroupFree_stripAll args⟩

theorem allGroupFree_stripAll : (es : List Expr) -> AllGroupFree (stripAll es)
  | [] => trivial
  | e :: es => ⟨isGroupFree_strip e, allGroupFree_stripAll es⟩

end

/-!
## What it means

Value and name are shown together, since a member asks for names where a sum asks for values,
and a called function may ask for either.
-/

mutual

theorem interpret_strip : (e : Expr) -> e.strip.interpret = e.interpret
  | .constant _ => rfl
  | .counter => rfl
  | .name _ => rfl
  | .unary op e => by
      simp only [strip, interpret, interpret_strip e]
  | .binary op l r => by
      cases op with
      | logical o => simp only [strip, interpret, interpret_strip l, interpret_strip r]
      | _ => simp only [strip, interpret, interpret_strip l, interpret_strip r]
  | .group e => interpret_strip e
  | .conditional c t f => by
      simp only [strip, interpret, interpret_strip c, interpret_strip t, interpret_strip f]
  | .index s i => by
      simp only [strip, interpret, interpret_strip s, interpret_strip i]
  | .member l r => by
      simp only [strip, interpret, interpret_strip l, interpret_strip r]
  | .call f args => by
      simp only [strip, interpret, interpret_strip f, interpretAll_stripAll args]

theorem interpretAll_stripAll : (es : List Expr) -> interpretAll (stripAll es) = interpretAll es
  | [] => rfl
  | e :: es => by
      simp only [stripAll, interpretAll, interpret_strip e, interpretAll_stripAll es]

end

/--
Without its groups an expression has the same value and the same name in every context. It
raises the same diagnostics on the way and leaves the same arena.
-/
theorem evaluate_strip (e : Expr) :
    e.strip.IsGroupFree ∧ e.strip.evaluate = e.evaluate ∧ e.strip.nameOf = e.nameOf := by
  have hmeaning := interpret_strip e
  refine ⟨isGroupFree_strip e, ?_, ?_⟩
  · unfold evaluate
    rw [hmeaning]
  · unfold nameOf
    rw [hmeaning]

end Expr
end Equate
