import Equate.Proofs.Evaluation.Predefined
import Equate.Proofs.Value.Order

/-!
# Extreme arguments

The builtins for the least and the greatest value evaluate their arguments once each from
the left, up to the first one that is undetermined. One pass over the values then keeps the
better of the pick and the next value, and every comparison may change the arena. Read off
the arena at the end of a run, all these comparisons are made by one order, in which the
pick is the leftmost extreme value among those that were looked at.
-/

namespace Equate

open Arena (Covers)
open Evaluation Interpretation

/-!
## Arguments
-/

namespace Expr

/-- Each expression is evaluated where the one before it has left off, and has a value. -/
inductive Determined (context : Context) :
    Option Arena -> List Expr -> List Value -> List Diagnostic -> Option Arena -> Prop where
  | nil {arena : Option Arena} : Determined context arena [] [] [] arena
  | cons {e : Expr} {es : List Expr} {v : Value} {vs : List Value}
      {raised raised' : List Diagnostic} {arena middle after : Option Arena}
      (first : Yields e.evaluate context arena (some v) raised middle)
      (rest : Determined context middle es vs raised' after) :
      Determined context arena (e :: es) (v :: vs) (raised ++ raised') after

/-- The same up to an expression that has no value, behind which none is evaluated. -/
inductive Halted (context : Context) :
    Option Arena -> List Expr -> List Diagnostic -> Option Arena -> Prop where
  | here {e : Expr} {es : List Expr} {raised : List Diagnostic} {arena after : Option Arena}
      (first : Yields e.evaluate context arena none raised after) :
      Halted context arena (e :: es) raised after
  | there {e : Expr} {es : List Expr} {v : Value} {raised raised' : List Diagnostic}
      {arena middle after : Option Arena}
      (first : Yields e.evaluate context arena (some v) raised middle)
      (rest : Halted context middle es raised' after) :
      Halted context arena (e :: es) (raised ++ raised') after

theorem determined_or_halted (context : Context) (arena : Option Arena) (es : List Expr) :
    (exists vs raised after, Determined context arena es vs raised after) ∨
      exists raised after, Halted context arena es raised after := by
  induction es generalizing arena with
  | nil => exact Or.inl ⟨[], [], arena, .nil⟩
  | cons e es ih =>
      rcases e.isStable_evaluate context arena with ⟨v, raised, middle, hyields, _⟩
      cases v with
      | none => exact Or.inr ⟨raised, middle, .here hyields⟩
      | some v =>
          rcases ih middle with ⟨vs, raised', after, hrest⟩ | ⟨raised', after, hrest⟩
          · exact Or.inl ⟨v :: vs, raised ++ raised', after, .cons hyields hrest⟩
          · exact Or.inr ⟨raised ++ raised', after, .there hyields hrest⟩

section

variable {context : Context} {arena after : Option Arena} {es : List Expr}
  {raised : List Diagnostic}

theorem Determined.values {vs : List Value} (h : Determined context arena es vs raised after) :
    Yields (values (interpretAll es)) context arena (some vs) raised after := by
  induction h with
  | nil => exact yields_pure (some []) context _
  | @cons e es v vs raised raised' arena middle after first rest ih =>
      exact first.bind (ih.map fun answer => answer.map (v :: ·))

theorem Halted.values (h : Halted context arena es raised after) :
    Yields (values (interpretAll es)) context arena none raised after := by
  induction h with
  | @here e es raised arena after first =>
      rw [← List.append_nil raised]
      exact first.bind (yields_pure none context after)
  | @there e es v raised raised' arena middle after first rest ih =>
      exact first.bind (ih.map fun answer => answer.map (v :: ·))

end

end Expr

/-!
## One pass
-/

section

variable (keep : Ordering) (cmp : Value -> Value -> Ordering)

/-- No value is better than the pick, and those that are equal to it do not stand before it. -/
def Leftmost (vs : List Value) (pick : Value) (i : Nat) : Prop :=
  vs[i]? = some pick ∧ forall j v, vs[j]? = some v ->
    cmp v pick ≠ keep ∧ (cmp v pick = .eq -> i ≤ j)

end

section

variable {keep : Ordering} (hkeep : keep ≠ .eq) {cmp : Value -> Value -> Ordering}
  [Std.TransCmp cmp]
include hkeep

theorem swap_of_better {p v w : Value} (hw : cmp w p ≠ keep) (hv : cmp v p = keep) :
    cmp w v = keep.swap := by
  cases keep with
  | lt =>
      have hle : (cmp p w).isLE = true :=
        Std.OrientedCmp.isGE_iff_isLE.mp (Ordering.ne_lt_iff_isGE.mp hw)
      exact Std.OrientedCmp.gt_of_lt (Std.TransCmp.lt_of_lt_of_isLE hv hle)
  | eq => exact absurd rfl hkeep
  | gt =>
      have hle : (cmp w p).isLE = true := Ordering.ne_gt_iff_isLE.mp hw
      exact Std.TransCmp.lt_of_isLE_of_lt hle (Std.OrientedCmp.lt_of_gt hv)

theorem leftmost_singleton (v : Value) : Leftmost keep cmp [v] v 0 := by
  refine ⟨rfl, ?_⟩
  intro j w hw
  have hself : cmp v v = .eq := Std.ReflCmp.compare_self
  rw [List.mem_singleton.mp (List.mem_of_getElem? hw), hself]
  exact ⟨hkeep.symm, fun _ => Nat.zero_le j⟩

theorem Leftmost.step {seen : List Value} {pick : Value} {i : Nat}
    (h : Leftmost keep cmp seen pick i) (v : Value) :
    Leftmost keep cmp (seen ++ [v]) (if cmp v pick = keep then v else pick)
      (if cmp v pick = keep then seen.length else i) := by
  rcases h with ⟨hpick, hseen⟩
  have hi : i < seen.length := (List.getElem?_eq_some_iff.mp hpick).choose
  -- A value of the longer list is an earlier one or the last one.
  have hsplit : forall {j w}, (seen ++ [v])[j]? = some w ->
      seen[j]? = some w ∨ seen.length ≤ j ∧ w = v := by
    intro j w hw
    rw [List.getElem?_append] at hw
    split at hw
    · exact Or.inl hw
    · exact Or.inr ⟨by omega, List.mem_singleton.mp (List.mem_of_getElem? hw)⟩
  cases Decidable.em (cmp v pick = keep) with
  | inl hbetter =>
      rw [if_pos hbetter, if_pos hbetter]
      refine ⟨List.getElem?_concat_length, ?_⟩
      intro j w hw
      rcases hsplit hw with hold | ⟨hj, rfl⟩
      · rw [swap_of_better hkeep (hseen j w hold).left hbetter]
        cases keep with
        | lt => exact ⟨by decide, nofun⟩
        | eq => exact absurd rfl hkeep
        | gt => exact ⟨by decide, nofun⟩
      · have hself : cmp w w = .eq := Std.ReflCmp.compare_self
        rw [hself]
        exact ⟨hkeep.symm, fun _ => hj⟩
  | inr hnot =>
      rw [if_neg hnot, if_neg hnot]
      constructor
      · rw [List.getElem?_append_left hi]
        exact hpick
      · intro j w hw
        rcases hsplit hw with hold | ⟨hj, rfl⟩
        · exact hseen j w hold
        · exact ⟨hnot, fun _ => Nat.le_trans (Nat.le_of_lt hi) hj⟩

end

theorem yields_better (keep : Ordering) (context : Context) (pick v : Value)
    (arena : Option Arena) :
    Yields (better keep pick v) context arena
      (if (v.compare? pick arena).1 = some keep then v else pick) []
      (v.compare? pick arena).2 :=
  yields_of_silent fun _ => rfl

/-- The comparisons of a pass are read off any arena that the run comes to afterwards. -/
theorem yields_foldlM_better {keep : Ordering} (hkeep : keep ≠ .eq) (context : Context)
    (vs seen : List Value) (pick : Value) (i : Nat) (arena : Option Arena) :
    exists best k after, Yields (vs.foldlM (better keep) pick) context arena best [] after ∧
      Covers after arena ∧ forall last cmp, Std.TransCmp cmp -> Covers last after ->
        (forall a b, a ∈ seen ++ vs -> b ∈ seen ++ vs -> a.orderIn last b = some (cmp a b)) ->
        Leftmost keep cmp seen pick i -> Leftmost keep cmp (seen ++ vs) best k := by
  induction vs generalizing seen pick i arena with
  | nil =>
      refine ⟨pick, i, arena, yields_pure pick context arena, Covers.refl arena, ?_⟩
      intro last cmp _ _ _ h
      rw [List.append_nil]
      exact h
  | cons v vs ih =>
      have hcovers := (Value.settling_compare? v pick).covers arena
      have hstep := yields_better keep context pick v arena
      rcases ih (seen ++ [v]) (if (v.compare? pick arena).1 = some keep then v else pick)
        (if (v.compare? pick arena).1 = some keep then seen.length else i)
        (v.compare? pick arena).2 with ⟨best, k, after, hrest, hafter, hleftmost⟩
      refine ⟨best, k, after, hstep.bind hrest, hafter.trans hcovers, ?_⟩
      intro last cmp htrans hlast horder h
      rw [List.append_assoc] at hleftmost
      have hanswer : (v.compare? pick arena).1 = some (cmp v pick) := by
        rw [Value.compare?_eq_orderIn (hlast.trans hafter)]
        exact horder v pick (List.mem_append_right seen List.mem_cons_self)
          (List.mem_append_left (v :: vs) (List.mem_of_getElem? h.left))
      apply hleftmost last cmp htrans hlast horder
      simp only [hanswer, Option.some.injEq]
      exact h.step hkeep v

/-!
## Extreme values
-/

def OneClass (vs : List Value) : Prop :=
  (forall v, v ∈ vs -> v.Integral) ∨ forall v, v ∈ vs -> v.Textual

theorem orderIn_of_oneClass {vs : List Value} (h : OneClass vs) (last : Option Arena) :
    exists cmp, Std.TransCmp cmp ∧
      forall a b, a ∈ vs -> b ∈ vs -> a.orderIn last b = some (cmp a b) := by
  rcases h with h | h
  · refine ⟨Value.rank (fun v => v.integer?.getD 0) last, inferInstance, ?_⟩
    intro a b ha hb
    exact Value.orderIn_of_integral (h a ha) (h b hb) last
  · refine ⟨Value.rank Value.toText last, inferInstance, ?_⟩
    intro a b ha hb
    exact Value.orderIn_of_textual (h a ha) (h b hb) last

/--
One of the values that no other one is better than, whenever they are compared later. Those
that are equal to it do not stand before it.
-/
def Extreme (keep : Ordering) (vs : List Value) (best : Value) (after : Option Arena) : Prop :=
  exists i : Nat, vs[i]? = some best ∧
    forall later, Covers later after -> forall (j : Nat) (v : Value), vs[j]? = some v ->
      (v.compare? best later).1 ≠ some keep ∧ ((v.compare? best later).1 = some .eq -> i ≤ j)

theorem yields_best {keep : Ordering} (hkeep : keep ≠ .eq) {v : Value} {vs : List Value}
    (hclass : OneClass (v :: vs)) (context : Context) (arena : Option Arena) :
    exists best after, Yields (vs.foldlM (better keep) v) context arena best [] after ∧
      Covers after arena ∧ Extreme keep (v :: vs) best after := by
  rcases yields_foldlM_better hkeep context vs [v] v 0 arena with
    ⟨best, i, after, hyields, hcovers, hleftmost⟩
  have hsome : forall last, Covers last after -> exists cmp, Std.TransCmp cmp ∧
      (forall a b, a ∈ v :: vs -> b ∈ v :: vs -> a.orderIn last b = some (cmp a b)) ∧
      Leftmost keep cmp (v :: vs) best i := by
    intro last hlast
    rcases orderIn_of_oneClass hclass last with ⟨cmp, htrans, horder⟩
    exact ⟨cmp, htrans, horder,
      hleftmost last cmp htrans hlast horder (leftmost_singleton hkeep v)⟩
  rcases hsome after (Covers.refl after) with ⟨_, _, _, hbest, _⟩
  refine ⟨best, after, hyields, hcovers, i, hbest, ?_⟩
  intro later hlater j w hw
  -- The answer is read off the arena that it leaves behind.
  have hasked := (Value.settling_compare? w best).covers later
  rcases hsome _ (hasked.trans hlater) with ⟨cmp, _, horder, _, hothers⟩
  have hanswer : (w.compare? best later).1 = some (cmp w best) := by
    rw [Value.compare?_eq_orderIn (Covers.refl _)]
    exact horder w best (List.mem_of_getElem? hw) (List.mem_of_getElem? hbest)
  rw [hanswer, Option.some.injEq, ne_eq, Option.some.injEq]
  exact hothers j w hw

/-!
## Calls
-/

def Builtin.keep? : Builtin -> Option Ordering
  | .min => some .lt
  | .max => some .gt
  | _ => none

theorem Builtin.keep?_ne_eq {b : Builtin} {keep : Ordering} (h : b.keep? = some keep) :
    keep ≠ .eq := by
  rintro rfl
  cases b <;> cases h

theorem callBuiltin_of_keep? {b : Builtin} {keep : Ordering} (h : b.keep? = some keep)
    (first : Interpretation) (rest : List Interpretation) :
    callBuiltin b (first :: rest) = extremum keep first rest := by
  cases b <;> cases h <;> rfl

section

variable {f : Function} {b : Builtin} {keep : Ordering} {callee : Expr} {context : Context}
  {arena middle : Option Arena} {raised : List Diagnostic}

theorem yields_call (hf : f.callee = .builtin b) (hb : b.keep? = some keep)
    (hcallee : Yields callee.evaluate context arena (some (.function f)) raised middle)
    {e : Expr} {es : List Expr} {answer : Option Value} {raised' : List Diagnostic}
    {after : Option Arena}
    (h : Yields (extremum keep e.interpret (Expr.interpretAll es)) context middle answer
      raised' after) :
    Yields (Expr.call callee (e :: es)).evaluate context arena answer (raised ++ raised')
      after := by
  apply hcallee.bind
  rw [call_function, callFunction_builtin hf]
  show Yields (callBuiltin b (e.interpret :: Expr.interpretAll es)) _ _ _ _ _
  rw [callBuiltin_of_keep? hb]
  exact h

/--
A call for an extreme value whose arguments have values evaluates them once each from the
left and answers the leftmost extreme one. If an argument is undetermined, then so is the
call, and no argument behind it is evaluated.
-/
theorem extremum_selects (hf : f.callee = .builtin b) (hb : b.keep? = some keep)
    (hcallee : Yields callee.evaluate context arena (some (.function f)) raised middle)
    (e : Expr) (es : List Expr) :
    (forall vs raised' after, Expr.Determined context middle (e :: es) vs raised' after ->
      OneClass vs -> exists best last,
        Yields (Expr.call callee (e :: es)).evaluate context arena (some best)
          (raised ++ raised') last ∧ Covers last after ∧ Extreme keep vs best last) ∧
    (forall raised' after, Expr.Halted context middle (e :: es) raised' after ->
      Yields (Expr.call callee (e :: es)).evaluate context arena none (raised ++ raised')
        after) ∧
    ((exists vs raised' after, Expr.Determined context middle (e :: es) vs raised' after) ∨
      exists raised' after, Expr.Halted context middle (e :: es) raised' after) := by
  refine ⟨?_, ?_, Expr.determined_or_halted context middle (e :: es)⟩
  · intro vs raised' after hvalues hclass
    have hrun := hvalues.values
    cases vs with
    | nil => cases hvalues
    | cons v vs =>
        rcases yields_best (Builtin.keep?_ne_eq hb) hclass context after with
          ⟨best, last, hbest, hcovers, hextreme⟩
        refine ⟨best, last, yields_call hf hb hcallee ?_, hcovers, hextreme⟩
        rw [← List.append_nil raised']
        exact hrun.bind (hbest.map some)
  · intro raised' after hhalted
    apply yields_call hf hb hcallee
    rw [← List.append_nil raised']
    exact hhalted.values.bind (yields_pure none context after)

end

/-- The first of two equal integers is the greatest, though they are of different kinds. -/
theorem extremum_selects_max :
    exists best last,
      Yields (Expr.call (.constant (some (.function ⟨0, .builtin .max⟩)))
        [.constant (some (.signed (-1))), .constant (some (.signed 7)),
          .constant (some (.unsigned 7))]).evaluate {} none (some best) [] last ∧
        Covers last none ∧ Extreme .gt [.signed (-1), .signed 7, .unsigned 7] best last := by
  have hconstant : forall v : Value,
      Yields (Expr.constant (some v)).evaluate {} none (some v) [] none :=
    fun v => yields_pure (some v) {} none
  have harguments : Expr.Determined {} none [.constant (some (.signed (-1))),
      .constant (some (.signed 7)), .constant (some (.unsigned 7))]
      [.signed (-1), .signed 7, .unsigned 7] [] none :=
    .cons (hconstant _) (.cons (hconstant _) (.cons (hconstant _) .nil))
  have hclass : OneClass [.signed (-1), .signed 7, .unsigned 7] := by
    apply Or.inl
    intro v hv
    simp only [List.mem_cons, List.not_mem_nil, or_false] at hv
    rcases hv with rfl | rfl | rfl <;> exact .integer rfl
  exact (extremum_selects rfl rfl (hconstant _) _ _).left _ [] none harguments hclass

end Equate
