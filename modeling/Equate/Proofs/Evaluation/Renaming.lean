import Mathlib.Data.List.Forall2
import Equate.Expr.Simplify
import Equate.Proofs.Function.Renaming

/-!
# Evaluation under a renaming

An expression whose functions are renamed has its old value, renamed, among symbols and in an
arena that are renamed as well. It raises the same diagnostics: they name operators, texts and
values that are no functions, and a name has no part of a function but the text of its own name.
-/

namespace Equate

def Context.rename (r : Renaming) (context : Context) : Context :=
  { context with symbols := context.symbols.rename r }

def Progress.rename (r : Renaming) (progress : Progress) : Progress :=
  { progress with arena := progress.arena.map (Arena.rename r) }

namespace Evaluation

/-!
## Evaluations that carry a renaming
-/

/--
One evaluation does among renamed things what the other does among those as they were, and
its answer is that of the other one under a map.
-/
def Carries (r : Renaming) (f : α -> β) (m : Evaluation α) (m' : Evaluation β) : Prop :=
  forall context progress, m' (context.rename r) (progress.rename r) =
    (f (m context progress).1, (m context progress).2.rename r)

section

variable {r : Renaming}

theorem carries_pure (f : α -> β) (a : α) : Carries r f (pure a) (pure (f a)) := by
  intro context progress
  rfl

theorem Carries.bind {f : α -> α'} {g : β -> β'} {m : Evaluation α} {m' : Evaluation α'}
    {k : α -> Evaluation β} {k' : α' -> Evaluation β'} (hm : Carries r f m m')
    (hk : forall a, Carries r g (k a) (k' (f a))) : Carries r g (m >>= k) (m' >>= k') := by
  intro context progress
  have hrun : (m' >>= k') (context.rename r) (progress.rename r) =
      k' (m' (context.rename r) (progress.rename r)).1 (context.rename r)
        (m' (context.rename r) (progress.rename r)).2 := rfl
  rw [hrun, hm context progress]
  exact hk _ context _

theorem Carries.map {f : α -> α'} {g : β -> β'} {m : Evaluation α} {m' : Evaluation α'}
    {h : α -> β} {h' : α' -> β'} (hm : Carries r f m m') (hh : forall a, h' (f a) = g (h a)) :
    Carries r g (do return h (← m)) (do return h' (← m')) := by
  apply hm.bind
  intro a
  rw [hh]
  exact carries_pure g (h a)

theorem carries_emit (diagnostic : Diagnostic) :
    Carries r id (emit diagnostic) (emit diagnostic) := by
  intro context progress
  rfl

theorem carries_lookup (name : String) :
    Carries r (Option.map (Symbol.rename r)) (lookup name) (lookup name) := by
  intro context progress
  rfl

theorem carries_programCounter : Carries r (Value.rename r) programCounter programCounter := by
  intro context progress
  rfl

theorem carries_withArena {f : α -> β} {question : Option Arena -> α × Option Arena}
    {question' : Option Arena -> β × Option Arena}
    (h : forall arena, question' (arena.map (Arena.rename r)) =
      (f (question arena).1, (question arena).2.map (Arena.rename r))) :
    Carries r f (withArena question) (withArena question') := by
  intro context progress
  have hrun (progress : Progress) : withArena question' (context.rename r) progress =
      ((question' progress.arena).1, { progress with arena := (question' progress.arena).2 }) :=
    rfl
  rw [hrun]
  change ((question' (progress.arena.map (Arena.rename r))).1,
    Progress.mk (question' (progress.arena.map (Arena.rename r))).2 progress.diagnostics) = _
  rw [h progress.arena]
  rfl

theorem carries_valueOfName (name : String) :
    Carries r (Option.map (Value.rename r)) (valueOfName name) (valueOfName name) := by
  apply (carries_lookup name).map
  intro symbol
  cases symbol with
  | none => rfl
  | some symbol => exact symbol.value?_rename r

theorem carries_valueOfName? (name : Option String) :
    Carries r (Option.map (Value.rename r)) (valueOfName? name) (valueOfName? name) := by
  cases name with
  | none => exact carries_pure _ none
  | some name => exact carries_valueOfName name

theorem carries_report (outcome : Except Diagnostic Value) :
    Carries r (Option.map (Value.rename r)) (report outcome)
      (report (outcome.map (Value.rename r))) := by
  cases outcome with
  | ok v => exact carries_pure _ (some v)
  | error diagnostic => exact (carries_emit diagnostic).bind fun _ => carries_pure _ none

theorem carries_unary (op : UnaryOp) (v : Option Value) :
    Carries r (Option.map (Value.rename r)) (unary op v) (unary op (v.map (Value.rename r))) := by
  cases v with
  | none => exact carries_pure _ none
  | some v =>
      change Carries r _ (report (op.apply v)) (report (op.apply (v.rename r)))
      rw [op.apply_rename]
      exact carries_report (op.apply v)

theorem carries_applyBinary (op : BinaryOp) (v u : Value) :
    Carries r (Except.map (Value.rename r)) (applyBinary op v u)
      (applyBinary op (v.rename r) (u.rename r)) :=
  carries_withArena (op.apply_rename r v u)

theorem carries_binary (op : BinaryOp) (v u : Option Value) :
    Carries r (Option.map (Value.rename r)) (binary op v u)
      (binary op (v.map (Value.rename r)) (u.map (Value.rename r))) := by
  cases op with
  | logical o =>
      change Carries r _ (pure (if o.decides v then v else u))
        (pure (if o.decides (v.map (Value.rename r)) then _ else _))
      rw [o.decides_rename]
      split <;> exact carries_pure _ _
  | _ =>
      cases v with
      | none => exact carries_pure _ none
      | some v =>
          cases u with
          | none => exact carries_pure _ none
          | some u => exact (carries_applyBinary _ v u).bind carries_report

end

end Evaluation

/-!
## Interpretations that carry a renaming
-/

namespace Interpretation

open Evaluation

structure Carries (r : Renaming) (i i' : Interpretation) : Prop where
  value : Evaluation.Carries r (Option.map (Value.rename r)) i.value i'.value
  name : Evaluation.Carries r id i.name i'.name

section

variable {r : Renaming}

theorem carries_ofValue {m m' : Evaluation (Option Value)}
    (h : Evaluation.Carries r (Option.map (Value.rename r)) m m') :
    Carries r (ofValue m) (ofValue m') where
  value := h
  name := by
    apply h.map
    intro v
    cases v with
    | none => rfl
    | some v => exact congrArg some (v.toText_rename r)

theorem carries_ofName {m m' : Evaluation (Option String)} (h : Evaluation.Carries r id m m') :
    Carries r (ofName m) (ofName m') where
  value := h.bind carries_valueOfName?
  name := h

theorem carries_undetermined : Carries r undetermined undetermined :=
  carries_ofValue (carries_pure _ none)

theorem carries_indexName {subject subject' index index' : Interpretation}
    (hs : Carries r subject subject') (hi : Carries r index index') :
    Evaluation.Carries r id (indexName subject index) (indexName subject' index') := by
  apply hs.name.bind
  intro s
  apply hi.value.bind
  intro i
  cases s with
  | none => exact carries_pure id none
  | some s =>
      cases i with
      | none => exact carries_pure id none
      | some i =>
          change Evaluation.Carries r id _ (pure (some (s ++ "[" ++ (i.rename r).toText ++ "]")))
          rw [i.toText_rename]
          exact carries_pure id _

theorem carries_memberName {left left' right right' : Interpretation}
    (hl : Carries r left left') (hr : Carries r right right') :
    Evaluation.Carries r id (memberName left right) (memberName left' right') := by
  apply hl.name.bind
  intro a
  apply hr.name.bind
  intro b
  cases a <;> cases b <;> exact carries_pure id _

theorem carries_better (keep : Ordering) (pick candidate : Value) :
    Evaluation.Carries r (Value.rename r) (better keep pick candidate)
      (better keep (pick.rename r) (candidate.rename r)) := by
  have hcompare : Evaluation.Carries r id (compareValues candidate pick)
      (compareValues (candidate.rename r) (pick.rename r)) :=
    carries_withArena (candidate.compare?_rename r pick)
  apply hcompare.map
  intro order
  dsimp only [id]
  split <;> rfl

theorem carries_foldlM_better (keep : Ordering) (vs : List Value) (pick : Value) :
    Evaluation.Carries r (Value.rename r) (vs.foldlM (better keep) pick)
      ((vs.map (Value.rename r)).foldlM (better keep) (pick.rename r)) := by
  induction vs generalizing pick with
  | nil => exact carries_pure _ pick
  | cons v vs ih =>
      rw [List.map_cons, List.foldlM_cons, List.foldlM_cons]
      exact (carries_better keep pick v).bind ih

theorem carries_refuseCount (b : Builtin) (found : Nat) :
    Evaluation.Carries r (Option.map (Value.rename r)) (refuseCount b found)
      (refuseCount b found) :=
  (carries_emit _).bind fun _ => carries_pure _ none

section

variable {args args' : List Interpretation} (h : List.Forall₂ (Carries r) args args')
include h

theorem carries_values :
    Evaluation.Carries r (Option.map (List.map (Value.rename r))) (values args)
      (values args') := by
  induction h with
  | nil => exact carries_pure _ (some [])
  | cons hfirst hrest ih =>
      apply hfirst.value.bind
      intro v
      cases v with
      | none => exact carries_pure _ none
      | some v =>
          apply ih.map
          intro vs
          cases vs <;> rfl

theorem carries_firstOf : Carries r (firstOf args) (firstOf args') := by
  cases h with
  | nil => exact carries_undetermined
  | cons hfirst hrest => exact hfirst

theorem carries_getLast :
    Carries r (args.getLast?.getD undetermined) (args'.getLast?.getD undetermined) := by
  rw [List.getLast?_eq_head?_reverse, List.getLast?_eq_head?_reverse]
  exact carries_firstOf (List.forall₂_reverse_iff.mpr h)

theorem carries_second :
    Carries r (args[1]?.getD (firstOf args)) (args'[1]?.getD (firstOf args')) := by
  cases h with
  | nil => exact carries_undetermined
  | cons hfirst hrest =>
      cases hrest with
      | nil => exact hfirst
      | cons hsecond hrest => exact hsecond

end

theorem carries_extremum (keep : Ordering) {first first' : Interpretation}
    {rest rest' : List Interpretation} (hfirst : Carries r first first')
    (hrest : List.Forall₂ (Carries r) rest rest') :
    Evaluation.Carries r (Option.map (Value.rename r)) (extremum keep first rest)
      (extremum keep first' rest') := by
  apply (carries_values (.cons hfirst hrest)).bind
  intro vs
  rcases vs with _ | (_ | ⟨v, vs⟩)
  · exact carries_pure _ none
  · exact carries_pure _ none
  · exact (carries_foldlM_better keep vs v).map fun _ => rfl

theorem carries_callBuiltin (b : Builtin) {args args' : List Interpretation}
    (h : List.Forall₂ (Carries r) args args') :
    Evaluation.Carries r (Option.map (Value.rename r)) (callBuiltin b args)
      (callBuiltin b args') := by
  have hrefuse : Evaluation.Carries r (Option.map (Value.rename r))
      (refuseCount b args.length) (refuseCount b args'.length) := by
    rw [h.length_eq]
    exact carries_refuseCount b args'.length
  cases h with
  | nil => cases b <;> exact hrefuse
  | cons hfirst hrest =>
      cases b with
      | min => exact carries_extremum .lt hfirst hrest
      | max => exact carries_extremum .gt hfirst hrest
      | str =>
          cases hrest with
          | nil =>
              apply hfirst.value.map
              intro v
              cases v with
              | none => rfl
              | some v => exact congrArg (fun s => some (Value.text s)) (v.toText_rename r)
          | cons hsecond hrest => exact hrefuse
      | len =>
          cases hrest with
          | nil =>
              apply hfirst.value.map
              intro v
              cases v with
              | none => rfl
              | some v =>
                  exact congrArg (fun s => some (Value.unsigned s.length.toUInt64))
                    (v.toText_rename r)
          | cons hsecond hrest => exact hrefuse
      | defined =>
          cases hrest with
          | nil =>
              apply hfirst.name.bind
              intro name
              cases name with
              | none => exact carries_pure _ none
              | some name =>
                  apply (carries_lookup name).map
                  intro symbol
                  cases symbol <;> rfl
          | cons hsecond hrest => exact hrefuse

theorem carries_callFunction (f : Function) (args args' : List Interpretation)
    (h : List.Forall₂ (Carries r) args args') :
    Evaluation.Carries r (Option.map (Value.rename r)) (callFunction f args)
      (callFunction (f.rename r) args') := by
  rcases f with ⟨id, b | ⟨name, rule⟩⟩
  · unfold callFunction
    exact carries_callBuiltin b h
  cases rule with
  | call =>
      cases h with
      | nil =>
          unfold callFunction
          exact carries_pure _ none
      | @cons callee callee' rest rest' hfirst hrest =>
          unfold callFunction
          apply hfirst.value.bind
          intro v
          rcases v with _ | (n | s | g)
          · exact carries_pure _ none
          · exact carries_report _
          · exact carries_report _
          · exact carries_callFunction g rest rest' hrest
  | nothing =>
      unfold callFunction
      exact carries_pure _ none
  | first =>
      unfold callFunction
      exact (carries_firstOf h).value
  | last =>
      unfold callFunction
      exact (carries_getLast h).value
  | index =>
      unfold callFunction
      exact (carries_indexName (carries_firstOf h) (carries_second h)).bind carries_valueOfName?
  | name =>
      unfold callFunction
      apply (carries_firstOf h).name.map
      intro name
      cases name <;> rfl
  | simplify =>
      unfold callFunction
      exact (carries_firstOf h).value
  | emit =>
      unfold callFunction
      exact (carries_emit _).bind fun _ => (carries_firstOf h).value
  | count =>
      unfold callFunction
      rw [h.length_eq]
      exact carries_pure _ (some (Value.unsigned args'.length.toUInt64))
  | counter =>
      unfold callFunction
      exact carries_programCounter.map fun _ => rfl

theorem carries_call (v : Option Value) {args args' : List Interpretation}
    (h : List.Forall₂ (Carries r) args args') :
    Evaluation.Carries r (Option.map (Value.rename r)) (call v args)
      (call (v.map (Value.rename r)) args') := by
  rcases v with _ | (n | s | f)
  · exact carries_pure _ none
  · exact carries_report (.error (.notAFunction (.number n)))
  · exact carries_report (.error (.notAFunction (.text s)))
  · exact carries_callFunction f args args' h

end

end Interpretation

/-!
## Expressions
-/

namespace Expr

mutual

def rename (r : Renaming) : Expr -> Expr
  | .constant v => .constant (v.map (Value.rename r))
  | .counter => .counter
  | .name n => .name n
  | .unary op e => .unary op (e.rename r)
  | .binary op a b => .binary op (a.rename r) (b.rename r)
  | .group e => .group (e.rename r)
  | .conditional c t f => .conditional (c.rename r) (t.rename r) (f.rename r)
  | .index s i => .index (s.rename r) (i.rename r)
  | .member a b => .member (a.rename r) (b.rename r)
  | .call f args => .call (f.rename r) (renameAll r args)

def renameAll (r : Renaming) : List Expr -> List Expr
  | [] => []
  | e :: es => e.rename r :: renameAll r es

end

open Evaluation Interpretation

mutual

theorem carries_interpret (r : Renaming) : (e : Expr) ->
    Interpretation.Carries r e.interpret (e.rename r).interpret
  | .constant v => carries_ofValue (carries_pure _ v)
  | .counter => carries_ofValue (carries_programCounter.map fun _ => rfl)
  | .name n => carries_ofName (carries_pure id (some n))
  | .unary op e => carries_ofValue ((carries_interpret r e).value.bind (carries_unary op))
  | .binary op a b => by
      have ha := (carries_interpret r a).value
      have hb := (carries_interpret r b).value
      cases op with
      | logical o =>
          apply carries_ofValue
          apply ha.bind
          intro first
          rw [o.decides_rename]
          split
          · exact carries_pure _ first
          · exact hb
      | _ => exact carries_ofValue (ha.bind fun v => hb.bind (carries_binary _ v))
  | .group e => carries_interpret r e
  | .conditional c t f => by
      apply carries_ofValue
      apply (carries_interpret r c).value.bind
      intro v
      cases v with
      | none => exact carries_pure _ none
      | some v =>
          simp only [Option.map_some, Value.isTrue_rename]
          split
          · exact (carries_interpret r t).value
          · exact (carries_interpret r f).value
  | .index s i =>
      carries_ofName (carries_indexName (carries_interpret r s) (carries_interpret r i))
  | .member a b =>
      carries_ofName (carries_memberName (carries_interpret r a) (carries_interpret r b))
  | .call f args =>
      carries_ofValue ((carries_interpret r f).value.bind fun v =>
        carries_call v (carries_interpretAll r args))

theorem carries_interpretAll (r : Renaming) : (es : List Expr) ->
    List.Forall₂ (Interpretation.Carries r) (interpretAll es) (interpretAll (renameAll r es))
  | [] => .nil
  | e :: es => .cons (carries_interpret r e) (carries_interpretAll r es)

end

theorem carries_evaluate (r : Renaming) (e : Expr) :
    Evaluation.Carries r (Option.map (Value.rename r)) e.evaluate (e.rename r).evaluate :=
  (carries_interpret r e).value

theorem carries_evaluateEach (r : Renaming) (es : List Expr) :
    Evaluation.Carries r (List.map (Option.map (Value.rename r))) (es.mapM evaluate)
      ((renameAll r es).mapM evaluate) := by
  induction es with
  | nil => exact carries_pure _ []
  | cons e es ih =>
      rw [renameAll, List.mapM_cons, List.mapM_cons]
      apply (e.carries_evaluate r).bind
      intro v
      apply ih.map
      intro vs
      rfl

/-- A name is made of texts and of names of functions, none of which are renamed. -/
theorem carries_nameOf (r : Renaming) (e : Expr) :
    Evaluation.Carries r id e.nameOf (e.rename r).nameOf :=
  (carries_interpret r e).name

/-!
## Simplification
-/

theorem renameAll_eq_map (r : Renaming) (es : List Expr) : renameAll r es = es.map (rename r) := by
  induction es with
  | nil => rfl
  | cons e es ih => rw [renameAll, ih, List.map_cons]

theorem rename_firstOf (r : Renaming) (args : List Expr) :
    (firstOf args).rename r = firstOf (renameAll r args) := by
  cases args <;> rfl

theorem rename_getLast (r : Renaming) (args : List Expr) :
    (args.getLast?.getD undetermined).rename r =
      (renameAll r args).getLast?.getD undetermined := by
  rw [renameAll_eq_map, List.getLast?_map]
  cases args.getLast? <;> rfl

theorem rename_second (r : Renaming) (args : List Expr) :
    (args[1]?.getD (firstOf args)).rename r =
      (renameAll r args)[1]?.getD (firstOf (renameAll r args)) := by
  rw [← rename_firstOf, renameAll_eq_map, List.getElem?_map]
  cases args[1]? <;> rfl

theorem rename_ofName (r : Renaming) (n : Option String) : (ofName n).rename r = ofName n := by
  cases n <;> rfl

theorem carries_constant {r : Renaming} {m m' : Evaluation (Option Value)}
    (h : Evaluation.Carries r (Option.map (Value.rename r)) m m') :
    Evaluation.Carries r (rename r) (do return constant (← m)) (do return constant (← m')) :=
  h.map fun _ => rfl

mutual

theorem carries_simplify (r : Renaming) : (e : Expr) ->
    Evaluation.Carries r (rename r) e.simplify (e.rename r).simplify
  | .constant v => carries_constant ((constant v).carries_evaluate r)
  | .counter => carries_constant (counter.carries_evaluate r)
  | .name n => carries_constant ((name n).carries_evaluate r)
  | .unary op e => carries_constant ((unary op e).carries_evaluate r)
  | .binary op a b => carries_constant ((binary op a b).carries_evaluate r)
  | .group e => by
      unfold simplify
      exact carries_pure (rename r) e
  | .conditional c t f => by
      unfold simplify
      apply (c.carries_evaluate r).bind
      intro v
      cases v with
      | none => exact carries_pure _ undetermined
      | some v =>
          simp only [Option.map_some, Value.isTrue_rename]
          split
          · exact carries_pure _ t
          · exact carries_pure _ f
  | .index s i => by
      unfold simplify
      exact (carries_indexName (s.carries_interpret r) (i.carries_interpret r)).map
        fun n => (rename_ofName r n).symm
  | .member a b => by
      unfold simplify
      exact (carries_memberName (a.carries_interpret r) (b.carries_interpret r)).map
        fun n => (rename_ofName r n).symm
  | .call f args => by
      unfold simplify
      apply (f.carries_evaluate r).bind
      intro v
      rcases v with _ | (n | s | g)
      · exact carries_pure _ undetermined
      · exact carries_constant (carries_report _)
      · exact carries_constant (carries_report _)
      · exact carries_expand r g args

theorem carries_expand (r : Renaming) (f : Function) (args : List Expr) :
    Evaluation.Carries r (rename r) (expand f args) (expand (f.rename r) (renameAll r args)) := by
  rcases f with ⟨id, b | ⟨name, rule⟩⟩
  · unfold expand
    exact carries_constant (carries_callBuiltin b (carries_interpretAll r args))
  cases rule with
  | nothing =>
      unfold expand
      exact carries_pure _ undetermined
  | first =>
      unfold expand
      change Evaluation.Carries r _ _ (pure (firstOf (renameAll r args)))
      rw [← rename_firstOf]
      exact carries_pure _ _
  | last =>
      unfold expand
      change Evaluation.Carries r _ _ (pure ((renameAll r args).getLast?.getD undetermined))
      rw [← rename_getLast]
      exact carries_pure _ _
  | call =>
      cases args with
      | nil =>
          unfold expand
          exact carries_pure _ (call undetermined [])
      | cons callee rest =>
          unfold expand
          exact carries_pure _ (call callee rest)
  | index =>
      unfold expand
      change Evaluation.Carries r _ _ (pure (index (firstOf (renameAll r args))
        ((renameAll r args)[1]?.getD (firstOf (renameAll r args)))))
      rw [← rename_second, ← rename_firstOf]
      exact carries_pure _ (index _ _)
  | name =>
      unfold expand
      change Evaluation.Carries r _ _ (do
        return constant ((← (firstOf (renameAll r args)).nameOf).map Value.text))
      rw [← rename_firstOf]
      apply ((firstOf args).carries_nameOf r).map
      intro name
      cases name <;> rfl
  | simplify =>
      cases args with
      | nil =>
          unfold expand
          exact carries_pure _ undetermined
      | cons e rest =>
          unfold expand
          exact carries_simplify r e
  | emit =>
      unfold expand
      change Evaluation.Carries r _ _ (do emit _; return firstOf (renameAll r args))
      rw [← rename_firstOf]
      exact (carries_emit _).bind fun _ => carries_pure _ _
  | count =>
      unfold expand
      change Evaluation.Carries r _ _
        (pure (constant (some (.unsigned (renameAll r args).length.toUInt64))))
      rw [renameAll_eq_map, List.length_map]
      exact carries_pure _ (constant _)
  | counter =>
      unfold expand
      exact carries_constant (carries_programCounter.map fun _ => rfl)

end

end Expr
end Equate
