import Equate.Evaluation
import Equate.Proofs.Function.Order

/-!
# Evaluating again

An evaluation changes nothing but its arena, which comparisons of functions extend, and
later comparisons depend on it. All the same an expression that was evaluated before
behaves like a pure one. Each comparison of its first evaluation is settled from then
on, so that a second evaluation takes the same course, whatever has been evaluated in
between.
-/

namespace Equate

/-!
## Growing arenas
-/

namespace Arena

/-- A later state of an arena. One that does not exist yet may become any arena. -/
def Covers : Option Arena -> Option Arena -> Prop
  | _, none => True
  | none, some _ => False
  | some later, some arena => later.Continues arena

theorem Covers.refl (arena : Option Arena) : Covers arena arena := by
  cases arena with
  | none => trivial
  | some arena => exact Continues.refl arena

theorem Covers.trans {last later arena : Option Arena} (h : Covers last later)
    (h' : Covers later arena) : Covers last arena := by
  rcases arena with _ | arena
  · trivial
  rcases later with _ | later
  · cases h'
  rcases last with _ | last
  · cases h
  exact Continues.trans h h'

/--
A question to an arena that settles its answer: asked again at any later time, it has the
same answer and leaves the arena alone.
-/
structure Settling (question : Option Arena -> α × Option Arena) : Prop where
  covers : forall arena, Covers (question arena).2 arena
  again : forall {arena later}, Covers later (question arena).2 ->
    question later = ((question arena).1, later)

theorem settling_of_answer (a : α) : Settling fun arena => (a, arena) where
  covers := Covers.refl
  again := fun _ => rfl

theorem Settling.map {question : Option Arena -> α × Option Arena} (h : Settling question)
    (f : α -> β) : Settling fun arena => (f (question arena).1, (question arena).2) where
  covers := h.covers
  again := fun hlater => by
    rw [h.again hlater]

theorem settling_compareIn (f g : Function) :
    Settling fun arena => compareIn arena f g where
  covers arena := by
    cases arena with
    | none => trivial
    | some arena => exact continues_compare arena f g
  again {arena later} h := by
    rcases later with _ | later
    · cases h
    have hlater : later.Continues ((arena.getD {}).compare f g).2 := h
    have hsettled := settled_compare (arena.getD {}) f g
    have horder : (later.compare f g).1 = ((arena.getD {}).compare f g).1 := by
      rw [compare_of_continues hsettled hlater, compare_compare]
    have harena := compare_arena_of_settled (hsettled.mono hlater)
    exact Prod.ext horder (congrArg some harena)

end Arena

open Arena (Covers Settling)

theorem Value.settling_compare? (l r : Value) : Settling (l.compare? r) := by
  rcases l with a | s | f <;> rcases r with b | t | g
  case function.function =>
    exact (Arena.settling_compareIn f g).map some
  all_goals exact Arena.settling_of_answer _

theorem BinaryOp.settling_apply (op : BinaryOp) (l r : Value) : Settling (op.apply l r) := by
  rcases op with o | o | o | o | o | o
  · cases o <;> exact Arena.settling_of_answer _
  · exact Arena.settling_of_answer _
  · exact (Value.settling_compare? l r).map fun order => Except.ok (Value.ofBool (o.holds order))
  · exact Arena.settling_of_answer _
  · exact Arena.settling_of_answer _
  · exact Arena.settling_of_answer _

namespace Evaluation

/-!
## Outcomes

What an evaluation answers, the diagnostics that it raises and the arena that it leaves
do not depend on the diagnostics that others have raised before.
-/

def Yields (m : Evaluation α) (context : Context) (arena : Option Arena) (answer : α)
    (raised : List Diagnostic) (after : Option Arena) : Prop :=
  forall earlier : List Diagnostic,
    m context ⟨arena, earlier⟩ = (answer, ⟨after, earlier ++ raised⟩)

theorem yields_of_silent {m : Evaluation α} {context : Context} {arena after : Option Arena}
    {a : α} (h : forall earlier, m context ⟨arena, earlier⟩ = (a, ⟨after, earlier⟩)) :
    Yields m context arena a [] after := by
  intro earlier
  rw [h earlier, List.append_nil]

theorem yields_pure (a : α) (context : Context) (arena : Option Arena) :
    Yields (pure a) context arena a [] arena :=
  yields_of_silent fun _ => rfl

theorem Yields.bind {m : Evaluation α} {k : α -> Evaluation β} {context : Context}
    {arena middle after : Option Arena} {a : α} {b : β} {raised raised' : List Diagnostic}
    (hm : Yields m context arena a raised middle)
    (hk : Yields (k a) context middle b raised' after) :
    Yields (m >>= k) context arena b (raised ++ raised') after := by
  intro earlier
  have hrun : (m >>= k) context ⟨arena, earlier⟩ =
      k (m context ⟨arena, earlier⟩).1 context (m context ⟨arena, earlier⟩).2 := rfl
  rw [hrun, hm earlier, hk (earlier ++ raised), List.append_assoc]

theorem Yields.map {m : Evaluation α} {context : Context} {arena after : Option Arena} {a : α}
    {raised : List Diagnostic} (h : Yields m context arena a raised after) (f : α -> β) :
    Yields (do return f (← m)) context arena (f a) raised after := by
  rw [← List.append_nil raised]
  exact h.bind (yields_pure (f a) context after)

theorem Yields.of_map {m : Evaluation α} {context : Context} {arena after : Option Arena}
    {f : α -> β} {b : β} {raised : List Diagnostic} (hf : forall a a', f a = f a' -> a = a')
    (h : Yields (do return f (← m)) context arena b raised after) :
    exists a, f a = b ∧ Yields m context arena a raised after := by
  have hrun : forall earlier, f (m context ⟨arena, earlier⟩).1 = b ∧
      (m context ⟨arena, earlier⟩).2 = ⟨after, earlier ++ raised⟩ :=
    fun earlier => Prod.mk.inj (h earlier)
  refine ⟨(m context ⟨arena, []⟩).1, (hrun []).1, ?_⟩
  intro earlier
  have hanswer := hf _ _ ((hrun earlier).1.trans (hrun []).1.symm)
  exact Prod.ext hanswer (hrun earlier).2

theorem Yields.unique {m : Evaluation α} {context : Context} {arena after after' : Option Arena}
    {a b : α} {raised raised' : List Diagnostic}
    (h : Yields m context arena a raised after)
    (h' : Yields m context arena b raised' after') :
    a = b ∧ raised = raised' ∧ after = after' := by
  have heq := (h []).symm.trans (h' [])
  simp only [List.nil_append] at heq
  cases heq
  exact ⟨rfl, rfl, rfl⟩

/-!
## Stable evaluations
-/

/-- An evaluation that has an outcome, and has it again in every later arena. -/
def IsStable (m : Evaluation α) : Prop :=
  forall context arena, exists answer raised after,
    Yields m context arena answer raised after ∧ Covers after arena ∧
      forall later, Covers later after -> Yields m context later answer raised later

section

variable {m : Evaluation α} (hm : IsStable m) {context : Context}
  {arena after : Option Arena} {a : α} {raised : List Diagnostic}
  (h : Yields m context arena a raised after)
include hm h

theorem IsStable.covers : Covers after arena := by
  rcases hm context arena with ⟨a', raised', after', hyields, hcovers, _⟩
  rcases h.unique hyields with ⟨rfl, rfl, rfl⟩
  exact hcovers

theorem IsStable.again {later : Option Arena} (hlater : Covers later after) :
    Yields m context later a raised later := by
  rcases hm context arena with ⟨a', raised', after', hyields, _, hagain⟩
  rcases h.unique hyields with ⟨rfl, rfl, rfl⟩
  exact hagain later hlater

end

theorem isStable_pure (a : α) : IsStable (pure a) := by
  intro context arena
  refine ⟨a, [], arena, yields_pure a context arena, Covers.refl arena, ?_⟩
  intro later _
  exact yields_pure a context later

theorem IsStable.bind {m : Evaluation α} {k : α -> Evaluation β} (hm : IsStable m)
    (hk : forall a, IsStable (k a)) : IsStable (m >>= k) := by
  intro context arena
  rcases hm context arena with ⟨a, raised, middle, hyields, hcovers, hagain⟩
  rcases hk a context middle with ⟨b, raised', after, hyields', hcovers', hagain'⟩
  refine ⟨b, raised ++ raised', after, hyields.bind hyields', hcovers'.trans hcovers, ?_⟩
  -- An arena that covers the last one covers also the one between the two parts.
  intro later hlater
  exact (hagain later (hlater.trans hcovers')).bind (hagain' later hlater)

theorem IsStable.of_bind {m : Evaluation α} {k : α -> Evaluation β} (hm : IsStable m)
    (hk : forall a, IsStable (k a)) {context : Context} {arena after : Option Arena} {b : β}
    {raised : List Diagnostic} (h : Yields (m >>= k) context arena b raised after) :
    exists a first middle second, Yields m context arena a first middle ∧
      Yields (k a) context middle b second after ∧ raised = first ++ second := by
  rcases hm context arena with ⟨a, first, middle, hyields, _, _⟩
  rcases hk a context middle with ⟨b', second, after', hyields', _, _⟩
  rcases h.unique (hyields.bind hyields') with ⟨rfl, rfl, rfl⟩
  exact ⟨a, first, middle, second, hyields, hyields', rfl⟩

theorem IsStable.map {m : Evaluation α} (hm : IsStable m) (f : α -> β) :
    IsStable (do return f (← m)) :=
  hm.bind fun a => isStable_pure (f a)

theorem isStable_emit (diagnostic : Diagnostic) : IsStable (emit diagnostic) := by
  intro context arena
  refine ⟨(), [diagnostic], arena, fun _ => rfl, Covers.refl arena, ?_⟩
  intro later _ earlier
  rfl

theorem isStable_read : IsStable (read : Evaluation Context) := by
  intro context arena
  refine ⟨context, [], arena, yields_of_silent fun _ => rfl, Covers.refl arena, ?_⟩
  intro later _
  exact yields_of_silent fun _ => rfl

theorem isStable_withArena {question : Option Arena -> α × Option Arena}
    (h : Settling question) : IsStable (withArena question) := by
  intro context arena
  have hrun : forall arena earlier, withArena question context ⟨arena, earlier⟩ =
      ((question arena).1, ⟨(question arena).2, earlier⟩) := fun _ _ => rfl
  refine ⟨_, [], _, yields_of_silent (hrun arena), h.covers arena, ?_⟩
  intro later hlater
  apply yields_of_silent
  intro earlier
  rw [hrun, h.again hlater]

theorem isStable_lookup (name : String) : IsStable (lookup name) :=
  isStable_read.map _

theorem isStable_valueOfName (name : String) : IsStable (valueOfName name) :=
  (isStable_lookup name).map _

theorem isStable_valueOfName? (name : Option String) : IsStable (valueOfName? name) := by
  cases name with
  | none => exact isStable_pure none
  | some name => exact isStable_valueOfName name

theorem isStable_report (outcome : Except Diagnostic Value) : IsStable (report outcome) := by
  cases outcome with
  | ok v => exact isStable_pure (some v)
  | error diagnostic => exact (isStable_emit diagnostic).bind fun _ => isStable_pure none

theorem isStable_unary (op : UnaryOp) (v : Option Value) : IsStable (unary op v) := by
  cases v with
  | none => exact isStable_pure none
  | some v => exact isStable_report (op.apply v)

theorem isStable_binary (op : BinaryOp) (l r : Option Value) : IsStable (binary op l r) := by
  unfold binary
  split
  · exact isStable_pure _
  · exact (isStable_withArena (op.settling_apply _ _)).bind isStable_report
  · exact isStable_pure none

end Evaluation

/-!
## Stable interpretations
-/

namespace Interpretation

open Evaluation

structure Stable (r : Interpretation) : Prop where
  value : IsStable r.value
  name : IsStable r.name

theorem stable_ofValue {value : Evaluation (Option Value)} (h : IsStable value) :
    (ofValue value).Stable where
  value := h
  name := h.map _

theorem stable_ofName {name : Evaluation (Option String)} (h : IsStable name) :
    (ofName name).Stable where
  value := h.bind isStable_valueOfName?
  name := h

theorem stable_undetermined : undetermined.Stable :=
  stable_ofValue (isStable_pure none)

theorem isStable_indexName {subject index : Interpretation} (hs : subject.Stable)
    (hi : index.Stable) : IsStable (indexName subject index) := by
  apply hs.name.bind
  intro s
  apply hi.value.bind
  intro i
  cases s <;> cases i <;> exact isStable_pure _

theorem isStable_memberName {left right : Interpretation} (hl : left.Stable)
    (hr : right.Stable) : IsStable (memberName left right) := by
  apply hl.name.bind
  intro l
  apply hr.name.bind
  intro r
  cases l <;> cases r <;> exact isStable_pure _

section

variable {args : List Interpretation} (h : forall r, r ∈ args -> r.Stable)
include h

theorem isStable_values : IsStable (values args) := by
  induction args with
  | nil => exact isStable_pure _
  | cons r rs ih =>
      apply (h r List.mem_cons_self).value.bind
      intro v
      cases v with
      | none => exact isStable_pure none
      | some v => exact (ih fun s hs => h s (List.mem_cons_of_mem r hs)).map _

theorem stable_firstOf : (firstOf args).Stable := by
  cases args with
  | nil => exact stable_undetermined
  | cons r rs => exact h r List.mem_cons_self

theorem stable_getLast : (args.getLast?.getD undetermined).Stable := by
  cases hlast : args.getLast? with
  | none => exact stable_undetermined
  | some r => exact h r (List.mem_of_getLast? hlast)

theorem stable_second : (args[1]?.getD (firstOf args)).Stable := by
  cases hsecond : args[1]? with
  | none => exact stable_firstOf h
  | some r => exact h r (List.mem_of_getElem? hsecond)

end

theorem isStable_better (keep : Ordering) (pick candidate : Value) :
    IsStable (better keep pick candidate) :=
  (isStable_withArena (Value.settling_compare? candidate pick)).map _

theorem isStable_foldlM_better (keep : Ordering) (vs : List Value) (pick : Value) :
    IsStable (vs.foldlM (better keep) pick) := by
  induction vs generalizing pick with
  | nil => exact isStable_pure pick
  | cons v vs ih => exact (isStable_better keep pick v).bind ih

theorem isStable_extremum (keep : Ordering) {first : Interpretation}
    {rest : List Interpretation} (h : forall r, r ∈ first :: rest -> r.Stable) :
    IsStable (extremum keep first rest) := by
  apply (isStable_values h).bind
  intro vs
  rcases vs with _ | (_ | ⟨v, vs⟩)
  · exact isStable_pure none
  · exact isStable_pure none
  · exact (isStable_foldlM_better keep vs v).map _

theorem isStable_refuseCount (b : Builtin) (found : Nat) : IsStable (refuseCount b found) :=
  (isStable_emit _).bind fun _ => isStable_pure none

theorem isStable_callBuiltin (b : Builtin) {args : List Interpretation}
    (h : forall r, r ∈ args -> r.Stable) : IsStable (callBuiltin b args) := by
  unfold callBuiltin
  split
  · exact (h _ List.mem_cons_self).value.map _
  · exact (h _ List.mem_cons_self).value.map _
  · exact isStable_extremum .lt h
  · exact isStable_extremum .gt h
  · apply (h _ List.mem_cons_self).name.bind
    intro n
    cases n with
    | none => exact isStable_pure none
    | some n => exact (isStable_lookup n).map _
  · exact isStable_refuseCount _ _

theorem isStable_callFunction (f : Function) (args : List Interpretation)
    (h : forall r, r ∈ args -> r.Stable) : IsStable (callFunction f args) := by
  rcases f with ⟨id, b | ⟨name, rule⟩⟩
  · unfold callFunction
    exact isStable_callBuiltin b h
  cases rule with
  | call =>
      cases args with
      | nil => exact isStable_pure none
      | cons callee rest =>
          unfold callFunction
          apply (h callee List.mem_cons_self).value.bind
          intro v
          rcases v with _ | (n | s | g)
          · exact isStable_pure none
          · exact isStable_report _
          · exact isStable_report _
          · exact isStable_callFunction g rest fun r hr => h r (List.mem_cons_of_mem callee hr)
  | nothing =>
      unfold callFunction
      exact isStable_pure none
  | first =>
      unfold callFunction
      exact (stable_firstOf h).value
  | last =>
      unfold callFunction
      exact (stable_getLast h).value
  | index =>
      unfold callFunction
      exact (isStable_indexName (stable_firstOf h) (stable_second h)).bind isStable_valueOfName?
  | name =>
      unfold callFunction
      exact (stable_firstOf h).name.map _
  | simplify =>
      unfold callFunction
      exact (stable_firstOf h).value
  | emit =>
      unfold callFunction
      exact (isStable_emit _).bind fun _ => (stable_firstOf h).value
  | count =>
      unfold callFunction
      exact isStable_pure _
  | counter =>
      unfold callFunction
      exact (isStable_read.map _).map _

theorem isStable_call (v : Option Value) {args : List Interpretation}
    (h : forall r, r ∈ args -> r.Stable) : IsStable (call v args) := by
  rcases v with _ | (n | s | f)
  · exact isStable_pure none
  · exact isStable_report (.error (.notAFunction (.number n)))
  · exact isStable_report (.error (.notAFunction (.text s)))
  · exact isStable_callFunction f args h

end Interpretation

namespace Expr

open Evaluation Interpretation

mutual

theorem stable_interpret : (e : Expr) -> e.interpret.Stable
  | .constant v => stable_ofValue (isStable_pure v)
  | .counter => stable_ofValue ((isStable_read.map _).map _)
  | .name n => stable_ofName (isStable_pure (some n))
  | .unary op e => stable_ofValue ((stable_interpret e).value.bind (isStable_unary op))
  | .binary op l r => by
      have hl := (stable_interpret l).value
      have hr := (stable_interpret r).value
      cases op with
      | logical o =>
          apply stable_ofValue
          apply hl.bind
          intro first
          by_cases hdecides : o.decides first = true
          · rw [if_pos hdecides]
            exact isStable_pure first
          · rw [if_neg hdecides]
            exact hr
      | _ => exact stable_ofValue (hl.bind fun v => hr.bind (isStable_binary _ v))
  | .group e => stable_interpret e
  | .conditional c t f => by
      apply stable_ofValue
      apply (stable_interpret c).value.bind
      intro v
      cases v with
      | none => exact isStable_pure none
      | some v =>
          by_cases htrue : v.isTrue = true
          · simp only [if_pos htrue]
            exact (stable_interpret t).value
          · simp only [if_neg htrue]
            exact (stable_interpret f).value
  | .index s i => stable_ofName (isStable_indexName (stable_interpret s) (stable_interpret i))
  | .member l r => stable_ofName (isStable_memberName (stable_interpret l) (stable_interpret r))
  | .call f args =>
      stable_ofValue ((stable_interpret f).value.bind fun v =>
        isStable_call v (stable_interpretAll args))

theorem stable_interpretAll : (es : List Expr) -> forall r, r ∈ interpretAll es -> r.Stable
  | [] => by
      intro r hr
      cases hr
  | e :: es => by
      intro r hr
      rcases List.mem_cons.mp hr with hfirst | hrest
      · rw [hfirst]
        exact stable_interpret e
      · exact stable_interpretAll es r hrest

end

theorem isStable_evaluate (e : Expr) : IsStable e.evaluate :=
  (stable_interpret e).value

end Expr

/-!
## Evaluations in between
-/

structure Visit where
  expression : Expr
  context : Context
  earlier : List Diagnostic

namespace Visit

def arenaAfter (arena : Option Arena) (visit : Visit) : Option Arena :=
  (visit.expression.evaluate visit.context ⟨arena, visit.earlier⟩).2.arena

def arenaAfterAll (arena : Option Arena) (visits : List Visit) : Option Arena :=
  visits.foldl arenaAfter arena

theorem covers_arenaAfter (arena : Option Arena) (visit : Visit) :
    Covers (visit.arenaAfter arena) arena := by
  rcases visit.expression.isStable_evaluate visit.context arena with
    ⟨v, raised, after, hyields, hcovers, _⟩
  rw [arenaAfter, hyields visit.earlier]
  exact hcovers

theorem covers_arenaAfterAll (arena : Option Arena) (visits : List Visit) :
    Covers (arenaAfterAll arena visits) arena := by
  induction visits generalizing arena with
  | nil => exact Covers.refl arena
  | cons visit visits ih =>
      exact (ih (visit.arenaAfter arena)).trans (covers_arenaAfter arena visit)

end Visit

namespace Expr

open Evaluation

/--
An expression has the same value and raises the same diagnostics when it is evaluated
again after any other expressions, and then it leaves the arena as it finds it.
-/
theorem evaluate_again (e : Expr) (context : Context) (arena : Option Arena) :
    exists v raised after, Yields e.evaluate context arena v raised after ∧
      forall visits : List Visit,
        Yields e.evaluate context (Visit.arenaAfterAll after visits) v raised
          (Visit.arenaAfterAll after visits) := by
  rcases e.isStable_evaluate context arena with ⟨v, raised, after, hyields, _, hagain⟩
  refine ⟨v, raised, after, hyields, ?_⟩
  intro visits
  exact hagain _ (Visit.covers_arenaAfterAll after visits)

end Expr
end Equate
