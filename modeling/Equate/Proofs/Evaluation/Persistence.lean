import Equate.Proofs.Evaluation.Stability

/-!
# Values that last

An undetermined expression may get a value once more symbols are bound. An expression
that has a value already keeps it, provided that an undetermined part can only make the
whole undetermined: then all that was evaluated was determined, and it depended on bound
symbols and settled comparisons alone. The operator `||` breaks this, since it goes on
after an undetermined operand, and so does the question whether a symbol exists. The
program counter has a value that moves.
-/

namespace Equate

open Arena (Covers)

namespace Evaluation

/-!
## Lasting evaluations
-/

/--
An evaluation that yields the same value again, without diagnostics, wherever more
symbols are bound and more functions are ranked.
-/
structure Lasts (m : Evaluation (Option α)) : Prop where
  stable : IsStable m
  again : forall ⦃context arena a after⦄, context.symbols.HasBuiltins ->
    Yields m context arena (some a) [] after ->
    forall ⦃wider later⦄, wider.symbols.Extends context.symbols -> Covers later after ->
      Yields m wider later (some a) [] later

def Undetermined (m : Evaluation (Option α)) : Prop :=
  forall context p, (m context p).1 = none

def Oblivious (m : Evaluation α) : Prop :=
  forall context other, m context = m other

theorem undetermined_none : Undetermined (pure none : Evaluation (Option α)) := by
  intro context p
  rfl

theorem Undetermined.bind {m : Evaluation α} {k : α -> Evaluation (Option β)}
    (h : forall a, Undetermined (k a)) : Undetermined (m >>= k) := by
  intro context p
  exact h (m context p).1 context (m context p).2

theorem Undetermined.not_yields {m : Evaluation (Option α)} (h : Undetermined m)
    {context : Context} {arena after : Option Arena} {a : α} {raised : List Diagnostic} :
    ¬ Yields m context arena (some a) raised after := by
  intro hyields
  have hnone := h context ⟨arena, []⟩
  rw [hyields []] at hnone
  cases hnone

theorem Undetermined.lasts {m : Evaluation (Option α)} (h : Undetermined m)
    (hm : IsStable m) : Lasts m where
  stable := hm
  again := by
    intro context arena a after _ hyields
    exact absurd hyields h.not_yields

theorem oblivious_pure (a : α) : Oblivious (pure a) := by
  intro context other
  rfl

theorem oblivious_withArena (question : Option Arena -> α × Option Arena) :
    Oblivious (withArena question) := by
  intro context other
  rfl

theorem oblivious_report (outcome : Except Diagnostic Value) : Oblivious (report outcome) := by
  intro context other
  cases outcome <;> rfl

theorem Oblivious.bind {m : Evaluation α} {k : α -> Evaluation β} (hm : Oblivious m)
    (hk : forall a, Oblivious (k a)) : Oblivious (m >>= k) := by
  intro context other
  funext p
  have hrun : forall c, (m >>= k) c p = k (m c p).1 c (m c p).2 := fun _ => rfl
  rw [hrun, hrun, hm context other, hk _ context other]

theorem Oblivious.lasts {m : Evaluation (Option α)} (h : Oblivious m) (hm : IsStable m) :
    Lasts m where
  stable := hm
  again := by
    intro context arena a after _ hyields wider later _ hlater earlier
    rw [h wider context]
    exact hm.again hyields hlater earlier

theorem lasts_pure (v : Option α) : Lasts (pure v) :=
  (oblivious_pure v).lasts (isStable_pure v)

/-!
## Parts

Of two evaluations in turn the second one counts only if the first one has a value.
-/

theorem Lasts.bind_of_yields {m : Evaluation (Option α)}
    {k : Option α -> Evaluation (Option β)} (hm : Lasts m) (hk : forall v, IsStable (k v))
    (hnone : Undetermined (k none))
    (hsome : forall ⦃context arena a after⦄, context.symbols.HasBuiltins ->
      Yields m context arena (some a) [] after -> Lasts (k (some a))) :
    Lasts (m >>= k) where
  stable := hm.stable.bind hk
  again := by
    intro context arena b after hbuiltins hyields wider later hwider hlater
    rcases hm.stable.of_bind hk hyields with
      ⟨v, raised, middle, raised', hfirst, hsecond, hraised⟩
    rcases List.nil_eq_append_iff.mp hraised with ⟨rfl, rfl⟩
    cases v with
    | none => exact absurd hsecond hnone.not_yields
    | some a =>
        have hmiddle := (hk (some a)).covers hsecond
        have hagain := hm.again hbuiltins hfirst hwider (hlater.trans hmiddle)
        exact hagain.bind ((hsome hbuiltins hfirst).again hbuiltins hsecond hwider hlater)

theorem Lasts.bind {m : Evaluation (Option α)} {k : Option α -> Evaluation (Option β)}
    (hm : Lasts m) (hk : forall v, Lasts (k v)) (hnone : Undetermined (k none)) :
    Lasts (m >>= k) :=
  hm.bind_of_yields (fun v => (hk v).stable) hnone fun _ _ a _ _ _ => hk (some a)

theorem Lasts.map {m : Evaluation (Option α)} (hm : Lasts m) (f : α -> β) :
    Lasts (do return (← m).map f) :=
  hm.bind (fun v => lasts_pure (v.map f)) undetermined_none

/-!
## Names and operators
-/

theorem valueOfName_run (name : String) (context : Context) (p : Progress) :
    valueOfName name context p = ((context.symbols.find? name).bind Symbol.value?, p) :=
  rfl

theorem lasts_valueOfName (name : String) : Lasts (valueOfName name) where
  stable := isStable_valueOfName name
  again := by
    intro context arena v after _ hyields wider later hwider _
    have hvalue : (context.symbols.find? name).bind Symbol.value? = some v :=
      congrArg Prod.fst (hyields [])
    rcases Option.bind_eq_some_iff.mp hvalue with ⟨symbol, hsymbol, hv⟩
    apply yields_of_silent
    intro earlier
    rw [valueOfName_run, hwider name symbol hsymbol]
    exact Prod.ext hv rfl

theorem lasts_valueOfName? (name : Option String) : Lasts (valueOfName? name) := by
  cases name with
  | none => exact lasts_pure none
  | some name => exact lasts_valueOfName name

theorem lasts_unary (op : UnaryOp) (v : Option Value) : Lasts (unary op v) := by
  cases v with
  | none => exact lasts_pure none
  | some v => exact (oblivious_report (op.apply v)).lasts (isStable_unary op (some v))

theorem lasts_binary (op : BinaryOp) (l r : Option Value) : Lasts (binary op l r) := by
  have hoblivious : Oblivious (binary op l r) := by
    unfold binary
    split
    · exact oblivious_pure _
    · exact (oblivious_withArena _).bind oblivious_report
    · exact oblivious_pure none
  exact hoblivious.lasts (isStable_binary op l r)

section

variable {op : BinaryOp} (hop : forall o, op ≠ .logical o)
include hop

theorem undetermined_binary {l r : Option Value} (h : l = none ∨ r = none) :
    Undetermined (binary op l r) := by
  cases op with
  | logical o => exact absurd rfl (hop o)
  | _ =>
      rcases h with rfl | rfl
      · exact undetermined_none
      · cases l <;> exact undetermined_none

theorem lasts_operands {left right : Evaluation (Option Value)} (hl : Lasts left)
    (hr : Lasts right) : Lasts (do binary op (← left) (← right)) := by
  apply hl.bind
  · intro l
    exact hr.bind (lasts_binary op l) (undetermined_binary hop (Or.inr rfl))
  · exact Undetermined.bind fun r => undetermined_binary hop (Or.inl rfl)

end

/-- The second operand of a conjunction counts only if the first one is true. -/
theorem lasts_and {left right : Evaluation (Option Value)} (hl : Lasts left)
    (hr : Lasts right) :
    Lasts (do
      let first ← left
      if LogicalOp.and.decides first then return first else right) := by
  apply hl.bind
  · intro first
    by_cases hdecides : LogicalOp.and.decides first = true
    · rw [if_pos hdecides]
      exact lasts_pure first
    · rw [if_neg hdecides]
      exact hr
  · exact undetermined_none

end Evaluation

namespace Interpretation

open Evaluation

/-!
## Lasting interpretations
-/

structure Lasting (r : Interpretation) : Prop where
  value : Lasts r.value
  name : Lasts r.name

theorem Lasting.toStable {r : Interpretation} (h : r.Lasting) : r.Stable where
  value := h.value.stable
  name := h.name.stable

theorem lasting_ofValue {value : Evaluation (Option Value)} (h : Lasts value) :
    (ofValue value).Lasting where
  value := h
  name := h.map Value.toText

theorem lasting_ofName {name : Evaluation (Option String)} (h : Lasts name) :
    (ofName name).Lasting where
  value := h.bind lasts_valueOfName? undetermined_none
  name := h

theorem lasts_indexName {subject index : Interpretation} (hs : subject.Lasting)
    (hi : index.Lasting) : Lasts (indexName subject index) := by
  apply hs.name.bind
  · intro s
    apply hi.value.bind
    · intro i
      cases s <;> cases i <;> exact lasts_pure _
    · cases s <;> exact undetermined_none
  · exact Undetermined.bind fun _ => undetermined_none

theorem lasts_memberName {left right : Interpretation} (hl : left.Lasting)
    (hr : right.Lasting) : Lasts (memberName left right) := by
  apply hl.name.bind
  · intro l
    apply hr.name.bind
    · intro r
      cases l <;> cases r <;> exact lasts_pure _
    · cases l <;> exact undetermined_none
  · exact Undetermined.bind fun _ => undetermined_none

theorem lasts_values {args : List Interpretation} (h : forall r, r ∈ args -> r.Lasting) :
    Lasts (values args) := by
  induction args with
  | nil => exact lasts_pure _
  | cons r rs ih =>
      apply (h r List.mem_cons_self).value.bind
      · intro v
        cases v with
        | none => exact lasts_pure none
        | some v => exact (ih fun s hs => h s (List.mem_cons_of_mem r hs)).map (v :: ·)
      · exact undetermined_none

theorem oblivious_foldlM_better (keep : Ordering) (vs : List Value) (pick : Value) :
    Oblivious (vs.foldlM (better keep) pick) := by
  induction vs generalizing pick with
  | nil => exact oblivious_pure pick
  | cons v vs ih =>
      exact ((oblivious_withArena _).bind fun _ => oblivious_pure _).bind ih

theorem lasts_extremum (keep : Ordering) {first : Interpretation}
    {rest : List Interpretation} (h : forall r, r ∈ first :: rest -> r.Lasting) :
    Lasts (extremum keep first rest) := by
  apply (lasts_values h).bind
  · intro vs
    rcases vs with _ | (_ | ⟨v, vs⟩)
    · exact lasts_pure none
    · exact lasts_pure none
    · have hpick : Oblivious (do return some (← vs.foldlM (better keep) v)) :=
        (oblivious_foldlM_better keep vs v).bind fun _ => oblivious_pure _
      exact hpick.lasts ((isStable_foldlM_better keep vs v).map some)
  · exact undetermined_none

theorem lasts_refuseCount (b : Builtin) (found : Nat) : Lasts (refuseCount b found) :=
  Undetermined.lasts (Undetermined.bind fun _ => undetermined_none)
    (isStable_refuseCount b found)

theorem lasts_callBuiltin {b : Builtin} (hb : b ≠ .defined) {args : List Interpretation}
    (h : forall r, r ∈ args -> r.Lasting) : Lasts (callBuiltin b args) := by
  unfold callBuiltin
  split
  · exact (h _ List.mem_cons_self).value.map _
  · exact (h _ List.mem_cons_self).value.map _
  · exact lasts_extremum .lt h
  · exact lasts_extremum .gt h
  · exact absurd rfl hb
  · exact lasts_refuseCount _ _

end Interpretation

namespace Expr

open Evaluation Interpretation

/-!
## Lasting expressions
-/

mutual

/--
Expressions without `||` and without the program counter, in which only `str`, `len`,
`min` and `max` are called, each by its own name.
-/
def IsLasting : Expr -> Prop
  | .constant _ => True
  | .counter => False
  | .name _ => True
  | .unary _ e => e.IsLasting
  | .binary op l r => op ≠ .logical .or ∧ l.IsLasting ∧ r.IsLasting
  | .group e => e.IsLasting
  | .conditional c t f => c.IsLasting ∧ t.IsLasting ∧ f.IsLasting
  | .index s i => s.IsLasting ∧ i.IsLasting
  | .member l r => l.IsLasting ∧ r.IsLasting
  | .call f args =>
      (exists b, b ∈ [Builtin.str, .len, .min, .max] ∧ f = .name b.name) ∧ AllLasting args

def AllLasting : List Expr -> Prop
  | [] => True
  | e :: es => e.IsLasting ∧ AllLasting es

end

theorem lasts_call {b : Builtin} (hb : b ≠ .defined) {args : List Interpretation}
    (h : forall r, r ∈ args -> r.Lasting) :
    Lasts (do Interpretation.call (← valueOfName b.name) args) := by
  apply (lasts_valueOfName b.name).bind_of_yields
  · intro v
    exact isStable_call v fun r hr => (h r hr).toStable
  · exact undetermined_none
  · intro context arena v after hbuiltins hyields
    rcases hbuiltins b with ⟨id, hid⟩
    have hbound : Yields (valueOfName b.name) context arena
        (some (.function ⟨id, .builtin b⟩)) [] arena := by
      apply yields_of_silent
      intro earlier
      rw [valueOfName_run, hid]
      rfl
    rw [(hyields.unique hbound).1]
    unfold Interpretation.call callFunction
    exact lasts_callBuiltin hb h

mutual

theorem lasting_interpret : (e : Expr) -> e.IsLasting -> e.interpret.Lasting
  | .constant v, _ => lasting_ofValue (lasts_pure v)
  | .counter, h => h.elim
  | .name n, _ => lasting_ofName (lasts_pure (some n))
  | .unary op e, h =>
      lasting_ofValue ((lasting_interpret e h).value.bind (lasts_unary op) undetermined_none)
  | .binary op l r, h => by
      rcases h with ⟨hop, hl, hr⟩
      have hleft := (lasting_interpret l hl).value
      have hright := (lasting_interpret r hr).value
      cases op with
      | logical o =>
          cases o with
          | and => exact lasting_ofValue (lasts_and hleft hright)
          | or => exact absurd rfl hop
      | _ => exact lasting_ofValue (lasts_operands (by rintro o ⟨⟩) hleft hright)
  | .group e, h => lasting_interpret e h
  | .conditional c t f, h => by
      rcases h with ⟨hc, ht, hf⟩
      apply lasting_ofValue
      apply (lasting_interpret c hc).value.bind
      · intro v
        cases v with
        | none => exact lasts_pure none
        | some v =>
            by_cases htrue : v.isTrue = true
            · simp only [if_pos htrue]
              exact (lasting_interpret t ht).value
            · simp only [if_neg htrue]
              exact (lasting_interpret f hf).value
      · exact undetermined_none
  | .index s i, h =>
      lasting_ofName (lasts_indexName (lasting_interpret s h.1) (lasting_interpret i h.2))
  | .member l r, h =>
      lasting_ofName (lasts_memberName (lasting_interpret l h.1) (lasting_interpret r h.2))
  | .call f args, h => by
      rcases h with ⟨⟨b, hb, rfl⟩, hargs⟩
      have hdefined : b ≠ .defined := by
        rintro rfl
        simp at hb
      exact lasting_ofValue (lasts_call hdefined (lasting_interpretAll args hargs))

theorem lasting_interpretAll :
    (es : List Expr) -> AllLasting es -> forall r, r ∈ interpretAll es -> r.Lasting
  | [], _ => by
      intro r hr
      cases hr
  | e :: es, h => by
      intro r hr
      rcases List.mem_cons.mp hr with hfirst | hrest
      · rw [hfirst]
        exact lasting_interpret e h.1
      · exact lasting_interpretAll es h.2 r hrest

end

end Expr
end Equate
