import Equate.Proofs.Evaluation.Predefined

/-!
# No silent failure

An evaluation that finds nothing has said why, unless something was undetermined to begin
with: a constant without a value, a name without a symbol or with a symbol that has no
value. A function of the host may keep quiet as well. Wherever these are excluded, every
missing value and every missing name comes with a diagnostic.
-/

namespace Equate

def SymbolTable.IsTotal (table : SymbolTable) : Prop :=
  forall name, exists v, table.find? name = some (.value v)

theorem SymbolTable.isTotal_or (table : SymbolTable) :
    table.IsTotal ∨ exists name, forall v, table.find? name ≠ some (.value v) := by
  by_cases h : table.IsTotal
  · exact .inl h
  · rcases Classical.not_forall.mp h with ⟨name, hname⟩
    exact .inr ⟨name, fun v hv => hname ⟨v, hv⟩⟩

def Expr.IsDetermined (e : Expr) : Prop :=
  e.AllConstants (· ≠ none)

namespace Evaluation

/-!
## Missing answers
-/

/-- A missing answer is explained by a diagnostic. -/
def Explains (context : Context) (m : Evaluation (Option α)) : Prop :=
  Ensures context (fun answer raised => answer = none -> raised ≠ []) m

section

variable {context : Context}

theorem explains_some (a : α) : Explains context (pure (some a)) :=
  ensures_pure (by simp)

theorem Explains.not_silent {m : Evaluation (Option α)} (h : Explains context m)
    {arena after : Option Arena} : ¬ Yields m context arena none [] after := by
  intro hyields
  rcases h arena with ⟨a, raised, after', hyields', hraised⟩
  rcases hyields.unique hyields' with ⟨rfl, rfl, _⟩
  exact hraised rfl rfl

theorem Explains.of_bind {m : Evaluation α} {k : α -> Evaluation (Option β)} (hm : IsStable m)
    (hk : forall a, Explains context (k a)) : Explains context (m >>= k) := by
  apply hm.ensures.bind
  intro a raised _
  apply (hk a).mono
  intro b raised' h hb hempty
  exact h hb (List.append_eq_nil_iff.mp hempty).2

section

variable {m : Evaluation (Option α)} {k : Option α -> Evaluation (Option β)}

/-- What follows a missing answer need not explain it again. -/
theorem Explains.bind_of {P : Option α -> Prop} (hm : Explains context m)
    (hP : Ensures context (fun answer _ => P answer) m) (hnone : IsStable (k none))
    (hsome : forall a, P (some a) -> Explains context (k (some a))) :
    Explains context (m >>= k) := by
  apply Ensures.bind (Ensures.and hm hP)
  rintro answer raised ⟨hraised, hP⟩
  cases answer with
  | none =>
      apply hnone.ensures.mono
      intro _ raised' _ _ hempty
      exact hraised rfl (List.append_eq_nil_iff.mp hempty).1
  | some a =>
      apply (hsome a hP).mono
      intro b raised' h hb hempty
      exact h hb (List.append_eq_nil_iff.mp hempty).2

theorem Explains.bind (hm : Explains context m) (hnone : IsStable (k none))
    (hsome : forall a, Explains context (k (some a))) : Explains context (m >>= k) :=
  hm.bind_of (P := fun _ => True) (hm.mono fun _ _ _ => trivial) hnone fun a _ => hsome a

end

theorem Explains.map {m : Evaluation (Option α)} (hm : Explains context m) (f : α -> β) :
    Explains context (do return (← m).map f) :=
  hm.bind (isStable_pure _) fun a => explains_some (f a)

theorem explains_report (outcome : Except Diagnostic Value) :
    Explains context (report outcome) :=
  ensures_report (by simp) (by simp)

theorem explains_unary (op : UnaryOp) (v : Value) : Explains context (unary op (some v)) :=
  explains_report (op.apply v)

theorem explains_binary {op : BinaryOp} (hop : forall o, op ≠ .logical o) (l r : Value) :
    Explains context (binary op (some l) (some r)) := by
  rw [binary_some hop]
  exact Explains.of_bind (isStable_withArena (op.settling_apply l r)) explains_report

theorem explains_valueOfName (htotal : context.symbols.IsTotal) (name : String) :
    Explains context (valueOfName name) := by
  apply ensures_valueOfName
  rcases htotal name with ⟨v, hv⟩
  intro hnone
  rw [hv] at hnone
  cases hnone

end

end Evaluation

/-!
## Interpretations
-/

namespace Interpretation

open Evaluation

structure Explained (context : Context) (r : Interpretation) : Prop where
  value : Explains context r.value
  name : Explains context r.name

section

variable {context : Context}

theorem explained_ofValue {value : Evaluation (Option Value)} (h : Explains context value) :
    (ofValue value).Explained context where
  value := h
  name := h.map _

theorem explained_ofName (htotal : context.symbols.IsTotal) {name : Evaluation (Option String)}
    (h : Explains context name) : (ofName name).Explained context where
  value := h.bind (isStable_pure none) (explains_valueOfName htotal)
  name := h

theorem explains_indexName {subject index : Interpretation} (hs : subject.Explained context)
    (hi : index.Explained context) (hstable : index.Stable) :
    Explains context (indexName subject index) := by
  apply hs.name.bind
  -- The index is evaluated even if the subject has no name.
  · apply hstable.value.bind
    intro i
    exact isStable_pure none
  intro s
  apply hi.value.bind
  · exact isStable_pure none
  intro i
  exact explains_some _

theorem explains_memberName {left right : Interpretation} (hl : left.Explained context)
    (hr : right.Explained context) (hstable : right.Stable) :
    Explains context (memberName left right) := by
  apply hl.name.bind
  · apply hstable.name.bind
    intro r
    exact isStable_pure none
  intro l
  apply hr.name.bind
  · exact isStable_pure none
  intro r
  exact explains_some _

theorem explains_values {args : List Interpretation}
    (h : forall r, r ∈ args -> r.Explained context) : Explains context (values args) := by
  induction args with
  | nil => exact explains_some []
  | cons r rs ih =>
      apply (h r List.mem_cons_self).value.bind
      · exact isStable_pure none
      intro v
      exact (ih fun s hs => h s (List.mem_cons_of_mem r hs)).map _

theorem ensures_values_ne_nil {first : Interpretation} {rest : List Interpretation}
    (h : forall r, r ∈ first :: rest -> r.Stable) :
    Ensures context (fun vs _ => vs ≠ some []) (values (first :: rest)) := by
  apply (h first List.mem_cons_self).value.ensures.bind
  intro v _ _
  cases v with
  | none => exact ensures_pure (by simp)
  | some v =>
      apply Ensures.map
      apply (isStable_values fun r hr => h r (List.mem_cons_of_mem first hr)).ensures.mono
      intro vs _ _
      cases vs <;> simp

theorem explains_extremum (keep : Ordering) {first : Interpretation}
    {rest : List Interpretation} (hstable : forall r, r ∈ first :: rest -> r.Stable)
    (h : forall r, r ∈ first :: rest -> r.Explained context) :
    Explains context (extremum keep first rest) := by
  apply (explains_values h).bind_of (ensures_values_ne_nil hstable)
  · exact isStable_pure none
  intro vs hvs
  rcases vs with _ | ⟨v, vs⟩
  · exact absurd rfl hvs
  · exact Explains.of_bind (isStable_foldlM_better keep vs v) explains_some

theorem explains_emit (diagnostic : Diagnostic) (v : Option Value) :
    Explains context (do emit diagnostic; return v) := by
  intro arena
  exact ⟨v, [diagnostic], arena, fun _ => rfl, by simp⟩

theorem explains_callBuiltin (b : Builtin) {args : List Interpretation}
    (hstable : forall r, r ∈ args -> r.Stable)
    (h : forall r, r ∈ args -> r.Explained context) : Explains context (callBuiltin b args) := by
  unfold callBuiltin
  split
  · exact (h _ List.mem_cons_self).value.map _
  · exact (h _ List.mem_cons_self).value.map _
  · exact explains_extremum .lt hstable h
  · exact explains_extremum .gt hstable h
  · apply (h _ List.mem_cons_self).name.bind
    · exact isStable_pure none
    intro n
    exact Explains.of_bind (isStable_lookup n) fun _ => explains_some _
  · exact explains_emit _ none

theorem explains_call {v : Value} (hv : v.IsPredefined) {args : List Interpretation}
    (hstable : forall r, r ∈ args -> r.Stable)
    (h : forall r, r ∈ args -> r.Explained context) :
    Explains context (call (some v) args) := by
  rcases v with n | s | f
  · exact explains_report (.error (.notAFunction (.number n)))
  · exact explains_report (.error (.notAFunction (.text s)))
  · rcases hv with ⟨b, hcallee⟩
    rw [call_function, callFunction_builtin hcallee]
    exact explains_callBuiltin b hstable h

end

end Interpretation

/-!
## Expressions
-/

namespace Expr

open Evaluation Interpretation

section

variable {context : Context}

mutual

theorem explained_interpret (htotal : context.symbols.IsTotal)
    (hpredefined : context.symbols.IsPredefined) : (e : Expr) -> e.IsDetermined ->
    e.IsPredefined -> e.interpret.Explained context
  | .constant v, hd, _ => by
      apply explained_ofValue
      cases v with
      | none => exact absurd rfl hd
      | some v => exact explains_some v
  | .counter, _, _ =>
      explained_ofValue (Explains.of_bind (isStable_read.map _) explains_some)
  | .name n, _, _ => explained_ofName htotal (explains_some n)
  | .unary op e, hd, hp => by
      apply explained_ofValue
      apply (explained_interpret htotal hpredefined e hd hp).value.bind
      · exact isStable_unary op none
      exact explains_unary op
  | .binary op l r, hd, hp => by
      have hl := explained_interpret htotal hpredefined l hd.1 hp.1
      have hr := explained_interpret htotal hpredefined r hd.2 hp.2
      cases op with
      | logical o =>
          apply explained_ofValue
          apply hl.value.bind
          · split
            · exact isStable_pure none
            · exact (stable_interpret r).value
          intro first
          by_cases hdecides : o.decides (some first) = true
          · rw [if_pos hdecides]
            exact explains_some first
          · rw [if_neg hdecides]
            exact hr.value
      | _ =>
          apply explained_ofValue
          apply hl.value.bind
          · exact (stable_interpret r).value.bind (isStable_binary _ none)
          intro v
          apply hr.value.bind
          · exact isStable_binary _ (some v) none
          exact explains_binary (by simp) v
  | .group e, hd, hp => explained_interpret htotal hpredefined e hd hp
  | .conditional c t f, hd, hp => by
      apply explained_ofValue
      apply (explained_interpret htotal hpredefined c hd.1 hp.1).value.bind
      · exact isStable_pure none
      intro v
      by_cases htrue : v.isTrue = true
      · simp only [if_pos htrue]
        exact (explained_interpret htotal hpredefined t hd.2.1 hp.2.1).value
      · simp only [if_neg htrue]
        exact (explained_interpret htotal hpredefined f hd.2.2 hp.2.2).value
  | .index s i, hd, hp =>
      explained_ofName htotal (explains_indexName
        (explained_interpret htotal hpredefined s hd.1 hp.1)
        (explained_interpret htotal hpredefined i hd.2 hp.2) (stable_interpret i))
  | .member l r, hd, hp =>
      explained_ofName htotal (explains_memberName
        (explained_interpret htotal hpredefined l hd.1 hp.1)
        (explained_interpret htotal hpredefined r hd.2 hp.2) (stable_interpret r))
  | .call f args, hd, hp => by
      apply explained_ofValue
      apply (explained_interpret htotal hpredefined f hd.1 hp.1).value.bind_of
        (findsPredefined_value hpredefined f hp.1)
      · exact isStable_pure none
      intro v hv
      exact explains_call (hv v rfl) (stable_interpretAll args)
        (explained_interpretAll htotal hpredefined args hd.2 hp.2)

theorem explained_interpretAll (htotal : context.symbols.IsTotal)
    (hpredefined : context.symbols.IsPredefined) : (es : List Expr) ->
    EachAllConstants (· ≠ none) es ->
    EachAllConstants (fun v => forall u, v = some u -> u.IsPredefined) es ->
    forall r, r ∈ interpretAll es -> r.Explained context
  | [], _, _ => by
      intro r hr
      cases hr
  | e :: es, hd, hp => by
      intro r hr
      rcases List.mem_cons.mp hr with hfirst | hrest
      · rw [hfirst]
        exact explained_interpret htotal hpredefined e hd.1 hp.1
      · exact explained_interpretAll htotal hpredefined es hd.2 hp.2 r hrest

end

/--
Among builtins, a missing value or name is explained by a diagnostic if every name has a
value and no constant is undetermined. So an answer that is missing without a diagnostic
goes back to an undetermined constant or to a name without a value.
-/
theorem answers_explained (hcontext : context.symbols.IsPredefined) {e : Expr}
    (he : e.IsPredefined) (arena : Option Arena) :
    (context.symbols.IsTotal -> e.IsDetermined ->
      (exists v raised after, Yields e.evaluate context arena v raised after ∧
        (v = none -> raised ≠ [])) ∧
      (exists n raised after, Yields e.nameOf context arena n raised after ∧
        (n = none -> raised ≠ []))) ∧
    (forall after, Yields e.evaluate context arena none [] after ∨
        Yields e.nameOf context arena none [] after ->
      ¬ e.IsDetermined ∨ exists name, forall v, context.symbols.find? name ≠ some (.value v)) := by
  have hexplained (htotal : context.symbols.IsTotal) (hd : e.IsDetermined) :=
    explained_interpret htotal hcontext e hd he
  constructor
  · intro htotal hd
    exact ⟨(hexplained htotal hd).value arena, (hexplained htotal hd).name arena⟩
  · intro after hsilent
    by_cases hd : e.IsDetermined
    · right
      rcases context.symbols.isTotal_or with htotal | hname
      · rcases hsilent with hvalue | hname
        · exact absurd hvalue (hexplained htotal hd).value.not_silent
        · exact absurd hname (hexplained htotal hd).name.not_silent
      · exact hname
    · left
      exact hd

/-- Where every name is zero, a quotient has no value and its divisor is to blame. -/
theorem answers_explained_quotient :
    (Context.mk 0 ⟨fun _ => some (.value (.unsigned 0))⟩).symbols.IsPredefined ∧
      (Context.mk 0 ⟨fun _ => some (.value (.unsigned 0))⟩).symbols.IsTotal ∧
      (Expr.binary (.arithmetic .div) (.name "a") (.name "b")).IsPredefined ∧
      (Expr.binary (.arithmetic .div) (.name "a") (.name "b")).IsDetermined ∧
      exists raised after,
        Yields (Expr.binary (.arithmetic .div) (.name "a") (.name "b")).evaluate
          ⟨0, ⟨fun _ => some (.value (.unsigned 0))⟩⟩ none none raised after ∧ raised ≠ [] := by
  have hcontext : (Context.mk 0 ⟨fun _ => some (.value (.unsigned 0))⟩).symbols.IsPredefined := by
    intro name v h
    cases h
    trivial
  have htotal : (Context.mk 0 ⟨fun _ => some (.value (.unsigned 0))⟩).symbols.IsTotal := by
    intro name
    exact ⟨.unsigned 0, rfl⟩
  have he : (Expr.binary (.arithmetic .div) (.name "a") (.name "b")).IsPredefined :=
    ⟨trivial, trivial⟩
  have hd : (Expr.binary (.arithmetic .div) (.name "a") (.name "b")).IsDetermined :=
    ⟨trivial, trivial⟩
  rcases ((answers_explained hcontext he none).1 htotal hd).1 with
    ⟨v, raised, after, hyields, hraised⟩
  have hrun : Yields (Expr.binary (.arithmetic .div) (.name "a") (.name "b")).evaluate
      ⟨0, ⟨fun _ => some (.value (.unsigned 0))⟩⟩ none none [.divisionByZero] none :=
    fun _ => rfl
  rcases hyields.unique hrun with ⟨rfl, rfl, rfl⟩
  exact ⟨hcontext, htotal, he, hd, _, _, hyields, hraised rfl⟩

end

end Expr
end Equate
