import Equate.Proofs.Evaluation.Stability

/-!
# Evaluations among builtins

Some facts about evaluations hold only as long as the host of the language has brought no
functions of its own. Then every function value that comes up is a builtin, because no
operator and no builtin makes a function: each of them hands on one that it was given.
-/

namespace Equate
namespace Evaluation

/-!
## Outcomes with a property

A property of an outcome speaks of the answer and of the diagnostics that were raised.
-/

/-- In whatever arena an evaluation starts, it has an outcome with a property. -/
def Ensures (context : Context) (P : α -> List Diagnostic -> Prop) (m : Evaluation α) : Prop :=
  forall arena, exists a raised after, Yields m context arena a raised after ∧ P a raised

section

variable {context : Context} {P Q : α -> List Diagnostic -> Prop} {m : Evaluation α}

theorem IsStable.ensures (h : IsStable m) : Ensures context (fun _ _ => True) m := by
  intro arena
  rcases h context arena with ⟨a, raised, after, hyields, _⟩
  exact ⟨a, raised, after, hyields, trivial⟩

theorem Ensures.mono (h : Ensures context P m) (hPQ : forall a raised, P a raised -> Q a raised) :
    Ensures context Q m := by
  intro arena
  rcases h arena with ⟨a, raised, after, hyields, hP⟩
  exact ⟨a, raised, after, hyields, hPQ a raised hP⟩

theorem Ensures.and (h : Ensures context P m) (h' : Ensures context Q m) :
    Ensures context (fun a raised => P a raised ∧ Q a raised) m := by
  intro arena
  rcases h arena with ⟨a, raised, after, hyields, hP⟩
  rcases h' arena with ⟨a', raised', after', hyields', hQ⟩
  rcases hyields.unique hyields' with ⟨rfl, rfl, rfl⟩
  exact ⟨a, raised, after, hyields, hP, hQ⟩

theorem ensures_pure {a : α} (h : P a []) : Ensures context P (pure a) := by
  intro arena
  exact ⟨a, [], arena, yields_pure a context arena, h⟩

theorem ensures_withArena {question : Option Arena -> α × Option Arena}
    (h : forall arena, P (question arena).1 []) : Ensures context P (withArena question) := by
  intro arena
  exact ⟨_, [], (question arena).2, yields_of_silent fun _ => rfl, h arena⟩

variable {R : β -> List Diagnostic -> Prop} {k : α -> Evaluation β}

theorem Ensures.bind (h : Ensures context P m)
    (hk : forall a raised, P a raised ->
      Ensures context (fun b raised' => R b (raised ++ raised')) (k a)) :
    Ensures context R (m >>= k) := by
  intro arena
  rcases h arena with ⟨a, raised, middle, hyields, hP⟩
  rcases hk a raised hP middle with ⟨b, raised', after, hyields', hR⟩
  exact ⟨b, raised ++ raised', after, hyields.bind hyields', hR⟩

theorem Ensures.map {f : α -> β} (h : Ensures context (fun a raised => R (f a) raised) m) :
    Ensures context R (do return f (← m)) := by
  apply h.bind
  intro a raised hR
  apply ensures_pure
  rw [List.append_nil]
  exact hR

end

section

variable {context : Context} {P : Option Value -> List Diagnostic -> Prop}

theorem ensures_valueOfName {name : String}
    (h : P ((context.symbols.find? name).bind Symbol.value?) []) :
    Ensures context P (valueOfName name) := by
  intro arena
  exact ⟨_, [], arena, yields_of_silent fun _ => rfl, h⟩

theorem ensures_programCounter {P : Value -> List Diagnostic -> Prop}
    (h : P (.unsigned context.counter) []) : Ensures context P programCounter := by
  intro arena
  exact ⟨_, [], arena, yields_of_silent fun _ => rfl, h⟩

theorem ensures_report {outcome : Except Diagnostic Value}
    (hok : forall v, outcome = .ok v -> P (some v) [])
    (herror : forall d, outcome = .error d -> P none [d]) : Ensures context P (report outcome) := by
  intro arena
  cases outcome with
  | ok v => exact ⟨some v, [], arena, yields_pure (some v) context arena, hok v rfl⟩
  | error d => exact ⟨none, [d], arena, fun _ => rfl, herror d rfl⟩

end

end Evaluation

/-!
## Predefined functions
-/

/-- Every value but a function of the host. -/
def Value.IsPredefined : Value -> Prop
  | .function f => exists b, f.callee = .builtin b
  | _ => True

def SymbolTable.IsPredefined (table : SymbolTable) : Prop :=
  forall name v, table.find? name = some (.value v) -> v.IsPredefined

namespace Expr

mutual

def AllConstants (P : Option Value -> Prop) : Expr -> Prop
  | .constant v => P v
  | .counter => True
  | .name _ => True
  | .unary _ e => e.AllConstants P
  | .binary _ l r => l.AllConstants P ∧ r.AllConstants P
  | .group e => e.AllConstants P
  | .conditional c t f => c.AllConstants P ∧ t.AllConstants P ∧ f.AllConstants P
  | .index s i => s.AllConstants P ∧ i.AllConstants P
  | .member l r => l.AllConstants P ∧ r.AllConstants P
  | .call f args => f.AllConstants P ∧ EachAllConstants P args

def EachAllConstants (P : Option Value -> Prop) : List Expr -> Prop
  | [] => True
  | e :: es => e.AllConstants P ∧ EachAllConstants P es

end

def IsPredefined (e : Expr) : Prop :=
  e.AllConstants fun v => forall u, v = some u -> u.IsPredefined

end Expr

/-!
## No new functions
-/

theorem Value.isPredefined_of_map {outcome : Except Diagnostic α} {f : α -> Number} {u : Value}
    (h : (outcome.map fun a => Value.number (f a)) = .ok u) : u.IsPredefined := by
  cases outcome with
  | error d => cases h
  | ok a =>
      cases h
      trivial

theorem UnaryOp.isPredefined_apply {op : UnaryOp} {v u : Value} (h : op.apply v = .ok u) :
    u.IsPredefined := by
  cases op with
  | not =>
      cases h
      trivial
  | _ => exact Value.isPredefined_of_map h

theorem Value.isPredefined_sum {l r u : Value} (h : l.sum r = .ok u) : u.IsPredefined := by
  unfold Value.sum at h
  split at h
  · cases h
  · split at h
    · exact Value.isPredefined_of_map h
    · cases h
      trivial

theorem Value.isPredefined_numeric {op : BinaryOp}
    {f : Number -> Number -> Except Diagnostic Number} {l r u : Value}
    (h : Value.numeric op f l r = .ok u) : u.IsPredefined := by
  unfold Value.numeric at h
  split at h
  · cases h
  · exact Value.isPredefined_of_map h

theorem BinaryOp.isPredefined_apply {op : BinaryOp} (hop : forall o, op ≠ .logical o)
    {l r u : Value} {arena : Option Arena} (h : (op.apply l r arena).1 = .ok u) :
    u.IsPredefined := by
  cases op with
  | arithmetic o =>
      cases o with
      | add => exact Value.isPredefined_sum h
      | _ => exact Value.isPredefined_numeric h
  | shift o => exact Value.isPredefined_numeric h
  | bitwise o => exact Value.isPredefined_numeric h
  | comparison o =>
      cases h
      trivial
  | strict o =>
      cases h
      trivial
  | logical o => exact absurd rfl (hop o)

namespace Evaluation

section

variable {op : BinaryOp} (hop : forall o, op ≠ .logical o)
include hop

theorem binary_none_left (r : Option Value) : binary op none r = pure none := by
  cases op with
  | logical o => exact absurd rfl (hop o)
  | _ => rfl

theorem binary_none_right (l : Option Value) : binary op l none = pure none := by
  cases op with
  | logical o => exact absurd rfl (hop o)
  | _ => cases l <;> rfl

theorem binary_some (l r : Value) :
    binary op (some l) (some r) = (do report (← applyBinary op l r)) := by
  cases op with
  | logical o => exact absurd rfl (hop o)
  | _ => rfl

end

def FindsPredefined (context : Context) (m : Evaluation (Option Value)) : Prop :=
  Ensures context (fun v _ => forall u, v = some u -> u.IsPredefined) m

section

variable {context : Context}

theorem FindsPredefined.of_bind {m : Evaluation α} {k : α -> Evaluation (Option Value)}
    (hm : IsStable m) (hk : forall a, FindsPredefined context (k a)) :
    FindsPredefined context (m >>= k) :=
  hm.ensures.bind fun a _ _ => hk a

theorem findsPredefined_pure {v : Option Value} (h : forall u, v = some u -> u.IsPredefined) :
    FindsPredefined context (pure v) :=
  ensures_pure h

theorem findsPredefined_none : FindsPredefined context (pure none) :=
  findsPredefined_pure (by simp)

theorem findsPredefined_some {v : Value} (h : v.IsPredefined) :
    FindsPredefined context (pure (some v)) :=
  findsPredefined_pure (by simpa using h)

theorem FindsPredefined.map {m : Evaluation (Option α)} (hm : IsStable m) {f : α -> Value}
    (hf : forall a, (f a).IsPredefined) : FindsPredefined context (do return (← m).map f) := by
  apply FindsPredefined.of_bind hm
  intro a
  apply findsPredefined_pure
  intro u hu
  rcases Option.map_eq_some_iff.mp hu with ⟨a, _, rfl⟩
  exact hf a

theorem findsPredefined_valueOfName? (hcontext : context.symbols.IsPredefined)
    (name : Option String) : FindsPredefined context (valueOfName? name) := by
  cases name with
  | none => exact findsPredefined_none
  | some name =>
      apply ensures_valueOfName
      intro u hu
      rcases Option.bind_eq_some_iff.mp hu with ⟨symbol, hsymbol, hvalue⟩
      cases symbol with
      | scope => cases hvalue
      | value v =>
          cases hvalue
          exact hcontext name u hsymbol

theorem findsPredefined_report {outcome : Except Diagnostic Value}
    (h : forall v, outcome = .ok v -> v.IsPredefined) :
    FindsPredefined context (report outcome) := by
  apply ensures_report
  · intro v hv u hu
    cases hu
    exact h v hv
  · intro d _ u hu
    cases hu

theorem findsPredefined_unary (op : UnaryOp) (v : Option Value) :
    FindsPredefined context (unary op v) := by
  cases v with
  | none => exact findsPredefined_none
  | some v => exact findsPredefined_report fun _ => UnaryOp.isPredefined_apply

theorem findsPredefined_binary {op : BinaryOp} (hop : forall o, op ≠ .logical o)
    (l r : Option Value) : FindsPredefined context (binary op l r) := by
  rcases l with _ | l
  · rw [binary_none_left hop]
    exact findsPredefined_none
  rcases r with _ | r
  · rw [binary_none_right hop]
    exact findsPredefined_none
  rw [binary_some hop]
  have happly : Ensures context (fun outcome _ => forall u, outcome = .ok u -> u.IsPredefined)
      (applyBinary op l r) :=
    ensures_withArena fun arena u => BinaryOp.isPredefined_apply hop
  apply happly.bind
  intro outcome _ houtcome
  exact findsPredefined_report houtcome

end

end Evaluation

namespace Interpretation

open Evaluation

section

variable {context : Context} {args : List Interpretation}
  (hargs : forall r, r ∈ args -> FindsPredefined context r.value)
include hargs

theorem ensures_values :
    Ensures context (fun vs _ => forall us, vs = some us -> forall u, u ∈ us -> u.IsPredefined)
      (values args) := by
  induction args with
  | nil =>
      apply ensures_pure
      intro us hus u hu
      cases hus
      cases hu
  | cons r rs ih =>
      apply (hargs r List.mem_cons_self).bind
      intro v _ hv
      cases v with
      | none => exact ensures_pure (by simp)
      | some v =>
          apply Ensures.map
          apply (ih fun s hs => hargs s (List.mem_cons_of_mem r hs)).mono
          intro vs _ hvs us hus u hu
          rcases Option.map_eq_some_iff.mp hus with ⟨rest, hrest, rfl⟩
          rcases List.mem_cons.mp hu with rfl | hu
          · exact hv u rfl
          · exact hvs rest hrest u hu

end

section

variable {context : Context}

theorem call_function (f : Function) (args : List Interpretation) :
    call (some (.function f)) args = callFunction f args :=
  rfl

theorem callFunction_builtin {f : Function} {b : Builtin} (h : f.callee = .builtin b)
    (args : List Interpretation) : callFunction f args = callBuiltin b args := by
  unfold callFunction
  rw [h]

theorem ensures_better (keep : Ordering) {pick candidate : Value} (hpick : pick.IsPredefined)
    (hcandidate : candidate.IsPredefined) :
    Ensures context (fun u _ => u.IsPredefined) (better keep pick candidate) := by
  apply Ensures.map
  apply (isStable_withArena (Value.settling_compare? candidate pick)).ensures.mono
  intro order _ _
  split
  · exact hcandidate
  · exact hpick

theorem ensures_foldlM_better (keep : Ordering) {vs : List Value}
    (hvs : forall v, v ∈ vs -> v.IsPredefined) {pick : Value} (hpick : pick.IsPredefined) :
    Ensures context (fun u _ => u.IsPredefined) (vs.foldlM (better keep) pick) := by
  induction vs generalizing pick with
  | nil => exact ensures_pure hpick
  | cons v vs ih =>
      apply (ensures_better keep hpick (hvs v List.mem_cons_self)).bind
      intro next _ hnext
      exact ih (fun u hu => hvs u (List.mem_cons_of_mem v hu)) hnext

theorem findsPredefined_extremum (keep : Ordering) {first : Interpretation}
    {rest : List Interpretation}
    (h : forall r, r ∈ first :: rest -> FindsPredefined context r.value) :
    FindsPredefined context (extremum keep first rest) := by
  apply (ensures_values h).bind
  intro vs _ hvs
  rcases vs with _ | (_ | ⟨v, vs⟩)
  · exact findsPredefined_none
  · exact findsPredefined_none
  · have hall := hvs (v :: vs) rfl
    apply Ensures.map
    apply (ensures_foldlM_better keep (fun u hu => hall u (List.mem_cons_of_mem v hu))
      (hall v List.mem_cons_self)).mono
    intro u _ hu w hw
    cases hw
    exact hu

theorem findsPredefined_callBuiltin (b : Builtin) {args : List Interpretation}
    (hstable : forall r, r ∈ args -> r.Stable)
    (hargs : forall r, r ∈ args -> FindsPredefined context r.value) :
    FindsPredefined context (callBuiltin b args) := by
  unfold callBuiltin
  split
  · exact FindsPredefined.map (hstable _ List.mem_cons_self).value fun _ => trivial
  · exact FindsPredefined.map (hstable _ List.mem_cons_self).value fun _ => trivial
  · exact findsPredefined_extremum .lt hargs
  · exact findsPredefined_extremum .gt hargs
  · apply FindsPredefined.of_bind (hstable _ List.mem_cons_self).name
    intro n
    cases n with
    | none => exact findsPredefined_none
    | some n =>
        apply FindsPredefined.of_bind (isStable_lookup n)
        intro symbol
        exact findsPredefined_some trivial
  · exact FindsPredefined.of_bind (isStable_emit _) fun _ => findsPredefined_none

theorem findsPredefined_call {v : Option Value} (hv : forall u, v = some u -> u.IsPredefined)
    {args : List Interpretation} (hstable : forall r, r ∈ args -> r.Stable)
    (hargs : forall r, r ∈ args -> FindsPredefined context r.value) :
    FindsPredefined context (call v args) := by
  rcases v with _ | (n | s | f)
  · exact findsPredefined_none
  · exact FindsPredefined.of_bind (isStable_emit _) fun _ => findsPredefined_none
  · exact FindsPredefined.of_bind (isStable_emit _) fun _ => findsPredefined_none
  · rcases hv (.function f) rfl with ⟨b, hcallee⟩
    rw [call_function, callFunction_builtin hcallee]
    exact findsPredefined_callBuiltin b hstable hargs

end

end Interpretation

namespace Expr

open Evaluation Interpretation

mutual

/-- Among builtins no evaluation finds a function of the host. -/
theorem findsPredefined_value {context : Context} (hcontext : context.symbols.IsPredefined) :
    (e : Expr) -> e.IsPredefined -> FindsPredefined context e.interpret.value
  | .constant v, h => findsPredefined_pure h
  | .counter, _ => by
      apply Ensures.map
      apply ensures_programCounter
      intro u hu
      cases hu
      trivial
  | .name n, _ => findsPredefined_valueOfName? hcontext (some n)
  | .unary op e, _ =>
      FindsPredefined.of_bind (stable_interpret e).value (findsPredefined_unary op)
  | .binary op l r, h => by
      cases op with
      | logical o =>
          apply (findsPredefined_value hcontext l h.1).bind
          intro first _ hfirst
          by_cases hdecides : o.decides first = true
          · rw [if_pos hdecides]
            exact findsPredefined_pure hfirst
          · rw [if_neg hdecides]
            exact findsPredefined_value hcontext r h.2
      | _ =>
          apply FindsPredefined.of_bind (stable_interpret l).value
          intro v
          apply FindsPredefined.of_bind (stable_interpret r).value
          intro u
          exact findsPredefined_binary (by simp) v u
  | .group e, h => findsPredefined_value hcontext e h
  | .conditional c t f, h => by
      apply FindsPredefined.of_bind (stable_interpret c).value
      intro v
      cases v with
      | none => exact findsPredefined_none
      | some v =>
          by_cases htrue : v.isTrue = true
          · simp only [if_pos htrue]
            exact findsPredefined_value hcontext t h.2.1
          · simp only [if_neg htrue]
            exact findsPredefined_value hcontext f h.2.2
  -- Whatever the parts are, an index and a member find what is bound to some name.
  | .index s i, _ =>
      FindsPredefined.of_bind (isStable_indexName (stable_interpret s) (stable_interpret i))
        (findsPredefined_valueOfName? hcontext)
  | .member l r, _ =>
      FindsPredefined.of_bind (isStable_memberName (stable_interpret l) (stable_interpret r))
        (findsPredefined_valueOfName? hcontext)
  | .call f args, h => by
      apply (findsPredefined_value hcontext f h.1).bind
      intro v _ hv
      exact findsPredefined_call hv (stable_interpretAll args)
        (findsPredefined_values hcontext args h.2)

theorem findsPredefined_values {context : Context} (hcontext : context.symbols.IsPredefined) :
    (es : List Expr) ->
    EachAllConstants (fun v => forall u, v = some u -> u.IsPredefined) es ->
    forall r, r ∈ interpretAll es -> FindsPredefined context r.value
  | [], _ => by
      intro r hr
      cases hr
  | e :: es, h => by
      intro r hr
      rcases List.mem_cons.mp hr with hfirst | hrest
      · rw [hfirst]
        exact findsPredefined_value hcontext e h.1
      · exact findsPredefined_values hcontext es h.2 r hrest

end

end Expr
end Equate
