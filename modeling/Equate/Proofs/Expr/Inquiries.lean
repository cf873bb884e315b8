import Equate.Proofs.Expr.Nodes
import Equate.Proofs.Operator.Faults

/-!
# Every node is asked once

Among builtins, a node asks each of its parts at most once, one after the other from the left,
and adds at most one diagnostic of its own at the end. An inquiry writes down what comes of it.
It is a tree of the same shape as the expression, so that no node is in it twice, and an
expression under observation leaves exactly the notes of such a tree.
-/

namespace Equate

open Evaluation Interpretation

/-!
## Faults
-/

namespace Builtin

def takes : Builtin -> Nat -> Bool
  | .min, count => 0 < count
  | .max, count => 0 < count
  | _, count => count == 1

def expectedCount : Builtin -> String
  | .min => "at least 1"
  | .max => "at least 1"
  | _ => "1"

def Miscounts (b : Builtin) (count : Nat) (d : Diagnostic) : Prop :=
  b.takes count = false ∧ d = .argumentCount b.name b.expectedCount count

theorem not_miscounts {b : Builtin} {count : Nat} (h : b.takes count = true) (d : Diagnostic) :
    ¬ b.Miscounts count d := by
  intro hd
  rw [hd.1] at h
  cases h

end Builtin

namespace Expr

/--
The diagnostic with which a node fails once its parts have given their answers, where a part
may not have been asked. It takes determined operands, a determined function that is none, or
a builtin that is called with a wrong number of arguments.
-/
def Faults : Expr -> List (Option Answer) -> Diagnostic -> Prop
  | .unary op _, [some (.value (some v))], d => op.Fault v d
  | .binary op _ _, [some (.value (some l)), some (.value (some r))], d => op.Fault l r d
  | .call _ args, some (.value (some (.function f))) :: _, d =>
      exists b, f.callee = .builtin b ∧ b.Miscounts args.length d
  | .call .., some (.value (some v)) :: _, d => d = .notAFunction v
  | _, _, _ => False

def isOperation : Expr -> Bool
  | .unary .. => true
  | .binary .. => true
  | .call .. => true
  | _ => false

theorem isOperation_of_faults {e : Expr} {answers : List (Option Answer)} {d : Diagnostic}
    (h : e.Faults answers d) : e.isOperation = true := by
  cases e with
  | unary op e => rfl
  | binary op l r => rfl
  | call f args => rfl
  | _ => exact h.elim

/-!
## Inquiries
-/

structure Event where
  position : List Nat
  diagnostic : Option Diagnostic

namespace Event

def above (i : Nat) (event : Event) : Event :=
  ⟨i :: event.position, event.diagnostic⟩

def key (event : Event) : List Nat × Bool :=
  (event.position, event.diagnostic.isSome)

def seen (note : Note) (event : Event) : List Diagnostic :=
  match event.diagnostic with
  | none => note event.position
  | some d => [d]

end Event

mutual

/-- A node was asked. It asked its parts, and it had an answer and perhaps a diagnostic. -/
inductive Inquiry where
  | node (question : Question) (answer : Answer) (round : Round) (raised : Option Diagnostic)

/-- The parts of a node in their order, each of which was skipped or asked. -/
inductive Round where
  | nil
  | skip (rest : Round)
  | ask (inquiry : Inquiry) (rest : Round)

end

def Inquiry.question : Inquiry -> Question
  | .node question .. => question

def Inquiry.answer : Inquiry -> Answer
  | .node _ answer .. => answer

def Round.answers : Round -> List (Option Answer)
  | .nil => []
  | .skip rest => none :: rest.answers
  | .ask inquiry rest => some inquiry.answer :: rest.answers

mutual

def Inquiry.events : Inquiry -> List Event
  | .node _ _ round raised =>
      ⟨[], none⟩ :: round.eventsFrom 0 ++ raised.toList.map fun d => ⟨[], some d⟩

def Round.eventsFrom : Nat -> Round -> List Event
  | _, .nil => []
  | i, .skip rest => rest.eventsFrom (i + 1)
  | i, .ask inquiry rest => inquiry.events.map (Event.above i) ++ rest.eventsFrom (i + 1)

end

def Inquiry.raised (inquiry : Inquiry) : List Diagnostic :=
  inquiry.events.filterMap Event.diagnostic

def seenAll (note : Note) (events : List Event) : List Diagnostic :=
  events.flatMap (Event.seen note)

theorem seenAll_append (note : Note) (first rest : List Event) :
    seenAll note (first ++ rest) = seenAll note first ++ seenAll note rest :=
  List.flatMap_append

theorem seenAll_above (note : Note) (i : Nat) (events : List Event) :
    seenAll note (events.map (Event.above i)) = seenAll (note.below i) events :=
  List.flatMap_map (Event.above i) (Event.seen note) events

theorem seenAll_silent (events : List Event) :
    seenAll .silent events = events.filterMap Event.diagnostic := by
  induction events with
  | nil => rfl
  | cons event events ih =>
      rcases event with ⟨position, _ | d⟩
      · exact ih
      · exact congrArg (d :: ·) ih

theorem seenAll_events (note : Note) (question : Question) (answer : Answer) (round : Round)
    (raised : Option Diagnostic) :
    seenAll note (Inquiry.node question answer round raised).events =
      note [] ++ (seenAll note (round.eventsFrom 0) ++ raised.toList) := by
  rw [Inquiry.events, List.cons_append]
  change note [] ++ seenAll note (_ ++ _) = _
  rw [seenAll_append]
  cases raised <;> rfl

mutual

/--
The inquiry that comes of asking an expression. Whatever is to be noted at the nodes, it is
noted once for each node that is in the inquiry, and a node raises a diagnostic if and only
if it fails on the answers of its parts.
-/
inductive Inquires (context : Context) : Expr -> Option Arena -> Inquiry -> Option Arena -> Prop
  | node {e : Expr} {question : Question} {answer : Answer} {round : Round}
      {raised : Option Diagnostic} {arena middle after : Option Arena}
      (parts : Rounds context e.parts arena round middle)
      (yields : forall note, Yields (observed note e question) context arena answer
        (seenAll note (Inquiry.node question answer round raised).events) after)
      (fault : forall d, raised = some d ↔ e.Faults round.answers d) :
      Inquires context e arena (.node question answer round raised) after

/-- The parts are asked from the left to the right, and never for a step. -/
inductive Rounds (context : Context) : List Expr -> Option Arena -> Round -> Option Arena -> Prop
  | nil (arena : Option Arena) : Rounds context [] arena .nil arena
  | skip (e : Expr) {es : List Expr} {arena after : Option Arena} {rest : Round}
      (others : Rounds context es arena rest after) :
      Rounds context (e :: es) arena (.skip rest) after
  | ask {e : Expr} {es : List Expr} {inquiry : Inquiry} {rest : Round}
      {arena middle after : Option Arena} (hquestion : inquiry.question ≠ .step)
      (first : Inquires context e arena inquiry middle)
      (others : Rounds context es middle rest after) :
      Rounds context (e :: es) arena (.ask inquiry rest) after

end

def Answerable (context : Context) (e : Expr) : Prop :=
  forall question arena, exists inquiry after,
    inquiry.question = question ∧ Inquires context e arena inquiry after

/-!
## Rounds

An evaluation that asks some parts of a node in one round is put together from the left: a
part is skipped, or it is asked and what follows goes on with its answer.
-/

def idle : List Expr -> Round
  | [] => .nil
  | _ :: es => .skip (idle es)

theorem rounds_idle (context : Context) (es : List Expr) (arena : Option Arena) :
    Rounds context es arena (idle es) arena := by
  induction es with
  | nil => exact .nil arena
  | cons e es ih => exact .skip e ih

theorem eventsFrom_idle (i : Nat) (es : List Expr) : (idle es).eventsFrom i = [] := by
  induction es generalizing i with
  | nil => rfl
  | cons e es ih => exact ih (i + 1)

/-- Parts that are numbered from a number on are asked in one round, with at most one fault. -/
def Asks (context : Context) (i : Nat) (es : List Expr)
    (fault : List (Option Answer) -> Diagnostic -> Prop) (m : Note -> Evaluation α) : Prop :=
  forall arena, exists a round raised middle after,
    Rounds context es arena round middle ∧
      (forall note, Yields (m note) context arena a
        (seenAll note (round.eventsFrom i) ++ raised.toList) after) ∧
      forall d, raised = some d ↔ fault round.answers d

def Silent (context : Context) (m : Evaluation α) : Prop :=
  Ensures context (fun _ raised => raised = []) m

section

variable {context : Context} {i : Nat} {e : Expr} {es : List Expr}
  {fault : List (Option Answer) -> Diagnostic -> Prop} {m : Note -> Evaluation α}

theorem asks_nothing {m : Evaluation α}
    (h : forall arena, exists a raised after, Yields m context arena a raised.toList after ∧
      forall d, raised = some d ↔ fault (idle es).answers d) :
    Asks context i es fault fun _ => m := by
  intro arena
  rcases h arena with ⟨a, raised, after, hyields, hfault⟩
  refine ⟨a, idle es, raised, arena, after, rounds_idle context es arena, ?_, hfault⟩
  intro note
  rw [eventsFrom_idle]
  exact hyields

theorem asks_silent {m : Evaluation α} (h : Silent context m)
    (hfault : forall d, ¬ fault (idle es).answers d) : Asks context i es fault fun _ => m := by
  apply asks_nothing
  intro arena
  rcases h arena with ⟨a, _, after, hyields, rfl⟩
  exact ⟨a, none, after, hyields, fun d => ⟨nofun, fun h => absurd h (hfault d)⟩⟩

theorem asks_report {outcome : Except Diagnostic Value}
    (hfault : forall d, outcome = .error d ↔ fault (idle es).answers d) :
    Asks context i es fault fun _ => report outcome := by
  apply asks_nothing
  intro arena
  cases outcome with
  | ok v =>
      refine ⟨some v, none, arena, yields_pure (some v) context arena, ?_⟩
      intro d
      rw [← hfault]
      exact ⟨nofun, nofun⟩
  | error d =>
      refine ⟨none, some d, arena, fun _ => rfl, ?_⟩
      intro d'
      rw [← hfault]
      exact ⟨fun h => congrArg _ (Option.some.inj h), fun h => congrArg _ (Except.error.inj h)⟩

theorem Asks.skip (e : Expr)
    (h : Asks context (i + 1) es (fun answers => fault (none :: answers)) m) :
    Asks context i (e :: es) fault m := by
  intro arena
  rcases h arena with ⟨a, round, raised, middle, after, hround, hyields, hfault⟩
  exact ⟨a, .skip round, raised, middle, after, .skip e hround, hyields, hfault⟩

theorem Asks.then {k : α -> Evaluation β} (h : Asks context i es fault m)
    (hk : forall a, Silent context (k a)) :
    Asks context i es fault fun note => m note >>= k := by
  intro arena
  rcases h arena with ⟨a, round, raised, middle, after, hround, hyields, hfault⟩
  rcases hk a after with ⟨b, _, last, hyields', rfl⟩
  refine ⟨b, round, raised, middle, last, hround, ?_, hfault⟩
  intro note
  have hboth := (hyields note).bind hyields'
  rwa [List.append_nil] at hboth

theorem Asks.map (h : Asks context i es fault m) (f : α -> β) :
    Asks context i es fault fun note => do return f (← m note) :=
  h.then fun _ => ensures_pure rfl

theorem Inquires.outcome {arena after : Option Arena} {inquiry : Inquiry}
    (h : Inquires context e arena inquiry after) (note : Note) :
    Yields (observed note e inquiry.question) context arena inquiry.answer
      (seenAll note inquiry.events) after := by
  cases h with
  | node parts yields fault => exact yields note

theorem asks_part (part : Note -> Evaluation β) (wrap : β -> Answer) (question : Question)
    (hquestion : question ≠ .step) {k : β -> Note -> Evaluation α}
    (hwrap : forall b b', wrap b = wrap b' -> b = b')
    (hpart : forall note, observed note e question = do return wrap (← part note))
    (he : Answerable context e)
    (hk : forall b,
      (exists arena raised after, Yields (part .silent) context arena b raised after) ->
        Asks context (i + 1) es (fun answers => fault (some (wrap b) :: answers)) (k b)) :
    Asks context i (e :: es) fault fun note => part (note.below i) >>= fun b => k b note := by
  intro arena
  rcases he question arena with ⟨inquiry, middle, rfl, hinquires⟩
  have hnote : forall note, exists b, wrap b = inquiry.answer ∧
      Yields (part note) context arena b (seenAll note inquiry.events) middle := by
    intro note
    have hyields := hinquires.outcome note
    rw [hpart] at hyields
    exact hyields.of_map hwrap
  rcases hnote .silent with ⟨b, hb, hsilent⟩
  have hfirst : forall note, Yields (part note) context arena b (seenAll note inquiry.events)
      middle := by
    intro note
    rcases hnote note with ⟨b', hb', hyields⟩
    rwa [hwrap b' b (hb'.trans hb.symm)] at hyields
  rcases hk b ⟨arena, _, middle, hsilent⟩ middle with
    ⟨a, round, raised, last, after, hround, hyields, hfault⟩
  rw [hb] at hfault
  refine ⟨a, .ask inquiry round, raised, last, after, .ask hquestion hinquires hround, ?_, hfault⟩
  intro note
  have hboth := (hfirst (note.below i)).bind (k := fun b => k b note) (hyields note)
  rwa [← seenAll_above, ← List.append_assoc, ← seenAll_append] at hboth

theorem asks_value {k : Option Value -> Note -> Evaluation α} (he : Answerable context e)
    (hk : forall v, (exists arena raised after, Yields e.evaluate context arena v raised after) ->
      Asks context (i + 1) es (fun answers => fault (some (.value v) :: answers)) (k v)) :
    Asks context i (e :: es) fault fun note =>
      (observe (note.below i) e).value >>= fun v => k v note := by
  refine asks_part (fun note => (observe note e).value) .value .value nofun
    (fun _ _ => Answer.value.inj) ?_ he ?_
  · intro note
    rw [observe_eq]
    rfl
  · rw [observe_silent]
    exact hk

theorem asks_name {k : Option String -> Note -> Evaluation α} (he : Answerable context e)
    (hk : forall n,
      Asks context (i + 1) es (fun answers => fault (some (.name n) :: answers)) (k n)) :
    Asks context i (e :: es) fault fun note =>
      (observe (note.below i) e).name >>= fun n => k n note := by
  refine asks_part (fun note => (observe note e).name) .name .name nofun
    (fun _ _ => Answer.name.inj) ?_ he ?_
  · intro note
    rw [observe_eq]
    rfl
  · intro n _
    exact hk n

end

/-!
## Builtins
-/

section

variable {context : Context} {i : Nat} {es : List Expr}
  {fault : List (Option Answer) -> Diagnostic -> Prop} {m : Note -> Evaluation α}

theorem Asks.of_never (h : Asks context i es (fun _ _ => False) m)
    (hfault : forall answers d, ¬ fault answers d) : Asks context i es fault m := by
  intro arena
  rcases h arena with ⟨a, round, raised, middle, after, hround, hyields, hnever⟩
  refine ⟨a, round, raised, middle, after, hround, hyields, ?_⟩
  intro d
  rw [hnever]
  exact ⟨False.elim, hfault round.answers d⟩

theorem asks_values (hes : forall e, e ∈ es -> Answerable context e) :
    Asks context i es (fun _ _ => False) fun note => values (observeFrom note i es) := by
  induction es generalizing i with
  | nil => exact asks_silent (ensures_pure rfl) fun _ => id
  | cons e es ih =>
      rcases List.forall_mem_cons.mp hes with ⟨he, hes⟩
      apply asks_value he
      intro v _
      cases v with
      | none => exact asks_silent (ensures_pure rfl) fun _ => id
      | some v => exact (ih hes).map _

theorem silent_foldlM_better (keep : Ordering) (vs : List Value) (v : Value) :
    Silent context (vs.foldlM (better keep) v) := by
  induction vs generalizing v with
  | nil => exact ensures_pure rfl
  | cons u vs ih =>
      have hbetter : Silent context (better keep v u) :=
        Ensures.map (ensures_withArena fun _ => rfl)
      apply hbetter.bind
      intro w raised hraised
      rw [hraised]
      exact ih w

theorem asks_extremum (keep : Ordering) {e : Expr}
    (hes : forall e', e' ∈ e :: es -> Answerable context e') :
    Asks context i (e :: es) (fun _ _ => False) fun note =>
      extremum keep (observe (note.below i) e) (observeFrom note (i + 1) es) := by
  apply (asks_values hes).then
  intro vs
  rcases vs with _ | (_ | ⟨v, vs⟩)
  · exact ensures_pure rfl
  · exact ensures_pure rfl
  · exact Ensures.map (silent_foldlM_better keep vs v)

theorem asks_refuseCount {b : Builtin} {count : Nat} (h : b.takes count = false) :
    Asks context i es (fun _ => b.Miscounts count) fun _ => refuseCount b count := by
  apply asks_nothing
  intro arena
  refine ⟨none, some (.argumentCount b.name b.expectedCount count), arena, ?_, ?_⟩
  · intro earlier
    cases b <;> rfl
  · intro d
    constructor
    · intro hd
      cases hd
      exact ⟨h, rfl⟩
    · intro hd
      rw [hd.2]

theorem length_observeFrom (note : Note) (i : Nat) (es : List Expr) :
    (observeFrom note i es).length = es.length := by
  induction es generalizing i with
  | nil => rfl
  | cons e es ih => exact congrArg (· + 1) (ih (i + 1))

theorem callBuiltin_of_takes_eq_false {b : Builtin} {args : List Interpretation}
    (h : b.takes args.length = false) : callBuiltin b args = refuseCount b args.length := by
  rcases args with _ | ⟨r, _ | ⟨r', rest⟩⟩ <;> cases b <;> first | rfl | cases h

theorem asks_mapValue {e : Expr} (he : Answerable context e) (f : Value -> Value)
    (hfault : forall answers d, ¬ fault answers d) :
    Asks context i [e] fault fun note =>
      (observe (note.below i) e).value >>= fun v => pure (v.map f) := by
  apply asks_value he
  intro v _
  exact asks_silent (ensures_pure rfl) (hfault _)

theorem asks_callBuiltin (b : Builtin) (hes : forall e, e ∈ es -> Answerable context e) :
    Asks context i es (fun _ => b.Miscounts es.length) fun note =>
      callBuiltin b (observeFrom note i es) := by
  cases htakes : b.takes es.length with
  | false =>
      have hrefuse : (fun note => callBuiltin b (observeFrom note i es)) =
          fun _ => refuseCount b es.length := by
        funext note
        rw [← length_observeFrom note i es] at htakes ⊢
        exact callBuiltin_of_takes_eq_false htakes
      rw [hrefuse]
      exact asks_refuseCount htakes
  | true =>
      have hfault := Builtin.not_miscounts htakes
      cases b with
      | min =>
          rcases es with _ | ⟨e, es⟩
          · cases htakes
          · exact (asks_extremum .lt hes).of_never fun _ => hfault
      | max =>
          rcases es with _ | ⟨e, es⟩
          · cases htakes
          · exact (asks_extremum .gt hes).of_never fun _ => hfault
      | str =>
          rcases List.length_eq_one_iff.mp (beq_iff_eq.mp htakes) with ⟨e, rfl⟩
          exact asks_mapValue (hes e List.mem_cons_self) _ fun _ => hfault
      | len =>
          rcases List.length_eq_one_iff.mp (beq_iff_eq.mp htakes) with ⟨e, rfl⟩
          exact asks_mapValue (hes e List.mem_cons_self) _ fun _ => hfault
      | defined =>
          rcases List.length_eq_one_iff.mp (beq_iff_eq.mp htakes) with ⟨e, rfl⟩
          apply asks_name (hes e List.mem_cons_self)
          intro n
          cases n with
          | none => exact asks_silent (ensures_pure rfl) hfault
          | some n =>
              have hlookup : Silent context (lookup n) := fun arena =>
                ⟨_, [], arena, yields_of_silent fun _ => rfl, rfl⟩
              exact asks_silent (Ensures.map hlookup) hfault

end

/-!
## Nodes
-/

structure AsksBoth (context : Context) (i : Nat) (es : List Expr)
    (fault : List (Option Answer) -> Diagnostic -> Prop) (r : Note -> Interpretation) : Prop where
  value : Asks context i es fault fun note => (r note).value
  name : Asks context i es fault fun note => (r note).name

section

variable {context : Context} {i : Nat} {es : List Expr}
  {fault : List (Option Answer) -> Diagnostic -> Prop}

theorem silent_valueOfName? (name : Option String) : Silent context (valueOfName? name) := by
  cases name with
  | none => exact ensures_pure rfl
  | some name => exact ensures_valueOfName rfl

theorem asksBoth_ofValue {m : Note -> Evaluation (Option Value)}
    (h : Asks context i es fault m) :
    AsksBoth context i es fault fun note => .ofValue (m note) where
  value := h
  name := h.map _

theorem asksBoth_ofName {m : Note -> Evaluation (Option String)}
    (h : Asks context i es fault m) :
    AsksBoth context i es fault fun note => .ofName (m note) where
  value := h.then silent_valueOfName?
  name := h

end

section

variable {context : Context}

theorem asks_unary (op : UnaryOp) {e : Expr} (he : Answerable context e) :
    Asks context 0 [e] (unary op e).Faults fun note =>
      (observe (note.below 0) e).value >>= Evaluation.unary op := by
  apply asks_value he
  intro v _
  cases v with
  | none => exact asks_silent (ensures_pure rfl) fun _ => id
  | some v => exact asks_report (op.apply_eq_error_iff v)

theorem asks_applyBinary (op : BinaryOp) (l r : Value) {i : Nat}
    {fault : List (Option Answer) -> Diagnostic -> Prop}
    (hfault : forall d, op.Fault l r d ↔ fault [] d) :
    Asks context i [] fault fun _ => applyBinary op l r >>= report := by
  intro arena
  have happly : Yields (applyBinary op l r) context arena (op.apply l r arena).1 []
      (op.apply l r arena).2 := yields_of_silent fun _ => rfl
  have hreport : Asks context i [] fault fun _ => report (op.apply l r arena).1 :=
    asks_report fun d => (op.apply_eq_error_iff l r arena d).trans (hfault d)
  rcases hreport (op.apply l r arena).2 with ⟨v, round, raised, _, after, hround, hyields, hd⟩
  cases hround with
  | nil =>
      refine ⟨v, .nil, raised, arena, after, .nil arena, ?_, hd⟩
      intro note
      exact happly.bind (hyields note)

theorem asks_binary {op : BinaryOp} (hop : forall o, op ≠ .logical o) {l r : Expr}
    (hl : Answerable context l) (hr : Answerable context r) :
    Asks context 0 [l, r] (binary op l r).Faults fun note =>
      (observe (note.below 0) l).value >>= fun v =>
        (observe (note.below 1) r).value >>= Evaluation.binary op v := by
  apply asks_value hl
  intro v _
  apply asks_value hr
  intro w _
  rcases v with _ | v
  · rw [binary_none_left hop]
    exact asks_silent (ensures_pure rfl) fun _ => id
  rcases w with _ | w
  · rw [binary_none_right hop]
    exact asks_silent (ensures_pure rfl) fun _ => id
  rw [binary_some hop]
  exact asks_applyBinary op v w fun d => Iff.rfl

theorem not_fault_logical (o : LogicalOp) (l r : Value) (d : Diagnostic) :
    ¬ BinaryOp.Fault (.logical o) l r d := by
  rw [← BinaryOp.apply_eq_error_iff _ l r none]
  exact nofun

theorem asks_logical (o : LogicalOp) {l r : Expr} (hl : Answerable context l)
    (hr : Answerable context r) :
    Asks context 0 [l, r] (binary (.logical o) l r).Faults fun note =>
      (observe (note.below 0) l).value >>= fun v =>
        if o.decides v then pure v else (observe (note.below 1) r).value := by
  apply asks_value hl
  intro v _
  by_cases hdecides : o.decides v = true
  · simp only [if_pos hdecides]
    apply Asks.skip
    apply asks_silent (ensures_pure rfl)
    intro d
    cases v <;> exact id
  · simp only [if_neg hdecides]
    apply asks_value (k := fun w _ => pure w) hr
    intro w _
    apply asks_silent (ensures_pure rfl)
    intro d
    rcases v with _ | v
    · exact id
    rcases w with _ | w
    · exact id
    exact not_fault_logical o v w d

theorem asks_conditional {c t f : Expr} (hc : Answerable context c) (ht : Answerable context t)
    (hf : Answerable context f) :
    Asks context 0 [c, t, f] (conditional c t f).Faults fun note =>
      (observe (note.below 0) c).value >>= fun v =>
        match v with
        | none => pure none
        | some v =>
            if v.isTrue then (observe (note.below 1) t).value
            else (observe (note.below 2) f).value := by
  apply asks_value hc
  intro v _
  cases v with
  | none => exact asks_silent (ensures_pure rfl) fun _ => id
  | some v =>
      by_cases htrue : v.isTrue = true
      · simp only [if_pos htrue]
        apply asks_value (k := fun w _ => pure w) ht
        intro w _
        exact asks_silent (ensures_pure rfl) fun _ => id
      · simp only [if_neg htrue]
        apply Asks.skip
        apply asks_value (k := fun w _ => pure w) hf
        intro w _
        exact asks_silent (ensures_pure rfl) fun _ => id

theorem asks_indexName {s i : Expr} (hs : Answerable context s) (hi : Answerable context i) :
    Asks context 0 [s, i] (index s i).Faults fun note =>
      indexName (observe (note.below 0) s) (observe (note.below 1) i) := by
  apply asks_name hs
  intro n
  apply asks_value hi
  intro v _
  cases n <;> cases v <;> exact asks_silent (ensures_pure rfl) fun _ => id

theorem asks_memberName {l r : Expr} (hl : Answerable context l) (hr : Answerable context r) :
    Asks context 0 [l, r] (member l r).Faults fun note =>
      memberName (observe (note.below 0) l) (observe (note.below 1) r) := by
  apply asks_name hl
  intro n
  apply asks_name hr
  intro n'
  cases n <;> cases n' <;> exact asks_silent (ensures_pure rfl) fun _ => id

theorem asks_call {f : Expr} {v : Option Value} (hv : forall u, v = some u -> u.IsPredefined)
    {args : List Expr} (hargs : forall e, e ∈ args -> Answerable context e) :
    Asks context 1 args (fun answers => (call f args).Faults (some (.value v) :: answers))
      fun note => Interpretation.call v (observeFrom note 1 args) := by
  rcases v with _ | (n | s | g)
  · exact asks_silent (ensures_pure rfl) fun _ => id
  · exact asks_report fun d => ⟨fun h => (Except.error.inj h).symm, fun h => congrArg _ h.symm⟩
  · exact asks_report fun d => ⟨fun h => (Except.error.inj h).symm, fun h => congrArg _ h.symm⟩
  · rcases hv (.function g) rfl with ⟨b, hb⟩
    simp only [call_function, callFunction_builtin hb]
    intro arena
    rcases asks_callBuiltin b hargs arena with
      ⟨a, round, raised, middle, after, hround, hyields, hfault⟩
    refine ⟨a, round, raised, middle, after, hround, hyields, ?_⟩
    intro d
    rw [hfault]
    constructor
    · intro hd
      exact ⟨b, hb, hd⟩
    · intro hd
      rcases hd with ⟨b', hb', hd⟩
      cases hb.symm.trans hb'
      exact hd

section

variable (hcontext : context.symbols.IsPredefined)
include hcontext

theorem asks_callee {f : Expr} (hf : f.IsPredefined) (hanswerable : Answerable context f)
    {args : List Expr} {k : Option Value -> Note -> Evaluation α}
    (hk : forall v, (forall u, v = some u -> u.IsPredefined) ->
      Asks context 1 args (fun answers => (call f args).Faults (some (.value v) :: answers))
        (k v)) :
    Asks context 0 (f :: args) (call f args).Faults fun note =>
      (observe (note.below 0) f).value >>= fun v => k v note := by
  apply asks_value hanswerable
  intro v hv
  apply hk
  rcases hv with ⟨arena, raised, after, hyields⟩
  rcases findsPredefined_value hcontext f hf arena with ⟨v', raised', after', hyields', hv'⟩
  cases (hyields.unique hyields').1
  exact hv'

variable {e : Expr} (he : e.IsPredefined)
  (hparts : forall part, part ∈ e.parts -> Answerable context part)
include he hparts

/-- Whichever of its two questions a node is asked, it asks its parts in one round. -/
theorem asks_node :
    AsksBoth context 0 e.parts e.Faults fun note => e.node (observeFrom note 0 e.parts) := by
  cases e with
  | constant v => exact asksBoth_ofValue (asks_silent (ensures_pure rfl) fun _ => id)
  | counter =>
      have hcounter : Silent context (do return some (← programCounter)) :=
        Ensures.map (ensures_programCounter rfl)
      exact asksBoth_ofValue (asks_silent hcounter fun _ => id)
  | name n => exact asksBoth_ofName (asks_silent (ensures_pure rfl) fun _ => id)
  | unary op e => exact asksBoth_ofValue (asks_unary op (hparts e (by simp [parts])))
  | binary op l r =>
      have hl := hparts l (by simp [parts])
      have hr := hparts r (by simp [parts])
      cases op with
      | logical o => exact asksBoth_ofValue (asks_logical o hl hr)
      | _ => exact asksBoth_ofValue (asks_binary (by simp) hl hr)
  | group e =>
      have hinner := hparts e (by simp [parts])
      constructor
      · apply asks_value (k := fun v _ => pure v) hinner
        intro v _
        exact asks_silent (ensures_pure rfl) fun _ => id
      · apply asks_name (k := fun n _ => pure n) hinner
        intro n
        exact asks_silent (ensures_pure rfl) fun _ => id
  | conditional c t f =>
      exact asksBoth_ofValue (asks_conditional (hparts c (by simp [parts]))
        (hparts t (by simp [parts])) (hparts f (by simp [parts])))
  | index s i =>
      exact asksBoth_ofName (asks_indexName (hparts s (by simp [parts]))
        (hparts i (by simp [parts])))
  | member l r =>
      exact asksBoth_ofName (asks_memberName (hparts l (by simp [parts]))
        (hparts r (by simp [parts])))
  | call f args =>
      rcases List.forall_mem_cons.mp hparts with ⟨hf, hargs⟩
      exact asksBoth_ofValue (asks_callee hcontext he.1 hf fun v hv => asks_call hv hargs)

/-- For a step a node asks its parts in one round as well, but not what it hands back. -/
theorem asks_step :
    Asks context 0 e.parts e.Faults fun note => e.step (observeFrom note 0 e.parts) := by
  have hnode := asks_node hcontext he hparts
  cases e with
  | group e => exact (asks_silent (ensures_pure rfl) fun _ => id).skip e
  | conditional c t f =>
      apply asks_value (hparts c (by simp [parts]))
      intro v _
      cases v with
      | none => exact asks_silent (ensures_pure rfl) fun _ => id
      | some v => exact asks_silent (ensures_pure rfl) fun _ => id
  | index s i => exact hnode.name.map ofName
  | member l r => exact hnode.name.map ofName
  | call f args =>
      rcases List.forall_mem_cons.mp hparts with ⟨hf, hargs⟩
      apply asks_callee hcontext he.1 hf
      intro v hv
      have hcall := (asks_call hv hargs (f := f)).map Expr.constant
      rcases v with _ | (n | s | g)
      · exact hcall
      · exact hcall
      · exact hcall
      · rcases hv (.function g) rfl with ⟨b, hb⟩
        simp only [call_function, callFunction_builtin hb] at hcall
        simp only [hb]
        exact hcall
  | binary op l r => cases op <;> exact hnode.value.map Expr.constant
  | _ => exact hnode.value.map Expr.constant

omit hcontext he hparts in
theorem inquires_of_asks {question : Question} (h : Asks context 0 e.parts e.Faults fun note =>
    e.reply (observeFrom note 0 e.parts) question) (arena : Option Arena) :
    exists inquiry after, inquiry.question = question ∧ Inquires context e arena inquiry after := by
  rcases h arena with ⟨answer, round, raised, middle, after, hround, hyields, hfault⟩
  refine ⟨.node question answer round raised, after, rfl, .node hround ?_ hfault⟩
  intro note
  rw [seenAll_events]
  exact yields_noted (hyields note) (note [])

theorem answerable_of_parts : Answerable context e := by
  intro question
  have hnode := asks_node hcontext he hparts
  cases question with
  | step => exact inquires_of_asks ((asks_step hcontext he hparts).map Answer.step)
  | value => exact inquires_of_asks (hnode.value.map Answer.value)
  | name => exact inquires_of_asks (hnode.name.map Answer.name)

end

theorem answerable (hcontext : context.symbols.IsPredefined) (e : Expr) (he : e.IsPredefined) :
    Answerable context e := by
  apply answerable_of_parts hcontext he
  intro part hpart
  have hsize := size_lt_of_mem_parts hpart
  exact answerable hcontext part (he.part hpart)
termination_by e.size

end

end Expr
end Equate
