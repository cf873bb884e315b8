import Equate.Proofs.Expr.Inquiries

/-!
# No node is asked twice

An inquiry has the shape of the expression that it comes of, and every node of it stands at a
position of its own. So do its events: a node is asked once at most and fails once at most,
which bounds the diagnostics by the number of nodes that can fail at all.
-/

namespace Equate
namespace Expr

open Evaluation

/-!
## Positions
-/

def at? : Expr -> List Nat -> Option Expr
  | e, [] => some e
  | e, i :: position => e.parts[i]?.bind fun part => part.at? position

def Inquiry.heard : Inquiry -> List (Option Answer)
  | .node _ _ round _ => round.answers

def Round.part? : Round -> Nat -> Option Inquiry
  | .nil, _ => none
  | .skip _, 0 => none
  | .skip rest, j + 1 => rest.part? j
  | .ask inquiry _, 0 => some inquiry
  | .ask _ rest, j + 1 => rest.part? j

theorem Rounds.part {context : Context} {es : List Expr} {arena after : Option Arena}
    {round : Round} (h : Rounds context es arena round after) {j : Nat} {inner : Inquiry}
    (hinner : round.part? j = some inner) :
    exists part start last, es[j]? = some part ∧ Inquires context part start inner last := by
  induction j generalizing es arena round with
  | zero =>
      cases h with
      | nil => cases hinner
      | skip e others => cases hinner
      | ask hquestion first others =>
          cases hinner
          exact ⟨_, _, _, rfl, first⟩
  | succ j ih =>
      cases h with
      | nil => cases hinner
      | skip e others => exact ih others hinner
      | ask hquestion first others => exact ih others hinner

/-!
The events of an inquiry are told apart by where they stand: those of the node itself stand at
the empty position, and those of a part below the number of this part.
-/

theorem mem_eventsFrom_iff {event : Event} : {i : Nat} -> {round : Round} ->
    (event ∈ round.eventsFrom i ↔ exists j inquiry inner,
      round.part? j = some inquiry ∧ inner ∈ inquiry.events ∧ event = inner.above (i + j))
  | i, .nil => by simp [Round.eventsFrom, Round.part?]
  | i, .skip rest => by
      rw [Round.eventsFrom, mem_eventsFrom_iff]
      constructor
      · intro h
        rcases h with ⟨j, inquiry, inner, hpart, hinner, rfl⟩
        exact ⟨j + 1, inquiry, inner, hpart, hinner, by rw [Nat.add_right_comm, Nat.add_assoc]⟩
      · intro h
        rcases h with ⟨_ | j, inquiry, inner, hpart, hinner, rfl⟩
        · cases hpart
        · exact ⟨j, inquiry, inner, hpart, hinner, by rw [Nat.add_right_comm, Nat.add_assoc]⟩
  | i, .ask first rest => by
      rw [Round.eventsFrom, List.mem_append, mem_eventsFrom_iff, List.mem_map]
      constructor
      · intro h
        rcases h with ⟨inner, hinner, rfl⟩ | ⟨j, inquiry, inner, hpart, hinner, rfl⟩
        · exact ⟨0, first, inner, rfl, hinner, rfl⟩
        · exact ⟨j + 1, inquiry, inner, hpart, hinner,
            by rw [Nat.add_right_comm, Nat.add_assoc]⟩
      · intro h
        rcases h with ⟨_ | j, inquiry, inner, hpart, hinner, rfl⟩
        · cases hpart
          exact Or.inl ⟨inner, hinner, rfl⟩
        · exact Or.inr ⟨j, inquiry, inner, hpart, hinner,
            by rw [Nat.add_right_comm, Nat.add_assoc]⟩

section

variable {question : Question} {answer : Answer} {round : Round} {raised : Option Diagnostic}

theorem mem_events_nil_iff {d : Diagnostic} :
    ⟨[], some d⟩ ∈ (Inquiry.node question answer round raised).events ↔ raised = some d := by
  have hround : ⟨[], some d⟩ ∉ round.eventsFrom 0 := by
    intro h
    rcases mem_eventsFrom_iff.mp h with ⟨j, inquiry, inner, _, _, heq⟩
    cases heq
  rw [Inquiry.events, List.mem_append, List.mem_cons]
  simp [hround]

theorem mem_events_cons_iff {i : Nat} {position : List Nat} {x : Option Diagnostic} :
    ⟨i :: position, x⟩ ∈ (Inquiry.node question answer round raised).events ↔
      exists inquiry, round.part? i = some inquiry ∧ ⟨position, x⟩ ∈ inquiry.events := by
  have hround : ⟨i :: position, x⟩ ∈ round.eventsFrom 0 ↔
      exists inquiry, round.part? i = some inquiry ∧ ⟨position, x⟩ ∈ inquiry.events := by
    rw [mem_eventsFrom_iff]
    constructor
    · intro h
      rcases h with ⟨j, inquiry, inner, hpart, hinner, heq⟩
      cases heq
      exact ⟨inquiry, by rwa [Nat.zero_add], hinner⟩
    · intro h
      rcases h with ⟨inquiry, hpart, hinner⟩
      exact ⟨i, inquiry, ⟨position, x⟩, hpart, hinner, by rw [Nat.zero_add]; rfl⟩
  rw [Inquiry.events, List.mem_append, List.mem_cons]
  simp [hround]

end

/--
Every event is at a node of the expression that was asked itself, and the node has raised
something if and only if it fails on what it has heard.
-/
theorem exists_of_mem_events {context : Context} {e : Expr} {arena after : Option Arena}
    {inquiry : Inquiry} (h : Inquires context e arena inquiry after) {position : List Nat}
    {x : Option Diagnostic} (hmem : ⟨position, x⟩ ∈ inquiry.events) :
    exists part start inner last, e.at? position = some part ∧
      Inquires context part start inner last ∧
        forall d, ⟨position, some d⟩ ∈ inquiry.events ↔ part.Faults inner.heard d := by
  induction position generalizing e arena inquiry after with
  | nil =>
      refine ⟨e, arena, inquiry, after, rfl, h, ?_⟩
      cases h with
      | node parts yields fault =>
          intro d
          rw [mem_events_nil_iff]
          exact fault d
  | cons i position ih =>
      cases h with
      | node parts yields fault =>
          rcases mem_events_cons_iff.mp hmem with ⟨first, hfirst, hmem⟩
          rcases parts.part hfirst with ⟨part, start, last, hpart, hinquires⟩
          rcases ih hinquires hmem with ⟨found, start', inner, last', hfound, hinner, hfaults⟩
          refine ⟨found, start', inner, last', ?_, hinner, ?_⟩
          · rw [at?, hpart]
            exact hfound
          · intro d
            rw [mem_events_cons_iff, hfirst]
            simpa using hfaults d

theorem nodup_keys_above (i : Nat) {events : List Event}
    (h : (events.map Event.key).Nodup) : ((events.map (Event.above i)).map Event.key).Nodup := by
  rw [List.map_map]
  have hkey : Event.key ∘ Event.above i =
      (fun key : List Nat × Bool => (i :: key.1, key.2)) ∘ Event.key := rfl
  rw [hkey, ← List.map_map]
  apply h.map
  intro key key' heq
  rcases Prod.mk.inj heq with ⟨hposition, hraised⟩
  exact Prod.ext (List.cons.inj hposition).2 hraised

mutual

theorem nodup_keys : (inquiry : Inquiry) -> (inquiry.events.map Event.key).Nodup
  | .node question answer round raised => by
      have hround := nodup_keysFrom 0 round
      have hroot : forall flag, ([], flag) ∉ (round.eventsFrom 0).map Event.key := by
        intro flag hmem
        rcases List.mem_map.mp hmem with ⟨event, hevent, hkey⟩
        rcases mem_eventsFrom_iff.mp hevent with ⟨j, inquiry, inner, _, _, rfl⟩
        cases hkey
      have hevents : (Inquiry.node question answer round raised).events.map Event.key =
          ([], false) :: ((round.eventsFrom 0).map Event.key ++
            raised.toList.map fun _ => ([], true)) := by
        cases raised <;> simp [Inquiry.events, Event.key]
      rw [hevents, List.nodup_cons]
      constructor
      · intro hmem
        rcases List.mem_append.mp hmem with h | h
        · exact hroot false h
        · rcases List.mem_map.mp h with ⟨_, _, heq⟩
          cases heq
      · cases raised with
        | none => exact (List.append_nil _).symm ▸ hround
        | some d =>
            exact hround.append (List.nodup_singleton _)
              (List.disjoint_singleton.mpr (hroot true))

theorem nodup_keysFrom : (i : Nat) -> (round : Round) ->
    ((round.eventsFrom i).map Event.key).Nodup
  | _, .nil => List.nodup_nil
  | i, .skip rest => nodup_keysFrom (i + 1) rest
  | i, .ask first rest => by
      rw [Round.eventsFrom, List.map_append]
      apply (nodup_keys_above i (nodup_keys first)).append (nodup_keysFrom (i + 1) rest)
      -- A part further to the right has a number of its own.
      intro key hfirst hrest
      rcases List.mem_map.mp hfirst with ⟨_, habove, rfl⟩
      rcases List.mem_map.mp habove with ⟨inner, _, rfl⟩
      rcases List.mem_map.mp hrest with ⟨event, hevent, hkey⟩
      rcases mem_eventsFrom_iff.mp hevent with ⟨j, inquiry, other, _, _, rfl⟩
      have hposition := (List.cons.inj (congrArg Prod.fst hkey)).1
      omega

end

/-!
## Diagnostics
-/

mutual

def operations : Expr -> Nat
  | .constant _ => 0
  | .counter => 0
  | .name _ => 0
  | .unary _ e => e.operations + 1
  | .binary _ l r => l.operations + r.operations + 1
  | .group e => e.operations
  | .conditional c t f => c.operations + t.operations + f.operations
  | .index s i => s.operations + i.operations
  | .member l r => l.operations + r.operations
  | .call f args => f.operations + operationsAll args + 1

def operationsAll : List Expr -> Nat
  | [] => 0
  | e :: es => e.operations + operationsAll es

end

theorem operations_eq (e : Expr) :
    e.operations = operationsAll e.parts + if e.isOperation then 1 else 0 := by
  cases e <;> simp [operations, operationsAll, parts, isOperation]
  omega

theorem raised_node (question : Question) (answer : Answer) (round : Round)
    (raised : Option Diagnostic) :
    (Inquiry.node question answer round raised).raised =
      (round.eventsFrom 0).filterMap Event.diagnostic ++ raised.toList := by
  have hseen := seenAll_events .silent question answer round raised
  rwa [seenAll_silent, seenAll_silent] at hseen

theorem filterMap_diagnostic_above (i : Nat) (events : List Event) :
    (events.map (Event.above i)).filterMap Event.diagnostic =
      events.filterMap Event.diagnostic :=
  List.filterMap_map

mutual

theorem length_raised_le {context : Context} {e : Expr} {arena after : Option Arena}
    {inquiry : Inquiry} : Inquires context e arena inquiry after ->
    inquiry.raised.length ≤ e.operations
  | @Inquires.node _ _ _ _ _ raised _ _ _ parts _ fault => by
      have hparts := length_raisedFrom_le 0 parts
      rw [raised_node, List.length_append, operations_eq]
      cases raised with
      | none => exact Nat.le_trans hparts (Nat.le_add_right _ _)
      | some d =>
          rw [if_pos (isOperation_of_faults ((fault d).mp rfl))]
          exact Nat.add_le_add_right hparts 1

theorem length_raisedFrom_le {context : Context} {es : List Expr} {arena after : Option Arena}
    {round : Round} (i : Nat) : Rounds context es arena round after ->
    ((round.eventsFrom i).filterMap Event.diagnostic).length ≤ operationsAll es
  | .nil _ => Nat.le_refl 0
  | .skip e others =>
      Nat.le_trans (length_raisedFrom_le (i + 1) others) (Nat.le_add_left _ _)
  | .ask hquestion first others => by
      rw [Round.eventsFrom, List.filterMap_append, filterMap_diagnostic_above, List.length_append]
      exact Nat.add_le_add (length_raised_le first) (length_raisedFrom_le (i + 1) others)

end

/-!
## Asking once
-/

/-- Whatever an expression is asked, none of its nodes is asked more than once for it. -/
structure AskedOnce (context : Context) (e : Expr) : Prop where
  /-- Every question comes to an inquiry. -/
  answerable : Answerable context e
  outcome : forall {arena inquiry after}, Inquires context e arena inquiry after ->
    Yields (e.ask inquiry.question) context arena inquiry.answer inquiry.raised after
  /-- Whatever the nodes are to note, it is noted when an event of the inquiry says so. -/
  notes : forall {arena inquiry after}, Inquires context e arena inquiry after -> forall note,
    Yields (observed note e inquiry.question) context arena inquiry.answer
      (seenAll note inquiry.events) after
  /-- No node is asked twice, and none raises two diagnostics. -/
  once : forall {arena inquiry after}, Inquires context e arena inquiry after ->
    (inquiry.events.map Event.key).Nodup
  /-- A node that was asked raises something if and only if it fails on what it has heard. -/
  faults : forall {arena inquiry after}, Inquires context e arena inquiry after ->
    forall {position x}, ⟨position, x⟩ ∈ inquiry.events ->
      exists part start inner last, e.at? position = some part ∧
        Inquires context part start inner last ∧
          forall d, ⟨position, some d⟩ ∈ inquiry.events ↔ part.Faults inner.heard d
  few : forall {arena inquiry after}, Inquires context e arena inquiry after ->
    inquiry.raised.length ≤ e.operations

/--
Among builtins, an expression that is asked for its value, for its name or for a step asks
every node at most once. A node raises one diagnostic if it fails, and none if an operand is
missing, so that there are no more diagnostics than operators and calls.
-/
theorem askedOnce {context : Context} (hcontext : context.symbols.IsPredefined) {e : Expr}
    (he : e.IsPredefined) : AskedOnce context e where
  answerable := answerable hcontext e he
  outcome h := by
    have hsilent := h.outcome .silent
    rwa [observed_silent, seenAll_silent] at hsilent
  notes h := h.outcome
  once := fun {_ inquiry _} _ => nodup_keys inquiry
  faults := exists_of_mem_events
  few := length_raised_le

/-- A quotient that fails below a negation and a sum, and a text that is called beside it. -/
theorem askedOnce_failures :
    let e : Expr :=
      .binary (.arithmetic .add)
        (.unary .negate (.binary (.arithmetic .div) (.constant (some (.unsigned 1)))
          (.constant (some (.unsigned 0)))))
        (.call (.constant (some (.text "f"))) [])
    (Context.mk 0 {}).symbols.IsPredefined ∧ e.IsPredefined ∧ AskedOnce (Context.mk 0 {}) e ∧
      (e.evaluate (Context.mk 0 {}) {}).2.diagnostics =
        [.divisionByZero, .notAFunction (.text "f")] := by
  intro e
  have hcontext : (Context.mk 0 {}).symbols.IsPredefined := nofun
  have hvalue : forall v u : Value, v.IsPredefined -> some v = some u -> u.IsPredefined := by
    intro v u hv hu
    cases hu
    exact hv
  have he : e.IsPredefined :=
    ⟨⟨fun u => hvalue _ u trivial, fun u => hvalue _ u trivial⟩, fun u => hvalue _ u trivial,
      trivial⟩
  exact ⟨hcontext, he, askedOnce hcontext he, rfl⟩

end Expr
end Equate
