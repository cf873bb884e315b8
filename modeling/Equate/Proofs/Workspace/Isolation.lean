import Equate.Proofs.Session.Locality
import Equate.Workspace

/-!
# Sessions that share a registry

Sessions are opened, used and closed in any order on one registry. Every session goes its own
way: what it answers, and what can be seen of it, is what it would answer if it had been opened
in a workspace in which there is nobody else.
-/

namespace Equate

/-- What can happen in a workspace. Nobody asks the registry directly. -/
inductive Event where
  | opened
  | operated (n : Nat) (o : Operation)
  | closed (n : Nat)

namespace Event

/-!
## The events of one session

Sessions are numbered in the order in which they are opened. In a workspace of its own a session
has the number zero.
-/

/-- The events of a session among those after which `count` sessions had been opened before. -/
def ownFrom (n : Nat) : Nat -> List Event -> List Event
  | _, [] => []
  | count, .opened :: events =>
      if count = n then .opened :: ownFrom n (count + 1) events
      else ownFrom n (count + 1) events
  | count, .operated m o :: events =>
      if m = n then .operated 0 o :: ownFrom n count events else ownFrom n count events
  | count, .closed m :: events =>
      if m = n then .closed 0 :: ownFrom n count events else ownFrom n count events

def own (n : Nat) (events : List Event) : List Event :=
  ownFrom n 0 events

end Event

namespace Workspace

def after (w : Workspace) : Event -> Workspace
  | .opened => w.openSession false
  | .operated n o => (w.perform n o.run).2
  | .closed n => w.closeSession n

def afterAll (w : Workspace) (events : List Event) : Workspace :=
  events.foldl after w

/-- What a session answers, in turn. Before it is opened and once it is closed it has no answer. -/
def answersTo (n : Nat) : Workspace -> List Event -> List (Option (Except RunError (Option Value)))
  | _, [] => []
  | w, .operated m o :: events =>
      if m = n then (w.perform m o.run).1 :: answersTo n (w.after (.operated m o)) events
      else answersTo n (w.after (.operated m o)) events
  | w, event :: events => answersTo n (w.after event) events

structure Inspection where
  symbols : Option SymbolTable
  counter : Option UInt64
  registered : Nat

def inspect (w : Workspace) (n : Nat) : Inspection :=
  ⟨(w.session? n).map Session.symbols, (w.session? n).map Session.counter, w.registered n⟩

def unused (assembly base : Nat) : Workspace where
  nextAssembly := assembly
  nextFunction := base

/-!
## One seat

An operation or the end of a session replaces its seat and the shared registry.
-/

def settle (w : Workspace) (n : Nat) (seat : Seat) (shared : Registry) : Workspace :=
  { w.setSeat n seat with shared := shared }

theorem session?_eq_some_iff {w : Workspace} {n : Nat} {s : Session} :
    w.session? n = some s ↔ exists seat, w.seats[n]? = some seat ∧ seat.session = some s := by
  rw [session?, Option.bind_eq_some_iff]

theorem seats_settle_of_ne (w : Workspace) {n m : Nat} (h : m ≠ n) (seat : Seat)
    (shared : Registry) : (w.settle n seat shared).seats[m]? = w.seats[m]? :=
  List.getElem?_set_ne h.symm

theorem seats_settle_self {w : Workspace} {n : Nat} (h : n < w.seats.length) (seat : Seat)
    (shared : Registry) : (w.settle n seat shared).seats[n]? = some seat :=
  List.getElem?_set_self h

theorem session?_settle_of_ne (w : Workspace) {n m : Nat} (h : m ≠ n) (seat : Seat)
    (shared : Registry) : (w.settle n seat shared).session? m = w.session? m := by
  rw [session?, seats_settle_of_ne w h]
  rfl

theorem session?_settle_self {w : Workspace} {n : Nat} (h : n < w.seats.length) (seat : Seat)
    (shared : Registry) : (w.settle n seat shared).session? n = seat.session := by
  rw [session?, seats_settle_self h]
  rfl

theorem length_settle (w : Workspace) (n : Nat) (seat : Seat) (shared : Registry) :
    (w.settle n seat shared).seats.length = w.seats.length :=
  List.length_set

/-!
## Orderly workspaces

Every session has an assembly of its own, counted from some first one, and only the assemblies
of open sessions have arenas.
-/

structure Orderly (first : Nat) (w : Workspace) : Prop where
  next : w.nextAssembly = first + w.seats.length
  seat : forall {n : Nat} {seat : Seat}, w.seats[n]? = some seat ->
    seat.assembly = ⟨first + n⟩ ∧ seat.own = none
  session : forall {n : Nat} {s : Session}, w.session? n = some s -> s.assembly = ⟨first + n⟩
  arena : forall {assembly : Assembly} {arena : Arena}, w.shared.arena? assembly = some arena ->
    exists n s, w.session? n = some s ∧ s.assembly = assembly

theorem orderly_unused (first base : Nat) : Orderly first (unused first base) where
  next := rfl
  seat h := nomatch h
  session h := nomatch h
  arena h := nomatch h

structure Replaces (first : Nat) (w : Workspace) (n : Nat) (seat : Seat) (shared : Registry) :
    Prop where
  lt : n < w.seats.length
  assembly : seat.assembly = ⟨first + n⟩
  own : seat.own = none
  session : forall s, seat.session = some s -> s.assembly = ⟨first + n⟩
  others : forall other, other ≠ ⟨first + n⟩ -> shared.arena? other = w.shared.arena? other
  closed : seat.session = none -> shared.arena? ⟨first + n⟩ = none

section

variable {first : Nat} {w : Workspace} (h : Orderly first w) {n : Nat}
include h

theorem Orderly.arena?_eq_none (hn : w.session? n = none) :
    w.shared.arena? ⟨first + n⟩ = none := by
  cases harena : w.shared.arena? ⟨first + n⟩ with
  | none => rfl
  | some arena =>
      rcases h.arena harena with ⟨k, s, hs, hassembly⟩
      rw [h.session hs] at hassembly
      have hk : k = n := Nat.add_left_cancel (Assembly.mk.inj hassembly)
      rw [hk, hn] at hs
      cases hs

theorem Orderly.settle {seat : Seat} {shared : Registry} (hnew : Replaces first w n seat shared) :
    Orderly first (w.settle n seat shared) where
  next := by
    rw [length_settle]
    exact h.next
  seat {m found} hm := by
    by_cases hmn : m = n
    · subst hmn
      rw [seats_settle_self hnew.lt] at hm
      cases hm
      exact ⟨hnew.assembly, hnew.own⟩
    · rw [seats_settle_of_ne w hmn] at hm
      exact h.seat hm
  session {m s} hm := by
    by_cases hmn : m = n
    · subst hmn
      rw [session?_settle_self hnew.lt] at hm
      exact hnew.session s hm
    · rw [session?_settle_of_ne w hmn] at hm
      exact h.session hm
  arena {assembly arena} harena := by
    change shared.arena? assembly = some arena at harena
    by_cases hassembly : assembly = ⟨first + n⟩
    · subst hassembly
      cases hs : seat.session with
      | none =>
          rw [hnew.closed hs] at harena
          cases harena
      | some s =>
          exact ⟨n, s, (session?_settle_self hnew.lt seat shared).trans hs, hnew.session s hs⟩
    · rw [hnew.others assembly hassembly] at harena
      rcases h.arena harena with ⟨m, s, hs, rfl⟩
      have hmn : m ≠ n := by
        rintro rfl
        exact hassembly (h.session hs)
      exact ⟨m, s, (session?_settle_of_ne w hmn seat shared).trans hs, rfl⟩

end

/-!
## Events as changes of a seat
-/

theorem perform_of_closed {w : Workspace} {n : Nat} (h : w.session? n = none)
    (m : SessionM α) : w.perform n m = (none, w) := by
  unfold perform
  unfold session? at h
  cases hseat : w.seats[n]? with
  | none => rfl
  | some seat =>
      rw [hseat] at h
      have hsession : seat.session = none := h
      simp only [hsession]

theorem closeSession_of_none {w : Workspace} {n : Nat} (h : w.seats[n]? = none) :
    w.closeSession n = w := by
  unfold closeSession
  rw [h]

theorem session?_eq_none_of_le {w : Workspace} {n : Nat} (h : w.seats.length ≤ n) :
    w.session? n = none := by
  rw [session?, List.getElem?_eq_none h]
  rfl

def freshSeat (w : Workspace) : Seat where
  assembly := ⟨w.nextAssembly⟩
  session := some (.create ⟨w.nextAssembly⟩ w.nextFunction)
  own := none

theorem seats_openSession (w : Workspace) (n : Nat) :
    (w.openSession false).seats[n]? =
      if n = w.seats.length then some w.freshSeat else w.seats[n]? := by
  change (w.seats ++ [w.freshSeat])[n]? = _
  by_cases hn : n = w.seats.length
  · rw [if_pos hn, hn, List.getElem?_concat_length]
  · rw [if_neg hn]
    rcases Nat.lt_or_gt_of_ne hn with hlt | hgt
    · rw [List.getElem?_append_left hlt]
    · rw [List.getElem?_eq_none (by simp; omega), List.getElem?_eq_none (Nat.le_of_lt hgt)]

theorem session?_openSession (w : Workspace) (n : Nat) :
    (w.openSession false).session? n =
      if n = w.seats.length then w.freshSeat.session else w.session? n := by
  rw [session?, seats_openSession]
  split <;> rfl

theorem length_openSession (w : Workspace) :
    (w.openSession false).seats.length = w.seats.length + 1 :=
  List.length_append

section

variable {first : Nat} {w : Workspace} (h : Orderly first w) {n : Nat}
include h

theorem Orderly.perform_of_open {s : Session} (hs : w.session? n = some s) (o : Operation) :
    exists seat, seat.session = some (o.run.run ⟨s, w.shared⟩).2.session ∧
      Replaces first w n seat (o.run.run ⟨s, w.shared⟩).2.registry ∧
      w.perform n o.run = (some (o.run.run ⟨s, w.shared⟩).1,
        w.settle n seat (o.run.run ⟨s, w.shared⟩).2.registry) := by
  rcases session?_eq_some_iff.mp hs with ⟨seat, hseat, hsession⟩
  rcases h.seat hseat with ⟨hassembly, hown⟩
  have hconfined := o.isLocal_run.confined ⟨s, w.shared⟩
  have hs' := h.session hs
  refine ⟨{ seat with session := some (o.run.run ⟨s, w.shared⟩).2.session }, rfl, ?_, ?_⟩
  · constructor
    case lt => exact (List.getElem?_eq_some_iff.mp hseat).1
    case assembly => exact hassembly
    case own => exact hown
    case session =>
      rintro after ⟨⟩
      exact hconfined.assembly.trans hs'
    case others =>
      rw [← hs']
      exact hconfined.others
    case closed => exact nofun
  · simp only [perform, hseat, hsession, hown, Option.getD_none]
    rfl

theorem Orderly.closeSession_of_seat {seat : Seat} (hseat : w.seats[n]? = some seat) :
    exists shared, w.closeSession n = w.settle n { seat with session := none, own := none } shared ∧
      Replaces first w n { seat with session := none, own := none } shared ∧
      forall assembly, shared.arena? assembly =
        if assembly = ⟨first + n⟩ then none else w.shared.arena? assembly := by
  rcases h.seat hseat with ⟨hassembly, hown⟩
  have harena : exists shared,
      w.closeSession n = w.settle n { seat with session := none, own := none } shared ∧
        forall assembly, shared.arena? assembly =
          if assembly = ⟨first + n⟩ then none else w.shared.arena? assembly := by
    cases hsession : seat.session with
    | none =>
        have hclose : w.closeSession n =
            w.settle n { seat with session := none, own := none } w.shared := by
          simp only [closeSession, hseat, hsession]
          rfl
        refine ⟨_, hclose, ?_⟩
        intro assembly
        split
        · rename_i heq
          rw [heq]
          exact h.arena?_eq_none (by rw [session?, hseat]; exact hsession)
        · rfl
    | some s =>
        have hclose : w.closeSession n =
            w.settle n { seat with session := none, own := none }
              (w.shared.erase seat.assembly) := by
          simp only [closeSession, hseat, hsession, hown]
          rfl
        refine ⟨_, hclose, ?_⟩
        rw [hassembly]
        intro assembly
        split
        · rename_i heq
          rw [heq]
          exact w.shared.arena?_erase_self _
        · rename_i hne
          exact w.shared.arena?_erase_of_ne hne
  rcases harena with ⟨shared, hsettle, harena⟩
  refine ⟨shared, hsettle, ?_, harena⟩
  constructor
  case lt => exact (List.getElem?_eq_some_iff.mp hseat).1
  case assembly => exact hassembly
  case own => rfl
  case session => exact nofun
  case others =>
    intro other hother
    rw [harena, if_neg hother]
  case closed =>
    intro _
    rw [harena, if_pos rfl]

theorem Orderly.openSession : Orderly first (w.openSession false) where
  next := by
    rw [length_openSession, ← Nat.add_assoc, ← h.next]
    rfl
  seat {n seat} hn := by
    rw [seats_openSession] at hn
    split at hn
    · rename_i hlast
      cases hn
      rw [hlast, ← h.next]
      exact ⟨rfl, rfl⟩
    · exact h.seat hn
  session {n s} hs := by
    rw [session?_openSession] at hs
    split at hs
    · rename_i hlast
      cases hs
      rw [hlast, ← h.next]
      rfl
    · exact h.session hs
  arena {assembly arena} harena := by
    rcases h.arena harena with ⟨n, s, hs, hassembly⟩
    have hlast : n ≠ w.seats.length := by
      rintro rfl
      rw [session?_eq_none_of_le (Nat.le_refl _)] at hs
      cases hs
    refine ⟨n, s, ?_, hassembly⟩
    rw [session?_openSession, if_neg hlast]
    exact hs

/-- Every event keeps a workspace orderly. -/
theorem Orderly.after (event : Event) : Orderly first (w.after event) := by
  cases event with
  | opened => exact h.openSession
  | operated n o =>
      rw [Workspace.after]
      cases hs : w.session? n with
      | none =>
          rw [perform_of_closed hs]
          exact h
      | some s =>
          rcases h.perform_of_open hs o with ⟨seat, _, hnew, hperform⟩
          rw [hperform]
          exact h.settle hnew
  | closed n =>
      rw [Workspace.after]
      cases hseat : w.seats[n]? with
      | none =>
          rw [closeSession_of_none hseat]
          exact h
      | some seat =>
          rcases h.closeSession_of_seat hseat with ⟨shared, hclose, hnew, _⟩
          rw [hclose]
          exact h.settle hnew

end

/-!
## What can be seen of a session
-/

def view (w : Workspace) (n : Nat) : Option View :=
  (w.session? n).map fun s => (Workplace.mk s w.shared).view

section

variable {first : Nat} {w : Workspace} (h : Orderly first w) {n : Nat}
include h

theorem Orderly.registered_eq (n : Nat) :
    w.registered n = (((w.view n).bind View.arena).map Arena.size).getD 0 := by
  unfold registered view
  cases hseat : w.seats[n]? with
  | none =>
      rw [session?, hseat]
      rfl
  | some seat =>
      have hassembly := (h.seat hseat).1
      cases hs : w.session? n with
      | none =>
          change w.shared.registered seat.assembly = 0
          rw [hassembly, Registry.registered, h.arena?_eq_none hs]
          rfl
      | some s =>
          change w.shared.registered seat.assembly = _
          rw [hassembly, ← h.session hs]
          rfl

theorem Orderly.inspect_eq (n : Nat) :
    w.inspect n = ⟨(w.view n).map View.symbols, (w.view n).map View.counter,
      (((w.view n).bind View.arena).map Arena.size).getD 0⟩ := by
  rw [inspect, h.registered_eq, view, Option.map_map, Option.map_map]
  rfl

theorem Orderly.view_openSession (m : Nat) :
    (w.openSession false).view m =
      if m = w.seats.length then
        some ⟨.ofFunctions (Function.predefined w.nextFunction), 0, [], none⟩
      else w.view m := by
  unfold view
  rw [session?_openSession]
  split
  · have harena := h.arena?_eq_none (session?_eq_none_of_le (Nat.le_refl w.seats.length))
    rw [← h.next] at harena
    exact congrArg (fun arena => some (View.mk _ 0 [] arena)) harena
  · rfl

theorem Orderly.view_settle_of_ne {seat : Seat} {shared : Registry}
    (hnew : Replaces first w n seat shared) {m : Nat} (hm : m ≠ n) :
    (w.settle n seat shared).view m = w.view m := by
  unfold view
  rw [session?_settle_of_ne w hm]
  cases hs : w.session? m with
  | none => rfl
  | some s =>
      have hne : s.assembly ≠ ⟨first + n⟩ := by
        rw [h.session hs]
        intro heq
        exact hm (Nat.add_left_cancel (Assembly.mk.inj heq))
      exact congrArg (fun arena => some (View.mk s.symbols s.counter s.diagnostics arena))
        (hnew.others s.assembly hne)

/-- What others do is not seen. -/
theorem Orderly.view_operated_of_ne {m : Nat} (hm : m ≠ n) (o : Operation) :
    (w.after (.operated n o)).view m = w.view m := by
  rw [Workspace.after]
  cases hs : w.session? n with
  | none => rw [perform_of_closed hs]
  | some s =>
      rcases h.perform_of_open hs o with ⟨seat, _, hnew, hperform⟩
      rw [hperform]
      exact h.view_settle_of_ne hnew hm

theorem Orderly.view_closed_of_ne {m : Nat} (hm : m ≠ n) :
    (w.after (.closed n)).view m = w.view m := by
  rw [Workspace.after]
  cases hseat : w.seats[n]? with
  | none => rw [closeSession_of_none hseat]
  | some seat =>
      rcases h.closeSession_of_seat hseat with ⟨shared, hclose, hnew, _⟩
      rw [hclose]
      exact h.view_settle_of_ne hnew hm

theorem Orderly.view_closed_self : (w.after (.closed n)).view n = none := by
  rw [Workspace.after, view]
  cases hseat : w.seats[n]? with
  | none =>
      rw [closeSession_of_none hseat, session?, hseat]
      rfl
  | some seat =>
      rcases h.closeSession_of_seat hseat with ⟨shared, hclose, hnew, _⟩
      rw [hclose, session?_settle_self hnew.lt]
      rfl

theorem Orderly.operated_alike {first' : Nat} {u : Workspace} (hu : Orderly first' u) {m : Nat}
    (hview : w.view n = u.view m) (o : Operation) :
    (w.perform n o.run).1 = (u.perform m o.run).1 ∧
      (w.after (.operated n o)).view n = (u.after (.operated m o)).view m := by
  rw [Workspace.after, Workspace.after]
  cases hs : w.session? n with
  | none =>
      have hs' : u.session? m = none := by
        rw [view, view, hs] at hview
        exact Option.map_eq_none_iff.mp hview.symm
      rw [perform_of_closed hs, perform_of_closed hs']
      exact ⟨rfl, hview⟩
  | some s =>
      rw [view, view, hs] at hview
      rcases Option.map_eq_some_iff.mp hview.symm with ⟨s', hs', hview'⟩
      rcases o.isLocal_run.alike hview' with ⟨hanswer, hafter⟩
      rcases h.perform_of_open hs o with ⟨seat, hseat, hnew, hperform⟩
      rcases hu.perform_of_open hs' o with ⟨seat', hseat', hnew', hperform'⟩
      rw [hperform, hperform', view, view, session?_settle_self hnew.lt,
        session?_settle_self hnew'.lt, hseat, hseat']
      exact ⟨congrArg some hanswer.symm, congrArg some hafter.symm⟩

end

theorem Orderly.counts_operated {first : Nat} {w : Workspace} (h : Orderly first w) (n : Nat)
    (o : Operation) :
    (w.after (.operated n o)).seats.length = w.seats.length ∧
      (w.after (.operated n o)).nextFunction = w.nextFunction := by
  rw [Workspace.after]
  cases hs : w.session? n with
  | none =>
      rw [perform_of_closed hs]
      exact ⟨rfl, rfl⟩
  | some s =>
      rcases h.perform_of_open hs o with ⟨seat, _, _, hperform⟩
      rw [hperform]
      exact ⟨length_settle w n seat _, rfl⟩

theorem Orderly.counts_closed {first : Nat} {w : Workspace} (h : Orderly first w) (n : Nat) :
    (w.after (.closed n)).seats.length = w.seats.length ∧
      (w.after (.closed n)).nextFunction = w.nextFunction := by
  rw [Workspace.after]
  cases hseat : w.seats[n]? with
  | none =>
      rw [closeSession_of_none hseat]
      exact ⟨rfl, rfl⟩
  | some seat =>
      rcases h.closeSession_of_seat hseat with ⟨shared, hclose, _, _⟩
      rw [hclose]
      exact ⟨length_settle w n _ shared, rfl⟩

/-!
## Two workspaces side by side
-/

/--
A workspace in which there is at most one session, which is what the session with the number
`n` is in another workspace, or will be there.
-/
structure Follows (n : Nat) (w u : Workspace) : Prop where
  view : w.view n = u.view 0
  length : u.seats.length = if n < w.seats.length then 1 else 0
  base : w.seats.length ≤ n ->
    u.nextFunction = w.nextFunction + Builtin.all.length * (n - w.seats.length)

section

variable {first first' n : Nat} {w u : Workspace} (hw : Orderly first w) (hu : Orderly first' u)
  (h : Follows n w u)
include hw hu h

theorem Follows.opened (hn : w.seats.length = n) :
    Follows n (w.after .opened) (u.after .opened) where
  view := by
    have hlength : u.seats.length = 0 := by
      rw [h.length, if_neg (by omega)]
    have hbase := h.base (Nat.le_of_eq hn)
    rw [hn, Nat.sub_self, Nat.mul_zero, Nat.add_zero] at hbase
    rw [after, after, hw.view_openSession, hu.view_openSession, if_pos hn.symm,
      if_pos hlength.symm, hbase]
  length := by
    rw [after, after, length_openSession, length_openSession, h.length, if_neg (by omega),
      if_pos (by omega)]
  base hle := by
    rw [after, length_openSession] at hle
    omega

theorem Follows.operated (o : Operation) :
    Follows n (w.after (.operated n o)) (u.after (.operated 0 o)) where
  view := (hw.operated_alike hu h.view o).2
  length := by
    rw [(hw.counts_operated n o).1, (hu.counts_operated 0 o).1]
    exact h.length
  base := by
    rw [(hw.counts_operated n o).1, (hw.counts_operated n o).2, (hu.counts_operated 0 o).2]
    exact h.base

theorem Follows.closed : Follows n (w.after (.closed n)) (u.after (.closed 0)) where
  view := by
    rw [hw.view_closed_self, hu.view_closed_self]
  length := by
    rw [(hw.counts_closed n).1, (hu.counts_closed 0).1]
    exact h.length
  base := by
    rw [(hw.counts_closed n).1, (hw.counts_closed n).2, (hu.counts_closed 0).2]
    exact h.base

end

section

variable {first n : Nat} {w u : Workspace} (hw : Orderly first w) (h : Follows n w u)
include hw h

theorem Follows.opened_of_ne (hn : w.seats.length ≠ n) : Follows n (w.after .opened) u where
  view := by
    rw [after, hw.view_openSession, if_neg (Ne.symm hn)]
    exact h.view
  length := by
    rw [after, length_openSession, h.length]
    split <;> split <;> omega
  base hle := by
    rw [after, length_openSession] at hle ⊢
    have hfunctions : (w.openSession false).nextFunction = w.nextFunction + Builtin.all.length :=
      rfl
    have hrest : n - w.seats.length = n - (w.seats.length + 1) + 1 := by
      omega
    rw [h.base (Nat.le_of_succ_le hle), hfunctions, hrest, Nat.mul_succ]
    omega

theorem Follows.operated_of_ne {m : Nat} (hm : m ≠ n) (o : Operation) :
    Follows n (w.after (.operated m o)) u where
  view := (hw.view_operated_of_ne hm.symm o).trans h.view
  length := by
    rw [(hw.counts_operated m o).1]
    exact h.length
  base := by
    rw [(hw.counts_operated m o).1, (hw.counts_operated m o).2]
    exact h.base

theorem Follows.closed_of_ne {m : Nat} (hm : m ≠ n) : Follows n (w.after (.closed m)) u where
  view := (hw.view_closed_of_ne hm.symm).trans h.view
  length := by
    rw [(hw.counts_closed m).1]
    exact h.length
  base := by
    rw [(hw.counts_closed m).1, (hw.counts_closed m).2]
    exact h.base

end

/-- Whatever happens, the workspace with one session follows the other by the session's events. -/
theorem Follows.afterAll {first first' n : Nat} {w u : Workspace} (hw : Orderly first w)
    (hu : Orderly first' u) (h : Follows n w u) (events : List Event) :
    answersTo n w events = answersTo 0 u (Event.ownFrom n w.seats.length events) ∧
      Follows n (w.afterAll events) (u.afterAll (Event.ownFrom n w.seats.length events)) := by
  induction events generalizing w u with
  | nil => exact ⟨rfl, h⟩
  | cons event events ih =>
      cases event with
      | opened =>
          rw [Event.ownFrom]
          have hlength := length_openSession w
          by_cases hn : w.seats.length = n
          · have hrest := ih (hw.after .opened) (hu.after .opened) (h.opened hw hu hn)
            rw [after, hlength] at hrest
            rw [if_pos hn]
            exact hrest
          · have hrest := ih (hw.after .opened) hu (h.opened_of_ne hw hn)
            rw [after, hlength] at hrest
            rw [if_neg hn]
            exact hrest
      | operated m o =>
          rw [Event.ownFrom, answersTo]
          have hlength := (hw.counts_operated m o).1
          by_cases hm : m = n
          · subst hm
            have hrest := ih (hw.after _) (hu.after (.operated 0 o)) (h.operated hw hu o)
            rw [hlength] at hrest
            rw [if_pos rfl, if_pos rfl, answersTo, if_pos rfl,
              (hw.operated_alike hu h.view o).1, hrest.1]
            exact ⟨rfl, hrest.2⟩
          · have hrest := ih (hw.after _) hu (h.operated_of_ne hw hm o)
            rw [hlength] at hrest
            rw [if_neg hm, if_neg hm]
            exact hrest
      | closed m =>
          rw [Event.ownFrom]
          have hlength := (hw.counts_closed m).1
          by_cases hm : m = n
          · subst hm
            have hrest := ih (hw.after _) (hu.after (.closed 0)) (h.closed hw hu)
            rw [hlength] at hrest
            rw [if_pos rfl]
            exact hrest
          · have hrest := ih (hw.after _) hu (h.closed_of_ne hw hm)
            rw [hlength] at hrest
            rw [if_neg hm]
            exact hrest

theorem Orderly.afterAll {first : Nat} {w : Workspace} (h : Orderly first w)
    (events : List Event) : Orderly first (w.afterAll events) := by
  induction events generalizing w with
  | nil => exact h
  | cons event events ih => exact ih (h.after event)

theorem follows_unused (start base first n : Nat) :
    Follows n (unused start base) (unused first (base + Builtin.all.length * n)) where
  view := rfl
  length := rfl
  base _ := rfl

theorem Orderly.closeSession_arena? {first : Nat} {w : Workspace} (h : Orderly first w) (n : Nat)
    (assembly : Assembly) :
    (w.closeSession n).shared.arena? assembly =
      if assembly = ⟨first + n⟩ then none else w.shared.arena? assembly := by
  cases hseat : w.seats[n]? with
  | none =>
      rw [closeSession_of_none hseat]
      split
      · rename_i heq
        rw [heq]
        exact h.arena?_eq_none (by rw [session?, hseat]; rfl)
      · rfl
  | some seat =>
      rcases h.closeSession_of_seat hseat with ⟨shared, hclose, _, harena⟩
      rw [hclose]
      exact harena assembly

theorem Orderly.closeSession_session? {first : Nat} {w : Workspace} (h : Orderly first w)
    (n m : Nat) :
    (w.closeSession n).session? m = if m = n then none else w.session? m := by
  cases hseat : w.seats[n]? with
  | none =>
      rw [closeSession_of_none hseat]
      split
      · rename_i heq
        rw [heq, session?, hseat]
        rfl
      · rfl
  | some seat =>
      rcases h.closeSession_of_seat hseat with ⟨shared, hclose, hnew, _⟩
      rw [hclose]
      split
      · rename_i heq
        rw [heq, session?_settle_self hnew.lt]
      · rename_i hne
        exact session?_settle_of_ne w hne _ shared

/--
Sessions that share a registry are isolated. Whatever happens, a session answers what it
answers in a workspace of its own in which only its events happen, whatever the number of its
assembly is there, and it has the same symbols, program counter and number of registered
functions. A session that is closed takes its own arena with it and nothing else.
-/
theorem answersTo_isolated (start base first n : Nat) (events : List Event) :
    answersTo n (unused start base) events =
        answersTo 0 (unused first (base + Builtin.all.length * n)) (Event.own n events) ∧
      ((unused start base).afterAll events).inspect n =
        ((unused first (base + Builtin.all.length * n)).afterAll (Event.own n events)).inspect 0 ∧
      (forall s, ((unused start base).afterAll events).session? n = some s ->
        s.assembly = ⟨start + n⟩) ∧
      (forall assembly,
        (((unused start base).afterAll events).closeSession n).shared.arena? assembly =
          if assembly = ⟨start + n⟩ then none
          else ((unused start base).afterAll events).shared.arena? assembly) ∧
      forall m, (((unused start base).afterAll events).closeSession n).session? m =
        if m = n then none else ((unused start base).afterAll events).session? m := by
  have hstart := orderly_unused start base
  have hunused := orderly_unused first (base + Builtin.all.length * n)
  have hfollows := follows_unused start base first n
  rcases hfollows.afterAll hstart hunused events with ⟨hanswers, hlater⟩
  have hw := hstart.afterAll events
  have hu := hunused.afterAll (Event.own n events)
  refine ⟨hanswers, ?_, ?_, hw.closeSession_arena? n, hw.closeSession_session? n⟩
  · rw [hw.inspect_eq, hu.inspect_eq, hlater.view]
    rfl
  · intro s
    exact hw.session

end Workspace
end Equate
