import Equate.Session

/-!
# Workspaces

A workspace holds any number of sessions and the registry that they share. A session
may also bring a registry of its own; then the shared registry knows nothing about its
functions unless it is asked under the assembly of that session. Sessions are numbered
in the order in which they were opened, and the number of a closed session is not used
again.
-/

namespace Equate

structure Seat where
  assembly : Assembly
  /-- The session, unless it was closed. -/
  session : Option Session
  /-- The registry of its own, if it has one. -/
  own : Option Registry

structure Workspace where
  shared : Registry := {}
  seats : List Seat := []
  nextAssembly : Nat := 0
  nextFunction : Nat := 0

namespace Workspace

def setSeat (w : Workspace) (n : Nat) (seat : Seat) : Workspace :=
  { w with seats := w.seats.set n seat }

def openSession (w : Workspace) (hasOwn : Bool) : Workspace :=
  let assembly : Assembly := ⟨w.nextAssembly⟩
  let seat : Seat :=
    { assembly := assembly
      session := some (.create assembly w.nextFunction)
      own := if hasOwn then some {} else none }
  { w with
    seats := w.seats ++ [seat]
    nextAssembly := w.nextAssembly + 1
    nextFunction := w.nextFunction + Builtin.all.length }

def session? (w : Workspace) (n : Nat) : Option Session :=
  w.seats[n]?.bind Seat.session

/-- Close a session. The arena of its assembly is discarded in its registry. -/
def closeSession (w : Workspace) (n : Nat) : Workspace :=
  match w.seats[n]? with
  | none => w
  | some seat =>
      let w := w.setSeat n { seat with session := none, own := none }
      match seat.session, seat.own with
      | some _, none => { w with shared := w.shared.erase seat.assembly }
      | _, _ => w

/-- Let a session do an operation; there is no answer if it was closed. -/
def perform (w : Workspace) (n : Nat) (operation : SessionM α) :
    Option (Except RunError α) × Workspace :=
  match w.seats[n]? with
  | none => (none, w)
  | some seat =>
      match seat.session with
      | none => (none, w)
      | some session =>
          let (answer, after) := operation.run ⟨session, seat.own.getD w.shared⟩
          let seat := { seat with session := some after.session }
          match seat.own with
          | none => (some answer, { w.setSeat n seat with shared := after.registry })
          | some _ =>
              (some answer, w.setSeat n { seat with own := some after.registry })

/-!
## The shared registry
-/

/-- The number of functions that the shared registry remembers for a session. -/
def registered (w : Workspace) (n : Nat) : Nat :=
  match w.seats[n]? with
  | none => 0
  | some seat => w.shared.registered seat.assembly

def release (w : Workspace) (n : Nat) : Bool × Workspace :=
  match w.seats[n]? with
  | none => (false, w)
  | some seat =>
      let (released, shared) := w.shared.release seat.assembly
      (released, { w with shared := shared })

def compare (w : Workspace) (n : Nat) (f g : Function) : Option Ordering × Workspace :=
  match w.seats[n]? with
  | none => (none, w)
  | some seat =>
      let (order, shared) := w.shared.compare seat.assembly f g
      (some order, { w with shared := shared })

end Workspace
end Equate
