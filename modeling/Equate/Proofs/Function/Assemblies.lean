import Equate.Function.Registry

/-!
# Assemblies side by side

A registry serves many assemblies, whose requests arrive in any order. None of them can
notice the others: its replies are those of a machine that serves this assembly alone
and holds at most one arena.
-/

namespace Equate

inductive Request where
  | compare (f g : Function)
  | registered
  | release
deriving DecidableEq, Repr

inductive Reply where
  | order (order : Ordering)
  | count (size : Nat)
  | released (existed : Bool)
deriving DecidableEq, Repr

/-!
## One assembly alone

The machine has no arena at first and after a release. A comparison makes one, even if
it compares a function with itself.
-/

namespace Request

def serve : Request -> Option Arena -> Reply × Option Arena
  | .compare f g, none =>
      (.order (Arena.compare {} f g).1, some (Arena.compare {} f g).2)
  | .compare f g, some arena =>
      (.order (arena.compare f g).1, some (arena.compare f g).2)
  | .registered, none => (.count 0, none)
  | .registered, some arena => (.count arena.size, some arena)
  | .release, none => (.released false, none)
  | .release, some _ => (.released true, none)

def serveAll : Option Arena -> List Request -> List Reply
  | _, [] => []
  | arena, request :: requests =>
      (request.serve arena).1 :: serveAll (request.serve arena).2 requests

end Request

/-!
## All assemblies together
-/

/-- The entries of a common list that belong to one assembly, in their order. -/
def Assembly.share (assembly : Assembly) (entries : List (Assembly × α)) : List α :=
  (entries.filter fun entry => entry.1 = assembly).map Prod.snd

theorem Assembly.share_cons_self (assembly : Assembly) (a : α)
    (entries : List (Assembly × α)) :
    assembly.share ((assembly, a) :: entries) = a :: assembly.share entries := by
  simp [share]

theorem Assembly.share_cons_of_ne {assembly other : Assembly} (h : other ≠ assembly) (a : α)
    (entries : List (Assembly × α)) :
    assembly.share ((other, a) :: entries) = assembly.share entries := by
  simp [share, h]

namespace Registry

def serve (registry : Registry) (assembly : Assembly) : Request -> Reply × Registry
  | .compare f g =>
      (.order (registry.compare assembly f g).1, (registry.compare assembly f g).2)
  | .registered => (.count (registry.registered assembly), registry)
  | .release => (.released (registry.release assembly).1, (registry.release assembly).2)

def serveAll : Registry -> List (Assembly × Request) -> List (Assembly × Reply)
  | _, [] => []
  | registry, (assembly, request) :: requests =>
      (assembly, (registry.serve assembly request).1) ::
        serveAll (registry.serve assembly request).2 requests

/-!
## One request

For the assembly that asks, the registry is the machine with the arena of that assembly.
For all others nothing happens.
-/

theorem serve_reply (registry : Registry) (assembly : Assembly) (request : Request) :
    (registry.serve assembly request).1 =
      (request.serve (registry.arena? assembly)).1 := by
  cases request with
  | compare f g =>
      cases h : registry.arena? assembly <;>
        simp [serve, Request.serve, compare, Arena.compareIn, h]
  | registered =>
      cases h : registry.arena? assembly <;> simp [serve, Request.serve, registered, h]
  | release =>
      cases h : registry.arena? assembly <;> simp [serve, Request.serve, release, h]

theorem arena?_serve_self (registry : Registry) (assembly : Assembly) (request : Request) :
    (registry.serve assembly request).2.arena? assembly =
      (request.serve (registry.arena? assembly)).2 := by
  cases request with
  | compare f g =>
      cases h : registry.arena? assembly <;>
        simp [serve, Request.serve, compare, Arena.compareIn, h, arena?_put_self]
  | registered =>
      cases h : registry.arena? assembly <;> simp [serve, Request.serve, h]
  | release =>
      cases h : registry.arena? assembly <;>
        simp [serve, Request.serve, release, h, arena?_erase_self]

theorem arena?_serve_of_ne (registry : Registry) {assembly other : Assembly}
    (h : other ≠ assembly) (request : Request) :
    (registry.serve assembly request).2.arena? other = registry.arena? other := by
  cases request with
  | compare f g => exact arena?_put_of_ne registry _ h
  | registered => rfl
  | release => exact arena?_erase_of_ne registry h

/-!
## Runs
-/

theorem share_serveAll (registry : Registry) (assembly : Assembly)
    (requests : List (Assembly × Request)) :
    assembly.share (registry.serveAll requests) =
      Request.serveAll (registry.arena? assembly) (assembly.share requests) := by
  induction requests generalizing registry with
  | nil => rfl
  | cons entry requests ih =>
      rcases entry with ⟨other, request⟩
      rw [serveAll]
      by_cases h : other = assembly
      · subst h
        rw [Assembly.share_cons_self, Assembly.share_cons_self, Request.serveAll, ih,
          serve_reply, arena?_serve_self]
      · rw [Assembly.share_cons_of_ne h, Assembly.share_cons_of_ne h, ih,
          arena?_serve_of_ne registry (Ne.symm h)]

/--
Of all replies of a registry that starts empty, those for one assembly are the replies
of a machine that starts without an arena and is given the requests of that assembly.
-/
theorem serveAll_private (assembly : Assembly) (requests : List (Assembly × Request)) :
    assembly.share (serveAll {} requests) =
      Request.serveAll none (assembly.share requests) :=
  share_serveAll {} assembly requests

end Registry
end Equate
