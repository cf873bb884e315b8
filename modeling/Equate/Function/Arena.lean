import Equate.Function

/-!
# Ranks of functions

Functions have no order of their own. An arena remembers the functions that it was
asked about, oldest first, and ranks them by that: of two functions the one that
stands earlier is the lesser. A function that is not remembered ranks after all that
are. If neither is remembered, the left one enters the arena and is the lesser.
-/

namespace Equate

structure Arena where
  entries : List Function := []
deriving DecidableEq, Repr

namespace Arena

def size (arena : Arena) : Nat :=
  arena.entries.length

def earlier? (f g : Function) : List Function -> Option Ordering
  | [] => none
  | entry :: rest =>
      if entry.same f then some .lt
      else if entry.same g then some .gt
      else earlier? f g rest

/-- The order of `f` relative to `g`, and the arena after the question. -/
def compare (arena : Arena) (f g : Function) : Ordering × Arena :=
  if f.same g then (.eq, arena)
  else
    match earlier? f g arena.entries with
    | some order => (order, arena)
    | none => (.lt, ⟨arena.entries ++ [f]⟩)

/-- The comparison in an arena that comes into being with the first question. -/
def compareIn (arena : Option Arena) (f g : Function) : Ordering × Option Arena :=
  let (order, after) := (arena.getD {}).compare f g
  (order, some after)

/-!
## Growth
-/

theorem compare_entries (arena : Arena) (f g : Function) :
    (arena.compare f g).2.entries = arena.entries ∨
      (arena.compare f g).2.entries = arena.entries ++ [f] := by
  unfold compare
  split
  · exact Or.inl rfl
  · split
    · exact Or.inl rfl
    · exact Or.inr rfl

end Arena
end Equate
