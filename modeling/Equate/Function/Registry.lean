import Equate.Function.Arena

/-!
# Arenas of several assemblies

A registry keeps one arena per assembly run. An assembly has no arena before its
first comparison, and none after its arena was released.
-/

namespace Equate

structure Assembly where
  number : Nat
deriving DecidableEq, Repr

structure Registry where
  arenas : List (Assembly × Arena) := []
deriving DecidableEq, Repr

namespace Registry

def arena? (registry : Registry) (assembly : Assembly) : Option Arena :=
  registry.arenas.lookup assembly

def erase (registry : Registry) (assembly : Assembly) : Registry :=
  ⟨registry.arenas.filter fun entry => entry.1 ≠ assembly⟩

def put (registry : Registry) (assembly : Assembly) : Option Arena -> Registry
  | none => registry.erase assembly
  | some arena => ⟨(assembly, arena) :: (registry.erase assembly).arenas⟩

def compare (registry : Registry) (assembly : Assembly) (f g : Function) :
    Ordering × Registry :=
  let (order, arena) := Arena.compareIn (registry.arena? assembly) f g
  (order, registry.put assembly arena)

def registered (registry : Registry) (assembly : Assembly) : Nat :=
  ((registry.arena? assembly).map Arena.size).getD 0

/-- Discard the arena of an assembly, and tell whether there was one. -/
def release (registry : Registry) (assembly : Assembly) : Bool × Registry :=
  ((registry.arena? assembly).isSome, registry.erase assembly)

/-!
## The view

A registry is read through `arena?` alone.
-/

theorem arena?_erase_self (registry : Registry) (assembly : Assembly) :
    (registry.erase assembly).arena? assembly = none := by
  unfold arena? erase
  rw [List.lookup_eq_none_iff]
  intro entry hentry
  have hne : entry.1 ≠ assembly := by
    simpa using (List.mem_filter.mp hentry).2
  simpa using fun heq => hne heq.symm

theorem arena?_erase_of_ne (registry : Registry) {assembly other : Assembly}
    (h : other ≠ assembly) :
    (registry.erase assembly).arena? other = registry.arena? other := by
  unfold arena? erase
  induction registry.arenas with
  | nil => rfl
  | cons entry rest ih =>
      obtain ⟨owner, arena⟩ := entry
      by_cases ho : other = owner
      · subst ho
        simp [h]
      · have hne : (other == owner) = false := by
          simpa using ho
        by_cases he : owner = assembly
        · rw [List.filter_cons_of_neg (by simpa using he), ih]
          simp [List.lookup_cons, hne]
        · rw [List.filter_cons_of_pos (by simpa using he)]
          simp only [List.lookup_cons, hne]
          exact ih

theorem arena?_put_self (registry : Registry) (assembly : Assembly)
    (arena : Option Arena) :
    (registry.put assembly arena).arena? assembly = arena := by
  cases arena with
  | none => exact arena?_erase_self registry assembly
  | some arena => simp [put, arena?]

theorem arena?_put_of_ne (registry : Registry) {assembly other : Assembly}
    (arena : Option Arena) (h : other ≠ assembly) :
    (registry.put assembly arena).arena? other = registry.arena? other := by
  cases arena with
  | none => exact arena?_erase_of_ne registry h
  | some arena =>
      have hne : (other == assembly) = false := by
        simpa using h
      simpa [put, arena?, List.lookup_cons, hne] using arena?_erase_of_ne registry h

end Registry
end Equate
