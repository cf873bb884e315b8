import Equate.Function.Arena
import Mathlib.Order.Defs.Unbundled

/-!
# The order of functions

An arena is asked about functions one question after the other and grows with the
questions, so that the place of a function may be decided late. All answers of a run
agree nevertheless with one strict total order of the handles. It is read off the arena
at the end of the run: the remembered handles come first, in the order of the arena, and
the others follow by their numbers, since no question was about two of them.
-/

namespace Equate
namespace Arena

/-!
## Positions of handles

Functions are told apart by the numbers of their handles, and an arena is read through
the numbers that it remembers. A handle that is not remembered has the position after
the last one.
-/

def handles (arena : Arena) : List Nat :=
  arena.entries.map Function.id

def Knows (arena : Arena) (f : Function) : Prop :=
  f.id ∈ arena.handles

def position (arena : Arena) (handle : Nat) : Nat :=
  arena.handles.idxOf handle

def Distinct (arena : Arena) : Prop :=
  arena.handles.Nodup

/-- One arena continues another if it has all its entries first, in the same order. -/
def Continues (later arena : Arena) : Prop :=
  arena.entries <+: later.entries

theorem Continues.refl (arena : Arena) : arena.Continues arena :=
  List.prefix_refl arena.entries

theorem Continues.trans {last later arena : Arena} (h : last.Continues later)
    (h' : later.Continues arena) : last.Continues arena :=
  List.IsPrefix.trans h' h

theorem Continues.handles {later arena : Arena} (h : later.Continues arena) :
    arena.handles <+: later.handles :=
  List.IsPrefix.map Function.id h

theorem Knows.mono {later arena : Arena} {f : Function} (hf : arena.Knows f)
    (h : later.Continues arena) : later.Knows f :=
  h.handles.subset hf

theorem position_lt_of_knows {arena : Arena} {f : Function} (h : arena.Knows f) :
    arena.position f.id < arena.handles.length :=
  List.idxOf_lt_length_of_mem h

theorem position_of_not_knows {arena : Arena} {f : Function} (h : ¬ arena.Knows f) :
    arena.position f.id = arena.handles.length :=
  List.idxOf_eq_length h

theorem position_of_continues {later arena : Arena} (h : later.Continues arena)
    {f : Function} (hf : arena.Knows f) : later.position f.id = arena.position f.id := by
  rcases h.handles with ⟨rest, hrest⟩
  unfold position
  rw [← hrest, List.idxOf_append]
  exact if_pos hf

theorem le_position_of_continues {later arena : Arena} (h : later.Continues arena)
    {f : Function} (hf : ¬ arena.Knows f) :
    arena.handles.length ≤ later.position f.id := by
  rcases h.handles with ⟨rest, hrest⟩
  unfold position
  rw [← hrest, List.idxOf_append, if_neg (show ¬ f.id ∈ arena.handles from hf)]
  exact Nat.le_add_left _ _

theorem id_eq_of_position_eq {arena : Arena} {f g : Function} (hf : arena.Knows f)
    (h : arena.position f.id = arena.position g.id) : f.id = g.id := by
  have hlt := position_lt_of_knows hf
  have hlt' : arena.position g.id < arena.handles.length := by
    rw [← h]
    exact hlt
  have hget : arena.handles[arena.position f.id] = f.id := List.getElem_idxOf hlt
  have hget' : arena.handles[arena.position g.id] = g.id := List.getElem_idxOf hlt'
  rw [← hget, ← hget']
  simp only [h]

/-!
## One question

A question compares positions. It is settled if its handles are the same or one of them
is remembered; then the arena stays as it is, and so does the answer from then on.
-/

def Settled (arena : Arena) (f g : Function) : Prop :=
  f.id = g.id ∨ arena.Knows f ∨ arena.Knows g

theorem Settled.mono {later arena : Arena} {f g : Function} (h : arena.Settled f g)
    (hlater : later.Continues arena) : later.Settled f g := by
  rcases h with h | h | h
  · exact Or.inl h
  · exact Or.inr (Or.inl (h.mono hlater))
  · exact Or.inr (Or.inr (h.mono hlater))

theorem earlier?_eq (f g : Function) (hne : f.id ≠ g.id) (entries : List Function) :
    earlier? f g entries =
      if (entries.map Function.id).idxOf f.id < (entries.map Function.id).idxOf g.id then
        some .lt
      else if (entries.map Function.id).idxOf g.id < (entries.map Function.id).idxOf f.id then
        some .gt
      else none := by
  induction entries with
  | nil => rfl
  | cons entry rest ih =>
      rw [earlier?, List.map_cons, List.idxOf_cons, List.idxOf_cons, ih]
      by_cases hf : entry.id = f.id
      · have hg : entry.id ≠ g.id := by
          intro h
          exact hne (hf.symm.trans h)
        simp [Function.same, cond_eq_ite, hf, hne]
      · by_cases hg : entry.id = g.id
        · simp [Function.same, cond_eq_ite, hg, Ne.symm hne]
        · simp [Function.same, cond_eq_ite, hf, hg]

theorem compare_of_eq {f g : Function} (h : f.id = g.id) (arena : Arena) :
    arena.compare f g = (.eq, arena) := by
  have hsame : f.same g = true := by
    simp [Function.same, h]
  rw [compare, if_pos hsame]

theorem compare_of_ne {f g : Function} (h : f.id ≠ g.id) (arena : Arena) :
    arena.compare f g =
      if arena.position f.id < arena.position g.id then (.lt, arena)
      else if arena.position g.id < arena.position f.id then (.gt, arena)
      else (.lt, ⟨arena.entries ++ [f]⟩) := by
  have hsame : ¬ f.same g = true := by
    simp [Function.same, h]
  have hearlier : earlier? f g arena.entries =
      if arena.position f.id < arena.position g.id then some .lt
      else if arena.position g.id < arena.position f.id then some .gt
      else none :=
    earlier?_eq f g h arena.entries
  rw [compare, if_neg hsame, hearlier]
  by_cases hlt : arena.position f.id < arena.position g.id
  · simp only [if_pos hlt]
  · by_cases hgt : arena.position g.id < arena.position f.id
    · simp only [if_neg hlt, if_pos hgt]
    · simp only [if_neg hlt, if_neg hgt]

theorem position_ne_of_settled {arena : Arena} {f g : Function} (hne : f.id ≠ g.id)
    (h : arena.Settled f g) : arena.position f.id ≠ arena.position g.id := by
  intro heq
  rcases h with h | h | h
  · exact hne h
  · exact hne (id_eq_of_position_eq h heq)
  · exact hne (id_eq_of_position_eq h heq.symm).symm

theorem compare_of_not_settled {arena : Arena} {f g : Function}
    (h : ¬ arena.Settled f g) : arena.compare f g = (.lt, ⟨arena.entries ++ [f]⟩) := by
  have hne : f.id ≠ g.id := fun heq => h (Or.inl heq)
  have hf : ¬ arena.Knows f := fun hknows => h (Or.inr (Or.inl hknows))
  have hg : ¬ arena.Knows g := fun hknows => h (Or.inr (Or.inr hknows))
  rw [compare_of_ne hne, position_of_not_knows hf, position_of_not_knows hg]
  simp

theorem compare_arena_of_settled {arena : Arena} {f g : Function}
    (h : arena.Settled f g) : (arena.compare f g).2 = arena := by
  by_cases heq : f.id = g.id
  · rw [compare_of_eq heq]
  · have hposition := position_ne_of_settled heq h
    rw [compare_of_ne heq]
    by_cases hlt : arena.position f.id < arena.position g.id
    · rw [if_pos hlt]
    · have hgt : arena.position g.id < arena.position f.id := by
        omega
      rw [if_neg hlt, if_pos hgt]

theorem continues_compare (arena : Arena) (f g : Function) :
    (arena.compare f g).2.Continues arena := by
  unfold Continues
  rcases compare_entries arena f g with h | h
  · exact h.symm ▸ List.prefix_refl arena.entries
  · rw [h]
    exact List.prefix_append arena.entries [f]

theorem settled_compare (arena : Arena) (f g : Function) :
    (arena.compare f g).2.Settled f g := by
  by_cases h : arena.Settled f g
  · exact h.mono (continues_compare arena f g)
  · rw [compare_of_not_settled h]
    exact Or.inr (Or.inl (by simp [Knows, handles]))

/-!
## The order of an arena
-/

/-- Remembered handles come first, by position, and the others by their numbers. -/
def Before (arena : Arena) (a b : Nat) : Prop :=
  arena.position a < arena.position b ∨ arena.position a = arena.position b ∧ a < b

instance isStrictTotalOrder_before (arena : Arena) : IsStrictTotalOrder Nat arena.Before where
  irrefl := by
    intro a h
    unfold Before at h
    omega
  trans := by
    intro a b c hab hbc
    unfold Before at *
    omega
  trichotomous := by
    intro a b hab hba
    unfold Before at *
    omega

def Agrees (lt : Nat -> Nat -> Prop) (f g : Function) (order : Ordering) : Prop :=
  (order = .lt ↔ lt f.id g.id) ∧ (order = .eq ↔ f.id = g.id) ∧
    (order = .gt ↔ lt g.id f.id)

theorem compare_agrees_of_settled {arena : Arena} {f g : Function}
    (h : arena.Settled f g) : Agrees arena.Before f g (arena.compare f g).1 := by
  unfold Agrees Before
  by_cases heq : f.id = g.id
  · rw [compare_of_eq heq, heq]
    simp
  · have hposition := position_ne_of_settled heq h
    rw [compare_of_ne heq]
    by_cases hlt : arena.position f.id < arena.position g.id
    · rw [if_pos hlt]
      simp only [reduceCtorEq, true_iff, false_iff]
      omega
    · have hgt : arena.position g.id < arena.position f.id := by
        omega
      rw [if_neg hlt, if_pos hgt]
      simp only [reduceCtorEq, true_iff, false_iff]
      omega

/-!
## Later questions
-/

theorem Settled.symm {arena : Arena} {f g : Function} (h : arena.Settled f g) :
    arena.Settled g f := by
  rcases h with h | h | h
  · exact Or.inl h.symm
  · exact Or.inr (Or.inr h)
  · exact Or.inr (Or.inl h)

theorem position_lt_iff_of_continues {later arena : Arena} {f g : Function}
    (hne : f.id ≠ g.id) (h : arena.Settled f g) (hlater : later.Continues arena) :
    later.position f.id < later.position g.id ↔
      arena.position f.id < arena.position g.id := by
  -- Of a settled pair one handle is remembered and stays ahead of all that come later.
  by_cases hf : arena.Knows f
  · have hposition := position_lt_of_knows hf
    rw [position_of_continues hlater hf]
    by_cases hg : arena.Knows g
    · rw [position_of_continues hlater hg]
    · have hle := le_position_of_continues hlater hg
      rw [position_of_not_knows hg]
      omega
  · have hg : arena.Knows g := by
      rcases h with h | h | h
      · exact absurd h hne
      · exact absurd h hf
      · exact h
    have hposition := position_lt_of_knows hg
    have hle := le_position_of_continues hlater hf
    rw [position_of_continues hlater hg, position_of_not_knows hf]
    omega

theorem compare_of_continues {later arena : Arena} {f g : Function}
    (h : arena.Settled f g) (hlater : later.Continues arena) :
    (later.compare f g).1 = (arena.compare f g).1 := by
  by_cases heq : f.id = g.id
  · rw [compare_of_eq heq, compare_of_eq heq]
  · have hposition := position_ne_of_settled heq h
    have hlt := position_lt_iff_of_continues heq h hlater
    have hgt := position_lt_iff_of_continues (Ne.symm heq) h.symm hlater
    rw [compare_of_ne heq, compare_of_ne heq]
    by_cases hcase : arena.position f.id < arena.position g.id
    · rw [if_pos (hlt.mpr hcase), if_pos hcase]
    · have hcase' : arena.position g.id < arena.position f.id := by
        omega
      rw [if_neg (mt hlt.mp hcase), if_pos (hgt.mpr hcase'), if_neg hcase, if_pos hcase']

theorem compare_compare (arena : Arena) (f g : Function) :
    ((arena.compare f g).2.compare f g).1 = (arena.compare f g).1 := by
  by_cases h : arena.Settled f g
  · rw [compare_arena_of_settled h]
  · have hne : f.id ≠ g.id := fun heq => h (Or.inl heq)
    have hg : ¬ arena.Knows g := fun hknows => h (Or.inr (Or.inr hknows))
    rw [compare_of_not_settled h]
    have hf' : Knows ⟨arena.entries ++ [f]⟩ f := by
      simp [Knows, handles]
    have hg' : ¬ Knows ⟨arena.entries ++ [f]⟩ g := by
      intro hknows
      have hcases : g.id ∈ arena.handles ∨ g.id = f.id := by
        simpa [Knows, handles] using hknows
      rcases hcases with hold | hnew
      · exact hg hold
      · exact hne hnew.symm
    rw [compare_of_ne hne, position_of_not_knows hg', if_pos (position_lt_of_knows hf')]

/-- An answer agrees with the order of every arena that the run comes to afterwards. -/
theorem compare_agrees {arena later : Arena} {f g : Function}
    (hlater : later.Continues (arena.compare f g).2) :
    Agrees later.Before f g (arena.compare f g).1 := by
  have hsettled := settled_compare arena f g
  have hagrees := compare_agrees_of_settled (hsettled.mono hlater)
  rw [compare_of_continues hsettled hlater, compare_compare] at hagrees
  exact hagrees

theorem distinct_compare {arena : Arena} (h : arena.Distinct) (f g : Function) :
    (arena.compare f g).2.Distinct := by
  by_cases hsettled : arena.Settled f g
  · rw [compare_arena_of_settled hsettled]
    exact h
  · have hf : f.id ∉ arena.handles := fun hknows => hsettled (Or.inr (Or.inl hknows))
    rw [compare_of_not_settled hsettled]
    unfold Distinct at *
    have hhandles : handles ⟨arena.entries ++ [f]⟩ = arena.handles ++ [f.id] := by
      simp [handles]
    rw [hhandles, List.nodup_append]
    refine ⟨h, by simp, ?_⟩
    intro a ha b hb heq
    rw [List.mem_singleton.mp hb] at heq
    exact hf (heq ▸ ha)

/-!
## Runs

A run asks a list of questions, each in the arena that the one before it has left.
-/

structure Turn where
  before : Arena
  left : Function
  right : Function

def Turn.order (turn : Turn) : Ordering :=
  (turn.before.compare turn.left turn.right).1

def Turn.after (turn : Turn) : Arena :=
  (turn.before.compare turn.left turn.right).2

def turns : Arena -> List (Function × Function) -> List Turn
  | _, [] => []
  | arena, (f, g) :: questions =>
      ⟨arena, f, g⟩ :: turns (arena.compare f g).2 questions

def afterAll (arena : Arena) (questions : List (Function × Function)) : Arena :=
  questions.foldl (fun arena question => (arena.compare question.1 question.2).2) arena

theorem continues_afterAll (arena : Arena) (questions : List (Function × Function)) :
    (arena.afterAll questions).Continues arena := by
  induction questions generalizing arena with
  | nil => exact Continues.refl arena
  | cons question questions ih =>
      have hstep := continues_compare arena question.1 question.2
      exact (ih (arena.compare question.1 question.2).2).trans hstep

/-- Every arena of a run has distinct handles and is continued by the last one. -/
theorem turns_invariant {arena : Arena} (h : arena.Distinct)
    (questions : List (Function × Function)) {turn : Turn}
    (hturn : turn ∈ arena.turns questions) :
    turn.before.Distinct ∧ (arena.afterAll questions).Continues turn.after := by
  induction questions generalizing arena with
  | nil => cases hturn
  | cons question questions ih =>
      rcases question with ⟨f, g⟩
      rcases List.mem_cons.mp hturn with hfirst | hrest
      · rw [hfirst]
        exact ⟨h, continues_afterAll (arena.compare f g).2 questions⟩
      · exact ih (distinct_compare h f g) hrest

/-- How the arena of a turn grows: by the left function of an unsettled question. -/
structure Turn.Appends (turn : Turn) : Prop where
  distinct : turn.before.Distinct ∧ turn.after.Distinct
  settled : turn.before.Settled turn.left turn.right -> turn.after = turn.before
  unsettled : ¬ turn.before.Settled turn.left turn.right ->
    turn.after.entries = turn.before.entries ++ [turn.left]

/--
One strict total order of the handles explains every answer of a run that starts with an
empty arena, and the arena holds no handle twice and only ever grows at its end.
-/
theorem turns_consistent (questions : List (Function × Function)) :
    exists lt : Nat -> Nat -> Prop, IsStrictTotalOrder Nat lt ∧
      forall turn, turn ∈ turns {} questions ->
        Agrees lt turn.left turn.right turn.order ∧ turn.Appends := by
  let last := afterAll {} questions
  refine ⟨last.Before, last.isStrictTotalOrder_before, ?_⟩
  intro turn hturn
  have hempty : Distinct {} := List.nodup_nil
  rcases turns_invariant hempty questions hturn with ⟨hdistinct, hlast⟩
  constructor
  · exact compare_agrees hlast
  · constructor
    · exact ⟨hdistinct, distinct_compare hdistinct turn.left turn.right⟩
    · exact compare_arena_of_settled
    · intro hunsettled
      rw [Turn.after, compare_of_not_settled hunsettled]

end Arena
end Equate
