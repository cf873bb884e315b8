import Equate.Value

/-!
# Symbols

A symbol table binds names. A name is bound to a value, or it is defined without one,
which makes it a scope. A name that a table does not bind has no symbol at all. A table is
known by its answers alone: a session binds finitely many names, while the host of an
evaluation may answer for any name.
-/

namespace Equate

inductive Symbol where
  | value (v : Value)
  | scope
deriving DecidableEq

def Symbol.value? : Symbol -> Option Value
  | .value v => some v
  | .scope => none

def Symbol.ofOption : Option Value -> Symbol
  | some v => .value v
  | none => .scope

structure SymbolTable where
  find? : String -> Option Symbol := fun _ => none

/-- Bindings in a list are looked up from its front. -/
instance : Coe (List (String × Symbol)) (String -> Option Symbol) where
  coe entries name := entries.lookup name

namespace SymbolTable

def insert (table : SymbolTable) (name : String) (symbol : Symbol) : SymbolTable :=
  ⟨fun other => if other = name then some symbol else table.find? other⟩

def ofFunctions (functions : List Function) : SymbolTable :=
  ⟨(functions.map fun f => (f.name, .value (.function f)) : List (String × Symbol))⟩

theorem find?_insert_of_ne (table : SymbolTable) {name other : String} (symbol : Symbol)
    (h : other ≠ name) :
    (table.insert name symbol).find? other = table.find? other :=
  if_neg h

/-!
## Growth
-/

/-- All symbols of a table are symbols of the larger one. -/
def Extends (larger table : SymbolTable) : Prop :=
  forall name symbol, table.find? name = some symbol -> larger.find? name = some symbol

theorem Extends.refl (table : SymbolTable) : table.Extends table := by
  intro name symbol h
  exact h

theorem Extends.trans {largest larger table : SymbolTable} (h : largest.Extends larger)
    (h' : larger.Extends table) : largest.Extends table := by
  intro name symbol hsymbol
  exact h name symbol (h' name symbol hsymbol)

theorem extends_insert {table : SymbolTable} {name : String} (h : table.find? name = none)
    (symbol : Symbol) : (table.insert name symbol).Extends table := by
  intro other found hfound
  have hne : other ≠ name := by
    intro heq
    rw [heq, h] at hfound
    cases hfound
  rw [find?_insert_of_ne table symbol hne]
  exact hfound

def HasBuiltins (table : SymbolTable) : Prop :=
  forall b : Builtin, exists id,
    table.find? b.name = some (.value (.function ⟨id, .builtin b⟩))

theorem hasBuiltins_predefined (base : Nat) :
    (ofFunctions (Function.predefined base)).HasBuiltins := by
  intro b
  cases b
  all_goals exact ⟨_, rfl⟩

theorem HasBuiltins.extends {larger table : SymbolTable} (h : table.HasBuiltins)
    (hlarger : larger.Extends table) : larger.HasBuiltins := by
  intro b
  rcases h b with ⟨id, hid⟩
  exact ⟨id, hlarger _ _ hid⟩

end SymbolTable
end Equate
