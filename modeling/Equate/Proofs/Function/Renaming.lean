import Mathlib.Logic.Function.Basic
import Equate.Function.Registry
import Equate.Operator.Binary
import Equate.Symbol

/-!
# Renaming

Functions and assemblies are known by numbers, and nothing but equality is ever asked about a
number. If other numbers are given to them, different ones to different ones, then arenas,
operators, symbol tables and registries answer as before, with the new numbers.
-/

namespace Equate

/-- Other numbers for functions, and other assemblies. -/
structure Renaming where
  function : Nat -> Nat
  assembly : Assembly -> Assembly
  function_injective : Function.Injective function
  assembly_injective : Function.Injective assembly

/-!
## Functions
-/

namespace Function

def rename (r : Renaming) (f : Function) : Function :=
  { f with id := r.function f.id }

theorem name_rename (r : Renaming) (f : Function) : (f.rename r).name = f.name :=
  rfl

theorem same_rename (r : Renaming) (f g : Function) :
    (f.rename r).same (g.rename r) = f.same g := by
  rw [same, same, Bool.eq_iff_iff, beq_iff_eq, beq_iff_eq]
  exact r.function_injective.eq_iff

end Function

namespace Arena

def rename (r : Renaming) (arena : Arena) : Arena :=
  ⟨arena.entries.map (Function.rename r)⟩

theorem size_rename (r : Renaming) (arena : Arena) : (arena.rename r).size = arena.size :=
  List.length_map _

theorem earlier?_rename (r : Renaming) (f g : Function) (entries : List Function) :
    earlier? (f.rename r) (g.rename r) (entries.map (Function.rename r)) =
      earlier? f g entries := by
  induction entries with
  | nil => rfl
  | cons entry entries ih =>
      rw [List.map_cons, earlier?, earlier?, Function.same_rename, Function.same_rename, ih]

theorem compare_rename (r : Renaming) (arena : Arena) (f g : Function) :
    (arena.rename r).compare (f.rename r) (g.rename r) =
      ((arena.compare f g).1, (arena.compare f g).2.rename r) := by
  unfold compare
  rw [Function.same_rename]
  split
  · rfl
  · rw [rename, earlier?_rename]
    cases earlier? f g arena.entries with
    | some order => rfl
    | none => simp [rename]

theorem compareIn_rename (r : Renaming) (arena : Option Arena) (f g : Function) :
    compareIn (arena.map (rename r)) (f.rename r) (g.rename r) =
      ((compareIn arena f g).1, (compareIn arena f g).2.map (rename r)) := by
  have harena : (arena.map (rename r)).getD {} = (arena.getD {}).rename r := by
    cases arena <;> rfl
  rw [compareIn, harena, compare_rename]
  rfl

end Arena

/-!
## Values
-/

namespace Value

def rename (r : Renaming) : Value -> Value
  | .function f => .function (f.rename r)
  | v => v

theorem isFunction_rename (r : Renaming) (v : Value) :
    (v.rename r).isFunction = v.isFunction := by
  cases v <;> rfl

theorem isTrue_rename (r : Renaming) (v : Value) : (v.rename r).isTrue = v.isTrue := by
  cases v <;> rfl

theorem toText_rename (r : Renaming) (v : Value) : (v.rename r).toText = v.toText := by
  cases v <;> rfl

theorem operand_rename (r : Renaming) (operator : String) (v : Value) :
    (v.rename r).operand operator = v.operand operator := by
  cases v <;> rfl

theorem identical_rename (r : Renaming) (v u : Value) :
    (v.rename r).identical (u.rename r) = v.identical u := by
  rcases v with a | s | f <;> rcases u with b | t | g
  case function.function => exact Function.same_rename r f g
  all_goals rfl

theorem compare?_rename (r : Renaming) (v u : Value) (arena : Option Arena) :
    (v.rename r).compare? (u.rename r) (arena.map (Arena.rename r)) =
      ((v.compare? u arena).1, (v.compare? u arena).2.map (Arena.rename r)) := by
  rcases v with a | s | f <;> rcases u with b | t | g
  case function.function =>
    exact congrArg (fun found => (some found.1, found.2)) (Arena.compareIn_rename r arena f g)
  all_goals rfl

theorem map_rename_number (r : Renaming) (outcome : Except Diagnostic Number) :
    (outcome.map Value.number).map (rename r) = outcome.map Value.number := by
  cases outcome <;> rfl

theorem sum_rename (r : Renaming) (v u : Value) :
    (v.rename r).sum (u.rename r) = (v.sum u).map (rename r) := by
  rcases v with a | s | f <;> rcases u with b | t | g
  case number.number => exact (map_rename_number r (ArithmeticOp.add.onNumbers a b)).symm
  all_goals rfl

theorem numeric_rename (r : Renaming) (op : BinaryOp)
    (f : Number -> Number -> Except Diagnostic Number) (v u : Value) :
    Value.numeric op f (v.rename r) (u.rename r) = (Value.numeric op f v u).map (rename r) := by
  unfold Value.numeric Value.operands
  rw [isFunction_rename, isFunction_rename, operand_rename, operand_rename]
  cases (if (v.isFunction || u.isFunction) = true then _ else _ :
      Except Diagnostic (Number × Number)) with
  | error d => rfl
  | ok found => exact (map_rename_number r _).symm

end Value

theorem isTrueOption_rename (r : Renaming) (v : Option Value) :
    isTrueOption (v.map (Value.rename r)) = isTrueOption v := by
  cases v with
  | none => rfl
  | some v => exact v.isTrue_rename r

theorem LogicalOp.decides_rename (r : Renaming) (op : LogicalOp) (v : Option Value) :
    op.decides (v.map (Value.rename r)) = op.decides v := by
  cases op <;> rw [decides, decides, isTrueOption_rename]

/-- An operator gives the same value on operands that were renamed, itself renamed. -/
theorem BinaryOp.apply_rename (r : Renaming) (op : BinaryOp) (v u : Value)
    (arena : Option Arena) :
    op.apply (v.rename r) (u.rename r) (arena.map (Arena.rename r)) =
      ((op.apply v u arena).1.map (Value.rename r),
        (op.apply v u arena).2.map (Arena.rename r)) := by
  cases op with
  | arithmetic o =>
      cases o with
      | add => exact congrArg (fun found => (found, _)) (Value.sum_rename r v u)
      | _ => exact congrArg (fun found => (found, _)) (Value.numeric_rename r _ _ v u)
  | shift o => exact congrArg (fun found => (found, _)) (Value.numeric_rename r _ _ v u)
  | bitwise o => exact congrArg (fun found => (found, _)) (Value.numeric_rename r _ _ v u)
  | comparison o =>
      unfold apply
      rw [Value.compare?_rename]
      rfl
  | strict o =>
      unfold apply
      rw [Value.identical_rename]
      rfl
  | logical o =>
      have hdecides : o.decides (some (v.rename r)) = o.decides (some v) :=
        o.decides_rename r (some v)
      have happly (v u : Value) (arena : Option Arena) : (logical o).apply v u arena =
          (.ok (if o.decides (some v) then v else u), arena) := rfl
      rw [happly, happly, hdecides]
      split <;> rfl

theorem UnaryOp.apply_rename (r : Renaming) (op : UnaryOp) (v : Value) :
    op.apply (v.rename r) = (op.apply v).map (Value.rename r) := by
  cases op with
  | not => cases v <;> rfl
  | _ =>
      change ((v.rename r).operand _).map _ = ((v.operand _).map _).map _
      rw [Value.operand_rename]
      cases v.operand _ <;> rfl

/-!
## Symbols
-/

def Symbol.rename (r : Renaming) : Symbol -> Symbol
  | .value v => .value (v.rename r)
  | .scope => .scope

theorem Symbol.value?_rename (r : Renaming) (symbol : Symbol) :
    (symbol.rename r).value? = symbol.value?.map (Value.rename r) := by
  cases symbol <;> rfl

theorem Symbol.ofOption_rename (r : Renaming) (v : Option Value) :
    Symbol.ofOption (v.map (Value.rename r)) = (Symbol.ofOption v).rename r := by
  cases v <;> rfl

namespace SymbolTable

def rename (r : Renaming) (table : SymbolTable) : SymbolTable :=
  ⟨fun name => (table.find? name).map (Symbol.rename r)⟩

theorem insert_rename (r : Renaming) (table : SymbolTable) (name : String) (symbol : Symbol) :
    (table.rename r).insert name (symbol.rename r) = (table.insert name symbol).rename r := by
  unfold insert rename
  congr 1
  funext other
  dsimp only
  split <;> rfl

theorem ofFunctions_rename (r : Renaming) (functions : List Function) :
    (ofFunctions functions).rename r = ofFunctions (functions.map (Function.rename r)) := by
  unfold ofFunctions rename
  congr 1
  funext name
  dsimp only
  induction functions with
  | nil => rfl
  | cons f functions ih =>
      rw [List.map_cons, List.map_cons, List.map_cons, List.lookup_cons, List.lookup_cons,
        Function.name_rename]
      split
      · rfl
      · exact ih

end SymbolTable

/-!
## Registries
-/

namespace Registry

def rename (r : Renaming) (registry : Registry) : Registry :=
  ⟨registry.arenas.map fun (assembly, arena) => (r.assembly assembly, arena.rename r)⟩

theorem arena?_rename (r : Renaming) (registry : Registry) (assembly : Assembly) :
    (registry.rename r).arena? (r.assembly assembly) =
      (registry.arena? assembly).map (Arena.rename r) := by
  unfold arena? rename
  induction registry.arenas with
  | nil => rfl
  | cons entry arenas ih =>
      rcases entry with ⟨owner, arena⟩
      have howner : (r.assembly assembly == r.assembly owner) = (assembly == owner) := by
        rw [Bool.eq_iff_iff, beq_iff_eq, beq_iff_eq]
        exact r.assembly_injective.eq_iff
      rw [List.map_cons, List.lookup_cons, List.lookup_cons, howner]
      split
      · rfl
      · exact ih

theorem erase_rename (r : Renaming) (registry : Registry) (assembly : Assembly) :
    (registry.rename r).erase (r.assembly assembly) = (registry.erase assembly).rename r := by
  unfold erase rename
  rw [List.filter_map]
  congr 2
  apply List.filter_congr
  intro entry _
  simp [r.assembly_injective.eq_iff]

theorem put_rename (r : Renaming) (registry : Registry) (assembly : Assembly)
    (arena : Option Arena) :
    (registry.rename r).put (r.assembly assembly) (arena.map (Arena.rename r)) =
      (registry.put assembly arena).rename r := by
  have herase := erase_rename r registry assembly
  cases arena with
  | none => exact herase
  | some arena =>
      rw [Option.map_some, put, put, herase]
      rfl

end Registry
end Equate
