import Equate.Proofs.Expr.Simplification

/-!
# Names and symbols

A name, an index and a member stand for a symbol, also inside of groups. The name of this
symbol is put together in three places: where the expression is asked for its name, where it
is simplified and then evaluated, and where `defined` is called with it. It is the same name
in all of them, and finding it out has the same effects.
-/

namespace Equate
namespace Expr

open Evaluation Interpretation

inductive IsSymbolic : Expr -> Prop
  | name (n : String) : IsSymbolic (.name n)
  | index (subject index : Expr) : IsSymbolic (.index subject index)
  | member (left right : Expr) : IsSymbolic (.member left right)
  | group {inner : Expr} (h : IsSymbolic inner) : IsSymbolic (.group inner)

/-!
## One name
-/

theorem IsSymbolic.evaluate_eq {e : Expr} (h : e.IsSymbolic) :
    e.evaluate = e.nameOf >>= valueOfName? := by
  induction h with
  | group h ih => exact ih
  | _ => rfl

theorem IsSymbolic.exists_simplifyTimes {e : Expr} (h : e.IsSymbolic) :
    exists steps, simplifyTimes steps e = do return ofName (← e.nameOf) := by
  induction h with
  | name n => exact ⟨0, rfl⟩
  | index subject index => exact ⟨1, rfl⟩
  | member left right => exact ⟨1, rfl⟩
  | group h ih =>
      rcases ih with ⟨steps, hsteps⟩
      exact ⟨steps + 1, hsteps⟩

section

variable {context : Context}

theorem yields_valueOfName? (name : Option String) (arena : Option Arena) :
    Yields (valueOfName? name) context arena
      ((name.bind context.symbols.find?).bind Symbol.value?) [] arena := by
  cases name with
  | none => exact yields_pure none context arena
  | some n => exact yields_of_silent fun _ => rfl

def isDefined : Option String -> Evaluation (Option Value)
  | none => pure none
  | some n => do return some (.ofBool (← lookup n).isSome)

theorem callBuiltin_defined (r : Interpretation) :
    callBuiltin .defined [r] = r.name >>= isDefined :=
  rfl

def definedness (context : Context) (name : Option String) : Option Value :=
  name.map fun n => .ofBool (context.symbols.find? n).isSome

theorem yields_isDefined (name : Option String) (arena : Option Arena) :
    Yields (isDefined name) context arena (definedness context name) [] arena := by
  cases name with
  | none => exact yields_pure none context arena
  | some n => exact yields_of_silent fun _ => rfl

theorem definedness_eq_some_iff {name : Option String} {found : Bool} :
    definedness context name = some (.unsigned (if found then 1 else 0)) ↔
      exists n, name = some n ∧ (context.symbols.find? n).isSome = found := by
  cases name with
  | none => simp [definedness]
  | some n =>
      have hname : (exists n', some n = some n' ∧ (context.symbols.find? n').isSome = found) ↔
          (context.symbols.find? n).isSome = found := by
        simp
      rw [hname]
      change some (Value.unsigned (if (context.symbols.find? n).isSome then 1 else 0)) = _ ↔ _
      generalize (context.symbols.find? n).isSome = bound
      cases bound <;> cases found <;> simp [Value.unsigned]

theorem definedness_eq_none_iff {name : Option String} :
    definedness context name = none ↔ name = none := by
  simp [definedness]

theorem definedness_of_value {name : Option String} {v : Value}
    (h : (name.bind context.symbols.find?).bind Symbol.value? = some v) :
    definedness context name = some (.unsigned 1) := by
  rcases Option.bind_eq_some_iff.mp h with ⟨symbol, hsymbol, _⟩
  rcases Option.bind_eq_some_iff.mp hsymbol with ⟨n, hn, hfound⟩
  exact definedness_eq_some_iff.mpr ⟨n, hn, Option.isSome_of_eq_some hfound⟩

/-- A call takes the effects of its function first, and then those of the name. -/
theorem yields_call_defined {f e : Expr} {g : Function} (hg : g.callee = .builtin .defined)
    {start arena after : Option Arena} {first raised : List Diagnostic} {name : Option String}
    (hf : Yields f.evaluate context start (some (.function g)) first arena)
    (he : Yields e.nameOf context arena name raised after) :
    Yields (call f [e]).evaluate context start (definedness context name) (first ++ raised)
      after := by
  have hcall : Yields (Interpretation.call (some (.function g)) [e.interpret]) context arena
      (definedness context name) raised after := by
    rw [call_function, callFunction_builtin hg, callBuiltin_defined, ← List.append_nil raised]
    exact Yields.bind he (yields_isDefined name after)
  exact Yields.bind hf hcall

end

/-!
## One symbol
-/

/-- What an expression that stands for a symbol answers when this symbol has the given name. -/
structure Names (context : Context) (arena : Option Arena) (e : Expr) (name : Option String)
    (raised : List Diagnostic) (after : Option Arena) : Prop where
  nameOf : Yields e.nameOf context arena name raised after
  /-- The value is the one of the symbol that is found under the name, if there is any. -/
  value : Yields e.evaluate context arena ((name.bind context.symbols.find?).bind Symbol.value?)
    raised after
  steps : exists steps, Yields (simplifyTimes steps e) context arena (ofName name) raised after
  /-- A call of `defined` tells whether there is a symbol, with one effect more for the call. -/
  defined : forall {f : Expr} {g : Function} {start : Option Arena} {first : List Diagnostic},
    g.callee = .builtin .defined ->
    Yields f.evaluate context start (some (.function g)) first arena ->
    exists answer, Yields (call f [e]).evaluate context start answer (first ++ raised) after ∧
      (forall found, answer = some (.unsigned (if found then 1 else 0)) ↔
        exists n, name = some n ∧ (context.symbols.find? n).isSome = found) ∧
      (answer = none ↔ name = none) ∧
      ((exists v, (name.bind context.symbols.find?).bind Symbol.value? = some v) ->
        answer = some (.unsigned 1))

/--
An expression that stands for a symbol has one name in any context. Its value is that of the
symbol with this name, at the cost of finding out the name, and `defined` is true of it if and
only if there is such a symbol.
-/
theorem exists_names {e : Expr} (h : e.IsSymbolic) (context : Context) (arena : Option Arena) :
    exists name raised after, Names context arena e name raised after := by
  rcases (stable_interpret e).name context arena with ⟨name, raised, after, hname, _, _⟩
  refine ⟨name, raised, after, ?_⟩
  constructor
  · exact hname
  · rw [h.evaluate_eq, ← List.append_nil raised]
    exact hname.bind (yields_valueOfName? name after)
  · rcases h.exists_simplifyTimes with ⟨steps, hsteps⟩
    refine ⟨steps, ?_⟩
    rw [hsteps]
    exact hname.map ofName
  · intro f g start first hg hf
    refine ⟨definedness context name, yields_call_defined hg hf hname,
      fun _ => definedness_eq_some_iff, definedness_eq_none_iff, ?_⟩
    intro hvalue
    rcases hvalue with ⟨v, hv⟩
    exact definedness_of_value hv

/-- The group `(a[1 + 2].b)` stands for the symbol `a[3].b`, which `defined` finds as well. -/
theorem exists_names_bound :
    let context : Context :=
      { symbols := (SymbolTable.ofFunctions (Function.predefined 0)).insert "a[3].b"
          (.value (.unsigned 7)) }
    let sum : Expr := .binary (.arithmetic .add) (.constant (some (.unsigned 1)))
      (.constant (some (.unsigned 2)))
    let e : Expr := .group (.member (.index (.name "a") sum) (.name "b"))
    e.IsSymbolic ∧ Names context none e (some "a[3].b") [] none ∧
      Yields e.evaluate context none (some (.unsigned 7)) [] none ∧
      Yields (call (.name "defined") [e]).evaluate context none (some (.unsigned 1)) [] none := by
  intro context sum e
  have he : e.IsSymbolic := .group (.member _ _)
  have hname : Yields e.nameOf context none (some "a[3].b") [] none :=
    yields_of_silent fun _ => rfl
  have hdefined : Yields (Expr.name "defined").evaluate context none
      (some (.function ⟨4, .builtin .defined⟩)) [] none :=
    yields_of_silent fun _ => rfl
  rcases exists_names he context none with ⟨name, raised, after, hnames⟩
  rcases hname.unique hnames.nameOf with ⟨rfl, rfl, rfl⟩
  rcases hnames.defined rfl hdefined with ⟨answer, hanswer, _, _, hbound⟩
  rw [hbound ⟨.unsigned 7, rfl⟩] at hanswer
  exact ⟨he, hnames, hnames.value, hanswer⟩

end Expr
end Equate
