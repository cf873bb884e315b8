import Equate.Evaluation
import Equate.Function.Registry
import Equate.RunError
import Equate.Statement

/-!
# Sessions

A session is one assembly run: a symbol table that starts with builtins of its own, a
program counter, and an assembly under which a registry ranks its functions. Statements
run one after the other. A statement that fails changes neither the symbols nor the
program counter, and the session stays usable.

The registry may serve several sessions, so the operations of a session act on the
session together with the registry.
-/

namespace Equate

structure Session where
  assembly : Assembly
  symbols : SymbolTable
  counter : UInt64
  /-- Diagnostics that were raised and not yet taken out. -/
  diagnostics : List Diagnostic

structure Workplace where
  session : Session
  registry : Registry

/-- An operation of a session. A failed one keeps the state in which it failed. -/
abbrev SessionM := ExceptT RunError (StateM Workplace)

namespace Session

def create (assembly : Assembly) (base : Nat) : Session where
  assembly := assembly
  symbols := .ofFunctions (Function.predefined base)
  counter := 0
  diagnostics := []

def symbol? (s : Session) (name : String) : Option Symbol :=
  s.symbols.find? name

/-!
## State changes
-/

def setSymbols (symbols : SymbolTable) : SessionM Unit :=
  modify fun w => { w with session := { w.session with symbols := symbols } }

def setCounter (counter : UInt64) : SessionM Unit :=
  modify fun w => { w with session := { w.session with counter := counter } }

def takeDiagnostics : SessionM (List Diagnostic) :=
  modifyGet fun w =>
    (w.session.diagnostics, { w with session := { w.session with diagnostics := [] } })

/-- Run an evaluation against the session, in the arena of its assembly. -/
def runEvaluation (evaluation : Evaluation α) : SessionM α :=
  modifyGet fun w =>
    let s := w.session
    let (result, progress) :=
      evaluation ⟨s.counter, s.symbols⟩
        ⟨w.registry.arena? s.assembly, s.diagnostics⟩
    (result,
      { session := { s with diagnostics := progress.diagnostics }
        registry := w.registry.put s.assembly progress.arena })

/-!
## Operations
-/

/-- Evaluate an expression; the first diagnostic that it raises is its failure. -/
def evaluate (e : Expr) (line : Nat) : SessionM (Option Value) := do
  let value ← runEvaluation e.evaluate
  match ← takeDiagnostics with
  | [] => return value
  | d :: _ => throw (.diagnostic d line)

/-- Bind a name that has no symbol yet; without a value it becomes a scope. -/
def define (name : String) (value : Option Value) (line : Nat) : SessionM Unit := do
  let symbols := (← get).session.symbols
  if (symbols.find? name).isSome then throw (.redefinition name line)
  else setSymbols (symbols.insert name (.ofOption value))

def originOf? : Option Value -> Option UInt64
  | some (.number (.unsigned u)) => some u
  | some (.number (.signed i)) => if i < 0 then none else some i.toUInt64
  | _ => none

def execute : Statement -> SessionM (Option Value)
  | .expression e line => evaluate e line
  | .define name value line => do
      define name (← evaluate value line) line
      return none
  | .assert condition line => do
      if isTrueOption (← evaluate condition line) then return none
      else throw (.assertionFailed line)
  | .origin value line => do
      match originOf? (← evaluate value line) with
      | some counter =>
          setCounter counter
          return none
      | none => throw (.invalidOrigin line)

/-- Run statements up to the first failure, and give the last value of any of them. -/
def executeAll (last : Option Value) : List Statement -> SessionM (Option Value)
  | [] => return last
  | s :: rest => do
      let value ← execute s
      executeAll (value <|> last) rest

end Session
end Equate
