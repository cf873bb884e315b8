import Equate.Session
import Equate.Text.Blank
import Equate.Token.Lexer

/-!
# Scripts

A script is a source text that runs in a fresh session from a given origin, after
definitions of the form `NAME=EXPR`. Its result is the last value that any of its
expression statements had. The first error ends it.
-/

namespace Equate

inductive ScriptError where
  | syntaxError (e : SyntaxError)
  | runError (e : RunError)
deriving DecidableEq

def ScriptError.message : ScriptError -> String
  | .syntaxError e => e.message
  | .runError e => e.message

structure ScriptOptions where
  origin : UInt64 := 0
  definitions : List String := []

namespace Script

abbrev ScriptM := ExceptT ScriptError (StateM Workplace)

def ofSyntax : Except SyntaxError α -> ScriptM α
  | .ok a => pure a
  | .error e => throw (.syntaxError e)

def ofSession (operation : SessionM α) : ScriptM α :=
  ExceptT.mk do
    match ← operation.run with
    | .ok a => return .ok a
    | .error e => return .error (.runError e)

/-!
## Definitions
-/

def isNameChar (c : Char) : Bool :=
  c.isAlphanum || c == '_'

/-- The name and the expression text of a definition, split at its first `=`. -/
def splitDefinition? (definition : String) : Option (String × String) :=
  let cs := definition.toList
  let name := Text.trimBlanks (cs.takeWhile fun c => c != '=')
  match cs.dropWhile fun c => c != '=' with
  | [] => none
  | _ :: expression =>
      if !name.isEmpty && name.all isNameChar then
        some (String.ofList name, String.ofList expression)
      else none

def define (definition : String) : ScriptM Unit := do
  match splitDefinition? definition with
  | none => throw (.runError (.invalidDefinition definition))
  | some (name, expression) =>
      let ts ← ofSyntax (tokenize expression)
      let (e, rest) ← ofSyntax (Expr.ofTokens 0 ts)
      if rest.isEmpty then
        ofSession do Session.define name (← Session.evaluate e 0) 0
      else throw (.runError (.invalidDefinition definition))

/-!
## Running
-/

def body (source : String) (options : ScriptOptions) : ScriptM (Option Value) := do
  ofSession (Session.setCounter options.origin)
  options.definitions.forM define
  let ts ← ofSyntax (tokenize source)
  let statements ← ofSyntax (Statement.programOfTokens ts)
  ofSession (Session.executeAll none statements)

def run (source : String) (options : ScriptOptions) : Except ScriptError (Option Value) :=
  ((body source options).run ⟨.create ⟨0⟩ 0, {}⟩).1

end Script
end Equate
