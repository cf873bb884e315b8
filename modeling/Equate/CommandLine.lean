import Equate.CommandLine.Invocation
import Equate.Script

/-!
# The command

The command runs one script. It succeeds silently unless it is asked to print the
result of the script. A script that fails or cannot be read ends it with code `1`,
arguments that are refused end it with code `2`.
-/

namespace Equate

structure Outcome where
  code : Nat
  output : String := ""
  errors : String := ""
deriving DecidableEq, Repr

namespace Outcome

def failure (code : Nat) (message : String) : Outcome where
  code := code
  errors := message ++ "\n"

def success (pipeMode : Bool) (result : Option Value) : Outcome where
  code := 0
  output :=
    match pipeMode, result with
    | true, some v => v.toText ++ "\n"
    | _, _ => ""

end Outcome

namespace Invocation

def options (i : Invocation) : ScriptOptions where
  origin := i.origin
  definitions := i.definitions

/-- The outcome of an invocation on the given source, which may be unreadable. -/
def outcome (i : Invocation) : Option String -> Outcome
  | none =>
      .failure 1
        ("Failed to read the input file '" ++ i.script
          ++ "'. Perhaps this file does not exist?")
  | some source =>
      match Script.run source i.options with
      | .error e => .failure 1 e.message
      | .ok result => .success i.pipeMode result

end Invocation

def UsageError.outcome (e : UsageError) : Outcome :=
  .failure 2 e.message

namespace CommandLine

def run (files : String -> Option String) (arguments : List String) : Outcome :=
  match Invocation.ofArguments arguments with
  | .error e => e.outcome
  | .ok i => i.outcome (if i.fromFile then files i.script else some i.script)

end CommandLine
end Equate
