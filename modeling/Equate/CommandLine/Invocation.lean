import Equate.CommandLine.Origin

/-!
# Invocations

An invocation says which script runs and how. It is read from the arguments of the
command, from left to right. Switches and settings may stand before or after the
script, and `--` makes everything after it plain.

The value of a setting may be attached to it or be the next plain argument. In the
second case it is looked at when the setting is complete, that is with the next
argument that is known, so that an unknown argument is reported before it.
-/

namespace Equate

/-!
## Options
-/

inductive Switch where
  /-- The script is the name of a file. -/
  | file
  /-- The result of the script is printed. -/
  | pipeMode
  /-- More detail about the run; it may be repeated. -/
  | verbose
deriving DecidableEq, Repr

inductive Setting where
  /-- The program counter at the start. -/
  | origin
  /-- A definition before the script; there may be several. -/
  | definition
deriving DecidableEq, Repr

inductive CommandOption where
  | switch (s : Switch)
  | setting (s : Setting)
deriving DecidableEq, Repr

def Switch.describe : Switch -> String
  | .file => "--file"
  | .pipeMode => "--pipe-mode"
  | .verbose => "--verbose..."

def Setting.describe : Setting -> String
  | .origin => "--origin <ORIGIN>"
  | .definition => "--define <NAME=EXPR>"

namespace CommandOption

def ofName? : String -> Option CommandOption
  | "file" => some (.switch .file)
  | "pipe-mode" => some (.switch .pipeMode)
  | "verbose" => some (.switch .verbose)
  | "origin" => some (.setting .origin)
  | "define" => some (.setting .definition)
  | _ => none

def ofLetter? : Char -> Option CommandOption
  | 'f' => some (.switch .file)
  | 'p' => some (.switch .pipeMode)
  | 'v' => some (.switch .verbose)
  | 'D' => some (.setting .definition)
  | _ => none

end CommandOption

/-!
## Errors
-/

inductive UsageError where
  | unexpectedArgument (argument : String)
  | missingValue (s : Setting)
  /-- A value attached to a switch. -/
  | unexpectedValue (s : Switch) (value : String)
  /-- A second use of a switch that may be used once. -/
  | repeatedSwitch (s : Switch)
  /-- A second use of a setting that may be used once. -/
  | repeatedSetting (s : Setting)
  | invalidOrigin (value : String) (fault : Origin.Fault)
  | missingScript
deriving DecidableEq, Repr

namespace UsageError

def complaint : UsageError -> String
  | .unexpectedArgument argument => "unexpected argument '" ++ argument ++ "' found"
  | .missingValue s => "a value is required for '" ++ s.describe ++ "' but none was supplied"
  | .unexpectedValue s value =>
      "unexpected value '" ++ value ++ "' for '" ++ s.describe
        ++ "' found; no more were expected"
  | .repeatedSwitch s => "the argument '" ++ s.describe ++ "' cannot be used multiple times"
  | .repeatedSetting s => "the argument '" ++ s.describe ++ "' cannot be used multiple times"
  | .invalidOrigin value fault =>
      "invalid value '" ++ value ++ "' for '" ++ Setting.origin.describe
        ++ "': invalid origin '" ++ value ++ "': " ++ fault.message
  | .missingScript => "the following required arguments were not provided:\n  <CONTENTS>"

def message (e : UsageError) : String :=
  "error: " ++ e.complaint

end UsageError

/-!
## Single arguments
-/

inductive Argument where
  | escape
  /-- An option by its name, with the value after an equals sign. -/
  | long (name : String) (value : Option String)
  | letters (cs : List Char)
  | plain (text : String)
deriving DecidableEq, Repr

namespace Argument

def ofLong (cs : List Char) : Argument :=
  let name := String.ofList (cs.takeWhile fun c => c != '=')
  match cs.dropWhile fun c => c != '=' with
  | [] => .long name none
  | _ :: value => .long name (some (String.ofList value))

/-- An argument after which no `--` came. A single dash is plain. -/
def ofString (text : String) : Argument :=
  match text.toList with
  | ['-', '-'] => .escape
  | '-' :: '-' :: cs => ofLong cs
  | '-' :: c :: cs => .letters (c :: cs)
  | _ => .plain text

end Argument

/-!
## Reading the arguments
-/

structure Invocation where
  fromFile : Bool
  pipeMode : Bool
  origin : UInt64
  definitions : List String
  /-- The script itself, or the name of its file. -/
  script : String
deriving DecidableEq, Repr

structure PartialInvocation where
  fromFile : Bool := false
  pipeMode : Bool := false
  origin : Option UInt64 := none
  definitions : List String := []
  script : Option String := none
  /-- A setting that is not complete, and the value that it was given. -/
  pending : Option (Setting × Option String) := none
  /-- Whether all further arguments are plain. -/
  escaped : Bool := false

namespace PartialInvocation

def assign (i : PartialInvocation) (value : String) :
    Setting -> Except UsageError PartialInvocation
  | .definition => .ok { i with definitions := i.definitions ++ [value] }
  | .origin =>
      match i.origin, Origin.ofText value with
      | some _, _ => .error (.repeatedSetting .origin)
      | none, .error fault => .error (.invalidOrigin value fault)
      | none, .ok n => .ok { i with origin := some n }

def settle (i : PartialInvocation) : Except UsageError PartialInvocation :=
  match i.pending with
  | none => .ok i
  | some (s, none) => .error (.missingValue s)
  | some (s, some value) => { i with pending := none }.assign value s

def takeSwitch (i : PartialInvocation) (s : Switch) :
    Except UsageError PartialInvocation := do
  let i ← i.settle
  match s with
  | .file =>
      if i.fromFile then throw (.repeatedSwitch .file)
      else return { i with fromFile := true }
  | .pipeMode =>
      if i.pipeMode then throw (.repeatedSwitch .pipeMode)
      else return { i with pipeMode := true }
  | .verbose => return i

def takeSetting (i : PartialInvocation) (s : Setting) (attached : Option String) :
    Except UsageError PartialInvocation := do
  let i ← i.settle
  match attached with
  | none => return { i with pending := some (s, none) }
  | some value => i.assign value s

def takeLong (i : PartialInvocation) (name : String) (attached : Option String) :
    Except UsageError PartialInvocation :=
  match CommandOption.ofName? name, attached with
  | none, _ => .error (.unexpectedArgument ("--" ++ name))
  | some (.switch s), some value => .error (.unexpectedValue s value)
  | some (.switch s), none => i.takeSwitch s
  | some (.setting s), attached => i.takeSetting s attached

/-- The value that follows the letter of a setting, less an equals sign. -/
def attachedToLetter? : List Char -> Option String
  | [] => none
  | '=' :: value => some (String.ofList value)
  | value => some (String.ofList value)

def takeLetters (i : PartialInvocation) :
    List Char -> Except UsageError PartialInvocation
  | [] => .ok i
  | c :: cs =>
      match CommandOption.ofLetter? c with
      | none => .error (.unexpectedArgument (String.ofList ['-', c]))
      | some (.switch s) => do takeLetters (← i.takeSwitch s) cs
      | some (.setting s) => i.takeSetting s (attachedToLetter? cs)

def takeScript (i : PartialInvocation) (text : String) :
    Except UsageError PartialInvocation :=
  match i.script with
  | some _ => .error (.unexpectedArgument text)
  | none => do return { ← i.settle with script := some text }

def takePlain (i : PartialInvocation) (text : String) :
    Except UsageError PartialInvocation :=
  match i.pending with
  | some (s, none) => .ok { i with pending := some (s, some text) }
  | _ => i.takeScript text

def take (i : PartialInvocation) (argument : String) :
    Except UsageError PartialInvocation :=
  if i.escaped then i.takeScript argument
  else
    match Argument.ofString argument with
    | .escape => .ok { i with escaped := true }
    | .long name attached => i.takeLong name attached
    | .letters cs => i.takeLetters cs
    | .plain text => i.takePlain text

def finish (i : PartialInvocation) : Except UsageError Invocation := do
  let i ← i.settle
  match i.script with
  | none => throw .missingScript
  | some script =>
      return {
        fromFile := i.fromFile
        pipeMode := i.pipeMode
        origin := i.origin.getD 0
        definitions := i.definitions
        script := script }

end PartialInvocation

def Invocation.ofArguments (arguments : List String) : Except UsageError Invocation := do
  let i ← arguments.foldlM PartialInvocation.take {}
  i.finish

end Equate
