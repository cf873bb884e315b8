import Equate.CommandLine

/-!
# The program

The program reads its arguments and the file that they may name, prints what the
command shows, and ends with its code.
-/

namespace Equate

def Invocation.readSource (i : Invocation) : IO (Option String) := do
  if i.fromFile then
    try
      return some (← IO.FS.readFile i.script)
    catch _ => return none
  else return some i.script

def Outcome.print (o : Outcome) : IO UInt32 := do
  IO.print o.output
  IO.eprint o.errors
  return o.code.toUInt32

def CommandLine.execute (arguments : List String) : IO UInt32 := do
  match Invocation.ofArguments arguments with
  | .error e => e.outcome.print
  | .ok i => (i.outcome (← i.readSource)).print

end Equate

def main (arguments : List String) : IO UInt32 :=
  Equate.CommandLine.execute arguments
