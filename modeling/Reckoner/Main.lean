import Reckoner.CommandLine.Run

/-!
# The program

Reads the file that the command line names, runs the command line and prints what
it leads to.  The log goes to the errors, in front of them.
-/

namespace Reckoner.CommandLine

/-- The text of a file, if it can be read. -/
def readText (name : String) : IO (Option String) := do
  try
    return some (← IO.FS.readFile name)
  catch _ =>
    return none

/-- The contents of the file that a command line names. -/
def contents (arguments : List String) : IO (Option String) := do
  match parse arguments with
  | .ok ⟨.eval, _, _, _, some name, _⟩ => readText name
  | _ => return none

end Reckoner.CommandLine

open Reckoner

/-- Run the program. -/
def main (arguments : List String) : IO UInt32 := do
  let text ← CommandLine.contents arguments
  let outcome := CommandLine.run (fun _ => text) arguments
  for record in outcome.log do
    IO.eprintln ("[" ++ record.level.text ++ "] " ++ record.message)
  IO.print outcome.output
  IO.eprint outcome.errors
  return UInt32.ofNat outcome.status
