import RegisterMachine.CommandLine.Command

/-!
# The program

Reads the command line and the file that it names, and prints the answer.
-/

namespace RegisterMachine.CommandLine

/-- The bound on the steps of a run and on the depth of calls. -/
def stepBound : Nat := 1000000000000

/-- The content of a file, if it can be read. -/
def readContent (path : String) : IO (Option String) :=
  try
    return some (← IO.FS.readFile path)
  catch _ => return none

/-- Prints an outcome and gives its exit code. -/
def printOutcome (o : Outcome) : IO UInt32 := do
  IO.print o.printed
  match o.ending with
  | .status code => return code.toUInt32
  | .broken (.error cause) =>
    IO.eprintln cause.message
    return 1
  | .broken .outOfFuel =>
    IO.eprintln "The run takes too many steps"
    return 1

end RegisterMachine.CommandLine

open RegisterMachine CommandLine in
/-- Answers a command line. -/
def main (words : List String) : IO UInt32 := do
  match Request.read words with
  | .error .misuse =>
    IO.eprintln Dismissal.misuse.text
    return Dismissal.misuse.status.toUInt32
  | .error dismissal =>
    IO.println dismissal.text
    return dismissal.status.toUInt32
  | .ok none =>
    IO.println usage
    return 0
  | .ok (some request) =>
    let plain := !((← IO.getEnv "NO_COLOR").getD "").isEmpty
    printOutcome (answer stepBound request plain (← readContent request.file))
