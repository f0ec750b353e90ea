import RegisterMachine.Expansion.Inline

/-!
# Rounds of expansion

A round replaces every synthetic instruction of a list by its block and leaves the basic ones alone.
The names in use are those of the whole list before the round. The lines of a block go back to the
line that they replace, whatever they came with.

* `Library.expandLines` — one round over a list of lines;
* `Library.round`, `Library.expand` — one round, and any number of them. The rounds stop early once
  all instructions are basic.
-/

namespace RegisterMachine.Library

variable (lib : Library)

/-- One round over the lines of a list, with the names that are free. -/
def expandLines : Supply → List Line → Except Error (List Line)
  | _, [] => .ok []
  | s, line :: lines => do
    if line.instruction.isBasic then
      return line :: (← expandLines s lines)
    else
      let block ← lib.block s line.instruction
      let rest ← expandLines (s.skip block.variableCount block.labelCount) lines
      return (block.lines s).map line.derive ++ rest

/-- One round over a list of instructions that need not be a program. -/
def expandOnce (code : List Instruction) : Except Error (List Line) :=
  if code.any Instruction.hasOverlongName then .error (.numeral .tooLong)
  else lib.expandLines (Supply.ofCode code) (code.map Line.initial)

/-! ### Programs after some rounds -/

/-- One round over a program. -/
def round (e : Expansion) : Except Error Expansion := do
  e.withLines? (← lib.expandLines (Supply.ofCode e.code) e.lines)

/-- At most a number of rounds, until all instructions are basic. -/
def expandRounds : Nat → Expansion → Except Error Expansion
  | 0, e => .ok e
  | degree + 1, e => if e.program.isFullyBasic then .ok e else do
    expandRounds degree (← lib.round e)

/-- A program expanded to a degree. -/
def expandFrom (e : Expansion) (degree : Int) : Except Error Expansion :=
  if degree < 0 then .error ((Error.negativeDegree degree).reporting degree.natAbs)
  else lib.expandRounds degree.toNat e

/-- A program that no round has touched, expanded to a degree. -/
def expand (p : Program) (degree : Int) : Except Error Expansion :=
  lib.expandFrom (.ofProgram p) degree

end RegisterMachine.Library
