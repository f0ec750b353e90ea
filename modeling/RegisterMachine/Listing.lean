import RegisterMachine.Expansion.Degree
import RegisterMachine.Instruction.Text

/-!
# Listings

A listing shows a program at a degree, one row for each instruction: whether it is basic, its label,
its statement, its cost, its remaining degree, and the statements of the instructions it came from.
-/

namespace RegisterMachine

/-- A row of a listing. -/
structure ListingRow where
  /-- The index of the instruction. -/
  index : Nat
  /-- The opcode. -/
  opcode : Opcode
  /-- The label of the instruction. -/
  label : Option Label
  /-- The statement. -/
  text : String
  /-- The declared cost. -/
  cycles : Nat
  /-- The rounds that expand the instruction into basic ones. -/
  degree : Nat
  /-- The instruction is basic. -/
  basic : Bool
  /-- The statements of the instructions it came from, nearest first. -/
  history : List String
  deriving DecidableEq, Repr

/-- A program at a degree, row by row. -/
structure Listing where
  /-- The name of the program. -/
  name : String
  /-- The degree. -/
  degree : Int
  /-- The degree at which all instructions are basic. -/
  maxDegree : Nat
  /-- The rows. -/
  rows : List ListingRow
  /-- The input variables. -/
  inputs : List Variable
  /-- The labels, in order. -/
  labels : List Label
  deriving DecidableEq, Repr

/-- The row of a line, given its index and what gives its degree. The statement is written first,
and those of the ancestry last. -/
def ListingRow.ofLine {m : Type → Type} [Monad m] [MonadExceptOf Stop m] (line : Line)
    (index : Nat) (degree : m Nat) : m ListingRow := do
  let text ← orStop line.instruction.operation.write
  let degree ← degree
  let history ← orStop (line.ancestry.mapM fun i => i.operation.write)
  return {
    index
    opcode := line.instruction.opcode
    label := line.instruction.label
    text
    cycles := line.instruction.cycles
    degree
    basic := line.instruction.isBasic
    history }

/-- The letter that tells basic rows from synthetic ones. -/
def ListingRow.kind (row : ListingRow) : String :=
  if row.basic then "B" else "S"

/-- A row in writing: number, kind, label, statement and cost. -/
def ListingRow.render (row : ListingRow) : String :=
  s!"#{padRight 4 (toString (row.index + 1))} ({row.kind}) {padRight 6 (labelTag row.label)} "
    ++ s!"{row.text}  ({row.cycles})"

namespace Listing

/-- The listing of a program at a degree, where `programDegree` gives the degrees of programs. -/
def build {m : Type → Type} [Monad m] [MonadExceptOf Stop m] (lib : Library)
    (programDegree : Program → m Nat) (p : Program) (degree : Int) : m Listing := do
  let e ← orStop (lib.expand p degree)
  let rows ← e.lines.zipIdx.mapM fun (line, index) =>
    ListingRow.ofLine line index (operationDegree lib programDegree line.instruction.operation)
  let maxDegree ← programDegree p
  let inputs := e.program.inputVariables
  let inputs ← orStop (showing (inputs.map Variable.number) inputs)
  return {
    name := p.name
    degree
    maxDegree
    rows
    inputs
    labels := e.program.labels }

/-- The sum of the declared costs. -/
def totalCycles (l : Listing) : Nat :=
  l.rows.foldr (fun row total => row.cycles + total) 0

/-- The listing in writing. -/
def render (l : Listing) : String :=
  "\n".intercalate (s!"{l.name}  (degree {l.degree}/{l.maxDegree})" :: l.rows.map ListingRow.render)

end Listing

end RegisterMachine
