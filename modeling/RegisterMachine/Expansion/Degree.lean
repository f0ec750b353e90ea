import RegisterMachine.Bounded
import RegisterMachine.Expansion.Round

/-!
# Degrees

The degree of a program is the number of rounds after which all its instructions are basic. The
degree of a single instruction can be told from a formula: it is in the table of opcodes, or for a
quotation one more than the greatest degree among what inlining it emits.

* `Library.maxDegree` — the degree of a program, by counting rounds;
* `Library.instructionDegree` — the degree of an instruction, by the formula, which takes the
  degrees of called programs from `Library.maxDegree`.

The formula is stated over any way to come by the degree of a program, so that a memory of degrees
can stand in for the counting.
-/

namespace RegisterMachine

/-- Rounds until all instructions are basic. -/
def Library.roundsToBasic (lib : Library) : Nat → Expansion → Bounded Nat
  | 0, e => if e.program.isFullyBasic then .ok 0 else .error .outOfFuel
  | fuel + 1, e =>
    if e.program.isFullyBasic then .ok 0
    else do
      let e ← lib.round e
      return (← lib.roundsToBasic fuel e) + 1

/-- The degree of a program. -/
def Library.maxDegree (lib : Library) (fuel : Nat) (p : Program) : Bounded Nat :=
  lib.roundsToBasic fuel (.ofProgram p)

/-- A program expanded to its own degree. -/
def Library.expandFully (lib : Library) (fuel : Nat) (p : Program) : Bounded Expansion := do
  let degree ← lib.maxDegree fuel p
  orStop (lib.expand p degree)

/-! ### The formula -/

section Formula

variable {m : Type → Type} [Monad m] [MonadExceptOf Stop m]
variable (lib : Library) (programDegree : Program → m Nat)

/-- The degree of an instruction that gives a parameter something simple: a constant or the value of
a variable. -/
def simpleBindingDegree : Nat := 2

/-- The degree of an instruction that gives a parameter the value of a call of some degree. -/
def callBindingDegree (callDegree : Nat) : Nat :=
  1 + max 2 callDegree

mutual

/-- The degree of the instruction that gives a parameter its argument. -/
def bindingDegree : Argument → m Nat
  | .constant _ => pure simpleBindingDegree
  | .name text =>
    if Variable.isName text then pure simpleBindingDegree
    else do
      let call ← orStop (lib.bareCall text)
      let callee ← orStop (lib.get call.function "")
      return callBindingDegree (← programDegree callee)
  | .call function arguments => do
    let callee ← orStop (lib.get function "")
    let degree ← programDegree callee
    return callBindingDegree (← bindingDegrees callee.requiredInputs degree arguments)

/-- The greatest of a degree and the degrees of the instructions that give the first few parameters
their arguments. -/
def bindingDegrees : Nat → Nat → List Argument → m Nat
  | 0, degree, _ => pure degree
  | _ + 1, degree, [] => pure degree
  | n + 1, degree, a :: as => do
    let d ← bindingDegree a
    bindingDegrees n (max degree d) as

end

/-- The greatest degree among what inlining a call emits, its last instruction apart. -/
def callDegree (call : Call) : m Nat := do
  let callee ← orStop (lib.get call.function "")
  let degree ← programDegree callee
  bindingDegrees lib programDegree callee.requiredInputs degree call.arguments

/-- The degree of an operation. -/
def operationDegree (operation : Operation) : m Nat :=
  match operation with
  | .assignment v source => pure (if v = source then 1 else 2)
  | .quotation _ call => return 1 + max 2 (← callDegree lib programDegree call)
  | .jumpEqualFunction _ call _ => return 1 + max 3 (← callDegree lib programDegree call)
  | operation => pure (operation.opcode.degree?.getD 0)

end Formula

/-- The degree of an instruction. -/
def Library.instructionDegree (lib : Library) (fuel : Nat) (i : Instruction) : Bounded Nat :=
  operationDegree lib (lib.maxDegree fuel) i.operation

end RegisterMachine
