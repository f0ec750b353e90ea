import RegisterMachine.Bounded
import RegisterMachine.Library.Basic
import RegisterMachine.Machine.Store

/-!
# Evaluation of calls

A call is evaluated in the store of its caller: first its arguments, from left to right, as far as
the called program needs inputs, then the program on their values, with zeros for inputs that no
argument gives. The cycles spent are counted along: a call that is an argument costs what a
quotation of it would cost, and the program costs what its run costs. How a program is run is left
open here.
-/

namespace RegisterMachine

/-- The result of a program on some inputs and the cycles it takes. -/
abbrev Runner := Program → List Nat → Bounded (Nat × Nat)

namespace Library

variable (lib : Library) (run : Runner) (caller : String) (store : Store)

mutual

/-- The value of an argument of a function, and the cycles spent on it. -/
def argumentValue (function : String) : Argument → Bounded (Nat × Nat)
  | .constant value =>
    if value < 0 then throw (.error (.negativeArgument value function))
    else return (value.toNat, 0)
  | .name text =>
    match Variable.ofName? text with
    | some v => return (store.get v, 0)
    | none => do
      if !lib.contains text then throw (.error (.unknownVariable text))
      let callee ← lib.get text caller
      let (value, spent) ← run callee (List.replicate callee.requiredInputs 0)
      return (value, Opcode.quotation.cycles + spent)
  | .call name arguments => do
    let callee ← lib.get name caller
    let (values, spent) ← argumentValues callee.name callee.requiredInputs arguments
    let (value, cycles) ← run callee values
    return (value, Opcode.quotation.cycles + (spent + cycles))

/-- The values of the first few arguments of a function, with zeros for missing ones, and the cycles
spent on them. -/
def argumentValues (function : String) : Nat → List Argument → Bounded (List Nat × Nat)
  | 0, _ => return ([], 0)
  | n + 1, [] => return (List.replicate (n + 1) 0, 0)
  | n + 1, a :: as => do
    let (value, spent) ← argumentValue function a
    let (values, rest) ← argumentValues function n as
    return (value :: values, spent + rest)

end

/-- The value of a call, and the cycles spent on it. -/
def callValue (call : Call) : Bounded (Nat × Nat) := do
  let callee ← lib.get call.function caller
  let (values, spent) ←
    lib.argumentValues run caller store callee.name callee.requiredInputs call.arguments
  let (value, cycles) ← run callee values
  return (value, spent + cycles)

end Library

end RegisterMachine
