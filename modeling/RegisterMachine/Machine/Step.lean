import RegisterMachine.Bounded
import RegisterMachine.Instruction.Text
import RegisterMachine.Machine.Input
import RegisterMachine.Machine.Store
import RegisterMachine.Program

/-!
# Single steps

A machine runs a program on a store. It is either at an instruction or halted. A step executes one
instruction: it changes the store, costs some cycles and says where to go on, at the next
instruction or at a label; `EXIT`, and the end of the list, halt the machine. A step from a halted
machine changes nothing.

A step that is recorded is written down last of all. If its statement shows a number that is too
long for it, the step fails although it has been taken, and the machine is left behind it.

* `Operation.execute` — what an operation does to a store;
* `Machine.load`, `Machine.start` — a machine before its first step;
* `Machine.perform` — one step, with the machine that it leaves even if it fails;
* `Machine.step` — one step, with the machine after it.

The value of a call is left to an `Evaluator`.
-/

namespace RegisterMachine

/-- The value of a call in the store of a caller, and the cycles spent on it. -/
abbrev Evaluator := (caller : String) → Store → Call → Bounded (Nat × Nat)

/-! ### Operations -/

/-- What an operation does. -/
structure Effect where
  /-- The store after it. -/
  store : Store
  /-- The label to go on at, if not at the next instruction. -/
  jump : Option Label
  /-- The cycles it takes. -/
  cycles : Nat
  deriving DecidableEq, Repr

namespace Operation

/-- Changes the store and goes on at the next instruction. -/
def assign (o : Operation) (store : Store) (v : Variable) (n : Nat) : Effect :=
  ⟨store.set v n, none, o.opcode.cycles⟩

/-- Leaves the store alone and jumps under a condition. -/
def jumpIf (o : Operation) (store : Store) (condition : Bool) (target : Label) : Effect :=
  ⟨store, if condition then some target else none, o.opcode.cycles⟩

/-- What an operation does to a store, where `evaluate` gives the values of calls. -/
def execute (evaluate : Call → Bounded (Nat × Nat)) (store : Store) (o : Operation) :
    Bounded Effect :=
  match o with
  | neutral _ => return ⟨store, none, o.opcode.cycles⟩
  | increase v => return o.assign store v (store.get v + 1)
  | decrease v => return o.assign store v (store.get v - 1)
  | jumpNotZero v target => return o.jumpIf store (store.get v != 0) target
  | zeroVariable v => return o.assign store v 0
  | gotoLabel target => return o.jumpIf store true target
  | constantAssignment v k => return o.assign store v k
  | jumpZero v target => return o.jumpIf store (store.get v == 0) target
  | assignment v source => return o.assign store v (store.get source)
  | jumpEqualConstant v k target => return o.jumpIf store (store.get v == k) target
  | jumpEqualVariable v source target =>
    return o.jumpIf store (store.get v == store.get source) target
  | quotation v call => do
    let (value, spent) ← evaluate call
    return ⟨store.set v value, none, o.opcode.cycles + spent⟩
  | jumpEqualFunction v call target => do
    let (value, spent) ← evaluate call
    return ⟨store, if store.get v == value then some target else none, o.opcode.cycles + spent⟩

end Operation

/-! ### Machines -/

/-- What the trace of a run says about one step. -/
structure TraceEntry where
  /-- The number of the step, from `1`. -/
  step : Nat
  /-- The index of the instruction. -/
  pc : Nat
  /-- The statement of the instruction. -/
  text : String
  /-- The label to go on at, if not at the next instruction. -/
  next : Option Label
  /-- The cycles that the step takes. -/
  cycles : Nat
  /-- The cycles taken up to the end of the step. -/
  total : Nat
  deriving DecidableEq, Repr

/-- A machine in the middle of a run. -/
structure Machine where
  /-- The program. -/
  program : Program
  /-- The values of the variables. -/
  store : Store
  /-- The index of the next instruction, as long as the machine has not halted. -/
  pc : Nat
  /-- The cycles taken. -/
  cycles : Nat
  /-- The steps taken. -/
  steps : Nat
  /-- The run has ended. -/
  halted : Bool
  /-- The steps are recorded. -/
  traced : Bool
  /-- The recorded steps, latest first. -/
  log : List TraceEntry
  deriving DecidableEq

namespace Machine

/-- The machine before the first step of a program on some inputs, which must be enough. -/
def load (p : Program) (inputs : List Nat) (traced : Bool) : Except Error Machine := do
  p.validate
  if inputs.length < p.requiredInputs then
    throw ((Error.insufficientInput p.requiredInputs inputs.length p.name).reporting
      p.requiredInputs)
  return {
    program := p
    store := .ofVariables p.vars fun v => (v.inputIndex?.bind (inputs[·]?)).getD 0
    pc := 0
    cycles := 0
    steps := 0
    halted := p.code.isEmpty
    traced
    log := [] }

/-- The machine before the first step of a program on values that have yet to be accepted. The jumps
of the program are looked at before the values. -/
def start (p : Program) (values : List InputValue) (traced : Bool) : Except Error Machine := do
  p.validate
  load p (← acceptInputs values) traced

variable (m : Machine)

/-- The recorded steps, earliest first. -/
def trace : List TraceEntry :=
  m.log.reverse

/-- The next instruction, unless the machine has halted. -/
def current? : Option Instruction :=
  if m.halted then none else m.program.code[m.pc]?

/-- The machine after it was decided where to go on. -/
def goTo (jump : Option Label) : Except Error Machine :=
  match jump with
  | none => return { m with pc := m.pc + 1, halted := m.program.code.length ≤ m.pc + 1 }
  | some .exit => return { m with halted := true }
  | some label => return { m with pc := ← m.program.indexOf (some label) }

/-- The machine after an effect, before it was decided where to go on. -/
def affect (effect : Effect) : Machine :=
  { m with store := effect.store, cycles := m.cycles + effect.cycles, steps := m.steps + 1 }

/-- The machine with one more recorded step, if steps are recorded. The statement of the instruction
has to be written for it. -/
def record (pc : Nat) (i : Instruction) (effect : Effect) : Except Error Machine :=
  if m.traced then do
    let text ← i.operation.write
    return { m with log := ⟨m.steps, pc, text, effect.jump, effect.cycles, m.cycles⟩ :: m.log }
  else return m

/-- Executes the next instruction. The result is the machine that is left, and where it goes on or
why the step failed; a halted machine stays at `EXIT`. What was done before a failure stays done. -/
def perform (evaluate : Evaluator) : Machine × Bounded (Option Label) :=
  if m.halted then (m, .ok (some .exit))
  else match m.program.code[m.pc]? with
    | none => (m, .error (.error (.programCounter m.pc m.program.name)))
    | some i =>
      match i.operation.execute (evaluate m.program.name m.store) m.store with
      | .error stop => (m, .error stop)
      | .ok effect =>
        match (m.affect effect).goTo effect.jump with
        | .error cause => (m.affect effect, .error (.error cause))
        | .ok next =>
          match next.record m.pc i effect with
          | .error cause => (next, .error (.error cause))
          | .ok recorded => (recorded, .ok effect.jump)

/-- Executes the next instruction. The result says where the machine goes on, with the machine after
the step. -/
def step (evaluate : Evaluator) : Bounded (Option Label × Machine) := do
  return (← (m.perform evaluate).2, (m.perform evaluate).1)

/-- Steps until the machine halts. The result is the last machine, and what stopped it if it did not
halt: the step that left it failed, or the fuel ran out. -/
def advance (evaluate : Evaluator) : Nat → Machine → Machine × Option Stop
  | 0, m => (m, if m.halted then none else some .outOfFuel)
  | fuel + 1, m =>
    if m.halted then (m, none)
    else match m.perform evaluate with
      | (left, .error stop) => (left, some stop)
      | (next, .ok _) => advance evaluate fuel next

end Machine

end RegisterMachine
