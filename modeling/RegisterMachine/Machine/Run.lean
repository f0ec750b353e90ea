import RegisterMachine.Machine.Evaluation
import RegisterMachine.Machine.Step

/-!
# Runs

A run steps a machine until it halts. Calls are evaluated by runs of their own, which get less fuel
than the run they belong to, so one number bounds both the steps of each run and the depth of calls.

* `Library.runner` — the runs that calls are evaluated by;
* `Library.run` — the run of a program on given inputs, with all that can be seen of it.
-/

namespace RegisterMachine

/-- What can be seen of a run that has ended. -/
structure RunResult where
  /-- The program. -/
  program : Program
  /-- The value of `y`. -/
  result : Nat
  /-- The values of all variables. -/
  store : Store
  /-- The cycles taken. -/
  cycles : Nat
  /-- The steps taken. -/
  steps : Nat
  /-- The recorded steps, earliest first. -/
  trace : List TraceEntry
  deriving DecidableEq

/-- What can be seen of a machine. -/
def Machine.result (m : Machine) : RunResult :=
  ⟨m.program, m.store.get .result, m.store, m.cycles, m.steps, m.trace⟩

namespace Library

variable (lib : Library)

/-- The result and the cycles of a program on some inputs. -/
def runner : Nat → Runner
  | 0, _, _ => .error .outOfFuel
  | fuel + 1, p, inputs => do
    let m ← Machine.load p inputs false
    match m.advance (lib.callValue (runner fuel)) fuel with
    | (m, none) => return (m.store.get .result, m.cycles)
    | (_, some stop) => throw stop

/-- The values of calls, by runs within some fuel. -/
def evaluator (fuel : Nat) : Evaluator :=
  lib.callValue (lib.runner fuel)

/-- The run of a program. -/
def run (fuel : Nat) (p : Program) (values : List InputValue) (traced : Bool) :
    Bounded RunResult := do
  let m ← Machine.start p values traced
  match m.advance (lib.evaluator fuel) fuel with
  | (m, none) => return m.result
  | (_, some stop) => throw stop

end Library

/-! ### Summaries -/

/-- The variables of a store with their values, by name. -/
def Store.named (s : Store) : Except Error (List (String × Nat)) :=
  showing (s.vars.map Variable.number) (s.entries.map fun (v, n) => (v.name, n))

/-- The values of a store. -/
def Store.values (s : Store) : List Nat :=
  s.entries.map Prod.snd

/-- A run in a few lines. -/
def RunResult.summary (r : RunResult) : Except Error String := do
  let named ← r.store.named
  showing (r.result :: r.cycles :: r.steps :: r.store.values) <|
    "\n".intercalate <|
      [s!"Run of '{r.program.name}'",
       s!"  y = {r.result}",
       s!"  Cycles: {r.cycles}",
       s!"  Steps: {r.steps}",
       "  Variables:"] ++
      named.map fun (name, n) => s!"    {name} = {n}"

end RegisterMachine
