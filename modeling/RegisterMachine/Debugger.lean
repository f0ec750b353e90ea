import RegisterMachine.Machine.Run

/-!
# Debugging sessions

A debugging session runs one program on one list of inputs, step by step. It is started once, then
it can be stepped and resumed until it is stopped or the program ends. A request that comes at the
wrong time is refused and changes nothing. A request that fails on the way keeps the machine that is
left: it is before the instruction that failed, or behind it if the instruction was executed and
could not be recorded.

What a session shows of its machine, it shows by the names of the variables. Where one of them is
too long there is nothing to show, and the request fails when all else is done.
-/

namespace RegisterMachine

/-- The state of a run as a debugging session shows it. -/
structure Snapshot where
  /-- The index of the next instruction, unless the run has ended. -/
  pc? : Option Nat
  /-- The values of the variables. -/
  store : Store
  /-- The cycles taken. -/
  cycles : Nat
  /-- The run has ended. -/
  finished : Bool
  deriving DecidableEq, Repr

/-- The state of a machine. -/
def Machine.state (m : Machine) : Snapshot :=
  ⟨if m.halted then none else some m.pc, m.store, m.cycles, m.halted⟩

/-- What a machine shows, by the names of its variables. -/
def Machine.snapshot (m : Machine) : Except Error Snapshot :=
  showing (m.store.vars.map Variable.number) m.state

/-- A snapshot in short. -/
def Snapshot.display (s : Snapshot) : Except Error String :=
  let place := match s.pc? with
    | none => "done"
    | some pc => s!"pc={pc}"
  showing (s.cycles :: s.pc?.toList) s!"<DebugState {place} cycles={s.cycles}>"

/-- A debugging session. -/
structure Debugger where
  /-- The program. -/
  program : Program
  /-- The values it is run on. -/
  inputs : List InputValue
  /-- The steps are recorded. -/
  traced : Bool
  /-- The machine, once the session was started. -/
  machine? : Option Machine
  /-- The session was stopped. -/
  stopped : Bool

/-- A request to a debugging session. -/
abbrev DebuggerM := ExceptT Stop (StateM Debugger)

namespace Debugger

/-- A session that was not started yet. -/
def new (p : Program) (inputs : List InputValue) (traced : Bool) : Debugger :=
  ⟨p, inputs, traced, none, false⟩

/-- The session has a machine that can go on. -/
def isAlive (d : Debugger) : Bool :=
  match d.machine? with
  | some m => !d.stopped && !m.halted
  | none => false

/-- Refuses a request. -/
def refuse {α : Type} (fault : DebugFault) : DebuggerM α :=
  throw (.error (.debugger fault))

/-- The machine of a session that can go on. -/
def aliveMachine (action : String) : DebuggerM Machine := do
  let d ← get
  match d.machine? with
  | none => refuse (.cannotBefore action)
  | some m =>
    if d.stopped then refuse (.cannotStopped action)
    else if m.halted then refuse (.cannotFinished action)
    else return m

/-- Keeps a machine in the session. -/
def keep (m : Machine) : DebuggerM Unit :=
  modify fun d => { d with machine? := some m }

/-- Keeps a machine in the session and shows its state. -/
def keepAndShow (m : Machine) : DebuggerM Snapshot := do
  keep m
  orStop m.snapshot

/-- Starts the run. -/
def start : DebuggerM Snapshot := do
  let d ← get
  if d.machine?.isSome then refuse .alreadyStarted
  let m ← orStop (Machine.start d.program d.inputs d.traced)
  keepAndShow m

/-- Takes one step. -/
def stepOver (evaluate : Evaluator) : DebuggerM Snapshot := do
  let m ← aliveMachine "step"
  match m.perform evaluate with
  | (left, .error stop) =>
    keep left
    throw stop
  | (next, .ok _) => keepAndShow next

/-- Takes a number of steps; the last snapshot is shown, if there is one. -/
def stepTimes (evaluate : Evaluator) : Nat → DebuggerM (Option Snapshot)
  | 0 => return none
  | 1 => some <$> stepOver evaluate
  | n + 2 => do
    let _ ← stepOver evaluate
    stepTimes evaluate (n + 1)

/-- Steps until the run ends. -/
def resume (evaluate : Evaluator) (fuel : Nat) : DebuggerM Snapshot := do
  let m ← aliveMachine "resume"
  match m.advance evaluate fuel with
  | (left, some stop) =>
    keep left
    throw stop
  | (last, none) => keepAndShow last

/-- Gives the run up. -/
def stop : DebuggerM Unit :=
  modify fun d => { d with stopped := true }

/-- The state of the run. -/
def snapshot : DebuggerM Snapshot := do
  match (← get).machine? with
  | some m => orStop m.snapshot
  | none => refuse .notStarted

/-- What can be seen of a run that has ended. -/
def result : DebuggerM RunResult := do
  match (← get).machine? with
  | some m => if m.halted then return m.result else refuse .notFinished
  | none => refuse .notFinished

end Debugger

end RegisterMachine
