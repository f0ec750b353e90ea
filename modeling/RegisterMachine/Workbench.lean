import RegisterMachine.Assembly.File
import RegisterMachine.Cost
import RegisterMachine.Debugger
import RegisterMachine.Listing

/-!
# Workbenches

A workbench holds a main program and the functions it may call, a library that passed its checks. It
answers what can be asked of them at any degree: runs, listings, debugging sessions and costs. A
request names a function, or the main program by naming none.
-/

namespace RegisterMachine

/-- A main program in a library that passes its checks. -/
structure Workbench where
  /-- The name of the main program. -/
  main : String
  /-- The main program and its functions. -/
  library : Library
  /-- The steps of runs are recorded. -/
  traced : Bool
  /-- The library passes its checks. -/
  valid : library.validate = .ok ()

/-- What a run shows at one degree, for a comparison with other degrees. -/
structure DegreeReport where
  /-- What can be seen of the run. -/
  run : RunResult
  /-- The number of instructions at the degree. -/
  size : Nat
  /-- The values of the variables of the unexpanded program, as far as they are still mentioned. -/
  values : List (Option Nat)

namespace Workbench

/-- The workbench of a main program and functions, which must pass the checks. -/
def ofPrograms (main : Program) (functions : List Program) (traced : Bool) :
    Except Error Workbench :=
  let lib := Library.ofList (main :: functions)
  match h : lib.validate with
  | .ok () => .ok ⟨main.name, lib, traced, h⟩
  | .error cause => .error cause

/-- The workbench of an assembly. -/
def ofAssembly (a : Assembly) (traced : Bool) : Except Error Workbench :=
  ofPrograms a.main a.functions traced

/-- The workbench of assembly text. -/
def ofSource (source : String) (traced : Bool) : Except Error Workbench := do
  ofAssembly (← assemble source "main" true) traced

/-- The workbench of an assembly file, given its path and its content. -/
def ofFile (path content : String) (traced : Bool) : Except Error Workbench := do
  ofAssembly (← loadAssembly path content true) traced

variable (w : Workbench)

/-- The workbench in short. -/
def display : String :=
  s!"<Engine main='{w.main}' programs={w.library.programs.length}>"

/-! ### Programs -/

/-- The program that a request is about. -/
def program (name : Option String) : Except Error Program :=
  w.library.get (name.getD w.main) ""

/-- The functions, each behind those it calls. -/
def functions : Except Error (List String) := do
  return (← w.library.dependencyOrder).filter (· ≠ w.main)

/-- A program expanded to a degree. -/
def expand (degree : Int) (name : Option String) : Except Error Expansion := do
  w.library.expand (← w.program name) degree

/-- The degree of a program. -/
def maxDegree (fuel : Nat) (name : Option String) : Bounded Nat := do
  let p ← w.program name
  w.library.maxDegree fuel p

/-! ### Runs and listings -/

/-- Refuses instructions that a tier does not support. -/
def checkTier (tier : Option Tier) (code : List Instruction) : Except Error Unit :=
  match tier with
  | none => .ok ()
  | some tier =>
    match tier.unsupported code with
    | [] => .ok ()
    | missing => .error (.unsupported tier (missing.map fun (_, i) => i.opcode))

/-- The run of a program expanded to a degree, on a tier if one is given. -/
def run (fuel : Nat) (values : List InputValue) (degree : Int) (name : Option String)
    (tier : Option Tier) : Bounded RunResult := do
  let e ← w.expand degree name
  checkTier tier e.code
  w.library.run fuel e.program values w.traced

/-- What the runs of a program show at each degree, from `0` up to its own. -/
def compareDegrees (fuel : Nat) (values : List InputValue) (name : Option String) :
    Bounded (List DegreeReport) := do
  let p ← w.program name
  let top ← w.maxDegree fuel name
  (List.range (top + 1)).mapM fun (degree : Nat) => do
    let r ← w.run fuel values degree name none
    return ⟨r, r.program.code.length, p.vars.map r.store.find?⟩

/-- The listing of a program at a degree. -/
def view (fuel : Nat) (degree : Int) (name : Option String) : Bounded Listing := do
  let p ← w.program name
  Listing.build w.library (w.library.maxDegree fuel) p degree

/-- A debugging session for a program expanded to a degree. -/
def debug (values : List InputValue) (degree : Int) (name : Option String) :
    Except Error Debugger := do
  return .new (← w.expand degree name).program values w.traced

/-! ### Costs -/

/-- The static cost of a program at a degree. -/
def cyclesAtDegree (degree : Int) (name : Option String) : Except Error Nat := do
  w.library.cyclesAtDegree (← w.program name) degree

/-- The static cost of a program expanded to its own degree. -/
def cyclesFullyExpanded (fuel : Nat) (name : Option String) : Bounded Nat := do
  let p ← w.program name
  return staticCycles (← w.library.expandFully fuel p).code

/-- The static costs of a program at each degree, from `0` up to its own. -/
def cyclesByDegree (fuel : Nat) (name : Option String) : Bounded (List Nat) := do
  let top ← w.maxDegree fuel name
  (List.range (top + 1)).mapM fun (degree : Nat) =>
    orStop (w.cyclesAtDegree degree name)

/-- The cost of a run of an unexpanded program on a tier. -/
def creditCost (tier : Tier) (name : Option String) : Except Error Nat := do
  return RegisterMachine.creditCost (← w.program name).code tier

/-- The lowest tier that supports a program at a degree. -/
def minimumTier (degree : Int) (name : Option String) : Except Error Tier := do
  return .minimum (← w.expand degree name).code

/-- The instructions of a program at a degree that a tier does not support. -/
def unsupported (tier : Tier) (degree : Int) (name : Option String) :
    Except Error (List (Nat × Instruction)) := do
  return tier.unsupported (← w.expand degree name).code

end Workbench

end RegisterMachine
