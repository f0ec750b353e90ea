import RegisterMachine.Library.CallGraph
import RegisterMachine.Listing
import RegisterMachine.Machine.Run

/-!
# Sessions

A session is a library that is still being put together. Programs can be registered until the
session is frozen, which the library has to pass its checks for.

A session remembers two things that take long to compute. It keeps the call graph that it computed
last, and computes it anew if it is *dirty*, that is, if programs were registered since. It keeps
the degrees of registered programs by their names, together with the number of registrations at that
time; if the number is another one by now, it forgets them before it looks a degree up. The degree
of a program that is not the one registered under its name is neither remembered nor looked up. A
program that equals the registered one is taken for it.
-/

namespace RegisterMachine

/-- A library with what is remembered of it. -/
structure Session where
  /-- The library. -/
  library : Library
  /-- No program can be registered any more. -/
  frozen : Bool
  /-- The number of registrations. -/
  version : Nat
  /-- The call graph that was computed last. -/
  callGraph : Digraph String
  /-- Programs were registered since it was. -/
  dirty : Bool
  /-- The degrees that are remembered, by name. -/
  degrees : List (String × Nat)
  /-- The number of registrations when they were. -/
  degreesVersion : Nat

/-- A request to a session. -/
abbrev SessionM := ExceptT Stop (StateM Session)

namespace Session

/-- A session without programs. -/
def empty : Session where
  library := .empty
  frozen := false
  version := 0
  callGraph := ⟨[]⟩
  dirty := false
  degrees := []
  degreesVersion := 0

/-- Puts a program into the library, with the ancestry that it has if it was expanded before. -/
def register (e : Expansion) : SessionM Unit := do
  let s ← get
  if s.frozen then throw (.error (.frozen e.name))
  set { s with library := s.library.put e, version := s.version + 1, dirty := true }

/-- The call graph, from memory unless the session is dirty. -/
def graph : SessionM (Digraph String) := do
  let s ← get
  if s.dirty then
    let graph := s.library.callGraph
    set { s with callGraph := graph, dirty := false }
    return graph
  else return s.callGraph

/-- Checks the library. -/
def validate : SessionM Unit := do
  let graph ← graph
  orStop ((← get).library.validateWith graph)

/-- Checks the library and lets no more programs in. -/
def freeze : SessionM Unit := do
  validate
  modify fun s => { s with frozen := true }

/-- The program that a name must find. -/
def program (name caller : String) : SessionM Program := do
  orStop ((← get).library.get name caller)

/-- The functions that the program of a name calls. -/
def callees (name : String) : SessionM (List String) := do
  let p ← program name ""
  return (← graph).successors p.name

/-- The names of a library that passes its checks, each behind those it calls. -/
def dependencyOrder : SessionM (List String) := do
  let graph ← graph
  orStop ((← get).library.dependencyOrderWith graph)

/-- The programs of the library and what they call, line by line. -/
def summary : SessionM String := do
  let graph ← graph
  return (← get).library.summaryWith graph

/-- The session in short. -/
def display (s : Session) : String :=
  let state := if s.frozen then "frozen" else "open"
  s!"<FunctionRegistry: {s.library.programs.length} programs, {state}>"

/-! ### Degrees, expansions and runs -/

/-- The program is the one registered under its name. -/
def isRegistered (s : Session) (p : Program) : Bool :=
  s.library.find? p.name = some p

/-- The session without the degrees that were remembered before the last registration. -/
def forgetOutdated (s : Session) : Session :=
  if s.degreesVersion = s.version then s
  else { s with degrees := [], degreesVersion := s.version }

/-- The degree of a program, from memory if possible. -/
def maxDegree (fuel : Nat) (p : Program) : SessionM Nat := do
  modify forgetOutdated
  let s ← get
  if s.isRegistered p then
    match s.degrees.lookup p.name with
    | some degree => return degree
    | none =>
      let degree ← (s.library.maxDegree fuel p : Bounded Nat)
      modify fun s => { s with degrees := (p.name, degree) :: s.degrees }
      return degree
  else (s.library.maxDegree fuel p : Bounded Nat)

/-- The degree of an instruction. -/
def instructionDegree (fuel : Nat) (i : Instruction) : SessionM Nat := do
  operationDegree (← get).library (maxDegree fuel) i.operation

/-- A program expanded to a degree. -/
def expand (p : Program) (degree : Int) : SessionM Expansion := do
  orStop ((← get).library.expand p degree)

/-- A program expanded to its own degree. -/
def expandFully (fuel : Nat) (p : Program) : SessionM Expansion := do
  let degree ← maxDegree fuel p
  expand p degree

/-- One round over a list of instructions. -/
def expandOnce (code : List Instruction) : SessionM (List Line) := do
  orStop ((← get).library.expandOnce code)

/-- The listing of a program at a degree. -/
def view (fuel : Nat) (p : Program) (degree : Int) : SessionM Listing := do
  Listing.build (← get).library (maxDegree fuel) p degree

/-- The run of a program expanded to a degree. -/
def run (fuel : Nat) (p : Program) (degree : Int) (values : List InputValue) (traced : Bool) :
    SessionM RunResult := do
  let e ← expand p degree
  ((← get).library.run fuel e.program values traced : Bounded RunResult)

end Session

end RegisterMachine
