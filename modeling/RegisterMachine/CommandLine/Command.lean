import RegisterMachine.CommandLine.Console
import RegisterMachine.CommandLine.Palette
import RegisterMachine.CommandLine.Request
import RegisterMachine.Debugger
import RegisterMachine.Workbench

/-!
# Commands

What each command prints. All commands work on the workbench of an assembly file; most of them can
be asked about one of its functions instead of the main program.

* `run` — the result of a run, its cycles, and its steps if they were asked for;
* `view` — a listing at a degree;
* `degree` — the degree;
* `cost` — the static cost at every degree, and the cost of a run on the tiers;
* `debug` — a run, step by step;
* `functions` — the functions, each behind those it calls.
-/

namespace RegisterMachine.CommandLine

/-! ### Lines -/

/-- The number of an instruction, counted from `1`. -/
def numberTag (index : Nat) : String :=
  s!"#{padRight 4 (toString (index + 1))}"

/-- The width of the column of statements. -/
def statementWidth : Nat := 32

/-- The line of a recorded step. -/
def traceLine (ink : Palette) (t : TraceEntry) : String :=
  let next := match t.next with
    | none => "·"
    | some label => label.name
  ink.faint <| s!"    [{padLeft 4 (toString t.step)}] {numberTag t.pc} "
    ++ s!"{padRight statementWidth t.text} -> {padRight 5 next} +{t.cycles}"

/-- The line of a row of a listing. -/
def rowLine (ink : Palette) (history : Bool) (row : ListingRow) : String :=
  let kind := (if row.basic then ink.green else ink.yellow) ++ row.kind ++ ink.reset
  let line := s!"  {numberTag row.index} ({kind}) {padRight 6 (labelTag row.label)} "
    ++ row.text ++ "  " ++ ink.faint s!"({row.cycles})"
  if history && !row.history.isEmpty then
    line ++ ink.faint ("  <<< " ++ " <<< ".intercalate row.history)
  else line

/-! ### Commands -/

variable (fuel : Nat) (ink : Palette) (w : Workbench) (r : Request)

/-- The tier of a request; an empty word names none. -/
def Request.tier (r : Request) : Except Error (Option Tier) :=
  (r.tier?.filter fun word => !word.isEmpty).mapM Tier.parse

/-- Runs a program. -/
def run : Console Unit := do
  let tier? ← r.tier
  let program ← w.program r.program?
  let top ← w.maxDegree fuel r.program?
  say (ink.heading s!"RUN: {program.name}  (degree {r.degree}/{top})")
  let result ← w.run fuel (r.inputs.map .text) r.degree r.program? tier?
  result.trace.forM fun t => say (traceLine ink t)
  say (← showing [result.result] (ink.success s!"y = {ink.strong (toString result.result)}"))
  say (← showing [result.cycles, result.steps]
    s!"  Cycles: {result.cycles}   Steps: {result.steps}")
  say s!"  {← ink.values result.store}"
  if let some tier := tier? then
    let credits ← w.creditCost tier r.program?
    say (ink.faint s!"  Credits: {credits} ({tier.name}, {tier.description})")

/-- Shows a program at a degree. -/
def view : Console Unit := do
  let listing ← w.view fuel r.degree r.program?
  say (ink.heading s!"VIEW: {listing.name}  (degree {listing.degree}/{listing.maxDegree})")
  listing.rows.forM fun row => say (rowLine ink r.history row)
  say s!"\n  Instructions: {listing.rows.length}   Static cycles: {listing.totalCycles}"
  unless listing.inputs.isEmpty do
    say ("  Inputs: " ++ ", ".intercalate (listing.inputs.map Variable.name))

/-- Shows the degree of a program. -/
def degree : Console Unit := do
  let program ← w.program r.program?
  say s!"{program.name}: max degree {← w.maxDegree fuel r.program?}"

/-- Shows the costs of a program. -/
def cost : Console Unit := do
  let program ← w.program r.program?
  let top ← w.maxDegree fuel r.program?
  say (ink.heading s!"COST: {program.name}")
  (List.range (top + 1)).forM fun (degree : Nat) => do
    let cycles ← w.cyclesAtDegree degree r.program?
    say s!"  degree {padLeft 2 (toString degree)}: {cycles} cycles"
  let minimum ← w.minimumTier 0 r.program?
  say s!"\n  Minimum architecture: {minimum.name} ({minimum.description})"
  let tier? ← r.tier
  ((tier?.map fun tier => [tier]).getD Tier.all).forM fun tier => do
    let text := s!"{padRight 4 tier.name} {creditCost program.code tier} credits"
    let supported := (tier.unsupported program.code).isEmpty
    say (if supported then ink.success text else ink.caution text)

/-- Steps until a machine halts and shows each step. -/
def showSteps (evaluate : Evaluator) : Nat → Machine → Console Machine
  | 0, _ => throw .outOfFuel
  | fuel + 1, m => do
    if m.halted then return m
    let (_, next) ← m.step evaluate
    let statement? ← (m.current?.mapM fun i => i.operation.write : Except Error (Option String))
    let statement := statement?.getD ""
    let cycles ← showing [next.cycles] (ink.faint s!"cycles={next.cycles}")
    let values ← ink.values next.store
    say s!"  {numberTag m.pc} {padRight statementWidth statement} {cycles}  {values}"
    showSteps evaluate fuel next

/-- Runs a program step by step. -/
def debug : Console Unit := do
  let e ← w.expand r.degree r.program?
  say (ink.heading s!"DEBUG: {e.program.name}  (degree {r.degree})")
  let m ← Machine.start e.program (r.inputs.map .text) false
  let _ ← m.snapshot
  let last ← showSteps ink (w.library.evaluator fuel) fuel m
  say (← showing [last.store.get .result, last.cycles]
    (ink.success s!"finished: y = {last.store.get .result}, {last.cycles} cycles"))

/-- Shows the functions. -/
def functions : Console Unit := do
  say (ink.heading s!"FUNCTIONS: {r.file}")
  let names ← w.functions
  if names.isEmpty then say (ink.caution "No functions defined")
  names.forM fun name => do
    let callees ← w.library.callees name
    let calls := if callees.isEmpty then "" else " -> " ++ ", ".intercalate callees
    let top ← w.maxDegree fuel (some name)
    say s!"  {ink.strong name}  degree {top}{ink.faint calls}"
  say (ink.faint s!"\n  main: {w.main}")

/-- What a command prints. -/
def command : Console Unit :=
  match r.verb with
  | .run => run fuel ink w r
  | .view => view fuel ink w r
  | .degree => degree fuel w r
  | .cost => cost fuel ink w r
  | .debug => debug fuel ink w r
  | .functions => functions fuel ink w r

/-! ### Answers to requests -/

/-- Answers a request, given the content of its file if there is such a file. -/
def answer (plain : Bool) (content? : Option String) : Outcome :=
  let ink := if plain || !r.colored then .plain else .bright
  match content? with
  | none => ⟨[ink.failure s!"File not found: {Assembly.normalPath r.file}"], .status 1⟩
  | some content =>
    Console.outcome (do command fuel ink (← Workbench.ofFile r.file content r.traced) r)
      fun report => ink.failure s!"Error: {report}"

end RegisterMachine.CommandLine
