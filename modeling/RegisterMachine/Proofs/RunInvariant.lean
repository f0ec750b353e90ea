import RegisterMachine.Proofs.CallStack
import RegisterMachine.Proofs.CountedSteps
import RegisterMachine.Proofs.StoreKeys

/-!
# Invariants of runs

The store of a started machine has an entry for each variable of its program and for the result
variable, and it keeps these entries: the only variable that an instruction can write is the one
that it is about, and that is a variable of the program. So a run never asks for a variable that the
store does not hold, and what the store would answer is of no consequence.

* `Operation.exists_set_of_execute` — what an operation does to a store;
* `Machine.Keyed` — the invariant of stores, which each step keeps;
* `Library.Running` — what holds of a machine in the middle of a run;
* `Library.running_of_reaches` — it holds of all machines that a started machine reaches.
-/

namespace RegisterMachine

/-! ### What an operation writes -/

/-- An operation leaves a store as it is, or sets the variable that it is about; jumps and neutral
operations do the former. -/
theorem Operation.exists_set_of_execute {value : Call → Bounded (Nat × Nat)} {store : Store}
    {o : Operation} {effect : Effect} (h : o.execute value store = .ok effect) :
    effect.store = store ∨ ∃ v n, effect.store = store.set v n ∧ o.subject? = some v ∧
      o.opcode.isJump = false ∧ o.opcode ≠ .neutral := by
  cases o with
  | quotation v call =>
    obtain ⟨r, -, h⟩ := Bounded.bind_eq_ok.1 h
    obtain rfl := Except.ok.inj h
    exact .inr ⟨v, r.1, rfl, rfl, rfl, nofun⟩
  | jumpEqualFunction v call target =>
    obtain ⟨r, -, h⟩ := Bounded.bind_eq_ok.1 h
    obtain rfl := Except.ok.inj h
    exact .inl rfl
  | increase v | decrease v | zeroVariable v | constantAssignment v k | assignment v source =>
    obtain rfl := Except.ok.inj h
    exact .inr ⟨v, _, rfl, rfl, rfl, nofun⟩
  | _ =>
    obtain rfl := Except.ok.inj h
    exact .inl rfl

namespace Machine

variable {m m' : Machine}

/-! ### The variables of the store -/

/-- The store holds the variables of the program and the result variable, each once. -/
structure Keyed (m : Machine) : Prop where
  /-- The variables of the store are in order, each once. -/
  ordered : m.store.Ordered
  /-- They are those of the program and the result variable. -/
  mem_vars_iff : ∀ v, v ∈ m.store.vars ↔ v ∈ m.program.vars ∨ v = .result

theorem keyed_initial (p : Program) (inputs : List Nat) (traced : Bool) :
    (initial p inputs traced).Keyed where
  ordered := by
    rw [Store.Ordered, initial, Store.vars_ofVariables]
    exact pairwise_insertSorted p.pairwise_vars
  mem_vars_iff v := by
    rw [initial, Store.vars_ofVariables, mem_insertSorted, or_comm]

/-- The variables that the next instruction mentions have entries. -/
theorem Keyed.mem_vars (hm : m.Keyed) {i : Instruction} (hi : m.current? = some i) {v : Variable}
    (hv : v ∈ i.referencedVariables) : v ∈ m.store.vars :=
  (hm.mem_vars_iff v).2 (.inl (Program.mem_vars.2
    ⟨i, Library.mem_of_current? hi, hv⟩))

/-- What a step changes is the entry of the variable that the executed instruction is about, unless
it is a jump or a neutral instruction. The store keeps its variables. -/
theorem Keyed.exists_change_of_step (hm : m.Keyed) {evaluate : Evaluator} {jump : Option Label}
    (hh : m.halted = false) (h : m.step evaluate = .ok (jump, m')) :
    m'.store.vars = m.store.vars ∧ ∃ i, m.current? = some i ∧
      ∀ v, m'.store.find? v ≠ m.store.find? v →
        i.operation.subject? = some v ∧ i.opcode.isJump = false ∧ i.opcode ≠ .neutral := by
  obtain ⟨i, effect, hi, heffect, -, -, hstore, -⟩ := exists_effect_of_step hh h
  rw [hstore]
  rcases Operation.exists_set_of_execute heffect with hsame | ⟨v, n, hset, hsubject, hkind⟩
  · rw [hsame]
    exact ⟨rfl, i, hi, fun v hv => absurd rfl hv⟩
  · have hv : v ∈ m.store.vars :=
      hm.mem_vars hi (Instruction.mem_referencedVariables.2 (.inl (.inl hsubject)))
    rw [hset]
    refine ⟨Store.vars_set hm.ordered hv n, i, hi, fun w hw => ?_⟩
    rw [Store.find?_set] at hw
    obtain rfl : w = v := by
      by_contra hne
      exact hw (if_neg hne)
    exact ⟨hsubject, hkind⟩

/-- A step keeps the variables of the store. -/
theorem Keyed.step (hm : m.Keyed) {evaluate : Evaluator} {jump : Option Label}
    (h : m.step evaluate = .ok (jump, m')) : m'.Keyed := by
  cases hh : m.halted with
  | true =>
    rw [step_of_halted hh] at h
    obtain ⟨-, rfl⟩ := Prod.mk.inj (Except.ok.inj h)
    exact hm
  | false =>
    obtain ⟨hvars, -⟩ := hm.exists_change_of_step hh h
    obtain ⟨-, -, -, -, -, hprogram, -⟩ := exists_effect_of_step hh h
    refine ⟨?_, fun v => ?_⟩
    · rw [Store.Ordered, hvars]
      exact hm.ordered
    · rw [hvars, hprogram]
      exact hm.mem_vars_iff v

end Machine

namespace Library

variable {lib : Library} {m₀ m m' : Machine}

/-- The values of calls within some fuel depend on the values of variables only. -/
theorem natural_evaluator (lib : Library) (fuel : Nat) (caller : String) :
    Meaning.Natural fun env call =>
      callBy Skip.nothing lib (runnerBy Skip.nothing lib fuel) caller env call :=
  fun h => callBy_rename Skip.nothing lib _ caller h

/-- The outcome of an instruction depends on the values of the variables that it mentions. -/
theorem outcome_of_agree {i : Instruction} (caller : String) (fuel : Nat) {store store' : Store}
    (h : ∀ v ∈ i.referencedVariables, store'.get v = store.get v) :
    i.operation.outcome (lib.evaluator fuel caller store') store'.get =
      i.operation.outcome (lib.evaluator fuel caller store) store.get := by
  rw [← evaluatorBy_nothing]
  exact Operation.outcome_congr (natural_evaluator lib fuel caller) i.operation fun v hv =>
    h v (Instruction.mem_referencedVariables.2 (.inl hv))

/-- The outcome of the next instruction depends on the entries of the store, and not on what is read
for other variables. -/
theorem outcome_of_keyed (hm : m.Keyed) {i : Instruction} (hi : m.current? = some i) (fuel : Nat)
    {store : Store} (h : ∀ v ∈ m.store.vars, store.get v = m.store.get v) :
    i.operation.outcome (lib.evaluator fuel m.program.name store) store.get =
      i.operation.outcome (lib.evaluator fuel m.program.name m.store) m.store.get :=
  outcome_of_agree m.program.name fuel fun v hv => h v (hm.mem_vars hi hv)

/-! ### Machines in the middle of a run -/

/-- What holds of a machine in the middle of a run that was started at another one. -/
structure Running (lib : Library) (m₀ m : Machine) : Prop where
  /-- The program stays. -/
  program_eq : m.program = m₀.program
  /-- The variables of the store stay. -/
  vars_eq : m.store.vars = m₀.store.vars
  /-- They are in order, each once. -/
  ordered : m.store.Ordered
  /-- The store holds natural numbers, for the variables of the program and the result variable. -/
  find?_iff : ∀ v, (∃ n : Nat, m.store.find? v = some n) ↔ v ∈ m.program.vars ∨ v = .result
  /-- A machine that has not halted is at an instruction. -/
  exists_current : m.halted = false →
    ∃ i, m.current? = some i ∧ m.program.code[m.pc]? = some i
  /-- The store holds all variables that the next instruction mentions, also in the arguments of its
  call. -/
  mentioned : ∀ i, m.current? = some i → ∀ v ∈ i.referencedVariables, v ∈ m.store.vars
  /-- What the next instruction does depends on the entries of the store, whatever is read for other
  variables. -/
  outcome_eq : ∀ i, m.current? = some i → ∀ (fuel : Nat) (store : Store),
    (∀ v ∈ m.store.vars, store.get v = m.store.get v) →
      i.operation.outcome (lib.evaluator fuel m.program.name store) store.get =
        i.operation.outcome (lib.evaluator fuel m.program.name m.store) m.store.get
  /-- The machine has counted the instructions that were executed, and the cycles that they cost. -/
  counted : ∃ costs, lib.Takes m₀ costs m ∧ m.steps = costs.length ∧ m.cycles = totalCost costs
  /-- A step changes the value of the variable that the executed instruction is about, or none; a
  jump and a neutral instruction change none. -/
  change : m.halted = false → ∀ (fuel : Nat) (jump : Option Label) (next : Machine),
    m.step (lib.evaluator fuel) = .ok (jump, next) →
      next.store.vars = m.store.vars ∧ ∃ i, m.current? = some i ∧
        ∀ v, next.store.find? v ≠ m.store.find? v →
          i.operation.subject? = some v ∧ i.opcode.isJump = false ∧ i.opcode ≠ .neutral
  /-- A machine that has halted stays as it is. -/
  stay : m.halted = true → ∀ evaluate : Evaluator, m.step evaluate = .ok (some .exit, m)

/-- Taking steps keeps the variables of the store. -/
theorem Takes.keyed {costs : List Nat} (h : lib.Takes m₀ costs m) (hm₀ : m₀.Keyed) :
    m.Keyed ∧ m.store.vars = m₀.store.vars := by
  induction h with
  | none => exact ⟨hm₀, rfl⟩
  | step _ hcurrent _ hstep ih =>
    obtain ⟨hkeyed, hvars⟩ := ih
    obtain ⟨hsame, -⟩ :=
      hkeyed.exists_change_of_step (Machine.halted_of_current? hcurrent) hstep
    exact ⟨hkeyed.step hstep, hsame.trans hvars⟩

/-- **The state of a run.** All machines that a started machine reaches hold the variables of the
program and no others, read no others, are at an instruction as long as they have not halted, and
have counted what they did. -/
theorem running_of_reaches {p : Program} {values : List InputValue} {traced : Bool}
    (hstart : Machine.start p values traced = .ok m₀) (h : lib.Reaches m₀ m) :
    Running lib m₀ m := by
  obtain ⟨-, inputs, -, -, rfl⟩ := start_eq_ok_iff.1 hstart
  obtain ⟨hprogram, hsound, -⟩ := path_of_reaches h (Machine.initial_sound p inputs traced)
  obtain ⟨costs, htakes⟩ := exists_takes_of_reaches h
  obtain ⟨hkeyed, hvars⟩ := htakes.keyed (Machine.keyed_initial p inputs traced)
  obtain ⟨-, hsteps, hcycles⟩ := htakes.counts
  exact
    { program_eq := hprogram
      vars_eq := hvars
      ordered := hkeyed.ordered
      find?_iff := fun v => by
        rw [← Option.isSome_iff_exists, Store.isSome_find?_iff, hkeyed.mem_vars_iff]
      exists_current := fun hh => by
        obtain ⟨i, hi⟩ : ∃ i, m.program.code[m.pc]? = some i :=
          ⟨_, List.getElem?_eq_getElem (hsound hh)⟩
        exact ⟨i, by rw [Machine.current?, hh, if_neg Bool.false_ne_true, hi], hi⟩
      mentioned := fun i hi v hv => hkeyed.mem_vars hi hv
      outcome_eq := fun i hi fuel store hstore => outcome_of_keyed hkeyed hi fuel hstore
      counted := ⟨costs, htakes, hsteps.trans (Nat.zero_add _), hcycles.trans (Nat.zero_add _)⟩
      change := fun hh fuel jump next hstep => hkeyed.exists_change_of_step hh hstep
      stay := fun hh evaluate => Machine.step_of_halted hh }

/-- The second step of a program that quotes another one and counts an input up. -/
theorem viaOne_running :
    ∃ m₀ m, Machine.start viaOne [.integer 3] false = .ok m₀ ∧ nestedLibrary.Reaches m₀ m ∧
      m.store.entries = [(.input 0, 4), (.result, 1)] ∧ m.halted = true ∧
      Running nestedLibrary m₀ m := by
  have hstart : Machine.start viaOne [.integer 3] false = .ok (Machine.initial viaOne [3] false) :=
    rfl
  have hreaches : nestedLibrary.Reaches (Machine.initial viaOne [3] false) _ :=
    .tail (.tail .refl ⟨3, none, rfl⟩) ⟨3, none, rfl⟩
  exact ⟨_, _, hstart, hreaches, rfl, rfl, running_of_reaches hstart hreaches⟩

end Library

end RegisterMachine
