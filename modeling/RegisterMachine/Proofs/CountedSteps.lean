import RegisterMachine.Proofs.Reach

/-!
# Counted steps

A machine counts the steps that it takes and the cycles that they cost. Here both are counted from
outside, as a list with the cost of each instruction that was executed, so that what the machine
says of itself can be compared with what it did.

* `Machine.exists_effect_of_step` — all that a step does: it executes the next instruction, decides
  where to go on, and may record the step;
* `Library.Takes` — a machine becomes another one by executing instructions at some costs;
* `Library.exists_takes_of_reaches` — whatever is reached is reached like this;
* `Library.exists_takes_of_finish` — stepping a machine to its end is taking steps;
* `Library.below_run` — more fuel does not change a run;
* `Library.exists_finish_of_takes`, `Library.exists_finish_of_takes_error` — steps to the end are a
  run, and so are steps to a failure.
-/

namespace RegisterMachine

namespace Machine

variable {m m' : Machine} {evaluate : Evaluator} {jump : Option Label}

/-! ### What a step does -/

/-- A machine is at an instruction as long as it has not halted and its place is in the program. -/
theorem current?_eq_some_iff {i : Instruction} :
    m.current? = some i ↔ m.halted = false ∧ m.program.code[m.pc]? = some i := by
  rw [current?]
  cases m.halted <;> simp

theorem halted_of_current? {i : Instruction} (h : m.current? = some i) : m.halted = false :=
  (current?_eq_some_iff.1 h).1

/-- A step that succeeds executes the next instruction; the store afterwards is that of its effect,
its cycles are added, and the step is counted. -/
theorem exists_effect_of_step (hh : m.halted = false) (h : m.step evaluate = .ok (jump, m')) :
    ∃ i effect, m.current? = some i ∧
      i.operation.execute (evaluate m.program.name m.store) m.store = .ok effect ∧
      jump = effect.jump ∧ m'.program = m.program ∧ m'.store = effect.store ∧
      m'.cycles = m.cycles + effect.cycles ∧ m'.steps = m.steps + 1 := by
  rcases hi : m.program.code[m.pc]? with _ | i
  · rw [step_of_nowhere hh hi] at h
    cases h
  · rw [step_of_not_halted hh hi] at h
    obtain ⟨effect, heffect, h⟩ := Bounded.bind_eq_ok.1 h
    obtain ⟨next, hgoTo, h⟩ := Bounded.bind_eq_ok.1 h
    obtain ⟨recorded, hrecord, h⟩ := Bounded.bind_eq_ok.1 h
    obtain ⟨rfl, rfl⟩ := Prod.mk.inj (Except.ok.inj h)
    obtain ⟨pc, halted, rfl⟩ := frame_goTo (Bounded.lift_eq_ok.1 hgoTo)
    obtain ⟨log, rfl⟩ := frame_record (Bounded.lift_eq_ok.1 hrecord)
    exact ⟨i, effect, current?_eq_some_iff.2 ⟨hh, hi⟩, heffect, rfl, rfl, rfl, rfl, rfl⟩

end Machine

namespace Library

variable {lib : Library} {m m' m'' : Machine} {costs costs' : List Nat}

/-! ### Taking steps -/

/-- A machine executes instructions, one after another, and becomes another one. The list has what
each of them cost. -/
inductive Takes (lib : Library) (m : Machine) : List Nat → Machine → Prop
  | none : Takes lib m [] m
  | step {costs : List Nat} {m' m'' : Machine} {i : Instruction} {fuel : Nat} {effect : Effect}
      (before : Takes lib m costs m') (current_eq : m'.current? = some i)
      (execute_eq : i.operation.execute (lib.evaluator fuel m'.program.name m'.store) m'.store =
        .ok effect)
      (step_eq : m'.step (lib.evaluator fuel) = .ok (effect.jump, m'')) :
      Takes lib m (costs ++ [effect.cycles]) m''

theorem Takes.trans (h : lib.Takes m costs m') (h' : lib.Takes m' costs' m'') :
    lib.Takes m (costs ++ costs') m'' := by
  induction h' with
  | none =>
    rw [List.append_nil]
    exact h
  | step _ hcurrent hexecute hstep ih =>
    rw [← List.append_assoc]
    exact .step ih hcurrent hexecute hstep

theorem Takes.eq_of_nil (h : lib.Takes m [] m') : m' = m := by
  generalize hnil : ([] : List Nat) = costs at h
  cases h with
  | none => rfl
  | step => exact absurd hnil.symm (List.append_ne_nil_of_right_ne_nil _ (List.cons_ne_nil _ _))

/-- A step of a machine that has not halted takes one step. -/
theorem exists_takes_of_step {fuel : Nat} {jump : Option Label} (hh : m.halted = false)
    (h : m.step (lib.evaluator fuel) = .ok (jump, m')) : ∃ cost, lib.Takes m [cost] m' := by
  obtain ⟨i, effect, hcurrent, hexecute, rfl, -⟩ := Machine.exists_effect_of_step hh h
  exact ⟨effect.cycles, .step .none hcurrent hexecute h⟩

/-- The machine counts the steps that it takes, and the cycles that they cost; its program stays. -/
theorem Takes.counts (h : lib.Takes m costs m') : m'.program = m.program ∧
    m'.steps = m.steps + costs.length ∧ m'.cycles = m.cycles + totalCost costs := by
  induction h with
  | none => exact ⟨rfl, rfl, rfl⟩
  | @step costs m₁ m₂ i fuel effect _ hcurrent hexecute hstep ih =>
    obtain ⟨hprogram, hsteps, hcycles⟩ := ih
    obtain ⟨i', effect', hcurrent', hexecute', -, hprogram', -, hcycles', hsteps'⟩ :=
      Machine.exists_effect_of_step (Machine.halted_of_current? hcurrent) hstep
    obtain rfl := Option.some.inj (hcurrent.symm.trans hcurrent')
    obtain rfl := Except.ok.inj (hexecute.symm.trans hexecute')
    rw [List.length_append, totalCost_append]
    refine ⟨hprogram'.trans hprogram, ?_, ?_⟩
    · rw [hsteps', hsteps, List.length_singleton, Nat.add_assoc]
    · rw [hcycles', hcycles, totalCost_cons, totalCost_nil, Nat.add_zero, Nat.add_assoc]

theorem Takes.reaches (h : lib.Takes m costs m') : lib.Reaches m m' := by
  induction h with
  | none => exact .refl
  | step _ _ _ hstep ih => exact ih.tail ⟨_, _, hstep⟩

/-- What is reached is reached by executing instructions: a machine that has halted stays as it
is. -/
theorem exists_takes_of_reaches (h : lib.Reaches m m') : ∃ costs, lib.Takes m costs m' := by
  induction h with
  | refl => exact ⟨[], .none⟩
  | @tail m₁ m₂ _ hstep ih =>
    obtain ⟨costs, htakes⟩ := ih
    obtain ⟨fuel, jump, hstep⟩ := hstep
    cases hh : m₁.halted with
    | true =>
      rw [Machine.step_of_halted hh] at hstep
      obtain ⟨-, rfl⟩ := Prod.mk.inj (Except.ok.inj hstep)
      exact ⟨costs, htakes⟩
    | false =>
      obtain ⟨cost, hone⟩ := exists_takes_of_step hh hstep
      exact ⟨costs ++ [cost], htakes.trans hone⟩

/-! ### Stepping with fuel -/

/-- A machine that is stepped to its end takes steps. -/
theorem exists_takes_of_finish {fuel n : Nat} (h : m.finish (lib.evaluator fuel) n = .ok m') :
    ∃ costs, lib.Takes m costs m' ∧ m'.halted = true := by
  induction n generalizing m with
  | zero =>
    cases hh : m.halted with
    | true =>
      obtain rfl := Except.ok.inj ((Machine.finish_of_halted hh 0).symm.trans h)
      exact ⟨[], .none, hh⟩
    | false =>
      rw [Machine.finish_zero hh] at h
      cases h
  | succ n ih =>
    cases hh : m.halted with
    | true =>
      obtain rfl := Except.ok.inj ((Machine.finish_of_halted hh (n + 1)).symm.trans h)
      exact ⟨[], .none, hh⟩
    | false =>
      rw [Machine.finish_succ hh] at h
      obtain ⟨⟨jump, next⟩, hstep, h⟩ := Bounded.bind_eq_ok.1 h
      obtain ⟨cost, hone⟩ := exists_takes_of_step hh hstep
      obtain ⟨costs, htakes, hend⟩ := ih h
      exact ⟨[cost] ++ costs, hone.trans htakes, hend⟩

/-- More fuel does not change the value of a call. -/
theorem below_evaluator {fuel fuel' : Nat} (hle : fuel ≤ fuel') (caller : String) (store : Store)
    (call : Call) :
    Bounded.Below (lib.evaluator fuel caller store call)
      (lib.evaluator fuel' caller store call) := by
  rw [← evaluatorBy_nothing, ← evaluatorBy_nothing]
  exact (settles_callBy caller store.get (fun q values =>
    ((grows_runnerBy Skip.nothing lib q values).below hle).settles) call).below 0

/-- More fuel does not change the result of a run. -/
theorem below_run {fuel fuel' : Nat} (hle : fuel ≤ fuel') (p : Program) (values : List InputValue)
    (traced : Bool) :
    Bounded.Below (lib.run fuel p values traced) (lib.run fuel' p values traced) := by
  rw [run_eq, run_eq]
  exact .bind (.refl _) fun m => .bind (m.finish_below (below_evaluator hle) hle) fun m' => .refl _

/-- Runs of a program on some inputs that stop come to the same. -/
theorem run_agrees {fuel fuel' : Nat} {p : Program} {values : List InputValue} {traced : Bool}
    {r r' : Bounded RunResult} (hr : r ≠ .error .outOfFuel) (hr' : r' ≠ .error .outOfFuel)
    (h : lib.run fuel p values traced = r) (h' : lib.run fuel' p values traced = r') : r = r' := by
  -- With the greater amount of fuel, both runs are the same.
  have hmax := (below_run (le_max_left fuel fuel') p values traced).eq_of_eq hr h
  have hmax' := (below_run (le_max_right fuel fuel') p values traced).eq_of_eq hr' h'
  exact hmax.symm.trans hmax'

section Runs

variable {p : Program} {values : List InputValue} {traced : Bool} {fuel : Nat}

/-- Where the first machine of a run ends, the run ends. -/
theorem run_eq_ok (hstart : Machine.start p values traced = .ok m)
    (hfinish : m.finish (lib.evaluator fuel) fuel = .ok m') :
    lib.run fuel p values traced = .ok m'.result := by
  rw [run_eq, hstart, Bounded.lift_ok, Bounded.ok_bind, hfinish]
  rfl

/-- Where it fails, the run fails. -/
theorem run_eq_error {stop : Stop} (hstart : Machine.start p values traced = .ok m)
    (hfinish : m.finish (lib.evaluator fuel) fuel = .error stop) :
    lib.run fuel p values traced = .error stop := by
  rw [run_eq, hstart, Bounded.lift_ok, Bounded.ok_bind, hfinish]
  rfl

end Runs

/-- A step within some fuel is the step with as much fuel as it takes. -/
theorem limit_step {fuel : Nat} {r : Option Label × Machine}
    (h : m.step (lib.evaluator fuel) = .ok r) :
    m.step (evaluatorBy Skip.nothing lib (limitRunner Skip.nothing lib)) = .ok r := by
  rw [← evaluatorBy_nothing] at h
  exact ((Machine.settles_step (settles_evaluatorBy Skip.nothing lib) m).below fuel).eq_ok h

/-- So is a step that fails. -/
theorem limit_step_error {fuel : Nat} {cause : Error}
    (h : m.step (lib.evaluator fuel) = .error (.error cause)) :
    m.step (evaluatorBy Skip.nothing lib (limitRunner Skip.nothing lib)) =
      .error (.error cause) := by
  rw [← evaluatorBy_nothing] at h
  exact ((Machine.settles_step (settles_evaluatorBy Skip.nothing lib) m).below fuel).eq_error h

/-- A machine that steps lead to is on the way to where the run ends. -/
theorem Takes.finish (h : lib.Takes m costs m') (n : Nat) :
    m.finish (evaluatorBy Skip.nothing lib (limitRunner Skip.nothing lib)) (costs.length + n) =
      m'.finish (evaluatorBy Skip.nothing lib (limitRunner Skip.nothing lib)) n := by
  induction h generalizing n with
  | none => rw [List.length_nil, Nat.zero_add]
  | @step costs m₁ m₂ i fuel effect _ hcurrent _ hstep ih =>
    have hrest := ih (n + 1)
    rw [Machine.finish_succ (Machine.halted_of_current? hcurrent), limit_step hstep,
      Bounded.ok_bind] at hrest
    rw [List.length_append, List.length_singleton, Nat.add_assoc, Nat.add_comm 1 n, hrest]

/-- Where steps lead to the end of a run, or to its failure, the run with enough fuel comes to that
end. -/
private theorem exists_finish_of_limit {n : Nat} {r : Bounded Machine} (hr : r ≠ .error .outOfFuel)
    (h : m.finish (evaluatorBy Skip.nothing lib (limitRunner Skip.nothing lib)) n = r) :
    ∃ fuel, m.finish (lib.evaluator fuel) fuel = r := by
  obtain ⟨fuel, hfuel⟩ :=
    ((Machine.settles_finish (settles_evaluatorBy Skip.nothing lib) n m).eq_iff hr).1 h
  simp only [evaluatorBy_nothing] at hfuel
  have hbelow : Bounded.Below (m.finish (lib.evaluator fuel) n)
      (m.finish (lib.evaluator (max fuel n)) (max fuel n)) :=
    m.finish_below (below_evaluator (le_max_left fuel n)) (le_max_right fuel n)
  exact ⟨max fuel n, hbelow.eq_of_eq hr hfuel⟩

/-- Steps to a machine that has halted are a run, with enough fuel. -/
theorem exists_finish_of_takes (h : lib.Takes m costs m') (hh : m'.halted = true) :
    ∃ fuel, m.finish (lib.evaluator fuel) fuel = .ok m' := by
  have hlimit := h.finish 0
  rw [Machine.finish_of_halted hh] at hlimit
  exact exists_finish_of_limit nofun hlimit

/-- Steps to a machine whose next step fails are a run that fails, with enough fuel. -/
theorem exists_finish_of_takes_error (h : lib.Takes m costs m') (hh : m'.halted = false)
    {fuel : Nat} {cause : Error} (hstep : m'.step (lib.evaluator fuel) = .error (.error cause)) :
    ∃ fuel, m.finish (lib.evaluator fuel) fuel = .error (.error cause) := by
  have hlimit := h.finish 1
  rw [Machine.finish_succ hh, limit_step_error hstep] at hlimit
  exact exists_finish_of_limit nofun hlimit

end Library

end RegisterMachine
