import RegisterMachine.Proofs.CountedSteps
import RegisterMachine.Proofs.WrittenOut

/-!
# Runs of programs with names written out

A bare name is evaluated like the call that it stands for: the same program is run on zeros, and the
cycles are those of a quotation and of the run. So calls, steps and whole runs come to the same once
names are written out, with the same cycles and the same errors, in the programs that are called as
well.

* `Library.WrittenOut.callValue_eq` — the value of a call, for any two runners that agree;
* `Library.WrittenOut.step`, `Library.WrittenOut.finish` — steps and runs;
* `Library.WrittenOut.runner_eq`, `Library.WrittenOut.evaluator_eq` — the programs that are called.
-/

namespace RegisterMachine

variable {lib lib' : Library}

/-! ### Values of calls -/

namespace Library

/-- The second runner gives each program with names written out what the first one gives the
program. -/
def RunsAlike (lib : Library) (run run' : Runner) : Prop :=
  ∀ {p p' : Program}, p.WrittenOut lib p' → ∀ values, run' p' values = run p values

section Values

variable {run run' : Runner}

mutual

/-- A bare name has the value of the call that it stands for. -/
theorem WrittenOut.argumentValue_eq (h : lib.WrittenOut lib') (hrun : lib.RunsAlike run run')
    (caller : String) (store : Store) (function : String) : ∀ {a b : Argument}, a.WrittenOut lib b →
      lib'.argumentValue run' caller store function b =
        lib.argumentValue run caller store function a
  | _, _, .constant value => by rw [argumentValue, argumentValue]
  | _, _, .name text => by
    rw [argumentValue, argumentValue, h.contains_eq]
    cases Variable.ofName? text with
    | some v => rfl
    | none =>
      by_cases hfound : lib.contains text = true
      · simp only [hfound, Bool.not_true, Bool.false_eq_true, if_false]
        refine (h.get text caller).lift.bind_eq fun p p' hp => ?_
        rw [hp.requiredInputs_eq, hrun hp]
      · simp only [hfound, Bool.not_false, if_true]
        rfl
  | .name text, _, .bare hvariable hfound => by
    rw [argumentValue, argumentValue, Argument.ofName?_of_isName_eq_false hvariable]
    simp only [hfound, Bool.not_true, Bool.false_eq_true, if_false]
    refine (h.get text caller).lift.bind_eq fun p p' hp => ?_
    -- without arguments, all inputs are zero and nothing is spent on them
    have hzeros : lib'.argumentValues run' caller store p'.name p'.requiredInputs [] =
        .ok (List.replicate p.requiredInputs 0, 0) := by
      rw [hp.requiredInputs_eq]
      cases p.requiredInputs <;> rw [argumentValues] <;> rfl
    rw [hzeros, Bounded.ok_bind, hrun hp]
    simp only [Nat.zero_add]
  | .call function as, .call _ bs, .call harguments => by
    rw [argumentValue, argumentValue]
    refine (h.get function caller).lift.bind_eq fun p p' hp => ?_
    have hsame : run' p' = run p := funext (hrun hp)
    rw [hp.name_eq, hp.requiredInputs_eq, hsame,
      h.argumentValues_eq hrun caller store p.name p.requiredInputs harguments]

theorem WrittenOut.argumentValues_eq (h : lib.WrittenOut lib') (hrun : lib.RunsAlike run run')
    (caller : String) (store : Store) (function : String) : ∀ (n : Nat) {as bs : List Argument},
    Argument.ListWrittenOut lib as bs →
      lib'.argumentValues run' caller store function n bs =
        lib.argumentValues run caller store function n as
  | 0, _, _, _ => by rw [argumentValues, argumentValues]
  | _ + 1, _, _, .nil => by rw [argumentValues, argumentValues]
  | n + 1, _, _, .cons hhead htail => by
    rw [argumentValues, argumentValues, h.argumentValue_eq hrun caller store function hhead,
      h.argumentValues_eq hrun caller store function n htail]

end

/-- A call has the same value once names in its arguments are written out. -/
theorem WrittenOut.callValue_eq (h : lib.WrittenOut lib') (hrun : lib.RunsAlike run run')
    (caller : String) (store : Store) {c c' : Call} (hc : c.WrittenOut lib c') :
    lib'.callValue run' caller store c' = lib.callValue run caller store c := by
  rw [callValue, callValue, hc.function_eq]
  refine (h.get c.function caller).lift.bind_eq fun p p' hp => ?_
  have hsame : run' p' = run p := funext (hrun hp)
  rw [hp.name_eq, hp.requiredInputs_eq, hsame,
    h.argumentValues_eq hrun caller store p.name p.requiredInputs hc.arguments]

end Values

/-! ### Steps and runs -/

/-- The second evaluator gives each call with names written out what the first one gives the
call. -/
def EvaluatesAlike (lib : Library) (evaluate evaluate' : Evaluator) : Prop :=
  ∀ caller store {c c' : Call}, c.WrittenOut lib c' →
    evaluate' caller store c' = evaluate caller store c

end Library

/-- The second machine is the first one with names written out in its program. No step is
recorded. -/
structure Machine.WrittenOut (lib : Library) (m m' : Machine) : Prop where
  /-- Names in the program are written out. -/
  program : m.program.WrittenOut lib m'.program
  /-- The rest of the machine stays. -/
  rest_eq : m' = { m with program := m'.program }
  /-- Steps are not recorded. -/
  untraced : m.traced = false

variable {evaluate evaluate' : Evaluator}

theorem Operation.WrittenOut.execute_eq {o o' : Operation} (h : o.WrittenOut lib o')
    {value value' : Call → Bounded (Nat × Nat)}
    (hvalue : ∀ {c c' : Call}, c.WrittenOut lib c' → value' c' = value c) (store : Store) :
    o'.execute value' store = o.execute value store := by
  cases h with
  | quotation v hcall | jumpEqualFunction v hcall target =>
    rw [Operation.execute, Operation.execute, hvalue hcall]
    rfl
  | same =>
    cases o with
    | quotation v call | jumpEqualFunction v call target =>
      rw [Operation.execute, Operation.execute, hvalue (.refl call)]
    | _ => rfl

namespace Machine

variable {m m' : Machine}

theorem WrittenOut.goTo (h : m.WrittenOut lib m') (jump : Option Label) :
    Agree (Machine.WrittenOut lib) (m.goTo jump) (m'.goTo jump) := by
  obtain ⟨hp, hrest, huntraced⟩ := h
  generalize m'.program = p' at hp hrest
  subst hrest
  rcases jump with _ | l
  · refine .ok ⟨hp, ?_, huntraced⟩
    simp only [hp.length_eq]
  · cases l with
    | exit => exact .ok ⟨hp, rfl, huntraced⟩
    | numbered n =>
      simp only [Machine.goTo, hp.indexOf_eq]
      cases m.program.indexOf (some (.numbered n)) with
      | error cause => exact .error cause
      | ok k => exact .ok ⟨hp, rfl, huntraced⟩

theorem WrittenOut.record (h : m.WrittenOut lib m') (pc : Nat) (i i' : Instruction)
    (effect : Effect) :
    Agree (Machine.WrittenOut lib) (m.record pc i effect) (m'.record pc i' effect) := by
  have huntraced' : m'.traced = false := by
    rw [h.rest_eq]
    exact h.untraced
  rw [record_of_not_traced h.untraced, record_of_not_traced huntraced']
  exact .ok h

/-- A step comes to the same once names are written out. -/
theorem WrittenOut.step (h : m.WrittenOut lib m') (hev : lib.EvaluatesAlike evaluate evaluate') :
    Agree (fun r r' => r'.1 = r.1 ∧ r.2.WrittenOut lib r'.2) (m.step evaluate)
      (m'.step evaluate') := by
  have hhalted : m'.halted = m.halted := by rw [h.rest_eq]
  cases hh : m.halted with
  | true =>
    rw [step_of_halted hh, step_of_halted (hhalted.trans hh)]
    exact .ok ⟨rfl, h⟩
  | false =>
    have hh' : m'.halted = false := hhalted.trans hh
    obtain ⟨hp, hrest, huntraced⟩ := h
    generalize m'.program = p' at hp hrest
    subst hrest
    have hcode := getElem?_of_forall₂ hp.code m.pc
    rcases hi : m.program.code[m.pc]? with _ | i <;> rcases hi' : p'.code[m.pc]? with _ | i' <;>
      rw [hi, hi'] at hcode <;> cases hcode
    · rw [step_of_nowhere hh hi, step_of_nowhere hh' hi', hp.name_eq]
      exact .error _
    · rename_i hii'
      rw [step_of_not_halted hh hi, step_of_not_halted hh' hi', hp.name_eq]
      have hexecute := hii'.operation.execute_eq (hev m.program.name m.store) m.store
      refine (Agree.of_eq hexecute).bind fun effect effect' heffect => ?_
      subst heffect
      have hafter : Machine.WrittenOut lib (m.affect effect)
          (({ m with program := p' } : Machine).affect effect) := ⟨hp, rfl, huntraced⟩
      refine (hafter.goTo effect.jump).lift.bind fun next next' hnext => ?_
      refine (hnext.record m.pc i i' effect).lift.bind fun recorded recorded' hrecorded => ?_
      exact .ok ⟨rfl, hrecorded⟩

/-- A run ends alike once names are written out. -/
theorem WrittenOut.finish (hev : lib.EvaluatesAlike evaluate evaluate') (fuel : Nat)
    {m m' : Machine} (h : m.WrittenOut lib m') :
    Agree (Machine.WrittenOut lib) (m.finish evaluate fuel) (m'.finish evaluate' fuel) := by
  have hhalted : m'.halted = m.halted := by
    rw [h.rest_eq]
  induction fuel generalizing m m' with
  | zero =>
    cases hh : m.halted with
    | true =>
      rw [finish_of_halted hh, finish_of_halted (hhalted.trans hh)]
      exact .ok h
    | false =>
      rw [finish_zero hh, finish_zero (hhalted.trans hh)]
      exact .error _
  | succ fuel ih =>
    cases hh : m.halted with
    | true =>
      rw [finish_of_halted hh, finish_of_halted (hhalted.trans hh)]
      exact .ok h
    | false =>
      rw [finish_succ hh, finish_succ (hhalted.trans hh)]
      refine (h.step hev).bind fun r r' hr => ih hr.2 ?_
      rw [hr.2.rest_eq]

/-- Programs are loaded alike once names are written out. -/
theorem WrittenOut.load {p p' : Program} (hp : p.WrittenOut lib p') (inputs : List Nat) :
    Agree (Machine.WrittenOut lib) (Machine.load p inputs false)
      (Machine.load p' inputs false) := by
  have hempty : p'.code.isEmpty = p.code.isEmpty := by
    have hcode := hp.code
    generalize p.code = x, p'.code = y at hcode ⊢
    cases hcode <;> rfl
  rw [Machine.load, Machine.load, hp.validate_eq]
  simp only [hp.requiredInputs_eq, hp.name_eq, hp.vars_eq, hempty]
  refine (Agree.of_eq rfl).bind fun _ _ _ => ?_
  split
  · exact .error _
  · exact .ok ⟨hp, rfl, rfl⟩

end Machine

/-! ### Programs that are called -/

namespace Library

/-- Programs run alike once names are written out, in them and in the programs that they call. -/
theorem WrittenOut.runsAlike (h : lib.WrittenOut lib') (fuel : Nat) :
    lib.RunsAlike (lib.runner fuel) (lib'.runner fuel) := by
  induction fuel with
  | zero => exact fun _ _ => rfl
  | succ fuel ih =>
    intro p p' hp values
    have hev : lib.EvaluatesAlike (lib.evaluator fuel) (lib'.evaluator fuel) :=
      fun caller store c c' hc => h.callValue_eq ih caller store hc
    rw [← runnerBy_nothing, ← runnerBy_nothing, runnerBy, runnerBy, evaluatorBy_nothing,
      evaluatorBy_nothing]
    refine (Machine.WrittenOut.load hp values).lift.bind_eq fun m m' hm => ?_
    refine (hm.finish hev fuel).bind_eq fun m₁ m₁' hm₁ => ?_
    rw [hm₁.rest_eq]

/-- Calls have the same values, cycles and errors once names are written out, within any fuel. -/
theorem WrittenOut.evaluator_eq (h : lib.WrittenOut lib') (fuel : Nat) (caller : String)
    (store : Store) {c c' : Call} (hc : c.WrittenOut lib c') :
    lib'.evaluator fuel caller store c' = lib.evaluator fuel caller store c :=
  h.callValue_eq (h.runsAlike fuel) caller store hc

end Library

end RegisterMachine
