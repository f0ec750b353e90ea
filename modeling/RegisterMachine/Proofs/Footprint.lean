import RegisterMachine.Proofs.CallAgreement
import RegisterMachine.Proofs.Recording
import RegisterMachine.Proofs.RunInvariant

/-!
# Footprints

What a step reads and writes are variables that the next instruction mentions. So two machines that
are at the same place of a program and give these variables the same values take the same step,
whatever else their stores hold: they fail alike, or they go on at the same place, at the same cost
and with the same new value of the variable that is written, and each keeps its own values of all
other variables. Whether a step can be recorded is a matter of its instruction, and not of the
store. What the runs of called programs are started on depends on even less, the variables in the
arguments of the call.

* `Operation.written?` — the variable that an operation writes;
* `Machine.Alike` — two machines that differ outside of the footprint of the next instruction only;
* `Machine.StepsAlike` — what two steps have in common;
* `Library.callStarts_congr` — the runs that the evaluation of a call starts;
* `Library.step_footprint` — the law for steps and for the runs that they start.
-/

namespace RegisterMachine

/-! ### What an operation writes -/

namespace Operation

/-- The variable that an operation writes. -/
def written? : Operation → Option Variable
  | increase v | decrease v | zeroVariable v | constantAssignment v _ | assignment v _
  | quotation v _ => some v
  | _ => none

/-- An outcome writes that variable, if there is one. -/
theorem write_of_outcome {value : Call → Bounded (Nat × Nat)} {env : Valuation} {o : Operation}
    {out : Outcome} (h : o.outcome value env = .ok out) : out.write.map Prod.fst = o.written? := by
  cases o with
  | quotation v call | jumpEqualFunction v call target =>
    obtain ⟨r, -, h⟩ := Bounded.bind_eq_ok.1 h
    obtain rfl := Except.ok.inj h
    rfl
  | _ =>
    obtain rfl := Except.ok.inj h
    rfl

end Operation

namespace Outcome

variable {out : Outcome} {store : Store} {v : Variable}

theorem find?_effect_of_written (h : out.write.map Prod.fst = some v) :
    ∃ n, ∀ store, (out.effect store).store.find? v = some n := by
  obtain ⟨_ | ⟨w, n⟩, jump, cycles⟩ := out
  · cases h
  · obtain rfl : w = v := Option.some.inj h
    exact ⟨n, fun store => (store.find?_set w w n).trans (if_pos rfl)⟩

theorem find?_effect_of_not_written (h : out.write.map Prod.fst ≠ some v) (store : Store) :
    (out.effect store).store.find? v = store.find? v := by
  obtain ⟨_ | ⟨w, n⟩, jump, cycles⟩ := out
  · rfl
  · exact (store.find?_set w v n).trans (if_neg fun hv => h (congrArg some hv.symm))

end Outcome

/-! ### Steps -/

namespace Machine

/-- Two machines are at the same place of the same program, and the variables that the instruction
there mentions have the same values. The other variables may have any values, and what was counted
and recorded before may be different. -/
structure Alike (m m' : Machine) : Prop where
  /-- They run the same program. -/
  program_eq : m'.program = m.program
  /-- They are at the same index. -/
  pc_eq : m'.pc = m.pc
  /-- Both have halted, or none has. -/
  halted_eq : m'.halted = m.halted
  /-- Both can record the next step as far as they have to, or none can. Machines that both record
  their steps are alike in this, and so are machines that both do not. -/
  recordable_iff : m'.Recordable ↔ m.Recordable
  /-- The variables of the next instruction have the same values. -/
  values_eq : ∀ i, m.current? = some i → ∀ v ∈ i.referencedVariables, m'.store.get v = m.store.get v

/-- The variable that the next instruction writes. -/
def written? (m : Machine) : Option Variable :=
  m.current?.bind fun i => i.operation.written?

/-- Two machines, and what they are after a step each that did the same. -/
structure StepsAlike (m m' next next' : Machine) : Prop where
  /-- The programs stay. -/
  program_eq : next.program = m.program ∧ next'.program = m'.program
  /-- They went on at the same index. -/
  pc_eq : next'.pc = next.pc
  /-- Both have halted, or none has. -/
  halted_eq : next'.halted = next.halted
  /-- The steps had the same cost. -/
  cycles_eq : ∃ cost, next.cycles = m.cycles + cost ∧ next'.cycles = m'.cycles + cost
  /-- They were counted alike. -/
  steps_eq : ∃ n, next.steps = m.steps + n ∧ next'.steps = m'.steps + n
  /-- The variable that was written has the same new value. -/
  written : ∀ v, m.written? = some v →
    ∃ n, next.store.find? v = some n ∧ next'.store.find? v = some n
  /-- Every other variable keeps the value, or the lack of one, that it had in each of them. -/
  kept : ∀ v, m.written? ≠ some v →
    next.store.find? v = m.store.find? v ∧ next'.store.find? v = m'.store.find? v

/-- Where a machine goes on depends on its place only. -/
theorem goTo_congr (m m' : Machine) (hprogram : m'.program = m.program) (hpc : m'.pc = m.pc)
    (hhalted : m'.halted = m.halted) (jump : Option Label) :
    (∃ cause, m.goTo jump = .error cause ∧ m'.goTo jump = .error cause) ∨
      ∃ pc halted, m.goTo jump = .ok { m with pc, halted } ∧
        m'.goTo jump = .ok { m' with pc, halted } := by
  rcases jump with _ | l
  · refine .inr ⟨m.pc + 1, _, rfl, ?_⟩
    rw [goTo, hprogram, hpc]
    rfl
  · cases l with
    | exit =>
      refine .inr ⟨m.pc, true, rfl, ?_⟩
      rw [goTo, ← hpc]
      rfl
    | numbered n =>
      simp only [goTo, hprogram]
      cases m.program.indexOf (some (.numbered n)) with
      | error cause => exact .inl ⟨cause, rfl, rfl⟩
      | ok k =>
        refine .inr ⟨k, m.halted, rfl, ?_⟩
        rw [← hhalted]
        rfl

variable {m m' : Machine}

/-- A step whose outcome is known, from the place that it leads to. -/
theorem exists_log_of_outcome {evaluate : Evaluator} {i : Instruction}
    (hcurrent : m.current? = some i) {out : Outcome}
    (hout : i.operation.outcome (evaluate m.program.name m.store) m.store.get = .ok out) {pc : Nat}
    {halted : Bool} (hgoTo : (m.after out).goTo out.jump = .ok { m.after out with pc, halted })
    (hr : m.Recordable) :
    ∃ log, m.step evaluate = .ok (out.jump, { m.after out with pc, halted, log }) := by
  obtain ⟨hh, hi⟩ := current?_eq_some_iff.1 hcurrent
  let next : Machine := { m.after out with pc, halted }
  obtain ⟨log, hlog⟩ := exists_record_eq_ok (m := next) m.pc (out.effect m.store)
    ((recordable_iff hcurrent).1 hr)
  refine ⟨log, ?_⟩
  rw [step_of_current hh hi, hout, Bounded.ok_bind, hgoTo, Bounded.lift_ok, Bounded.ok_bind, hlog]
  rfl

/-- A step whose outcome is known fails if it cannot be recorded. -/
theorem step_eq_tooLong_of_outcome {evaluate : Evaluator} {i : Instruction}
    (hcurrent : m.current? = some i) {out : Outcome}
    (hout : i.operation.outcome (evaluate m.program.name m.store) m.store.get = .ok out) {pc : Nat}
    {halted : Bool} (hgoTo : (m.after out).goTo out.jump = .ok { m.after out with pc, halted })
    (hr : ¬ m.Recordable) : m.step evaluate = .error (.error (.numeral .tooLong)) := by
  obtain ⟨hh, hi⟩ := current?_eq_some_iff.1 hcurrent
  let next : Machine := { m.after out with pc, halted }
  rw [recordable_iff hcurrent, Classical.not_imp] at hr
  have hrecord : next.record m.pc i (out.effect m.store) = .error (.numeral .tooLong) :=
    record_eq_error_iff.2 ⟨hr.1, hr.2, rfl⟩
  rw [step_of_current hh hi, hout, Bounded.ok_bind, hgoTo, Bounded.lift_ok, Bounded.ok_bind,
    hrecord]
  rfl

/-- The same outcome and the same place make steps alike, whatever is recorded. -/
theorem stepsAlike_after {i : Instruction} (hi : m.current? = some i)
    {value : Call → Bounded (Nat × Nat)} {out : Outcome}
    (hout : i.operation.outcome value m.store.get = .ok out) (m' : Machine) (pc : Nat)
    (halted : Bool) (log log' : List TraceEntry) :
    StepsAlike m m' { m.after out with pc, halted, log }
      { m'.after out with pc, halted, log := log' } where
  program_eq := ⟨rfl, rfl⟩
  pc_eq := rfl
  halted_eq := rfl
  cycles_eq := ⟨out.cycles, rfl, rfl⟩
  steps_eq := ⟨1, rfl, rfl⟩
  written v hv := by
    rw [written?, hi, Option.bind_some, ← Operation.write_of_outcome hout] at hv
    obtain ⟨n, hn⟩ := Outcome.find?_effect_of_written hv
    exact ⟨n, hn m.store, hn m'.store⟩
  kept v hv := by
    rw [written?, hi, Option.bind_some, ← Operation.write_of_outcome hout] at hv
    exact ⟨Outcome.find?_effect_of_not_written hv _, Outcome.find?_effect_of_not_written hv _⟩

/-- A machine that has halted stays as it is. -/
theorem stepsAlike_of_halted (h : m.Alike m') (hh : m.halted = true) : StepsAlike m m' m m' where
  program_eq := ⟨rfl, rfl⟩
  pc_eq := h.pc_eq
  halted_eq := h.halted_eq
  cycles_eq := ⟨0, rfl, rfl⟩
  steps_eq := ⟨0, rfl, rfl⟩
  written v hv := by
    rw [written?, current?, hh] at hv
    cases hv
  kept _ _ := ⟨rfl, rfl⟩

/-- Two machines with the same next instruction step alike, if it has the same outcome. -/
theorem Alike.step_of_current (h : m.Alike m') {evaluate : Evaluator} {i : Instruction}
    (hh : m.halted = false) (hi : m.program.code[m.pc]? = some i)
    (hsame : i.operation.outcome (evaluate m'.program.name m'.store) m'.store.get =
      i.operation.outcome (evaluate m.program.name m.store) m.store.get) :
    (∃ stop, m.step evaluate = .error stop ∧ m'.step evaluate = .error stop) ∨
      ∃ jump next next', m.step evaluate = .ok (jump, next) ∧
        m'.step evaluate = .ok (jump, next') ∧ StepsAlike m m' next next' := by
  have hh' : m'.halted = false := h.halted_eq.trans hh
  have hi' : m'.program.code[m'.pc]? = some i := by
    rw [h.program_eq, h.pc_eq, hi]
  rcases hout : i.operation.outcome (evaluate m.program.name m.store) m.store.get with stop | out
  · rw [hout] at hsame
    refine .inl ⟨stop, ?_, ?_⟩
    · rw [Machine.step_of_current hh hi, hout]
      rfl
    · rw [Machine.step_of_current hh' hi', hsame]
      rfl
  · rw [hout] at hsame
    rcases goTo_congr (m.after out) (m'.after out) h.program_eq h.pc_eq h.halted_eq out.jump with
      ⟨cause, hgoTo, hgoTo'⟩ | ⟨pc, halted, hgoTo, hgoTo'⟩
    · refine .inl ⟨.error cause, ?_, ?_⟩
      · rw [Machine.step_of_current hh hi, hout, Bounded.ok_bind, hgoTo]
        rfl
      · rw [Machine.step_of_current hh' hi', hsame, Bounded.ok_bind, hgoTo']
        rfl
    · have hcurrent := current?_eq_some_iff.2 ⟨hh, hi⟩
      have hcurrent' := current?_eq_some_iff.2 ⟨hh', hi'⟩
      by_cases hr : m.Recordable
      · obtain ⟨log, hstep⟩ := exists_log_of_outcome hcurrent hout hgoTo hr
        obtain ⟨log', hstep'⟩ :=
          exists_log_of_outcome hcurrent' hsame hgoTo' (h.recordable_iff.2 hr)
        exact .inr ⟨out.jump, _, _, hstep, hstep',
          stepsAlike_after hcurrent hout m' pc halted log log'⟩
      · exact .inl ⟨_, step_eq_tooLong_of_outcome hcurrent hout hgoTo hr,
          step_eq_tooLong_of_outcome hcurrent' hsame hgoTo' (mt h.recordable_iff.1 hr)⟩

/-- Two machines at the same place whose next instructions have the same outcome step alike. -/
theorem Alike.step (h : m.Alike m') {evaluate : Evaluator}
    (houtcome : ∀ i, m.current? = some i →
      i.operation.outcome (evaluate m'.program.name m'.store) m'.store.get =
        i.operation.outcome (evaluate m.program.name m.store) m.store.get) :
    (∃ stop, m.step evaluate = .error stop ∧ m'.step evaluate = .error stop) ∨
      ∃ jump next next', m.step evaluate = .ok (jump, next) ∧
        m'.step evaluate = .ok (jump, next') ∧ StepsAlike m m' next next' := by
  rcases hh : m.halted with _ | _
  · rcases hi : m.program.code[m.pc]? with _ | i
    · -- There is no instruction at the place, and both steps fail with the same error.
      have hh' : m'.halted = false := h.halted_eq.trans hh
      have hi' : m'.program.code[m'.pc]? = none := by
        rw [h.program_eq, h.pc_eq, hi]
      refine .inl ⟨_, step_of_nowhere hh hi, ?_⟩
      rw [step_of_nowhere hh' hi', h.program_eq, h.pc_eq]
    · exact h.step_of_current hh hi (houtcome i (current?_eq_some_iff.2 ⟨hh, hi⟩))
  · exact .inr ⟨some .exit, m, m', step_of_halted hh, step_of_halted (h.halted_eq.trans hh),
      stepsAlike_of_halted h hh⟩

end Machine

/-! ### Started runs -/

namespace Library

section Starts

variable {lib : Library} {run : Runner} {caller : String} {store store' : Store}

theorem argumentValue_of_agree {function : String} {a : Argument}
    (h : ∀ v ∈ Argument.vars [a], store'.get v = store.get v) :
    lib.argumentValue run caller store' function a =
      lib.argumentValue run caller store function a := by
  have hagree : AgreeUnder (fun _ => none) store.get store'.get (Argument.vars [a]) := h
  have hrename := valueBy_rename Skip.nothing lib run caller function a hagree
  rwa [Argument.rename_none, valueBy_nothing, valueBy_nothing] at hrename

theorem argumentValues_of_agree {function : String} {n : Nat} {as : List Argument}
    (h : ∀ v ∈ Argument.vars as, store'.get v = store.get v) :
    lib.argumentValues run caller store' function n as =
      lib.argumentValues run caller store function n as := by
  induction n generalizing as with
  | zero => rw [argumentValues, argumentValues]
  | succ n ih =>
    cases as with
    | nil => rw [argumentValues, argumentValues]
    | cons a as =>
      rw [argumentValues, argumentValues,
        argumentValue_of_agree fun v hv => h v (Argument.mem_vars_cons.2 (.inl hv)),
        ih fun v hv => h v (Argument.mem_vars_cons.2 (.inr hv))]

theorem callValue_of_agree {call : Call}
    (h : ∀ v ∈ Argument.vars call.arguments, store'.get v = store.get v) :
    lib.callValue run caller store' call = lib.callValue run caller store call := by
  rw [← callBy_nothing, ← callBy_nothing]
  have hnatural : Meaning.Natural (callBy Skip.nothing lib run caller) := fun h =>
    callBy_rename Skip.nothing lib run caller h
  exact hnatural.congr h

mutual

theorem argumentStarts_of_agree {function : String} : ∀ {a : Argument} {q : Program}
    {values : List Nat}, ArgumentStarts lib run caller store function a q values →
    (∀ v ∈ Argument.vars [a], store'.get v = store.get v) →
    ArgumentStarts lib run caller store' function a q values
  | _, _, _, .name hname hfind => fun _ => .name hname hfind
  | _, _, _, .call hstarts => fun h =>
    .call (callStarts_of_agree hstarts fun v hv => h v (Argument.mem_vars_call.2 hv))

/-- The arguments before the one that starts the run keep their values. -/
theorem argumentsStart_of_agree {function : String} : ∀ {n : Nat} {as : List Argument} {q : Program}
    {values : List Nat}, ArgumentsStart lib run caller store function n as q values →
    (∀ v ∈ Argument.vars as, store'.get v = store.get v) →
    ArgumentsStart lib run caller store' function n as q values
  | _, _ :: _, _, _, .here hstarts => fun h =>
    .here (argumentStarts_of_agree hstarts fun v hv => h v (Argument.mem_vars_cons.2 (.inl hv)))
  | _, _ :: _, _, _, .later hvalue hstarts => fun h =>
    .later
      ((argumentValue_of_agree fun v hv => h v (Argument.mem_vars_cons.2 (.inl hv))).trans hvalue)
      (argumentsStart_of_agree hstarts fun v hv => h v (Argument.mem_vars_cons.2 (.inr hv)))

theorem callStarts_of_agree : ∀ {call : Call} {q : Program} {values : List Nat},
    CallStarts lib run caller store call q values →
    (∀ v ∈ Argument.vars call.arguments, store'.get v = store.get v) →
    CallStarts lib run caller store' call q values
  | _, _, _, .arguments hfind hstarts => fun h =>
    .arguments hfind (argumentsStart_of_agree hstarts h)
  | _, _, _, .callee hfind hvalues => fun h =>
    .callee hfind ((argumentValues_of_agree h).trans hvalues)

end

/-- The evaluation of a call starts the same runs in all stores that agree on the variables of its
arguments. -/
theorem callStarts_congr {call : Call} {q : Program} {values : List Nat}
    (h : ∀ v ∈ Argument.vars call.arguments, store'.get v = store.get v) :
    CallStarts lib run caller store' call q values ↔
      CallStarts lib run caller store call q values :=
  ⟨fun hstarts => callStarts_of_agree hstarts fun v hv => (h v hv).symm,
    fun hstarts => callStarts_of_agree hstarts h⟩

end Starts

/-! ### The footprint of a step -/

/-- Two machines that differ outside of the variables of the next instruction only step alike: both
steps fail, with the same error, or both succeed with the same label to go on at. For a call even
less has a say: in any store that has the same values of the variables in its arguments, its
evaluation has the same value and cost, or error, and it starts the same programs on the same
inputs. -/
theorem step_footprint (lib : Library) (fuel : Nat) {m m' : Machine} (h : m.Alike m') :
    ((∃ stop, m.step (lib.evaluator fuel) = .error stop ∧
        m'.step (lib.evaluator fuel) = .error stop) ∨
      ∃ jump next next', m.step (lib.evaluator fuel) = .ok (jump, next) ∧
        m'.step (lib.evaluator fuel) = .ok (jump, next') ∧ m.StepsAlike m' next next') ∧
    ∀ i call, m.current? = some i → i.operation.call? = some call →
      ∀ store : Store, (∀ v ∈ i.callVariables, store.get v = m.store.get v) →
        lib.evaluator fuel m.program.name store call =
          lib.evaluator fuel m.program.name m.store call ∧
        ∀ q values, CallStarts lib (lib.runner fuel) m.program.name store call q values ↔
          CallStarts lib (lib.runner fuel) m.program.name m.store call q values := by
  refine ⟨h.step fun i hi => ?_, fun i call _ hcall store hstore => ?_⟩
  · rw [h.program_eq]
    exact outcome_of_agree m.program.name fuel (h.values_eq i hi)
  · have hcallVariables : i.callVariables = Argument.vars call.arguments := by
      rw [Instruction.callVariables, Instruction.arguments, hcall]
    rw [hcallVariables] at hstore
    exact ⟨callValue_of_agree hstore, fun q values => callStarts_congr hstore⟩

/-- The call of a program on the value of a variable. -/
def echoInput : Instruction :=
  .plain none (.quotation .result ⟨"ECHO", [.name (Variable.input 0).name]⟩)

/-- A program with the call. -/
def echoInputCaller : Program where
  name := "MAIN"
  code := [echoInput]
  nodup_labels := by decide

/-- A variable that a call does not name, and what the machine has counted, are of no consequence
for the call. -/
theorem echoInput_step_footprint :
    ∃ m m' : Machine, m.current? = some echoInput ∧ m.store.find? (.work 0) = none ∧
      m'.store.find? (.work 0) = some 8 ∧ m.Alike m' ∧
      ∃ jump next next', m.step (echoLibrary.evaluator 3) = .ok (jump, next) ∧
        m'.step (echoLibrary.evaluator 3) = .ok (jump, next') ∧
        next.store.find? .result = some 5 ∧ next'.store.find? .result = some 5 ∧
        next'.store.find? (.work 0) = some 8 := by
  let m : Machine := .initial echoInputCaller [5] false
  let m' : Machine := { m with store := m.store.set (.work 0) 8, cycles := 100 }
  have hcurrent : m.current? = some echoInput := rfl
  have halike : m.Alike m' := by
    refine ⟨rfl, rfl, rfl, Iff.rfl, fun i hi v hv => ?_⟩
    obtain rfl := Option.some.inj (hcurrent.symm.trans hi)
    have hne : v ≠ .work 0 := by
      rintro rfl
      simp [echoInput, Instruction.mem_referencedVariables_plain, Operation.Mentions,
        Operation.subject?, Operation.source?, Operation.call?, Argument.mem_vars_name] at hv
    rw [Store.get_set]
    exact Function.update_of_ne hne _ _
  obtain ⟨next, hstep, hresult⟩ : ∃ next, m.step (echoLibrary.evaluator 3) = .ok (none, next) ∧
      next.store.find? .result = some 5 := ⟨_, rfl, rfl⟩
  obtain ⟨⟨stop, hstop, -⟩ | ⟨jump, next₁, next', hstep₁, hstep', hsteps⟩, -⟩ :=
    step_footprint echoLibrary 3 halike
  · rw [hstep] at hstop
    cases hstop
  · obtain ⟨rfl, rfl⟩ := Prod.mk.inj (Except.ok.inj (hstep.symm.trans hstep₁))
    obtain ⟨n, hn, hn'⟩ := hsteps.written .result rfl
    obtain rfl := Option.some.inj (hresult.symm.trans hn)
    have hwork : m.written? ≠ some (.work 0) := nofun
    exact ⟨m, m', hcurrent, rfl, rfl, halike, none, next, next', hstep, hstep', hn, hn',
      (hsteps.kept _ hwork).2⟩

end Library

end RegisterMachine
