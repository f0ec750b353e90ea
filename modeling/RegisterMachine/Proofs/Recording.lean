import RegisterMachine.Proofs.CountedSteps
import RegisterMachine.Proofs.Word

/-!
# Steps that cannot be recorded

A step is written down last of all. Where its statement has a number that is too long for it, the
step fails although it was taken, and the machine is left behind the instruction. Apart from that a
machine does the same whether its steps are recorded or not: without its records, it is the machine
whose steps were not recorded.

* `Machine.Recordable` — the next step can be recorded, if it has to be;
* `Machine.PerformsAs` — all that can happen at a step;
* `Machine.untraced`, `Machine.step_untraced` — a machine without its records, whose steps do the
  same, and fail in one way less;
* `Library.Performs` — a machine executes a number of instructions, recorded or not;
* `Library.Executes` — a machine comes to an instruction and executes it;
* `Library.finish_untraced`, `Library.exists_finish_eq_tooLong` — a run ends the same with and
  without its records if all that it executes can be recorded, and fails otherwise.
-/

namespace RegisterMachine

/-- A run without its trace. -/
def RunResult.untraced (r : RunResult) : RunResult :=
  { r with trace := [] }

namespace Machine

variable {m m' left next : Machine} {evaluate : Evaluator} {outcome : Bounded (Option Label)}

/-! ### Recording -/

/-- The next step can be recorded, if it has to be: the numbers in its statement are not too
long. -/
def Recordable (m : Machine) : Prop :=
  m.traced = true → ∀ i ∈ m.current?, i.operation.Writable

instance (m : Machine) : Decidable m.Recordable :=
  inferInstanceAs (Decidable (m.traced = true → ∀ i ∈ m.current?, i.operation.Writable))

theorem recordable_iff {i : Instruction} (h : m.current? = some i) :
    m.Recordable ↔ (m.traced = true → i.operation.Writable) := by
  rw [Recordable, h]
  simp

theorem recordable_of_not_traced (h : m.traced = false) : m.Recordable := by
  rw [Recordable, h]
  exact nofun

/-- What can be written is recorded. -/
theorem exists_record_eq_ok (pc : Nat) {i : Instruction} (effect : Effect)
    (h : m.traced = true → i.operation.Writable) :
    ∃ log, m.record pc i effect = .ok { m with log } := by
  by_cases ht : m.traced = true
  · have htext : i.operation.write = .ok i.operation.text := showing_eq_ok_iff.2 ⟨h ht, rfl⟩
    rw [record, if_pos ht, htext]
    exact ⟨_, rfl⟩
  · rw [record, if_neg ht]
    exact ⟨m.log, rfl⟩

/-- There is no other reason for a record to fail. -/
theorem record_eq_error_iff {pc : Nat} {i : Instruction} {effect : Effect} {cause : Error} :
    m.record pc i effect = .error cause ↔
      m.traced = true ∧ ¬ i.operation.Writable ∧ cause = .numeral .tooLong := by
  rw [record]
  split
  · rename_i ht
    rw [Bounded.bind_pure_eq_error, Operation.write, showing_eq_error_iff, and_iff_right ht]
    rfl
  · rename_i ht
    refine ⟨fun h => ?_, fun h => absurd h.1 ht⟩
    cases h

/-! ### All that can happen -/

/-- All that can happen at a step: the machine that it leaves, and what comes of it. -/
inductive PerformsAs (evaluate : Evaluator) (m : Machine) :
    Machine → Bounded (Option Label) → Prop
  | halted (halted : m.halted = true) : PerformsAs evaluate m m (.ok (some .exit))
  | nowhere (not_halted : m.halted = false) (code_eq : m.program.code[m.pc]? = none) :
      PerformsAs evaluate m m (.error (.error (.programCounter m.pc m.program.name)))
  | stops {i : Instruction} {stop : Stop} (current_eq : m.current? = some i)
      (execute_eq : i.operation.execute (evaluate m.program.name m.store) m.store = .error stop) :
      PerformsAs evaluate m m (.error stop)
  | strays {i : Instruction} {effect : Effect} {cause : Error} (current_eq : m.current? = some i)
      (execute_eq : i.operation.execute (evaluate m.program.name m.store) m.store = .ok effect)
      (goTo_eq : (m.affect effect).goTo effect.jump = .error cause) :
      PerformsAs evaluate m (m.affect effect) (.error (.error cause))
  | unrecorded {i : Instruction} {effect : Effect} {next : Machine}
      (current_eq : m.current? = some i)
      (execute_eq : i.operation.execute (evaluate m.program.name m.store) m.store = .ok effect)
      (goTo_eq : (m.affect effect).goTo effect.jump = .ok next) (not_recordable : ¬ m.Recordable) :
      PerformsAs evaluate m next (.error (.error (.numeral .tooLong)))
  | step {i : Instruction} {effect : Effect} {next recorded : Machine}
      (current_eq : m.current? = some i)
      (execute_eq : i.operation.execute (evaluate m.program.name m.store) m.store = .ok effect)
      (goTo_eq : (m.affect effect).goTo effect.jump = .ok next) (recordable : m.Recordable)
      (record_eq : next.record m.pc i effect = .ok recorded) :
      PerformsAs evaluate m recorded (.ok effect.jump)

theorem traced_of_goTo {effect : Effect} (h : (m.affect effect).goTo effect.jump = .ok next) :
    next.traced = m.traced := by
  obtain ⟨pc, halted, rfl⟩ := frame_goTo h
  rfl

theorem performsAs_perform (m : Machine) (evaluate : Evaluator) :
    PerformsAs evaluate m (m.perform evaluate).1 (m.perform evaluate).2 := by
  rw [perform]
  cases hh : m.halted with
  | true => exact .halted hh
  | false =>
    rw [if_neg Bool.false_ne_true]
    split
    · rename_i hi
      exact .nowhere hh hi
    · rename_i i hi
      have hcurrent := current?_eq_some_iff.2 ⟨hh, hi⟩
      split
      · rename_i hexecute
        exact .stops hcurrent hexecute
      · rename_i effect hexecute
        split
        · rename_i hgoTo
          exact .strays hcurrent hexecute hgoTo
        · rename_i next hgoTo
          have hiff := recordable_iff hcurrent
          rw [← traced_of_goTo hgoTo] at hiff
          split
          · rename_i hrecord
            obtain ⟨ht, hw, rfl⟩ := record_eq_error_iff.1 hrecord
            exact .unrecorded hcurrent hexecute hgoTo fun hr => hw (hiff.1 hr ht)
          · rename_i hrecord
            refine .step hcurrent hexecute hgoTo (hiff.2 fun ht => ?_) hrecord
            by_contra hw
            rw [record_eq_error_iff.2 ⟨ht, hw, rfl⟩] at hrecord
            cases hrecord

theorem PerformsAs.perform_eq (h : PerformsAs evaluate m left outcome) :
    m.perform evaluate = (left, outcome) := by
  cases h with
  | halted halted => rw [perform, if_pos halted]
  | nowhere not_halted code_eq => rw [perform, if_neg (Bool.eq_false_iff.1 not_halted), code_eq]
  | stops current_eq execute_eq =>
    obtain ⟨hh, hi⟩ := current?_eq_some_iff.1 current_eq
    simp only [perform, hh, hi, execute_eq, Bool.false_eq_true, if_false]
  | strays current_eq execute_eq goTo_eq =>
    obtain ⟨hh, hi⟩ := current?_eq_some_iff.1 current_eq
    simp only [perform, hh, hi, execute_eq, goTo_eq, Bool.false_eq_true, if_false]
  | unrecorded current_eq execute_eq goTo_eq not_recordable =>
    obtain ⟨hh, hi⟩ := current?_eq_some_iff.1 current_eq
    rw [recordable_iff current_eq, ← traced_of_goTo goTo_eq, Classical.not_imp] at not_recordable
    simp only [perform, hh, hi, execute_eq, goTo_eq, Bool.false_eq_true, if_false,
      record_eq_error_iff.2 ⟨not_recordable.1, not_recordable.2, rfl⟩]
  | step current_eq execute_eq goTo_eq recordable record_eq =>
    obtain ⟨hh, hi⟩ := current?_eq_some_iff.1 current_eq
    simp only [perform, hh, hi, execute_eq, goTo_eq, record_eq, Bool.false_eq_true, if_false]

/-- In a program that passes its check, an instruction that was executed has somewhere to go on. -/
theorem exists_goTo_of_execute (hvalid : m.program.validate = .ok ()) {i : Instruction}
    {effect : Effect} (hcurrent : m.current? = some i)
    (hexecute : i.operation.execute (evaluate m.program.name m.store) m.store = .ok effect) :
    ∃ next, (m.affect effect).goTo effect.jump = .ok next := by
  rw [Operation.execute_eq_outcome] at hexecute
  obtain ⟨out, hout, heffect⟩ := Bounded.bind_eq_ok.1 hexecute
  obtain rfl := Except.ok.inj heffect
  have hi := (current?_eq_some_iff.1 hcurrent).2
  obtain ⟨next, hnext⟩ := Program.exists_goOn hvalid (List.mem_of_getElem? hi) hout (m.pc + 1)
  rw [affect_effect, Outcome.effect_jump]
  exact exists_goTo (m := m.after out) hnext

/-! ### Without a record -/

/-- The machine, if its steps had not been recorded. -/
def untraced (m : Machine) : Machine :=
  { m with traced := false, log := [] }

/-- Where a machine goes on does not depend on its records. -/
theorem goTo_untraced (m : Machine) (jump : Option Label) :
    m.untraced.goTo jump = untraced <$> m.goTo jump := by
  rcases jump with _ | l
  · rfl
  · cases l with
    | exit => rfl
    | numbered n =>
      simp only [goTo]
      have hprogram : m.untraced.program = m.program := rfl
      rw [hprogram]
      cases m.program.indexOf (some (.numbered n)) <;> rfl

theorem goTo_untraced_eq_ok {effect : Effect}
    (h : (m.affect effect).goTo effect.jump = .ok next) :
    (m.untraced.affect effect).goTo effect.jump = .ok next.untraced := by
  refine (goTo_untraced (m.affect effect) effect.jump).trans ?_
  rw [h]
  rfl

/-- Where a step is not recorded, the machine after it is the one that went on. -/
theorem perform_untraced_of_goTo {i : Instruction} {effect : Effect}
    (hcurrent : m.current? = some i)
    (hexecute : i.operation.execute (evaluate m.program.name m.store) m.store = .ok effect)
    (hgoTo : (m.affect effect).goTo effect.jump = .ok next) :
    m.untraced.perform evaluate = (next.untraced, .ok effect.jump) := by
  have hu : m.untraced.current? = some i := hcurrent
  exact (PerformsAs.step hu hexecute (goTo_untraced_eq_ok hgoTo) (recordable_of_not_traced rfl)
    (record_of_not_traced rfl m.pc i effect)).perform_eq

/-- A step that was taken leaves the machine that went on, with or without one more record. -/
theorem exists_perform_eq {i : Instruction} {effect : Effect} (hcurrent : m.current? = some i)
    (hexecute : i.operation.execute (evaluate m.program.name m.store) m.store = .ok effect)
    (hgoTo : (m.affect effect).goTo effect.jump = .ok next) :
    ∃ log, (m.perform evaluate).1 = { next with log } := by
  by_cases h : m.Recordable
  · have hwritable := (recordable_iff hcurrent).1 h
    rw [← traced_of_goTo hgoTo] at hwritable
    obtain ⟨log, hrecord⟩ := exists_record_eq_ok m.pc effect hwritable
    rw [(PerformsAs.step hcurrent hexecute hgoTo h hrecord).perform_eq]
    exact ⟨log, rfl⟩
  · rw [(PerformsAs.unrecorded hcurrent hexecute hgoTo h).perform_eq]
    exact ⟨next.log, rfl⟩

/-- What becomes of a step once it has been taken: it fails if it cannot be recorded. -/
def recorded (m : Machine) (jump : Option Label) : Bounded (Option Label) :=
  if m.Recordable then .ok jump else .error (.error (.numeral .tooLong))

/-- A step leaves the same machine, records apart, whether it is recorded or not; and it comes to
the same, but for steps that are taken and cannot be recorded. -/
theorem perform_untraced (m : Machine) (evaluate : Evaluator) :
    (m.untraced.perform evaluate).1 = (m.perform evaluate).1.untraced ∧
      (m.perform evaluate).2 = (m.untraced.perform evaluate).2 >>= m.recorded := by
  have h := m.performsAs_perform evaluate
  generalize (m.perform evaluate).1 = left at h ⊢
  generalize (m.perform evaluate).2 = outcome at h ⊢
  cases h with
  | halted halted =>
    have hrecordable : m.Recordable := by
      rw [Recordable, current?, if_pos halted]
      rintro - i ⟨⟩
    rw [(PerformsAs.halted (m := m.untraced) halted).perform_eq, Bounded.ok_bind, recorded,
      if_pos hrecordable]
    exact ⟨rfl, rfl⟩
  | nowhere not_halted code_eq =>
    rw [(PerformsAs.nowhere (m := m.untraced) not_halted code_eq).perform_eq]
    exact ⟨rfl, rfl⟩
  | stops current_eq execute_eq =>
    rw [(PerformsAs.stops (m := m.untraced) current_eq execute_eq).perform_eq]
    exact ⟨rfl, rfl⟩
  | @strays i effect cause current_eq execute_eq goTo_eq =>
    have hgoTo : (m.untraced.affect effect).goTo effect.jump = .error cause := by
      refine (goTo_untraced (m.affect effect) effect.jump).trans ?_
      rw [goTo_eq]
      rfl
    rw [(PerformsAs.strays (m := m.untraced) current_eq execute_eq hgoTo).perform_eq]
    exact ⟨rfl, rfl⟩
  | unrecorded current_eq execute_eq goTo_eq not_recordable =>
    rw [perform_untraced_of_goTo current_eq execute_eq goTo_eq, Bounded.ok_bind, recorded,
      if_neg not_recordable]
    exact ⟨rfl, rfl⟩
  | step current_eq execute_eq goTo_eq recordable record_eq =>
    obtain ⟨log, rfl⟩ := frame_record record_eq
    rw [perform_untraced_of_goTo current_eq execute_eq goTo_eq, Bounded.ok_bind, recorded,
      if_pos recordable]
    exact ⟨rfl, rfl⟩

theorem step_eq_perform (m : Machine) (evaluate : Evaluator) :
    m.step evaluate = (fun jump => (jump, (m.perform evaluate).1)) <$> (m.perform evaluate).2 := by
  rw [step]
  cases (m.perform evaluate).2 <;> rfl

/-- A step that succeeds leaves the machine after it. -/
theorem perform_of_step {jump : Option Label} (h : m.step evaluate = .ok (jump, m')) :
    (m.perform evaluate).1 = m' := by
  rw [step_eq_perform] at h
  obtain ⟨jump', -, hm'⟩ := Bounded.map_eq_ok.1 h
  exact (Prod.mk.inj hm').2

/-- A step that succeeds has somewhere to go on. -/
theorem exists_goTo_of_step {i : Instruction} {effect : Effect} {r : Option Label × Machine}
    (hcurrent : m.current? = some i)
    (hexecute : i.operation.execute (evaluate m.program.name m.store) m.store = .ok effect)
    (h : m.step evaluate = .ok r) : ∃ next, (m.affect effect).goTo effect.jump = .ok next := by
  obtain ⟨hh, hi⟩ := current?_eq_some_iff.1 hcurrent
  rw [step_of_not_halted hh hi, hexecute, Bounded.ok_bind] at h
  obtain ⟨next, hgoTo, -⟩ := Bounded.bind_eq_ok.1 h
  exact ⟨next, Bounded.lift_eq_ok.1 hgoTo⟩

/-- A step that can be recorded does the same to a machine without its records. -/
theorem step_untraced (evaluate : Evaluator) (h : m.Recordable) :
    m.untraced.step evaluate = (fun r => (r.1, r.2.untraced)) <$> m.step evaluate := by
  obtain ⟨hleft, houtcome⟩ := m.perform_untraced evaluate
  rw [step_eq_perform, step_eq_perform, hleft, houtcome]
  cases (m.untraced.perform evaluate).2 with
  | error stop => rfl
  | ok jump =>
    rw [Bounded.ok_bind, recorded, if_pos h]
    rfl

/-- A step that fails without its record fails. -/
theorem step_of_untraced_eq_error {stop : Stop} (h : m.untraced.step evaluate = .error stop) :
    m.step evaluate = .error stop := by
  rw [step_eq_perform, Bounded.map_eq_error] at h
  rw [step_eq_perform, (m.perform_untraced evaluate).2, h]
  rfl

/-- A step that a machine without its records makes fails if it cannot be recorded. -/
theorem step_of_not_recordable {jump : Option Label} (h : ¬ m.Recordable)
    (hstep : m.untraced.step evaluate = .ok (jump, m')) :
    m.step evaluate = .error (.error (.numeral .tooLong)) ∧
      (m.perform evaluate).1.untraced = m' := by
  obtain ⟨hleft, houtcome⟩ := m.perform_untraced evaluate
  rw [step_eq_perform] at hstep
  obtain ⟨jump', hjump, hm'⟩ := Bounded.map_eq_ok.1 hstep
  obtain ⟨-, rfl⟩ := Prod.mk.inj hm'
  refine ⟨?_, hleft.symm⟩
  rw [step_eq_perform, houtcome, hjump, Bounded.ok_bind, recorded, if_neg h]
  rfl

end Machine

namespace Library

variable {lib : Library} {m₀ m m' : Machine} {costs : List Nat} {k k' fuel : Nat} {i : Instruction}

/-! ### Executed instructions -/

/-- A machine executes so many instructions, one after another, and is left as another one. Each of
the steps was taken, whether it could be recorded or not. -/
inductive Performs (lib : Library) (m₀ : Machine) : Nat → Machine → Prop
  | none : Performs lib m₀ 0 m₀
  | step {k fuel : Nat} {m next : Machine} {i : Instruction} {effect : Effect}
      (before : Performs lib m₀ k m) (current_eq : m.current? = some i)
      (execute_eq : i.operation.execute (lib.evaluator fuel m.program.name m.store) m.store =
        .ok effect)
      (goTo_eq : (m.affect effect).goTo effect.jump = .ok next) :
      Performs lib m₀ (k + 1) (m.perform (lib.evaluator fuel)).1

/-- A machine comes to an instruction and executes it. -/
def Executes (lib : Library) (m : Machine) (i : Instruction) : Prop :=
  ∃ m' fuel r, lib.Reaches m m' ∧ m'.current? = some i ∧ m'.step (lib.evaluator fuel) = .ok r

/-- The machine that an executed instruction leaves. -/
theorem Performs.untraced_perform {next : Machine} {effect : Effect} {evaluate : Evaluator}
    (current_eq : m.current? = some i)
    (execute_eq : i.operation.execute (evaluate m.program.name m.store) m.store = .ok effect)
    (goTo_eq : (m.affect effect).goTo effect.jump = .ok next) :
    m.untraced.step evaluate = .ok (effect.jump, (m.perform evaluate).1.untraced) := by
  rw [Machine.step_eq_perform, ← (m.perform_untraced evaluate).1,
    Machine.perform_untraced_of_goTo current_eq execute_eq goTo_eq]
  rfl

/-- Executed instructions are steps of the machine without its records. -/
theorem Performs.untraced (h : lib.Performs m₀ k m) :
    ∃ costs, lib.Takes m₀.untraced costs m.untraced ∧ costs.length = k := by
  induction h with
  | none => exact ⟨[], .none, rfl⟩
  | @step k fuel m next i effect _ current_eq execute_eq goTo_eq ih =>
    obtain ⟨costs, htakes, rfl⟩ := ih
    have hstep := untraced_perform current_eq execute_eq goTo_eq
    exact ⟨_, .step htakes current_eq execute_eq hstep, List.length_append⟩

/-- What executing instructions leaves alone, and the count of the steps. -/
theorem Performs.frame (h : lib.Performs m₀ k m) :
    m.program = m₀.program ∧ m.traced = m₀.traced ∧ m.steps = m₀.steps + k := by
  induction h with
  | none => exact ⟨rfl, rfl, rfl⟩
  | step _ current_eq execute_eq goTo_eq ih =>
    obtain ⟨hprogram, htraced, hsteps⟩ := ih
    obtain ⟨log, hleft⟩ := Machine.exists_perform_eq current_eq execute_eq goTo_eq
    obtain ⟨pc, halted, rfl⟩ := Machine.frame_goTo goTo_eq
    rw [hleft]
    exact ⟨hprogram, htraced, congrArg Nat.succ hsteps⟩

/-- Executing instructions leads from instruction to instruction. -/
theorem Performs.sound (h : lib.Performs m₀ k m) (hm₀ : m₀.Sound) :
    m.program = m₀.program ∧ m.Sound := by
  obtain ⟨costs, htakes, -⟩ := h.untraced
  have huntraced : m₀.untraced.Sound := hm₀
  obtain ⟨hprogram, hsound, -⟩ := path_of_reaches htakes.reaches huntraced
  exact ⟨hprogram, hsound⟩

/-- Steps that succeed are executed instructions. -/
theorem Takes.performs (h : lib.Takes m₀ costs m) : lib.Performs m₀ costs.length m := by
  induction h with
  | none => exact .none
  | @step costs m m' i fuel effect _ current_eq execute_eq step_eq ih =>
    obtain ⟨next, goTo_eq⟩ := Machine.exists_goTo_of_step current_eq execute_eq step_eq
    rw [List.length_append, ← Machine.perform_of_step step_eq]
    exact .step ih current_eq execute_eq goTo_eq

/-- Steps of the machine without its records are executed instructions. -/
theorem exists_performs_of_takes {u : Machine} (h : lib.Takes m₀.untraced costs u) :
    ∃ m, lib.Performs m₀ costs.length m ∧ m.untraced = u := by
  induction h with
  | none => exact ⟨m₀, .none, rfl⟩
  | @step costs u u' i fuel effect htakes current_eq execute_eq step_eq ih =>
    obtain ⟨m, hperforms, rfl⟩ := ih
    obtain ⟨u', goTo_eq⟩ := Machine.exists_goTo_of_step current_eq execute_eq step_eq
    have hgoTo := Machine.goTo_untraced (m.affect effect) effect.jump
    rw [show (m.affect effect).untraced = m.untraced.affect effect from rfl, goTo_eq] at hgoTo
    obtain ⟨next, hnext, -⟩ := Bounded.map_eq_ok.1 hgoTo.symm
    rw [List.length_append]
    refine ⟨_, .step hperforms current_eq execute_eq hnext, ?_⟩
    rw [← (m.perform_untraced _).1]
    exact Machine.perform_of_step step_eq

/-- Where not all executed instructions are steps that succeed, there is a first one that could not
be recorded. -/
theorem Performs.takes (h : lib.Performs m₀ k m) :
    (∃ costs, lib.Takes m₀ costs m ∧ costs.length = k) ∨
      ∃ costs m' fuel, lib.Takes m₀ costs m' ∧ m'.halted = false ∧ ¬ m'.Recordable ∧
        m'.step (lib.evaluator fuel) = .error (.error (.numeral .tooLong)) := by
  induction h with
  | none => exact .inl ⟨[], .none, rfl⟩
  | @step k fuel m next i effect _ current_eq execute_eq goTo_eq ih =>
    rcases ih with ⟨costs, htakes, rfl⟩ | hfails
    · have hstep := untraced_perform current_eq execute_eq goTo_eq
      have hh := Machine.halted_of_current? current_eq
      by_cases hr : m.Recordable
      · rw [Machine.step_untraced _ hr] at hstep
        obtain ⟨⟨jump, m'⟩, hok, hr'⟩ := Bounded.map_eq_ok.1 hstep
        obtain ⟨rfl, -⟩ := Prod.mk.inj hr'
        rw [Machine.perform_of_step hok]
        exact .inl ⟨_, .step htakes current_eq execute_eq hok, List.length_append⟩
      · exact .inr ⟨costs, m, fuel, htakes, hh, hr, (Machine.step_of_not_recordable hr hstep).1⟩
    · exact .inr hfails

theorem Performs.trans (h : lib.Performs m₀ k m) (h' : lib.Performs m k' m') :
    lib.Performs m₀ (k + k') m' := by
  induction h' with
  | none => exact h
  | step _ current_eq execute_eq goTo_eq ih => exact .step ih current_eq execute_eq goTo_eq

/-- A machine that goes on until it halts executes an instruction. -/
theorem Performs.pos (h : lib.Performs m k m') (hh : m.halted = false) (hend : m'.halted = true) :
    0 < k := by
  cases h with
  | none =>
    rw [hh] at hend
    cases hend
  | step => exact Nat.succ_pos _

/-- In a program that passes its check, a step leaves the machine behind the instruction, also if it
cannot be recorded, or else as it was. -/
theorem performs_of_perform {left : Machine} {outcome : Bounded (Option Label)}
    (hvalid : m.program.validate = .ok ()) (hh : m.halted = false)
    (h : m.perform (lib.evaluator fuel) = (left, outcome)) :
    (∃ jump, outcome = .ok jump ∧ lib.Performs m 1 left) ∨
      (∃ stop, outcome = .error stop ∧ left = m) ∨
      outcome = .error (.error (.numeral .tooLong)) ∧ ¬ m.Recordable ∧ lib.Performs m 1 left := by
  have hleft : (m.perform (lib.evaluator fuel)).1 = left := congrArg Prod.fst h
  have houtcome : (m.perform (lib.evaluator fuel)).2 = outcome := congrArg Prod.snd h
  have hcases := m.performsAs_perform (lib.evaluator fuel)
  rw [hleft, houtcome] at hcases
  cases hcases with
  | halted halted =>
    rw [hh] at halted
    cases halted
  | nowhere | stops => exact .inr (.inl ⟨_, rfl, rfl⟩)
  | strays current_eq execute_eq goTo_eq =>
    obtain ⟨next, hnext⟩ := Machine.exists_goTo_of_execute hvalid current_eq execute_eq
    cases goTo_eq.symm.trans hnext
  | unrecorded current_eq execute_eq goTo_eq not_recordable =>
    have hperforms := Performs.step .none current_eq execute_eq goTo_eq
    rw [hleft] at hperforms
    exact .inr (.inr ⟨rfl, not_recordable, hperforms⟩)
  | step current_eq execute_eq goTo_eq recordable record_eq =>
    have hperforms := Performs.step .none current_eq execute_eq goTo_eq
    rw [hleft] at hperforms
    exact .inl ⟨_, rfl, hperforms⟩

/-- Where stepping a machine ends: it has halted, or it is where a step failed, or behind a step
that could not be recorded. -/
theorem exists_performs_of_advance {last : Machine} {stop? : Option Stop} {n : Nat}
    (hvalid : m.program.validate = .ok ()) (hm : m.Sound)
    (h : m.advance (lib.evaluator fuel) n = (last, stop?)) :
    ∃ k, lib.Performs m k last ∧ (stop? = none → last.halted = true) ∧
      ∀ cause, stop? = some (.error cause) →
        (last.halted = false ∧
          last.perform (lib.evaluator fuel) = (last, .error (.error cause))) ∨
        cause = .numeral .tooLong ∧
          ∃ k' m', k = k' + 1 ∧ lib.Performs m k' m' ∧ ¬ m'.Recordable := by
  induction n generalizing m with
  | zero =>
    obtain ⟨rfl, rfl⟩ := Prod.mk.inj h
    refine ⟨0, .none, fun hnone => ?_, fun cause hcause => ?_⟩
    · by_contra hh
      rw [if_neg hh] at hnone
      cases hnone
    · split at hcause <;> cases hcause
  | succ n ih =>
    rw [Machine.advance] at h
    cases hh : m.halted with
    | true =>
      rw [if_pos hh] at h
      obtain ⟨rfl, rfl⟩ := Prod.mk.inj h
      exact ⟨0, .none, fun _ => hh, fun cause hcause => by cases hcause⟩
    | false =>
      rw [if_neg (Bool.eq_false_iff.1 hh)] at h
      rcases hperform : m.perform (lib.evaluator fuel) with ⟨left, outcome⟩
      rw [hperform] at h
      rcases performs_of_perform hvalid hh hperform with
        ⟨jump, rfl, hone⟩ | ⟨stop, rfl, rfl⟩ | ⟨rfl, hr, hone⟩
      · obtain ⟨hprogram, hsound⟩ := hone.sound hm
        rw [← hprogram] at hvalid
        obtain ⟨k, hperforms, hend, hfail⟩ := ih hvalid hsound h
        refine ⟨1 + k, hone.trans hperforms, hend, fun cause hcause => ?_⟩
        refine (hfail cause hcause).imp_right ?_
        rintro ⟨hlong, k', m', rfl, hbefore, hr⟩
        exact ⟨hlong, 1 + k', m', rfl, hone.trans hbefore, hr⟩
      · obtain ⟨rfl, rfl⟩ := Prod.mk.inj h
        refine ⟨0, .none, fun hnone => absurd hnone (Option.some_ne_none _),
          fun cause hcause => .inl ⟨hh, ?_⟩⟩
        obtain rfl := Option.some.inj hcause
        exact hperform
      · obtain ⟨rfl, rfl⟩ := Prod.mk.inj h
        refine ⟨1, hone, fun hnone => absurd hnone (Option.some_ne_none _),
          fun cause hcause => .inr ?_⟩
        obtain rfl := Stop.error.inj (Option.some.inj hcause)
        exact ⟨rfl, 0, m, rfl, .none, hr⟩

/-- What is executed after a step is executed. -/
theorem Executes.head {r : Option Label × Machine} (hstep : m.step (lib.evaluator fuel) = .ok r)
    (h : lib.Executes r.2 i) : lib.Executes m i := by
  obtain ⟨m', fuel', r', hreach, hcurrent, hstep'⟩ := h
  exact ⟨m', fuel', r', .head ⟨fuel, r.1, hstep⟩ hreach, hcurrent, hstep'⟩

/-! ### Runs -/

/-- A machine all of whose steps can be recorded ends where it ends without its records. -/
theorem finish_untraced {n : Nat} (h : ∀ i, lib.Executes m.untraced i → i.operation.Writable) :
    m.untraced.finish (lib.evaluator fuel) n =
      Machine.untraced <$> m.finish (lib.evaluator fuel) n := by
  induction n generalizing m with
  | zero => cases hh : m.halted <;> simp [Machine.finish, Machine.advance, Machine.untraced, hh]
  | succ n ih =>
    cases hh : m.halted with
    | true =>
      have huntraced : m.untraced.halted = true := hh
      rw [Machine.finish_of_halted hh, Machine.finish_of_halted huntraced]
      rfl
    | false =>
      have huntraced : m.untraced.halted = false := hh
      rw [Machine.finish_succ hh, Machine.finish_succ huntraced]
      rcases hstep : m.untraced.step (lib.evaluator fuel) with stop | ⟨jump, u⟩
      · rw [Machine.step_of_untraced_eq_error hstep]
        rfl
      · have hr : m.Recordable := fun _ i hi => h i ⟨m.untraced, fuel, _, .refl, hi, hstep⟩
        have hsame := Machine.step_untraced (lib.evaluator fuel) hr
        rw [hstep] at hsame
        obtain ⟨r, hok, hu⟩ := Bounded.map_eq_ok.1 hsame.symm
        obtain ⟨rfl, rfl⟩ := Prod.mk.inj hu
        rw [hok]
        exact ih fun i hi => h i (hi.head hstep)

/-- A machine that executes an instruction that it cannot record comes to a step that fails for it.
-/
theorem exists_step_eq_tooLong (htraced : m.traced = true) (h : lib.Executes m.untraced i)
    (hw : ¬ i.operation.Writable) :
    ∃ k m' fuel, lib.Performs m k m' ∧ m'.halted = false ∧
      m'.step (lib.evaluator fuel) = .error (.error (.numeral .tooLong)) := by
  obtain ⟨u, fuel, r, hreach, hcurrent, hstep⟩ := h
  obtain ⟨costs, htakes⟩ := exists_takes_of_reaches hreach
  obtain ⟨m', hperforms, rfl⟩ := exists_performs_of_takes htakes
  have hnot : ¬ m'.Recordable := fun hr => hw (hr (hperforms.frame.2.1.trans htraced) i hcurrent)
  exact ⟨_, m', fuel, hperforms, Machine.halted_of_current? hcurrent,
    (Machine.step_of_not_recordable hnot hstep).1⟩

/-- A machine that executes an instruction that it cannot record fails at the first one. -/
theorem exists_finish_eq_tooLong (htraced : m.traced = true) (h : lib.Executes m.untraced i)
    (hw : ¬ i.operation.Writable) :
    ∃ fuel, m.finish (lib.evaluator fuel) fuel = .error (.error (.numeral .tooLong)) := by
  obtain ⟨k, m', fuel, hperforms, hh, hstep⟩ := exists_step_eq_tooLong htraced h hw
  rcases hperforms.takes with ⟨costs, htakes, -⟩ | ⟨costs, m'', fuel', htakes, hh', -, hstep'⟩
  · exact exists_finish_of_takes_error htakes hh hstep
  · exact exists_finish_of_takes_error htakes hh' hstep'

/-! ### The longest names -/

/-- The same program after one round. The fresh variable is the first one that cannot be written. -/
def brimmed : Program where
  name := "MAIN"
  code := [.plain none (.neutral (.work (10 ^ Text.maxDigits - 2))),
    .plain none (.increase (.work (10 ^ Text.maxDigits - 1))),
    .plain none (.jumpNotZero (.work (10 ^ Text.maxDigits - 1)) .exit)]
  nodup_labels := by decide

theorem not_writable_increase_work :
    ¬ (Operation.increase (.work (10 ^ Text.maxDigits - 1))).Writable := fun h =>
  Text.not_short_succ (h _ List.mem_cons_self)

theorem start_brimmed (traced : Bool) :
    Machine.start brimmed [] traced = .ok (.initial brimmed [] traced) := by
  have hinputs : brimmed.requiredInputs ≤ 0 := by decide +kernel
  exact start_eq_ok_iff.2 ⟨rfl, [], rfl, hinputs, rfl⟩

/-- The second instruction of that program is executed, and it cannot be written. -/
theorem brimmed_executes (lib : Library) :
    lib.Executes (.initial brimmed [] false)
      (.plain none (.increase (.work (10 ^ Text.maxDigits - 1)))) :=
  ⟨_, 0, _, .single ⟨0, none, rfl⟩, rfl, rfl⟩

section Runs

variable {p : Program} {values : List InputValue}

/-- Every instruction that the run of a program executes can be recorded. -/
def Recordable (lib : Library) (p : Program) (values : List InputValue) : Prop :=
  ∀ m₀, Machine.start p values false = .ok m₀ → ∀ i, lib.Executes m₀ i → i.operation.Writable

/-- A run executes instructions of its program. -/
theorem recordable_of_code (h : ∀ i ∈ p.code, i.operation.Writable) : lib.Recordable p values := by
  rintro m₀ hstart i ⟨m, fuel, r, hreach, hcurrent, -⟩
  obtain ⟨-, inputs, -, -, rfl⟩ := start_eq_ok_iff.1 hstart
  obtain ⟨hprogram, -⟩ := path_of_reaches hreach (Machine.initial_sound p inputs false)
  have hi : m.program.code[m.pc]? = some i := (Machine.current?_eq_some_iff.1 hcurrent).2
  rw [hprogram] at hi
  exact h i (List.mem_of_getElem? hi)

theorem not_recordable_brimmed (lib : Library) : ¬ lib.Recordable brimmed [] := fun h =>
  not_writable_increase_work (h _ (start_brimmed false) _ (brimmed_executes lib))

theorem load_untraced (p : Program) (inputs : List Nat) :
    Machine.load p inputs false = Machine.untraced <$> Machine.load p inputs true := by
  rw [Machine.load, Machine.load]
  rcases p.validate with cause | _
  · rfl
  · rw [Bounded.ok_bind, Bounded.ok_bind]
    split <;> rfl

/-- The first machine is the same, whether its steps will be recorded or not. -/
theorem start_untraced (p : Program) (values : List InputValue) :
    Machine.start p values false = Machine.untraced <$> Machine.start p values true := by
  rw [Machine.start, Machine.start]
  simp only [load_untraced, map_bind]

/-- A run without its records, if there is nothing that cannot be recorded. -/
theorem run_untraced (h : lib.Recordable p values) (fuel : Nat) :
    lib.run fuel p values false = RunResult.untraced <$> lib.run fuel p values true := by
  rw [run_eq, run_eq, start_untraced]
  rcases hstart : Machine.start p values true with cause | m
  · rfl
  · have huntraced : Machine.start p values false = .ok m.untraced := by
      rw [start_untraced, hstart]
      rfl
    have hfinish : m.untraced.finish (lib.evaluator fuel) fuel =
        Machine.untraced <$> m.finish (lib.evaluator fuel) fuel :=
      finish_untraced (h m.untraced huntraced)
    change m.untraced.finish _ fuel >>= _ = _ <$> (m.finish _ fuel >>= _)
    rw [hfinish, bind_map_left, map_bind]
    rfl

/-- A run fails where it comes to an instruction that cannot be recorded. -/
theorem exists_run_eq_tooLong (h : ¬ lib.Recordable p values) :
    ∃ fuel, lib.run fuel p values true = .error (.error (.numeral .tooLong)) := by
  obtain ⟨m₀, h⟩ := not_forall.1 h
  obtain ⟨hstart, h⟩ := Classical.not_imp.1 h
  obtain ⟨i, h⟩ := not_forall.1 h
  obtain ⟨hexecutes, hw⟩ := Classical.not_imp.1 h
  rw [start_untraced] at hstart
  obtain ⟨m, hm, rfl⟩ := Bounded.map_eq_ok.1 hstart
  have htraced : m.traced = true := by
    obtain ⟨-, inputs, -, -, rfl⟩ := start_eq_ok_iff.1 hm
    rfl
  obtain ⟨fuel, hfinish⟩ := exists_finish_eq_tooLong htraced hexecutes hw
  exact ⟨fuel, run_eq_error hm hfinish⟩

/-- A run that ends also ends recorded, or it comes to an instruction that cannot be recorded. -/
theorem exists_traced_run {fuel : Nat} {r : RunResult} (h : lib.run fuel p values false = .ok r) :
    (∃ fuel' r', lib.run fuel' p values true = .ok r' ∧ r'.untraced = r) ∨
      ∃ fuel', lib.run fuel' p values true = .error (.error (.numeral .tooLong)) := by
  by_cases hr : lib.Recordable p values
  · rw [run_untraced hr] at h
    obtain ⟨r', hr', hu⟩ := Bounded.map_eq_ok.1 h
    exact .inl ⟨fuel, r', hr', hu⟩
  · exact .inr (exists_run_eq_tooLong hr)

end Runs

end Library

end RegisterMachine
