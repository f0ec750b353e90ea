import RegisterMachine.Debugger
import RegisterMachine.Proofs.Answered
import RegisterMachine.Proofs.Recording
import RegisterMachine.Proofs.RunInvariant

/-!
# Debugging sessions and runs

A debugging session is the run of its program, cut into pieces. Whatever was asked of it before, its
machine is one that the started machine becomes by executing some number of instructions. A step
moves it one instruction further, resuming moves it to the end of the run or to the instruction that
fails, and nothing else moves it.

A request may fail when all is done, because something has a number that is too long to be shown.
Then the session has moved all the same. This is the only way in which a request that fails moves a
session, apart from resuming.

* `Debugger.answer` — what a session answers, and the session afterwards;
* `Debugger.Arises` — the sessions that requests lead to;
* `Debugger.Happens` — all that can happen at a request;
* `Debugger.Passes`, `Debugger.At` — the places in the run of a session;
* `Debugger.Overlong` — something of the session cannot be shown;
* `Debugger.Moves` — how each request moves a session;
* `Debugger.follows_run` — every session follows its run, and its result is that of the run.
-/

namespace RegisterMachine

namespace Debugger

/-! ### Requests -/

/-- What a session can be asked for. -/
inductive Request where
  | start
  | stepOver
  | resume
  | stop
  | snapshot
  | result
  deriving DecidableEq, Repr

/-- What a session answers. -/
inductive Answer where
  /-- The state of the run. -/
  | state (s : Snapshot)
  /-- The session was stopped. -/
  | stopped
  /-- What can be seen of the run that has ended. -/
  | outcome (r : RunResult)

/-- Does what is asked for, with some fuel for each request. -/
def perform (lib : Library) (fuel : Nat) : Request → DebuggerM Answer
  | .start => .state <$> start
  | .stepOver => .state <$> stepOver (lib.evaluator fuel)
  | .resume => .state <$> resume (lib.evaluator fuel) fuel
  | .stop => (fun _ => .stopped) <$> stop
  | .snapshot => .state <$> snapshot
  | .result => .outcome <$> result

/-- What a session answers to a request, and the session afterwards. -/
def answer (lib : Library) (fuel : Nat) (d : Debugger) (r : Request) : Bounded Answer × Debugger :=
  answered (perform lib fuel r) d

/-- The sessions for a program and a list of inputs, after any requests. -/
inductive Arises (lib : Library) (p : Program) (values : List InputValue) (traced : Bool) :
    Debugger → Prop
  | new : Arises lib p values traced (.new p values traced)
  | request {d : Debugger} (before : Arises lib p values traced d) (fuel : Nat) (r : Request) :
      Arises lib p values traced (d.answer lib fuel r).2

section Answers

variable {lib : Library} {fuel : Nat} {d : Debugger} {m : Machine}

theorem isAlive_eq_true_iff : d.isAlive = true ↔
    ∃ m, d.machine? = some m ∧ d.stopped = false ∧ m.halted = false := by
  obtain ⟨p, inputs, traced, _ | m, stopped⟩ := d <;> simp [isAlive]

/-- The session with another machine. -/
def withMachine (d : Debugger) (m : Machine) : Debugger :=
  { d with machine? := some m }

/-! ### Showing a machine -/

/-- What a session answers when it is to show a machine. -/
def shown (m : Machine) : Bounded Answer :=
  Answer.state <$> (m.snapshot : Bounded Snapshot)

theorem shown_of_brief (h : ∀ v ∈ m.store.vars, v.Brief) : shown m = .ok (.state m.state) := by
  have hshort : ∀ n ∈ m.store.vars.map Variable.number, Text.Short n := List.forall_mem_map.2 h
  rw [shown, Machine.snapshot, showing_eq_ok_iff.2 ⟨hshort, rfl⟩]
  rfl

theorem shown_of_not_brief {v : Variable} (hv : v ∈ m.store.vars) (h : ¬ v.Brief) :
    shown m = .error (.error (.numeral .tooLong)) := by
  have hlong : ¬ ∀ n ∈ m.store.vars.map Variable.number, Text.Short n := fun hshort =>
    h (hshort v.number (List.mem_map_of_mem hv))
  rw [shown, Machine.snapshot, showing_eq_error_iff.2 ⟨hlong, rfl⟩]
  rfl

/-- A machine in the middle of a run can be shown, unless a variable of its program cannot. -/
theorem shown_cases (hm : m.Keyed) :
    shown m = .ok (.state m.state) ∨
      shown m = .error (.error (.numeral .tooLong)) ∧ ∃ v ∈ m.program.vars, ¬ v.Brief := by
  by_cases h : ∀ v ∈ m.store.vars, v.Brief
  · exact .inl (shown_of_brief h)
  · obtain ⟨v, h⟩ := not_forall.1 h
    obtain ⟨hv, hlong⟩ := Classical.not_imp.1 h
    refine .inr ⟨shown_of_not_brief hv hlong, v, ?_, hlong⟩
    rcases (hm.mem_vars_iff v).1 hv with hmem | rfl
    · exact hmem
    · exact absurd (by decide) hlong

/-! ### Answers -/

theorem answered_keep (m : Machine) (d : Debugger) :
    answered (keep m) d = (.ok ⟨⟩, d.withMachine m) := rfl

theorem answered_keepAndShow (m : Machine) (d : Debugger) :
    answered (keepAndShow m) d = ((m.snapshot : Bounded Snapshot), d.withMachine m) := by
  rw [keepAndShow, answered_bind_of_ok (answered_keep m d), answered_orStop]

/-- The machine that requests go on with, as long as there is one. -/
theorem answered_aliveMachine (h : d.machine? = some m) (hs : d.stopped = false)
    (hh : m.halted = false) (action : String) :
    answered (aliveMachine action) d = (.ok m, d) := by
  rw [aliveMachine, answered_bind_of_ok (answered_get d)]
  simp [h, hs, hh]

/-- Otherwise requests are refused. -/
theorem answered_aliveMachine_of_not_alive (h : d.isAlive = false) (action : String) :
    ∃ fault, answered (aliveMachine action) d = (.error (.error (.debugger fault)), d) := by
  rw [aliveMachine, answered_bind_of_ok (answered_get d)]
  rcases hm : d.machine? with _ | m
  · exact ⟨_, rfl⟩
  · simp only [isAlive, hm] at h
    cases hs : d.stopped with
    | true => exact ⟨_, rfl⟩
    | false =>
      have hh : m.halted = true := by simpa [hs] using h
      simp only [hh, Bool.false_eq_true, if_false, if_true]
      exact ⟨_, rfl⟩

/-- All that can happen at a request: the answer, and the session afterwards. -/
inductive Happens (lib : Library) (fuel : Nat) (d : Debugger) :
    Request → Bounded Answer → Debugger → Prop
  | start {m : Machine} (unstarted : d.machine? = none)
      (start_eq : Machine.start d.program d.inputs d.traced = .ok m) :
      Happens lib fuel d .start (shown m) (d.withMachine m)
  | step {m next : Machine} {jump : Option Label} (alive : d.isAlive = true)
      (machine_eq : d.machine? = some m) (not_halted : m.halted = false)
      (perform_eq : m.perform (lib.evaluator fuel) = (next, .ok jump)) :
      Happens lib fuel d .stepOver (shown next) (d.withMachine next)
  | stepFails {m left : Machine} {stop : Stop} (alive : d.isAlive = true)
      (machine_eq : d.machine? = some m) (not_halted : m.halted = false)
      (perform_eq : m.perform (lib.evaluator fuel) = (left, .error stop)) :
      Happens lib fuel d .stepOver (.error stop) (d.withMachine left)
  | resume {m last : Machine} (alive : d.isAlive = true) (machine_eq : d.machine? = some m)
      (not_halted : m.halted = false)
      (advance_eq : m.advance (lib.evaluator fuel) fuel = (last, none)) :
      Happens lib fuel d .resume (shown last) (d.withMachine last)
  | resumeFails {m last : Machine} {stop : Stop} (alive : d.isAlive = true)
      (machine_eq : d.machine? = some m)
      (advance_eq : m.advance (lib.evaluator fuel) fuel = (last, some stop)) :
      Happens lib fuel d .resume (.error stop) (d.withMachine last)
  | stop : Happens lib fuel d .stop (.ok .stopped) { d with stopped := true }
  | display {m : Machine} (machine_eq : d.machine? = some m) :
      Happens lib fuel d .snapshot (shown m) d
  | result {m : Machine} (machine_eq : d.machine? = some m) (halted : m.halted = true) :
      Happens lib fuel d .result (.ok (.outcome m.result)) d
  | fail {r : Request} {stop : Stop} (not_resumed : r = .resume → d.isAlive = false)
      (not_stopped : r ≠ .stop) : Happens lib fuel d r (.error stop) d

/-- A session that can be started shows the first machine. -/
theorem answer_start (hm : d.machine? = none)
    (hstart : Machine.start d.program d.inputs d.traced = .ok m) :
    d.answer lib fuel .start = (shown m, d.withMachine m) := by
  rw [answer, perform, answered_map, Debugger.start, answered_bind_of_ok (answered_get d), hm,
    hstart]
  exact congrArg (fun x => (x.1.map Answer.state, x.2)) (answered_keepAndShow m d)

/-- A step that succeeds is shown. -/
theorem answer_stepOver {next : Machine} {jump : Option Label} (hm : d.machine? = some m)
    (hs : d.stopped = false) (hh : m.halted = false)
    (hperform : m.perform (lib.evaluator fuel) = (next, .ok jump)) :
    d.answer lib fuel .stepOver = (shown next, d.withMachine next) := by
  rw [answer, perform, answered_map, stepOver,
    answered_bind_of_ok (answered_aliveMachine hm hs hh "step"), hperform]
  exact congrArg (fun x => (x.1.map Answer.state, x.2)) (answered_keepAndShow next d)

theorem happens_start (d : Debugger) :
    Happens lib fuel d .start (d.answer lib fuel .start).1 (d.answer lib fuel .start).2 := by
  rcases hm : d.machine? with _ | m
  · cases hstart : Machine.start d.program d.inputs d.traced with
    | error cause =>
      rw [answer, perform, answered_map, Debugger.start, answered_bind_of_ok (answered_get d), hm,
        hstart]
      exact .fail nofun nofun
    | ok m =>
      rw [answer_start hm hstart]
      exact .start hm hstart
  · rw [answer, perform, answered_map, Debugger.start, answered_bind_of_ok (answered_get d), hm]
    exact .fail nofun nofun

theorem happens_stepOver (d : Debugger) :
    Happens lib fuel d .stepOver (d.answer lib fuel .stepOver).1
      (d.answer lib fuel .stepOver).2 := by
  cases halive : d.isAlive with
  | false =>
    obtain ⟨fault, hfault⟩ := answered_aliveMachine_of_not_alive halive "step"
    rw [answer, perform, answered_map, stepOver, answered_bind_of_error hfault]
    exact .fail nofun nofun
  | true =>
    obtain ⟨m, hm, hs, hh⟩ := isAlive_eq_true_iff.1 halive
    rcases hperform : m.perform (lib.evaluator fuel) with ⟨left, stop | jump⟩
    · rw [answer, perform, answered_map, stepOver,
        answered_bind_of_ok (answered_aliveMachine hm hs hh "step"), hperform]
      exact .stepFails halive hm hh hperform
    · rw [answer_stepOver hm hs hh hperform]
      exact .step halive hm hh hperform

theorem happens_resume (d : Debugger) :
    Happens lib fuel d .resume (d.answer lib fuel .resume).1 (d.answer lib fuel .resume).2 := by
  rw [answer, perform, answered_map, Debugger.resume]
  cases halive : d.isAlive with
  | false =>
    obtain ⟨fault, hfault⟩ := answered_aliveMachine_of_not_alive halive "resume"
    rw [answered_bind_of_error hfault]
    exact .fail (fun _ => halive) nofun
  | true =>
    obtain ⟨m, hm, hs, hh⟩ := isAlive_eq_true_iff.1 halive
    rw [answered_bind_of_ok (answered_aliveMachine hm hs hh "resume")]
    rcases hadvance : m.advance (lib.evaluator fuel) fuel with ⟨last, _ | stop⟩
    · simp only [answered_keepAndShow]
      exact .resume halive hm hh hadvance
    · exact .resumeFails halive hm hadvance

theorem happens_snapshot (d : Debugger) :
    Happens lib fuel d .snapshot (d.answer lib fuel .snapshot).1
      (d.answer lib fuel .snapshot).2 := by
  rw [answer, perform, answered_map, snapshot, answered_bind_of_ok (answered_get d)]
  rcases hm : d.machine? with _ | m
  · exact .fail nofun nofun
  · simp only [answered_orStop]
    exact .display hm

theorem happens_result (d : Debugger) :
    Happens lib fuel d .result (d.answer lib fuel .result).1 (d.answer lib fuel .result).2 := by
  rw [answer, perform, answered_map, Debugger.result, answered_bind_of_ok (answered_get d)]
  rcases hm : d.machine? with _ | m
  · exact .fail nofun nofun
  · cases hh : m.halted with
    | false =>
      simp only [hh, Bool.false_eq_true, if_false]
      exact .fail nofun nofun
    | true =>
      simp only [hh, if_true]
      exact .result hm hh

/-- Nothing else happens at a request. -/
theorem happens_answer (lib : Library) (fuel : Nat) (d : Debugger) (r : Request) :
    Happens lib fuel d r (d.answer lib fuel r).1 (d.answer lib fuel r).2 :=
  match r with
  | .start => happens_start d
  | .stepOver => happens_stepOver d
  | .resume => happens_resume d
  | .stop => .stop
  | .snapshot => happens_snapshot d
  | .result => happens_result d

end Answers

/-! ### Places in the run -/

/-- The run of the session has such a machine after so many instructions. -/
def Passes (lib : Library) (d : Debugger) (k : Nat) (m : Machine) : Prop :=
  ∃ m₀, Machine.start d.program d.inputs d.traced = .ok m₀ ∧ lib.Performs m₀ k m

/-- The session is so many instructions into its run. -/
def At (lib : Library) (d : Debugger) (k : Nat) : Prop :=
  ∃ m, d.machine? = some m ∧ d.Passes lib k m

/-- Once started, the session is somewhere in its run. -/
def InRun (lib : Library) (d : Debugger) : Prop :=
  ∀ m, d.machine? = some m → ∃ k, d.At lib k

/-- The session afterwards has the same machine, at the same place. -/
def Stays (lib : Library) (d d' : Debugger) : Prop :=
  d'.machine? = d.machine? ∧ ∀ k, d'.At lib k ↔ d.At lib k

/-- Something of the session cannot be shown: a variable, or an instruction that is to be
recorded. -/
def Overlong (d : Debugger) : Prop :=
  (∃ v ∈ d.program.vars, ¬ v.Brief) ∨
    d.traced = true ∧ ∃ i ∈ d.program.code, ¬ i.operation.Writable

/-- A request was stopped when all was done, since something cannot be shown. -/
def Unshown (d : Debugger) (stop : Stop) : Prop :=
  stop = .error (.numeral .tooLong) ∧ d.Overlong

/-- How a request moves a session, given the answer and the session afterwards. -/
def Moves (lib : Library) (fuel : Nat) (d : Debugger) : Request → Bounded Answer → Debugger → Prop
  | .start, .ok _, d' => d.machine? = none ∧ d'.At lib 0
  | .start, .error stop, d' =>
      d.Stays lib d' ∨ d.Unshown stop ∧ d.machine? = none ∧ d'.At lib 0
  | .stepOver, .ok _, d' => d.isAlive = true ∧ ∀ k, d.At lib k → d'.At lib (k + 1)
  | .stepOver, .error stop, d' =>
      d.Stays lib d' ∨
        d.Unshown stop ∧ d.isAlive = true ∧ ∀ k, d.At lib k → d'.At lib (k + 1)
  | .resume, .ok _, d' => d.isAlive = true ∧ ∀ k, d.At lib k →
      ∃ k' last, k < k' ∧ d'.At lib k' ∧ d'.machine? = some last ∧ last.halted = true
  | .resume, .error stop, d' =>
      if d.isAlive then ∀ k, d.At lib k →
        ∃ k' last, k ≤ k' ∧ d'.At lib k' ∧ d'.machine? = some last ∧
          ∀ cause, stop = .error cause →
            (last.halted = false ∧
              last.perform (lib.evaluator fuel) = (last, .error (.error cause))) ∨
            d.Unshown stop ∧ k < k' ∧
              (last.halted = true ∨ ∃ m, d.Passes lib (k' - 1) m ∧ ¬ m.Recordable)
      else d.Stays lib d'
  | _, _, d' => d.Stays lib d'

section Places

variable {lib : Library} {p : Program} {values : List InputValue} {traced : Bool} {fuel k n : Nat}
  {d d' : Debugger} {m next : Machine} {r : Request} {a : Bounded Answer} {stop : Stop}

/-! ### Machines of the run -/

theorem Passes.frame (h : d.Passes lib k m) :
    m.program = d.program ∧ m.traced = d.traced ∧ m.steps = k := by
  obtain ⟨m₀, hstart, hperforms⟩ := h
  obtain ⟨-, inputs, -, -, rfl⟩ := Library.start_eq_ok_iff.1 hstart
  obtain ⟨hprogram, htraced, hsteps⟩ := hperforms.frame
  exact ⟨hprogram, htraced, hsteps.trans (Nat.zero_add k)⟩

theorem Passes.sound (h : d.Passes lib k m) : m.program.validate = .ok () ∧ m.Sound := by
  obtain ⟨m₀, hstart, hperforms⟩ := h
  obtain ⟨hvalid, inputs, -, -, rfl⟩ := Library.start_eq_ok_iff.1 hstart
  obtain ⟨hprogram, hsound⟩ := hperforms.sound (Machine.initial_sound d.program inputs d.traced)
  rw [hprogram]
  exact ⟨hvalid, hsound⟩

theorem Passes.keyed (h : d.Passes lib k m) : m.Keyed := by
  obtain ⟨m₀, hstart, hperforms⟩ := h
  obtain ⟨-, inputs, -, -, rfl⟩ := Library.start_eq_ok_iff.1 hstart
  obtain ⟨costs, htakes, -⟩ := hperforms.untraced
  -- The store does not depend on the records.
  obtain ⟨⟨ordered, mem_vars_iff⟩, -⟩ :=
    htakes.keyed (Machine.keyed_initial d.program inputs false)
  exact ⟨ordered, mem_vars_iff⟩

theorem Passes.trans (h : d.Passes lib k m) (hperforms : lib.Performs m n next) :
    d.Passes lib (k + n) next := by
  obtain ⟨m₀, hstart, hbefore⟩ := h
  exact ⟨m₀, hstart, hbefore.trans hperforms⟩

/-- A machine of the run that cannot be shown is one of a session with something too long. -/
theorem Passes.shown_cases (h : d.Passes lib k m) :
    shown m = .ok (.state m.state) ∨ ∃ stop, shown m = .error stop ∧ d.Unshown stop := by
  rcases Debugger.shown_cases h.keyed with hshown | ⟨hshown, v, hv, hlong⟩
  · exact .inl hshown
  · rw [h.frame.1] at hv
    exact .inr ⟨_, hshown, rfl, .inl ⟨v, hv, hlong⟩⟩

/-- So is one whose next step cannot be recorded. -/
theorem Passes.overlong (h : d.Passes lib k m) (hr : ¬ m.Recordable) : d.Overlong := by
  obtain ⟨hprogram, htraced, -⟩ := h.frame
  obtain ⟨ht, hr⟩ := Classical.not_imp.1 hr
  obtain ⟨i, hr⟩ := not_forall.1 hr
  obtain ⟨hi, hw⟩ := Classical.not_imp.1 hr
  have hmem := Library.mem_of_current? hi
  rw [hprogram] at hmem
  exact .inr ⟨htraced.symm.trans ht, i, hmem, hw⟩

/-- There is at most one such number: the machine has counted its steps. -/
theorem At.unique {k' : Nat} (h : d.At lib k) (h' : d.At lib k') : k = k' := by
  obtain ⟨m, hm, hpasses⟩ := h
  obtain ⟨m', hm', hpasses'⟩ := h'
  obtain rfl := Option.some.inj (hm.symm.trans hm')
  exact hpasses.frame.2.2.symm.trans hpasses'.frame.2.2

theorem At.passes (h : d.At lib k) (hm : d.machine? = some m) : d.Passes lib k m := by
  obtain ⟨m', hm', hpasses⟩ := h
  obtain rfl := Option.some.inj (hm.symm.trans hm')
  exact hpasses

/-- A session moves on with its machine. -/
theorem At.withMachine (h : d.At lib k) (hm : d.machine? = some m)
    (hperforms : lib.Performs m n next) : (d.withMachine next).At lib (k + n) :=
  ⟨next, rfl, (h.passes hm).trans hperforms⟩

theorem Stays.refl (lib : Library) (d : Debugger) : d.Stays lib d :=
  ⟨rfl, fun _ => Iff.rfl⟩

theorem Stays.withMachine (hm : d.machine? = some m) : d.Stays lib (d.withMachine m) := by
  obtain ⟨p, inputs, traced, machine?, stopped⟩ := d
  obtain rfl : machine? = some m := hm
  exact .refl lib _

/-! ### How requests move a session -/

theorem moves_start (unstarted : d.machine? = none)
    (hstart : Machine.start d.program d.inputs d.traced = .ok m) :
    d.Moves lib fuel .start (shown m) (d.withMachine m) := by
  have hpasses : d.Passes lib 0 m := ⟨m, hstart, .none⟩
  rcases hpasses.shown_cases with hshown | ⟨stop, hshown, hunshown⟩
  · rw [hshown]
    exact ⟨unstarted, m, rfl, hpasses⟩
  · rw [hshown]
    exact .inr ⟨hunshown, unstarted, m, rfl, hpasses⟩

/-- A step that was taken moves the session, whether it can be shown or not. -/
theorem moves_stepOver (hd : d.InRun lib) (alive : d.isAlive = true) (hm : d.machine? = some m)
    (hh : m.halted = false) {jump : Option Label}
    (hperform : m.perform (lib.evaluator fuel) = (next, .ok jump)) :
    d.Moves lib fuel .stepOver (shown next) (d.withMachine next) := by
  obtain ⟨k₀, hk₀⟩ := hd m hm
  rcases Library.performs_of_perform (hk₀.passes hm).sound.1 hh hperform with
    ⟨_, -, hone⟩ | ⟨_, hstop, -⟩ | ⟨hstop, -⟩
  · have hmoves : ∀ k, d.At lib k → (d.withMachine next).At lib (k + 1) := fun k hk =>
      hk.withMachine hm hone
    rcases ((hk₀.passes hm).trans hone).shown_cases with hshown | ⟨stop, hshown, hunshown⟩
    · rw [hshown]
      exact ⟨alive, hmoves⟩
    · rw [hshown]
      exact .inr ⟨hunshown, alive, hmoves⟩
  · cases hstop
  · cases hstop

/-- A step that fails leaves the session where it is, unless it was taken. -/
theorem moves_stepOver_of_error (hd : d.InRun lib) (alive : d.isAlive = true)
    (hm : d.machine? = some m) (hh : m.halted = false)
    (hperform : m.perform (lib.evaluator fuel) = (next, .error stop)) :
    d.Moves lib fuel .stepOver (.error stop) (d.withMachine next) := by
  obtain ⟨k₀, hk₀⟩ := hd m hm
  rcases Library.performs_of_perform (hk₀.passes hm).sound.1 hh hperform with
    ⟨_, hjump, -⟩ | ⟨_, -, rfl⟩ | ⟨hstop, hr, hone⟩
  · cases hjump
  · exact .inl (.withMachine hm)
  · obtain rfl := Except.error.inj hstop
    exact .inr ⟨⟨rfl, (hk₀.passes hm).overlong hr⟩, alive, fun k hk => hk.withMachine hm hone⟩

/-- Resuming moves the session to the end of its run, whether that can be shown or not. -/
theorem moves_resume (hd : d.InRun lib) (alive : d.isAlive = true) (hm : d.machine? = some m)
    (hh : m.halted = false) (hadvance : m.advance (lib.evaluator fuel) fuel = (next, none)) :
    d.Moves lib fuel .resume (shown next) (d.withMachine next) := by
  obtain ⟨k₀, hk₀⟩ := hd m hm
  obtain ⟨hvalid, hsound⟩ := (hk₀.passes hm).sound
  obtain ⟨n, hperforms, hend, -⟩ := Library.exists_performs_of_advance hvalid hsound hadvance
  -- The machine had not halted before, so at least one instruction was executed.
  have hlt : ∀ k, k < k + n := fun k => Nat.lt_add_of_pos_right (hperforms.pos hh (hend rfl))
  rcases ((hk₀.passes hm).trans hperforms).shown_cases with hshown | ⟨stop, hshown, hunshown⟩
  · rw [hshown]
    exact ⟨alive, fun k hk => ⟨k + n, next, hlt k, hk.withMachine hm hperforms, rfl, hend rfl⟩⟩
  · rw [hshown, Moves, if_pos alive]
    exact fun k hk => ⟨k + n, next, Nat.le_add_right k n, hk.withMachine hm hperforms, rfl,
      fun cause _ => .inr ⟨hunshown, hlt k, .inl (hend rfl)⟩⟩

theorem moves_resume_of_error (alive : d.isAlive = true) (hm : d.machine? = some m)
    (hadvance : m.advance (lib.evaluator fuel) fuel = (next, some stop)) :
    d.Moves lib fuel .resume (.error stop) (d.withMachine next) := by
  rw [Moves, if_pos alive]
  intro k hk
  obtain ⟨hvalid, hsound⟩ := (hk.passes hm).sound
  obtain ⟨n, hperforms, -, hfail⟩ := Library.exists_performs_of_advance hvalid hsound hadvance
  refine ⟨k + n, next, Nat.le_add_right k n, hk.withMachine hm hperforms, rfl,
    fun cause hcause => (hfail cause (congrArg some hcause)).imp_right ?_⟩
  rintro ⟨rfl, k', m', rfl, hbefore, hr⟩
  have hpasses := (hk.passes hm).trans hbefore
  exact ⟨⟨hcause, hpasses.overlong hr⟩, Nat.lt_add_of_pos_right k'.succ_pos, .inr ⟨m', hpasses, hr⟩⟩

theorem Happens.moves (h : Happens lib fuel d r a d') (hd : d.InRun lib) :
    d.Moves lib fuel r a d' := by
  cases h with
  | start unstarted start_eq => exact moves_start unstarted start_eq
  | step alive machine_eq not_halted perform_eq =>
    exact moves_stepOver hd alive machine_eq not_halted perform_eq
  | stepFails alive machine_eq not_halted perform_eq =>
    exact moves_stepOver_of_error hd alive machine_eq not_halted perform_eq
  | resume alive machine_eq not_halted advance_eq =>
    exact moves_resume hd alive machine_eq not_halted advance_eq
  | resumeFails alive machine_eq advance_eq =>
    exact moves_resume_of_error alive machine_eq advance_eq
  | stop => exact ⟨rfl, fun k => Iff.rfl⟩
  | display | result => exact .refl lib d
  | fail not_resumed =>
    cases r with
    | start | stepOver => exact .inl (.refl lib d)
    | resume =>
      rw [Moves, not_resumed rfl]
      exact .refl lib d
    | stop | snapshot | result => exact .refl lib d

/-- No request changes what the session is about. -/
theorem Happens.frame (h : Happens lib fuel d r a d') :
    d'.program = d.program ∧ d'.inputs = d.inputs ∧ d'.traced = d.traced := by
  cases h <;> exact ⟨rfl, rfl, rfl⟩

/-- A session is stopped by being told so, and for ever. -/
theorem Happens.stopped_iff (h : Happens lib fuel d r a d') :
    d'.stopped = true ↔ d.stopped = true ∨ r = .stop := by
  cases h with
  | stop => simp
  | fail _ not_stopped => simp [not_stopped]
  | _ => simp [withMachine]

/-! ### Sessions stay in their runs -/

theorem Stays.inRun (h : d.Stays lib d') (hd : d.InRun lib) : d'.InRun lib := by
  intro m hm
  obtain ⟨k, hk⟩ := hd m (h.1.symm.trans hm)
  exact ⟨k, (h.2 k).2 hk⟩

theorem InRun.exists_at (hd : d.InRun lib) (h : d.isAlive = true) : ∃ k, d.At lib k := by
  obtain ⟨m, hm, -⟩ := isAlive_eq_true_iff.1 h
  exact hd m hm

/-- Wherever a request moves a session to is in its run. -/
theorem Moves.inRun (h : d.Moves lib fuel r a d') (hd : d.InRun lib) : d'.InRun lib := by
  intro m' hm'
  cases r with
  | start =>
    cases a with
    | ok => exact ⟨0, h.2⟩
    | error =>
      rcases h with hstays | ⟨-, -, hat⟩
      · exact hstays.inRun hd m' hm'
      · exact ⟨0, hat⟩
  | stepOver =>
    cases a with
    | ok =>
      obtain ⟨k, hk⟩ := hd.exists_at h.1
      exact ⟨k + 1, h.2 k hk⟩
    | error =>
      rcases h with hstays | ⟨-, alive, hmoves⟩
      · exact hstays.inRun hd m' hm'
      · obtain ⟨k, hk⟩ := hd.exists_at alive
        exact ⟨k + 1, hmoves k hk⟩
  | resume =>
    cases a with
    | ok =>
      obtain ⟨k, hk⟩ := hd.exists_at h.1
      obtain ⟨k', -, -, hk', -⟩ := h.2 k hk
      exact ⟨k', hk'⟩
    | error =>
      rw [Moves] at h
      split at h
      · rename_i alive
        obtain ⟨k, hk⟩ := hd.exists_at alive
        obtain ⟨k', -, -, hk', -⟩ := h k hk
        exact ⟨k', hk'⟩
      · exact h.inRun hd m' hm'
  | stop | snapshot | result => exact Stays.inRun h hd m' hm'

/-! ### What is shown -/

theorem eq_state_of_shown {s : Snapshot} (h : .ok (.state s) = shown m) : s = m.state := by
  obtain ⟨s', hs', heq⟩ := Bounded.map_eq_ok.1 h.symm
  obtain rfl := Answer.state.inj heq
  exact (showing_eq_ok_iff.1 (Bounded.lift_eq_ok.1 hs')).2.symm

/-- The states that are shown are those of the machine. -/
theorem Happens.shown {s : Snapshot} (h : Happens lib fuel d r (.ok (.state s)) d') :
    ∃ m, d'.machine? = some m ∧ s = m.state := by
  generalize ha : (.ok (.state s) : Bounded Answer) = a at h
  cases h with
  | start | step | resume => exact ⟨_, rfl, eq_state_of_shown ha⟩
  | display machine_eq => exact ⟨_, machine_eq, eq_state_of_shown ha⟩
  | stepFails | resumeFails | stop | result | fail => cases ha

/-- The result is that of a machine of the run that has halted. -/
theorem Happens.exists_halted {result : RunResult}
    (h : Happens lib fuel d r (.ok (.outcome result)) d') :
    ∃ m, d.machine? = some m ∧ m.halted = true ∧ result = m.result := by
  generalize ha : (.ok (.outcome result) : Bounded Answer) = a at h
  cases h with
  | start | step | resume | display =>
    obtain ⟨s, -, hs⟩ := Bounded.map_eq_ok.1 ha.symm
    cases hs
  | result machine_eq halted =>
    obtain rfl := Answer.outcome.inj (Except.ok.inj ha)
    exact ⟨_, machine_eq, halted, rfl⟩
  | stepFails | resumeFails | stop | fail => cases ha

/-- A machine of the run that has halted has the result of the plain run. -/
theorem Passes.exists_plain_run (h : d.Passes lib k m) (hh : m.halted = true) :
    ∃ fuel, lib.run fuel d.program d.inputs false = .ok m.result.untraced := by
  obtain ⟨m₀, hstart, hperforms⟩ := h
  obtain ⟨hvalid, inputs, haccept, hinputs, rfl⟩ := Library.start_eq_ok_iff.1 hstart
  obtain ⟨costs, htakes, -⟩ := hperforms.untraced
  have huntraced : m.untraced.halted = true := hh
  obtain ⟨fuel, hfinish⟩ := Library.exists_finish_of_takes htakes huntraced
  exact ⟨fuel, Library.run_eq_ok
    (Library.start_eq_ok_iff.2 ⟨hvalid, inputs, haccept, hinputs, rfl⟩) hfinish⟩

/-- It has the result of the run, or that fails because something cannot be recorded. -/
theorem Passes.exists_run (h : d.Passes lib k m) (hh : m.halted = true) :
    (∃ fuel, lib.run fuel d.program d.inputs d.traced = .ok m.result) ∨
      d.Overlong ∧ ∃ fuel, lib.run fuel d.program d.inputs d.traced =
        .error (.error (.numeral .tooLong)) := by
  obtain ⟨m₀, hstart, hperforms⟩ := h
  rcases hperforms.takes with ⟨costs, htakes, -⟩ | ⟨costs, m', fuel, htakes, hh', hr, hstep⟩
  · obtain ⟨fuel, hfinish⟩ := Library.exists_finish_of_takes htakes hh
    exact .inl ⟨fuel, Library.run_eq_ok hstart hfinish⟩
  · obtain ⟨fuel, hfinish⟩ := Library.exists_finish_of_takes_error htakes hh' hstep
    have hpasses : d.Passes lib costs.length m' := ⟨m₀, hstart, htakes.performs⟩
    exact .inr ⟨hpasses.overlong hr, fuel, Library.run_eq_error hstart hfinish⟩

/-! ### Sessions and their runs -/

/-- What holds of a session, whatever was asked of it before. -/
structure FollowsRun (lib : Library) (p : Program) (values : List InputValue) (traced : Bool)
    (d : Debugger) : Prop where
  /-- The session is about the program. -/
  program_eq : d.program = p
  /-- It runs the program on the inputs. -/
  inputs_eq : d.inputs = values
  /-- It records steps as it was told. -/
  traced_eq : d.traced = traced
  /-- Once started, it is some number of instructions into its run. -/
  position : ∀ m, d.machine? = some m → ∃! k, d.At lib k
  /-- Requests move it along the run. -/
  moves : ∀ fuel r, d.Moves lib fuel r (d.answer lib fuel r).1 (d.answer lib fuel r).2
  /-- It is stopped by being told so, and for ever. -/
  stopped_iff : ∀ fuel r,
    (d.answer lib fuel r).2.stopped = true ↔ d.stopped = true ∨ r = .stop
  /-- The states that it shows are those of its machine. -/
  shown : ∀ fuel r s, (d.answer lib fuel r).1 = .ok (.state s) →
    ∃ m, (d.answer lib fuel r).2.machine? = some m ∧ s = m.state
  /-- Its result is that of the run, records apart. Where something cannot be recorded the run may
  fail; otherwise the records are the same, too. -/
  result_eq : ∀ fuel r, (d.answer lib fuel .result).1 = .ok (.outcome r) →
    (∃ fuel', lib.run fuel' p values false = .ok r.untraced) ∧
      ((∃ fuel', lib.run fuel' p values traced = .ok r) ∨
        d.Overlong ∧ ∃ fuel',
          lib.run fuel' p values traced = .error (.error (.numeral .tooLong))) ∧
      ∀ fuel' r', lib.run fuel' p values traced = .ok r' → r' = r

/-- What is asked of a session keeps it in its run. -/
theorem Arises.inRun (h : Arises lib p values traced d) :
    (d.program = p ∧ d.inputs = values ∧ d.traced = traced) ∧ d.InRun lib := by
  induction h with
  | new => exact ⟨⟨rfl, rfl, rfl⟩, nofun⟩
  | @request d _ fuel r ih =>
    obtain ⟨⟨hp, hi, ht⟩, hd⟩ := ih
    have hhappens := happens_answer lib fuel d r
    obtain ⟨hp', hi', ht'⟩ := hhappens.frame
    exact ⟨⟨hp'.trans hp, hi'.trans hi, ht'.trans ht⟩, (hhappens.moves hd).inRun hd⟩

/-- **A debugging session is the run, cut into pieces.** -/
theorem follows_run (h : Arises lib p values traced d) : FollowsRun lib p values traced d := by
  obtain ⟨⟨rfl, rfl, rfl⟩, hd⟩ := h.inRun
  refine ⟨rfl, rfl, rfl, fun m hm => ?_, fun fuel r => (happens_answer lib fuel d r).moves hd,
    fun fuel r => (happens_answer lib fuel d r).stopped_iff, fun fuel r s hs => ?_,
    fun fuel r hr => ?_⟩
  · obtain ⟨k, hk⟩ := hd m hm
    exact ⟨k, hk, fun k' hk' => hk'.unique hk⟩
  · have hhappens := happens_answer lib fuel d r
    rw [hs] at hhappens
    exact hhappens.shown
  · have hhappens := happens_answer lib fuel d .result
    rw [hr] at hhappens
    obtain ⟨m, hm, hh, rfl⟩ := hhappens.exists_halted
    obtain ⟨k, hk⟩ := hd m hm
    have hrun := (hk.passes hm).exists_run hh
    refine ⟨(hk.passes hm).exists_plain_run hh, hrun, fun fuel' r' hr' => ?_⟩
    rcases hrun with ⟨fuel'', hrun⟩ | ⟨-, fuel'', hrun⟩
    · have hsame : (.ok r' : Bounded RunResult) = .ok m.result :=
        Library.run_agrees nofun nofun hr' hrun
      exact Except.ok.inj hsame
    · have hsame : (.ok r' : Bounded RunResult) = .error (.error (.numeral .tooLong)) :=
        Library.run_agrees nofun nofun hr' hrun
      cases hsame

/-- A session that takes one step, is resumed and ends. -/
theorem viaOne_follows_run :
    ∃ d, Arises Library.nestedLibrary Library.viaOne [.integer 3] true d ∧
      (∃ r, (d.answer Library.nestedLibrary 3 .result).1 = .ok (.outcome r) ∧
        r.result = 1 ∧ r.steps = 2 ∧ r.trace.length = 2) ∧
      FollowsRun Library.nestedLibrary Library.viaOne [.integer 3] true d := by
  have harises : Arises Library.nestedLibrary Library.viaOne [.integer 3] true _ :=
    .request (.request (.request .new 3 .start) 3 .stepOver) 3 .resume
  exact ⟨_, harises, ⟨_, rfl, rfl, rfl, rfl⟩, follows_run harises⟩

/-- A step may fail and move the session: here the variable that cannot be shown is one that the
step leaves alone. -/
theorem brimmed_step_moves :
    ∃ d, Arises .empty Library.brimmed [] false d ∧ d.At .empty 0 ∧
      (d.answer .empty 0 .stepOver).1 = .error (.error (.numeral .tooLong)) ∧
      ¬ (d.answer .empty 0 .stepOver).2.At .empty 0 := by
  have hstart := Library.start_brimmed false
  have hfirst : (new Library.brimmed [] false).answer .empty 0 .start = _ :=
    answer_start rfl hstart
  have harises : Arises .empty Library.brimmed [] false _ := .request .new 0 .start
  rw [hfirst] at harises
  have hat : ((new Library.brimmed [] false).withMachine
      (.initial Library.brimmed [] false)).At .empty 0 := ⟨_, rfl, _, hstart, .none⟩
  have hone : Library.empty.Performs (.initial Library.brimmed [] false) 1
      ((Machine.initial Library.brimmed [] false).perform (Library.empty.evaluator 0)).1 :=
    .step .none rfl rfl rfl
  refine ⟨_, harises, hat, ?_⟩
  rw [answer_stepOver rfl rfl rfl rfl]
  have hafter := hat.withMachine rfl hone
  refine ⟨shown_of_not_brief (v := .work (10 ^ Text.maxDigits - 1)) ?_ Text.not_short_succ,
    fun h => absurd (h.unique hafter) Nat.zero_ne_one⟩
  have hkeyed := (hafter.passes rfl).keyed
  exact (hkeyed.mem_vars_iff _).2 (.inl (Program.mem_vars.2 ⟨_, .tail _ (.head _), .head _⟩))

end Places

end Debugger

end RegisterMachine
