import RegisterMachine.Proofs.CallStack
import RegisterMachine.Proofs.Recording

/-!
# Traces

A run that is traced does what the same run does untraced, as long as it comes to no instruction
whose statement has a number that is too long to be written: it ends with the same values and
counts, or fails with the same error, and it takes the same fuel. Where it comes to such an
instruction it fails there. All that tracing adds is an entry for each step. The entries are those
of the run itself and not of the runs that its calls are evaluated by, each leads to the next one,
and together they account for all steps and all cycles.

* `Library.Recounts` — an entry tells what one of the steps of a run did;
* `Library.Chronicle` — what the recorded steps of a machine say, which each step keeps;
* `Library.Accounts` — what the trace of a run says that has ended;
* `Library.run_traced` — what tracing changes, and that traces are complete.
-/

namespace RegisterMachine

/-! ### What is recorded -/

/-- The step after the one that an entry tells of is at an index: at the next one if the entry has
no label, or else at the index of its label. After `EXIT` there is no step. -/
def TraceEntry.LeadsTo (p : Program) (entry : TraceEntry) (pc : Nat) : Prop :=
  match entry.next with
  | none => pc = entry.pc + 1
  | some .exit => False
  | some (.numbered n) => p.indexOf (some (.numbered n)) = .ok pc

/-- There is no step after the one that an entry tells of: it went to `EXIT`, or to the end of the
program. -/
def TraceEntry.IsFinal (p : Program) (entry : TraceEntry) : Prop :=
  entry.next = some .exit ∨ (entry.next = none ∧ entry.pc + 1 = p.code.length)

namespace Machine

variable {m m' : Machine} {i : Instruction} {effect : Effect}

/-- The entry of a step that executes the next instruction of a machine. -/
def entry (m : Machine) (i : Instruction) (effect : Effect) : TraceEntry :=
  ⟨m.steps + 1, m.pc, i.operation.text, effect.jump, effect.cycles, m.cycles + effect.cycles⟩

/-- Where a machine goes on is where the entry of the step leads, if there is a step after it. -/
theorem leadsTo_of_goTo (entry : TraceEntry) (hentry : entry.pc = m.pc) (hh : m.halted = false)
    (hpc : m.pc < m.program.code.length) (h : m.goTo entry.next = .ok m') :
    (m'.halted = false → entry.LeadsTo m.program m'.pc) ∧
      (m'.halted = true → entry.IsFinal m.program) := by
  rw [TraceEntry.LeadsTo, TraceEntry.IsFinal, hentry]
  generalize entry.next = jump at h ⊢
  rcases jump with _ | l
  · obtain rfl := Except.ok.inj h
    refine ⟨fun _ => rfl, fun hend => .inr ⟨rfl, ?_⟩⟩
    have hle : m.program.code.length ≤ m.pc + 1 := of_decide_eq_true hend
    exact Nat.le_antisymm hpc hle
  · cases l with
    | exit =>
      obtain rfl := Except.ok.inj h
      exact ⟨nofun, fun _ => .inl rfl⟩
    | numbered n =>
      obtain ⟨k, hk, hm'⟩ := Bounded.bind_eq_ok.1 h
      obtain rfl := Except.ok.inj hm'
      refine ⟨fun _ => hk, fun hend => ?_⟩
      rw [hh] at hend
      cases hend

/-- A step that is recorded adds its entry, which has the counts after the step and leads to where
the machine goes on. -/
theorem log_of_step {evaluate : Evaluator} {jump : Option Label}
    (htraced : m.traced = true) (hcurrent : m.current? = some i)
    (hexecute : i.operation.execute (evaluate m.program.name m.store) m.store = .ok effect)
    (h : m.step evaluate = .ok (jump, m')) :
    m'.traced = true ∧ m'.log = m.entry i effect :: m.log ∧
      (m.entry i effect).step = m'.steps ∧ (m.entry i effect).total = m'.cycles ∧
      (m'.halted = false → (m.entry i effect).LeadsTo m.program m'.pc) ∧
      (m'.halted = true → (m.entry i effect).IsFinal m.program) := by
  obtain ⟨hh, hi⟩ := current?_eq_some_iff.1 hcurrent
  have hpc : m.pc < m.program.code.length := (List.getElem?_eq_some_iff.1 hi).1
  rw [step_of_not_halted hh hi, hexecute, Bounded.ok_bind] at h
  obtain ⟨next, hgoTo, h⟩ := Bounded.bind_eq_ok.1 h
  obtain ⟨recorded, hrecord, h⟩ := Bounded.bind_eq_ok.1 h
  obtain ⟨-, rfl⟩ := Prod.mk.inj (Except.ok.inj h)
  have hnext := Bounded.lift_eq_ok.1 hgoTo
  have hleads := leadsTo_of_goTo (m := m.affect effect) (m.entry i effect) rfl hh hpc hnext
  obtain ⟨pc, halted, rfl⟩ := frame_goTo hnext
  have htraced' : ({ m.affect effect with pc, halted } : Machine).traced = true := htraced
  rw [Bounded.lift_eq_ok, record, if_pos htraced'] at hrecord
  obtain ⟨text, htext, hrecord⟩ := Bounded.bind_eq_ok.1 hrecord
  obtain ⟨-, rfl⟩ := showing_eq_ok_iff.1 htext
  obtain rfl := Except.ok.inj hrecord
  exact ⟨htraced, rfl, rfl, rfl, hleads⟩

end Machine

/-! ### Traces of runs -/

/-- An entry follows another one in a trace of a program: it is the next step, it is where the other
one leads, and it adds its cycles to the total. -/
structure TraceEntry.Follows (p : Program) (a b : TraceEntry) : Prop where
  /-- The steps are numbered in a row. -/
  step_eq : b.step = a.step + 1
  /-- The first one leads to the instruction of the second one. -/
  leadsTo : a.LeadsTo p b.pc
  /-- The cycles add up. -/
  total_eq : b.total = a.total + b.cycles

namespace Library

variable {lib : Library} {p : Program} {inputs : List Nat} {m m' : Machine} {costs : List Nat}

/-- The entry tells what a machine did after `k` steps. -/
def Recounts (lib : Library) (m₀ : Machine) (k : Nat) (entry : TraceEntry) : Prop :=
  ∃ (costs : List Nat) (m : Machine) (i : Instruction) (fuel : Nat) (effect : Effect),
    lib.Takes m₀ costs m ∧ costs.length = k ∧ m.current? = some i ∧
      i.operation.execute (lib.evaluator fuel m.program.name m.store) m.store = .ok effect ∧
      entry = m.entry i effect

/-- What the recorded steps of a machine say that was loaded with a program. -/
structure Chronicle (lib : Library) (p : Program) (inputs : List Nat) (m : Machine) : Prop where
  /-- The steps are recorded. -/
  traced : m.traced = true
  /-- There is an entry for each step. -/
  length_eq : m.trace.length = m.steps
  /-- The entries tell of the steps, one after another. -/
  recounts : ∀ k entry, m.trace[k]? = some entry → lib.Recounts (.initial p inputs true) k entry
  /-- Each entry follows the one before it. -/
  chain : m.trace.IsChain (TraceEntry.Follows p)
  /-- The last entry has the counts of the machine, and leads to where the machine is. -/
  last : ∀ entry, m.trace.getLast? = some entry → entry.step = m.steps ∧ entry.total = m.cycles ∧
    (m.halted = false → entry.LeadsTo p m.pc) ∧ (m.halted = true → entry.IsFinal p)

theorem chronicle_initial (p : Program) (inputs : List Nat) :
    lib.Chronicle p inputs (.initial p inputs true) where
  traced := rfl
  length_eq := rfl
  recounts := nofun
  chain := .nil
  last := nofun

/-- A machine that takes steps goes on with its chronicle. -/
theorem Takes.chronicle (h : lib.Takes (.initial p inputs true) costs m) :
    lib.Chronicle p inputs m := by
  induction h with
  | none => exact chronicle_initial p inputs
  | @step costs m m' i fuel effect htakes hcurrent hexecute hstep ih =>
    obtain ⟨hprogram, hsteps, -⟩ := htakes.counts
    obtain ⟨htraced, hlog, hend⟩ := Machine.log_of_step ih.traced hcurrent hexecute hstep
    rw [hprogram] at hend
    have htrace : m'.trace = m.trace ++ [m.entry i effect] := by
      rw [Machine.trace, hlog, List.reverse_cons]
      rfl
    have hcount : m.trace.length = costs.length := by
      rw [ih.length_eq, hsteps]
      exact Nat.zero_add _
    refine ⟨htraced, ?_, fun k entry hentry => ?_, ?_, fun entry hentry => ?_⟩
    · rw [htrace, List.length_append, ih.length_eq, ← hend.1]
      rfl
    · rw [htrace, List.getElem?_append] at hentry
      split at hentry
      · exact ih.recounts k entry hentry
      · -- only the new entry is left
        rename_i hk
        obtain ⟨hlt, rfl⟩ := List.getElem?_eq_some_iff.1 hentry
        have hk' : costs.length = k := by
          rw [List.length_singleton] at hlt
          omega
        exact ⟨costs, m, i, fuel, effect, htakes, hk', hcurrent, hexecute, by simp⟩
    · rw [htrace]
      refine ih.chain.append (.singleton _) fun a ha b hb => ?_
      obtain rfl := Option.some.inj hb
      obtain ⟨hstep, htotal, hnext, -⟩ := ih.last a ha
      refine ⟨?_, hnext (Machine.halted_of_current? hcurrent), ?_⟩
      · rw [hstep]
        rfl
      · rw [htotal]
        rfl
    · rw [htrace, List.getLast?_concat] at hentry
      obtain rfl := Option.some.inj hentry
      exact hend

/-- What a trace says of a run that has ended. -/
structure Accounts (lib : Library) (p : Program) (inputs : List Nat) (r : RunResult) : Prop where
  /-- There is an entry for each step. -/
  length_eq : r.trace.length = r.steps
  /-- The entries are numbered from one. -/
  step_eq : ∀ k entry, r.trace[k]? = some entry → entry.step = k + 1
  /-- Each entry tells of a step of the run itself. -/
  recounts : ∀ k entry, r.trace[k]? = some entry → lib.Recounts (.initial p inputs true) k entry
  /-- The first entry tells of the first instruction. -/
  head : ∀ entry, r.trace.head? = some entry → entry.pc = 0 ∧ entry.total = entry.cycles
  /-- Each entry follows the one before it. -/
  chain : r.trace.IsChain (TraceEntry.Follows p)
  /-- The last entry has all cycles of the run, and there is no step after it. -/
  last : ∀ entry, r.trace.getLast? = some entry → entry.total = r.cycles ∧ entry.IsFinal p
  /-- A run without steps takes no cycles. -/
  cycles_eq : r.trace = [] → r.cycles = 0

/-- A machine that has halted accounts for its run. -/
theorem Takes.accounts (h : lib.Takes (.initial p inputs true) costs m) (hh : m.halted = true) :
    lib.Accounts p inputs m.result := by
  have hm : lib.Chronicle p inputs m := h.chronicle
  obtain ⟨-, hsteps, hcycles⟩ := h.counts
  refine ⟨hm.length_eq, fun k entry hentry => ?_, hm.recounts, fun entry hentry => ?_, hm.chain,
    fun entry hentry => ?_, fun hnil => ?_⟩
  · obtain ⟨costs', m', i, fuel, effect, htakes, rfl, -, -, rfl⟩ := hm.recounts k entry hentry
    have hcount : m'.steps = 0 + costs'.length := htakes.counts.2.1
    exact congrArg Nat.succ (hcount.trans (Nat.zero_add _))
  · rw [List.head?_eq_getElem?] at hentry
    obtain ⟨costs', m', i, fuel, effect, htakes, hnone, -, -, rfl⟩ := hm.recounts 0 entry hentry
    obtain rfl := List.length_eq_zero_iff.1 hnone
    obtain rfl := htakes.eq_of_nil
    exact ⟨rfl, Nat.zero_add _⟩
  · obtain ⟨-, htotal, -, hfinal⟩ := hm.last entry hentry
    exact ⟨htotal, hfinal hh⟩
  · have hnone : costs.length = 0 := by
      have hlength := hm.length_eq
      rw [show m.trace = [] from hnil, hsteps] at hlength
      exact (Nat.zero_add _).symm.trans hlength.symm
    rw [List.length_eq_zero_iff.1 hnone] at hcycles
    exact hcycles

/-- **Traces.** If the statements of all instructions that a run executes can be written, a run that
is not traced is the traced one without its trace: both end with the same values and counts, fail
with the same error, or need more fuel. If one of them cannot be written, the traced run fails for
it. The trace of a run that ends has an entry for each of its steps and none for those of other
runs; each entry follows the one before it, and together they account for the cycles of the run. -/
theorem run_traced (lib : Library) (p : Program) (values : List InputValue) :
    (lib.Recordable p values →
      ∀ fuel, lib.run fuel p values false = RunResult.untraced <$> lib.run fuel p values true) ∧
    (¬ lib.Recordable p values →
      ∃ fuel, lib.run fuel p values true = .error (.error (.numeral .tooLong))) ∧
    ∀ fuel r, lib.run fuel p values true = .ok r →
      ∃ inputs, acceptInputs values = .ok inputs ∧ lib.Accounts p inputs r := by
  refine ⟨run_untraced, exists_run_eq_tooLong, fun fuel r h => ?_⟩
  rw [run_eq] at h
  obtain ⟨m₀, hstart, h⟩ := Bounded.bind_eq_ok.1 h
  obtain ⟨m, hfinish, h⟩ := Bounded.bind_eq_ok.1 h
  obtain rfl := Except.ok.inj h
  obtain ⟨-, inputs, haccept, -, rfl⟩ := start_eq_ok_iff.1 (Bounded.lift_eq_ok.1 hstart)
  obtain ⟨costs, htakes, hh⟩ := exists_takes_of_finish hfinish
  exact ⟨inputs, haccept, htakes.accounts hh⟩

/-- The trace of a program that calls another one has its own two steps. -/
theorem viaOne_run_traced :
    nestedLibrary.Recordable viaOne [.integer 3] ∧
    ∃ r, nestedLibrary.run 4 viaOne [.integer 3] true = .ok r ∧ r.trace.map TraceEntry.pc = [0, 1] ∧
      nestedLibrary.run 4 viaOne [.integer 3] false = .ok r.untraced ∧
      nestedLibrary.Accounts viaOne [3] r := by
  obtain ⟨r, hr, hplaces⟩ : ∃ r, nestedLibrary.run 4 viaOne [.integer 3] true = .ok r ∧
      r.trace.map TraceEntry.pc = [0, 1] := ⟨_, rfl, rfl⟩
  have hwritable : ∀ i ∈ viaOne.code, i.operation.Writable := by decide
  obtain ⟨hsame, -, haccounts⟩ := run_traced nestedLibrary viaOne [.integer 3]
  have hrecordable : nestedLibrary.Recordable viaOne [.integer 3] := recordable_of_code hwritable
  obtain ⟨inputs, haccept, hr'⟩ := haccounts 4 r hr
  obtain rfl := Except.ok.inj haccept
  have huntraced := hsame hrecordable 4
  rw [hr] at huntraced
  exact ⟨hrecordable, r, hr, hplaces, huntraced, hr'⟩

/-- A run may end, and not where it is traced. -/
theorem brimmed_run_traced :
    (∃ fuel r, empty.run fuel brimmed [] false = .ok r) ∧
      ∀ fuel r, empty.run fuel brimmed [] true ≠ .ok r := by
  have hends : (empty.run 4 brimmed [] false).toOption.isSome = true := by decide +kernel
  obtain ⟨fuel, hfails⟩ := exists_run_eq_tooLong (not_recordable_brimmed empty)
  refine ⟨⟨4, ?_⟩, fun fuel' r hr => ?_⟩
  · rcases hr : empty.run 4 brimmed [] false with stop | r
    · rw [hr] at hends
      cases hends
    · exact ⟨r, rfl⟩
  · have hsame : (.error (.error (.numeral .tooLong)) : Bounded RunResult) = .ok r :=
      run_agrees nofun nofun hfails hr
    cases hsame

end Library

end RegisterMachine
