import RegisterMachine.Proofs.Run

/-!
# Runs without a bound

The runs that calls are evaluated by get less and less fuel. As more fuel never changes a result,
there is one runner that all of them settle on, and one meaning of calls.

* `Library.runnerBy`, `Library.limitRunner` — the runs that calls are evaluated by, with a bound on
  the fuel and without one;
* `Library.meaning` — the values of calls without a bound;
* `Library.limitRunner_eq_ok_iff` — a called program has a result if and only if a path from its
  start ends;
* `Library.path_of_run`, `Library.run_of_path` — the same for whole runs.
-/

namespace RegisterMachine

/-! ### The first machine -/

namespace Machine

/-- The machine that is loaded with a program and enough inputs. -/
def initial (p : Program) (inputs : List Nat) (traced : Bool) : Machine where
  program := p
  store := .ofVariables p.vars fun v => (v.inputIndex?.bind (inputs[·]?)).getD 0
  pc := 0
  cycles := 0
  steps := 0
  halted := p.code.isEmpty
  traced := traced
  log := []

variable {p : Program} {inputs : List Nat} {traced : Bool}

theorem load_eq_ok_iff {m : Machine} :
    load p inputs traced = .ok m ↔
      p.validate = .ok () ∧ p.requiredInputs ≤ inputs.length ∧ m = initial p inputs traced := by
  cases hv : p.validate with
  | error cause =>
    have hload : load p inputs traced = .error cause := by
      rw [load, hv]
      rfl
    simp [hload]
  | ok u =>
    rcases Nat.lt_or_ge inputs.length p.requiredInputs with h | h
    · have hload : load p inputs traced =
          .error ((Error.insufficientInput p.requiredInputs inputs.length p.name).reporting
            p.requiredInputs) := by
        rw [load, hv, if_pos h]
        rfl
      simp [hload, h]
    · have hload : load p inputs traced = .ok (initial p inputs traced) := by
        simp [load, hv, Nat.not_lt.2 h, initial]
      simp [hload, h, eq_comm]

theorem initial_sound (p : Program) (inputs : List Nat) (traced : Bool) :
    (initial p inputs traced).Sound := by
  intro h
  have hne : p.code ≠ [] := by
    rintro hnil
    simp [initial, hnil] at h
  exact List.length_pos_iff.2 hne

theorem initial_config (p : Program) (inputs : List Nat) (traced : Bool) :
    (initial p inputs traced).config = ⟨0, p.initial inputs⟩ := by
  have hplace : (initial p inputs traced).place = 0 := by
    rw [place]
    split
    · rename_i h
      exact List.length_eq_zero_iff.2 (List.isEmpty_iff.1 h)
    · rfl
  rw [config, hplace]
  exact congrArg (Config.mk 0) (p.get_initialStore inputs)

end Machine

/-! ### Runners -/

namespace Library

/-- The values of calls for a runner. -/
def evaluatorBy (skip : Skip) (lib : Library) (run : Runner) : Evaluator := fun caller store call =>
  callBy skip lib run caller store.get call

/-- The result and the cycles of a program on some inputs. -/
def runnerBy (skip : Skip) (lib : Library) : Nat → Runner
  | 0, _, _ => .error .outOfFuel
  | fuel + 1, p, inputs => do
    let m ← (Machine.load p inputs false : Bounded Machine)
    let m ← m.finish (evaluatorBy skip lib (runnerBy skip lib fuel)) fuel
    return (m.store.get .result, m.cycles)

/-- Runs that skip nothing are the runs of the library. -/
theorem runnerBy_nothing (lib : Library) (fuel : Nat) :
    runnerBy Skip.nothing lib fuel = lib.runner fuel := by
  induction fuel with
  | zero => rfl
  | succ fuel ih =>
    funext p inputs
    rw [runnerBy, runner]
    congr 1
    funext m
    have he : evaluatorBy Skip.nothing lib (runnerBy Skip.nothing lib fuel) =
        lib.callValue (lib.runner fuel) := by
      funext caller store call
      rw [evaluatorBy, callBy_nothing, ih]
    rw [he, Machine.finish]
    rcases m.advance (lib.callValue (lib.runner fuel)) fuel with ⟨m', _ | stop⟩ <;> rfl

theorem evaluatorBy_nothing (lib : Library) (fuel : Nat) :
    evaluatorBy Skip.nothing lib (runnerBy Skip.nothing lib fuel) = lib.evaluator fuel := by
  funext caller store call
  rw [evaluatorBy, callBy_nothing, runnerBy_nothing, evaluator]

section Limit

variable (skip : Skip) (lib : Library)

/-- More fuel does not change the result of a run. -/
theorem grows_runnerBy (p : Program) (inputs : List Nat) :
    Bounded.Grows (runnerBy skip lib · p inputs) := by
  intro fuel
  induction fuel generalizing p inputs with
  | zero => exact .inl rfl
  | succ fuel ih =>
    refine Bounded.Below.bind (.refl _) fun m => .bind ?_ fun m' => .refl _
    refine m.finish_below (fun caller store call => ?_) (Nat.le_succ fuel)
    exact (settles_callBy caller store.get (fun q values => (ih q values).settles) call).below 0

/-- The result and the cycles of a program on some inputs, with as much fuel as it takes. -/
noncomputable def limitRunner : Runner := fun p inputs =>
  Bounded.limit (runnerBy skip lib · p inputs)

theorem settles_runnerBy (p : Program) (inputs : List Nat) :
    Bounded.Settles (runnerBy skip lib · p inputs) (limitRunner skip lib p inputs) :=
  (grows_runnerBy skip lib p inputs).settles_limit

theorem settles_evaluatorBy (caller : String) (store : Store) (call : Call) :
    Bounded.Settles (fun fuel => evaluatorBy skip lib (runnerBy skip lib fuel) caller store call)
      (callBy skip lib (limitRunner skip lib) caller store.get call) :=
  settles_callBy caller store.get (settles_runnerBy skip lib) call

/-- The values of calls, with as much fuel as they take. -/
noncomputable def meaning : Meaning := fun env call =>
  callBy skip lib (limitRunner skip lib) "" env call

/-- A run that ends within some fuel is a path. -/
theorem path_of_finish {fuel steps : Nat} {m m' : Machine} (hm : m.Sound)
    (h : m.finish (evaluatorBy skip lib (runnerBy skip lib fuel)) steps = .ok m') :
    ∃ n cost, m'.cycles = m.cycles + cost ∧
      m.program.Path (meaning skip lib) n cost m.config m'.config ∧
      m.program.code.length ≤ m'.config.place := by
  refine (Machine.path_of_finish (fun store call r hr => ?_) hm h).2
  exact callBy_caller_eq_ok skip lib _ _ "" store.get
    (((settles_evaluatorBy skip lib _ store call).below fuel).eq_ok hr)

/-- A path to the end is a run that ends within some fuel, if its steps are not recorded. -/
theorem exists_finish {n cost : Nat} {m : Machine} {d : Config} (hm : m.Sound)
    (htraced : m.traced = false) (h : m.program.Path (meaning skip lib) n cost m.config d)
    (hend : m.program.code.length ≤ d.place) :
    ∃ m', m'.config = d ∧ m'.cycles = m.cycles + cost ∧
      ∃ fuel, m.finish (evaluatorBy skip lib (runnerBy skip lib fuel)) fuel = .ok m' := by
  have hev : ∀ (store : Store) call r, meaning skip lib store.get call = .ok r →
      evaluatorBy skip lib (limitRunner skip lib) m.program.name store call = .ok r :=
    fun store call r hr => callBy_caller_eq_ok skip lib _ "" _ store.get hr
  obtain ⟨m', hfinish, hconfig, hcycles⟩ := Machine.exists_finish hev hm htraced h hend
  obtain ⟨fuel, hfuel⟩ :=
    (Machine.settles_finish (settles_evaluatorBy skip lib) n m).eq_ok_iff.1 hfinish
  refine ⟨m', hconfig, hcycles, max fuel n, ?_⟩
  refine (m.finish_below (fun caller store call => ?_) (le_max_right fuel n)).eq_ok hfuel
  refine (settles_callBy caller store.get
    (fun q values => Bounded.Below.settles ?_) call).below 0
  exact (grows_runnerBy skip lib q values).below (le_max_left fuel n)

/-- A called program has a result if and only if a path from its start ends. -/
theorem limitRunner_eq_ok_iff {p : Program} {inputs : List Nat} {value cycles : Nat} :
    limitRunner skip lib p inputs = .ok (value, cycles) ↔
      p.validate = .ok () ∧ p.requiredInputs ≤ inputs.length ∧
        ∃ n d, p.Path (meaning skip lib) n cycles ⟨0, p.initial inputs⟩ d ∧
          p.code.length ≤ d.place ∧ d.env .result = value := by
  rw [(settles_runnerBy skip lib p inputs).eq_ok_iff]
  constructor
  · rintro ⟨_ | fuel, h⟩
    · simp [runnerBy] at h
    · obtain ⟨m, hload, h⟩ := Bounded.bind_eq_ok.1 h
      obtain ⟨m', hfinish, h'⟩ := Bounded.bind_eq_ok.1 h
      obtain ⟨hvalid, hinputs, rfl⟩ := Machine.load_eq_ok_iff.1 (Bounded.lift_eq_ok.1 hload)
      obtain ⟨rfl, rfl⟩ := Prod.mk.inj (Except.ok.inj h')
      obtain ⟨n, cost, hcycles, hpath, hend⟩ :=
        path_of_finish skip lib (Machine.initial_sound p inputs false) hfinish
      rw [Machine.initial_config] at hpath
      obtain rfl : m'.cycles = cost := hcycles.trans (Nat.zero_add cost)
      exact ⟨hvalid, hinputs, n, m'.config, hpath, hend, rfl⟩
  · rintro ⟨hvalid, hinputs, n, d, hpath, hend, rfl⟩
    obtain ⟨m', rfl, hcycles, fuel, hfinish⟩ :=
      exists_finish skip lib (Machine.initial_sound p inputs false) rfl
        (by rw [Machine.initial_config]; exact hpath) hend
    obtain rfl : m'.cycles = cycles := hcycles.trans (Nat.zero_add cycles)
    refine ⟨fuel + 1, Bounded.bind_eq_ok.2 ⟨_, Bounded.lift_eq_ok.2
      (Machine.load_eq_ok_iff.2 ⟨hvalid, hinputs, rfl⟩), ?_⟩⟩
    exact Bounded.bind_eq_ok.2 ⟨m', hfinish, rfl⟩

end Limit

/-! ### Whole runs -/

section Whole

variable {lib : Library} {p : Program} {values : List InputValue} {traced : Bool}

theorem start_eq_ok_iff {m : Machine} :
    Machine.start p values traced = .ok m ↔
      p.validate = .ok () ∧ ∃ inputs, acceptInputs values = .ok inputs ∧
        p.requiredInputs ≤ inputs.length ∧ m = Machine.initial p inputs traced := by
  cases hv : p.validate with
  | error cause =>
    have hstart : Machine.start p values traced = .error cause := by
      rw [Machine.start, hv]
      rfl
    simp [hstart]
  | ok u =>
    cases ha : acceptInputs values with
    | error cause =>
      have hstart : Machine.start p values traced = .error cause := by
        rw [Machine.start, hv, ha]
        rfl
      simp [hstart]
    | ok inputs =>
      have hstart : Machine.start p values traced = Machine.load p inputs traced := by
        rw [Machine.start, hv, ha]
        rfl
      simp [hstart, Machine.load_eq_ok_iff, hv]

theorem run_eq (fuel : Nat) :
    lib.run fuel p values traced = (do
      let m ← (Machine.start p values traced : Bounded Machine)
      let m ← m.finish (lib.evaluator fuel) fuel
      return m.result) := by
  rw [run]
  congr 1
  funext m
  rw [Machine.finish]
  rcases m.advance (lib.evaluator fuel) fuel with ⟨m', _ | stop⟩ <;> rfl

/-- A run that ends is a path to the end of its program, on the accepted inputs. -/
theorem path_of_run {fuel : Nat} {r : RunResult} (h : lib.run fuel p values traced = .ok r) :
    p.validate = .ok () ∧ ∃ inputs, acceptInputs values = .ok inputs ∧
      p.requiredInputs ≤ inputs.length ∧ ∃ n d,
        p.Path (meaning Skip.nothing lib) n r.cycles ⟨0, p.initial inputs⟩ d ∧
        p.code.length ≤ d.place ∧ r.store.get = d.env ∧ r.result = d.env .result := by
  rw [run_eq] at h
  obtain ⟨m, hstart, h⟩ := Bounded.bind_eq_ok.1 h
  obtain ⟨m', hfinish, h⟩ := Bounded.bind_eq_ok.1 h
  obtain rfl := Except.ok.inj h
  obtain ⟨hvalid, inputs, haccept, hinputs, rfl⟩ := start_eq_ok_iff.1 (Bounded.lift_eq_ok.1 hstart)
  rw [← evaluatorBy_nothing] at hfinish
  obtain ⟨n, cost, hcycles, hpath, hend⟩ :=
    path_of_finish Skip.nothing lib (Machine.initial_sound p inputs traced) hfinish
  rw [Machine.initial_config] at hpath
  obtain rfl : m'.cycles = cost := hcycles.trans (Nat.zero_add cost)
  exact ⟨hvalid, inputs, haccept, hinputs, n, m'.config, hpath, hend, rfl, rfl⟩

/-- All runs of a program on some inputs that end do so with the same values. -/
theorem run_unique {fuel fuel' : Nat} {r r' : RunResult}
    (h : lib.run fuel p values traced = .ok r) (h' : lib.run fuel' p values traced = .ok r') :
    r.store.get = r'.store.get ∧ r.result = r'.result := by
  obtain ⟨-, inputs, haccept, -, n, d, hpath, hend, hstore, hresult⟩ := path_of_run h
  obtain ⟨-, inputs', haccept', -, n', d', hpath', hend', hstore', hresult'⟩ := path_of_run h'
  obtain rfl := Except.ok.inj (haccept.symm.trans haccept')
  obtain ⟨-, -, rfl⟩ := hpath.end_unique hend hpath' hend'
  exact ⟨hstore.trans hstore'.symm, hresult.trans hresult'.symm⟩

/-- A path to the end of a program is a run that ends, if its steps are not recorded. -/
theorem run_of_path {inputs : List Nat} (hvalid : p.validate = .ok ())
    (haccept : acceptInputs values = .ok inputs) (hinputs : p.requiredInputs ≤ inputs.length)
    {n cost : Nat} {d : Config}
    (h : p.Path (meaning Skip.nothing lib) n cost ⟨0, p.initial inputs⟩ d)
    (hend : p.code.length ≤ d.place) :
    ∃ fuel r, lib.run fuel p values false = .ok r ∧ r.store.get = d.env ∧
      r.result = d.env .result ∧ r.cycles = cost := by
  obtain ⟨m', rfl, hcycles, fuel, hfinish⟩ :=
    exists_finish Skip.nothing lib (Machine.initial_sound p inputs false) rfl
      (by rw [Machine.initial_config]; exact h) hend
  rw [evaluatorBy_nothing] at hfinish
  refine ⟨fuel, m'.result, ?_, rfl, rfl, hcycles.trans (Nat.zero_add cost)⟩
  rw [run_eq]
  exact Bounded.bind_eq_ok.2 ⟨_, Bounded.lift_eq_ok.2
    (start_eq_ok_iff.2 ⟨hvalid, inputs, haccept, hinputs, rfl⟩),
    Bounded.bind_eq_ok.2 ⟨m', hfinish, rfl⟩⟩

end Whole

end Library

end RegisterMachine
