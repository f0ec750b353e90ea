import RegisterMachine.Proofs.Evaluation
import RegisterMachine.Proofs.Place

/-!
# Runs as paths

The machine that is stepped holds a program, a store and the counts of a run. Seen as a
configuration it has a place and a valuation only, and its steps are the steps of paths. So a run
that ends is a path to the end of the program, and what fuel it takes does not matter.

* `Machine.step_eq_ok`, `Machine.exists_step` — steps of machines and of paths;
* `Machine.call_of_step_eq_error` — a step can fail at a call only, if all targets are declared;
* `Machine.finish` — the last machine of a run, which more fuel cannot change;
* `Machine.path_of_finish`, `Machine.exists_finish` — a run ends if and only if a path does;
* `Machine.exists_stop_of_finish` — what a run comes to that does not end.
-/

namespace RegisterMachine

namespace Machine

/-! ### Configurations -/

/-- The place of a machine in its program. -/
def place (m : Machine) : Nat :=
  if m.halted then m.program.code.length else m.pc

/-- What the next steps of a machine depend on. -/
def config (m : Machine) : Config :=
  ⟨m.place, m.store.get⟩

/-- A machine that has not halted is at an instruction. -/
def Sound (m : Machine) : Prop :=
  m.halted = false → m.pc < m.program.code.length

variable {m : Machine}

theorem place_of_not_halted (h : m.halted = false) : m.place = m.pc := by
  rw [place, h]
  rfl

theorem length_le_place_iff (hm : m.Sound) : m.program.code.length ≤ m.place ↔ m.halted = true := by
  cases h : m.halted with
  | true => simp [place, h]
  | false => simpa [place, h] using hm h

/-- Deciding where to go on changes the place and nothing else. -/
theorem frame_goTo {m' : Machine} {jump : Option Label} (h : m.goTo jump = .ok m') :
    ∃ pc halted, m' = { m with pc, halted } := by
  rcases jump with _ | l
  · exact ⟨_, _, (Except.ok.inj h).symm⟩
  · cases l with
    | exit => exact ⟨_, _, (Except.ok.inj h).symm⟩
    | numbered n =>
      obtain ⟨k, -, hk⟩ := Bounded.bind_eq_ok.1 h
      exact ⟨_, _, (Except.ok.inj hk).symm⟩

/-- Where a machine goes on. -/
theorem goTo_eq_ok {m' : Machine} {jump : Option Label} (hm : m.pc < m.program.code.length)
    (hh : m.halted = false) (h : m.goTo jump = .ok m') :
    m.program.goOn (m.pc + 1) jump = some m'.place ∧ m'.Sound := by
  rcases jump with _ | l
  · obtain rfl := Except.ok.inj h
    refine ⟨congrArg some ?_, fun hn => by simpa using hn⟩
    rw [place]
    split
    · rename_i hlast
      exact Nat.le_antisymm hm (of_decide_eq_true hlast)
    · rfl
  · cases l with
    | exit =>
      obtain rfl := Except.ok.inj h
      exact ⟨rfl, fun hn => by simp at hn⟩
    | numbered n =>
      cases hi : m.program.indexOf? (.numbered n) with
      | none => simp [goTo, Program.indexOf, hi] at h
      | some k =>
        have hk : m.program.placeOf (.numbered n) = some k := hi
        have hm' : m' = { m with pc := k } := by
          simpa [goTo, Program.indexOf, hi] using h.symm
        obtain ⟨i, hki, -⟩ := Program.placeOf_numbered_iff.1 hk
        subst hm'
        have hplace : ({ m with pc := k } : Machine).place = k := place_of_not_halted hh
        rw [hplace]
        exact ⟨hk, fun _ => (List.getElem?_eq_some_iff.1 hki).1⟩

theorem exists_goTo {jump : Option Label} {next : Nat}
    (h : m.program.goOn (m.pc + 1) jump = some next) : ∃ m', m.goTo jump = .ok m' := by
  rcases jump with _ | l
  · exact ⟨_, rfl⟩
  · cases l with
    | exit => exact ⟨_, rfl⟩
    | numbered n =>
      have hi : m.program.indexOf? (.numbered n) = some next := h
      exact ⟨{ m with pc := next }, by simp [goTo, Program.indexOf, hi]⟩

/-- Recording a step changes the log and nothing else. -/
theorem frame_record {r : Machine} {pc : Nat} {i : Instruction} {effect : Effect}
    (h : m.record pc i effect = .ok r) : ∃ log, r = { m with log } := by
  rw [record] at h
  split at h
  · obtain ⟨text, -, hr⟩ := Bounded.bind_eq_ok.1 h
    exact ⟨_, (Except.ok.inj hr).symm⟩
  · exact ⟨_, (Except.ok.inj h).symm⟩

theorem record_of_not_traced (h : m.traced = false) (pc : Nat) (i : Instruction)
    (effect : Effect) : m.record pc i effect = .ok m := by
  rw [record, h]
  rfl

/-! ### Steps -/

section Steps

variable {evaluate : Evaluator} {ev : Meaning}

/-- The machine after an outcome, before it is decided where to go on. -/
def after (m : Machine) (out : Outcome) : Machine :=
  { m with
    store := (out.effect m.store).store
    cycles := m.cycles + out.cycles
    steps := m.steps + 1 }

theorem affect_effect (m : Machine) (out : Outcome) :
    m.affect (out.effect m.store) = m.after out := by
  rw [affect, after, Outcome.effect_cycles]

/-- A machine that has halted stays as it is. -/
theorem step_of_halted (h : m.halted = true) : m.step evaluate = .ok (some .exit, m) := by
  rw [step, perform, if_pos h]
  rfl

theorem step_of_nowhere (hh : m.halted = false) (hi : m.program.code[m.pc]? = none) :
    m.step evaluate = .error (.error (.programCounter m.pc m.program.name)) := by
  rw [step, perform, if_neg (Bool.eq_false_iff.1 hh), hi]
  rfl

/-- What a step of a machine that has not halted is made of. -/
theorem step_of_not_halted {i : Instruction} (hh : m.halted = false)
    (hi : m.program.code[m.pc]? = some i) :
    m.step evaluate = (do
      let effect ← i.operation.execute (evaluate m.program.name m.store) m.store
      let next ← ((m.affect effect).goTo effect.jump : Bounded Machine)
      let recorded ← (next.record m.pc i effect : Bounded Machine)
      return (effect.jump, recorded)) := by
  rw [step, perform, if_neg (Bool.eq_false_iff.1 hh)]
  simp only [hi]
  rcases i.operation.execute (evaluate m.program.name m.store) m.store with stop | effect
  · rfl
  · dsimp only [Bounded.ok_bind]
    rcases (m.affect effect).goTo effect.jump with cause | next
    · rfl
    · dsimp only [Bounded.lift_ok, Bounded.ok_bind]
      cases next.record m.pc i effect <;> rfl

/-- The same, by what the instruction does to a valuation. -/
theorem step_of_current {i : Instruction} (hh : m.halted = false)
    (hi : m.program.code[m.pc]? = some i) :
    m.step evaluate = (do
      let out ← i.operation.outcome (evaluate m.program.name m.store) m.store.get
      let next ← ((m.after out).goTo out.jump : Bounded Machine)
      let recorded ← (next.record m.pc i (out.effect m.store) : Bounded Machine)
      return (out.jump, recorded)) := by
  rw [step_of_not_halted hh hi, Operation.execute_eq_outcome, bind_assoc]
  refine bind_congr fun out => ?_
  simp only [Bounded.pure_eq_ok, Bounded.ok_bind, affect_effect, Outcome.effect_jump]

/-- Where steps are not recorded, nothing comes after the decision where to go on. -/
theorem step_of_not_traced {i : Instruction} (htraced : m.traced = false) (hh : m.halted = false)
    (hi : m.program.code[m.pc]? = some i) :
    m.step evaluate = (do
      let out ← i.operation.outcome (evaluate m.program.name m.store) m.store.get
      let next ← ((m.after out).goTo out.jump : Bounded Machine)
      return (out.jump, next)) := by
  rw [step_of_current hh hi]
  refine bind_congr fun out => ?_
  rcases hgoTo : (m.after out).goTo out.jump with cause | next
  · rfl
  · have hnext : next.traced = false := by
      obtain ⟨pc, halted, rfl⟩ := frame_goTo hgoTo
      exact htraced
    rw [Bounded.lift_ok, Bounded.ok_bind, Bounded.ok_bind, record_of_not_traced hnext]
    rfl

/-- A step of a machine is a step of a path, if the values of calls are those of a meaning. -/
theorem step_eq_ok {m' : Machine} {jump : Option Label} (hm : m.Sound) (hh : m.halted = false)
    (hev : ∀ call r, evaluate m.program.name m.store call = .ok r → ev m.store.get call = .ok r)
    (h : m.step evaluate = .ok (jump, m')) :
    m'.program = m.program ∧ m'.traced = m.traced ∧ m'.Sound ∧
      ∃ cost, m'.cycles = m.cycles + cost ∧ m.program.Step ev cost m.config m'.config := by
  obtain ⟨i, hi⟩ : ∃ i, m.program.code[m.pc]? = some i := ⟨_, List.getElem?_eq_getElem (hm hh)⟩
  rw [step_of_current hh hi] at h
  obtain ⟨out, ho, h⟩ := Bounded.bind_eq_ok.1 h
  obtain ⟨next, hg, h⟩ := Bounded.bind_eq_ok.1 h
  obtain ⟨recorded, hr, h⟩ := Bounded.bind_eq_ok.1 h
  obtain ⟨rfl, rfl⟩ := Prod.mk.inj (Except.ok.inj h)
  have hgoTo := Bounded.lift_eq_ok.1 hg
  obtain ⟨hplace, hsound⟩ := goTo_eq_ok (m := m.after out) (hm hh) hh hgoTo
  obtain ⟨pc, halted, rfl⟩ := frame_goTo hgoTo
  obtain ⟨log, rfl⟩ := frame_record (Bounded.lift_eq_ok.1 hr)
  refine ⟨rfl, rfl, hsound, out.cycles, rfl, ?_⟩
  have hconfig : ({ m.after out with pc, halted, log } : Machine).config =
      ⟨({ m.after out with pc, halted } : Machine).place, out.apply m.store.get⟩ :=
    congrArg (Config.mk _) (out.effect_get m.store)
  rw [hconfig]
  refine .intro (c := m.config) ?_ (Operation.outcome_mono (fun call r _ => hev call r) ho) ?_
  · rw [config, place_of_not_halted hh]
    exact hi
  · rw [config, place_of_not_halted hh]
    exact hplace

/-- A step of a path is a step of every machine at its start whose steps are not recorded, if calls
have the values that the meaning gives them. -/
theorem exists_step {cost : Nat} {d : Config} (hm : m.Sound) (htraced : m.traced = false)
    (hev : ∀ call r, ev m.store.get call = .ok r → evaluate m.program.name m.store call = .ok r)
    (h : m.program.Step ev cost m.config d) :
    ∃ jump m', m.step evaluate = .ok (jump, m') ∧ m'.config = d ∧ m'.program = m.program ∧
      m'.Sound ∧ m'.traced = false ∧ m'.cycles = m.cycles + cost := by
  have hh : m.halted = false := by
    rw [← Bool.not_eq_true, ← length_le_place_iff hm, Nat.not_le]
    exact h.lt
  have hpc : m.config.place = m.pc := place_of_not_halted hh
  obtain ⟨hi, ho, ha⟩ := h
  rename_i i out next
  rw [hpc] at hi ha
  obtain ⟨m', hg⟩ := exists_goTo (m := m.after out) ha
  obtain ⟨hplace, hsound⟩ := goTo_eq_ok (m := m.after out) (hm hh) hh hg
  obtain ⟨pc, halted, rfl⟩ := frame_goTo hg
  refine ⟨out.jump, { m.after out with pc, halted }, ?_, ?_, rfl, hsound, htraced, rfl⟩
  · rw [step_of_not_traced htraced hh hi]
    exact Bounded.bind_eq_ok.2 ⟨out, Operation.outcome_mono (fun call r _ => hev call r) ho,
      Bounded.bind_eq_ok.2 ⟨_, Bounded.lift_eq_ok.2 hg, rfl⟩⟩
  · have hplace' := Option.some.inj (hplace.symm.trans ha)
    exact congrArg₂ Config.mk hplace' (out.effect_get m.store)

end Steps

/-! ### Runs within some fuel -/

section Finish

/-- The last machine of a run within some fuel. -/
def finish (evaluate : Evaluator) (fuel : Nat) (m : Machine) : Bounded Machine :=
  match m.advance evaluate fuel with
  | (m, none) => .ok m
  | (_, some stop) => .error stop

variable {evaluate evaluate' : Evaluator} {ev : Meaning}

theorem finish_of_halted (h : m.halted = true) (fuel : Nat) : m.finish evaluate fuel = .ok m := by
  cases fuel <;> simp [finish, advance, h]

theorem finish_zero (h : m.halted = false) : m.finish evaluate 0 = .error .outOfFuel := by
  simp [finish, advance, h]

theorem finish_succ (h : m.halted = false) (fuel : Nat) :
    m.finish evaluate (fuel + 1) =
      m.step evaluate >>= fun r => r.2.finish evaluate fuel := by
  rw [finish, advance, if_neg (by simp [h]), step]
  rcases m.perform evaluate with ⟨left, stop | jump⟩ <;> rfl

theorem settles_step {evaluate : Nat → Evaluator} {limit : Evaluator}
    (he : ∀ caller store call, Bounded.Settles (evaluate · caller store call)
      (limit caller store call)) (m : Machine) :
    Bounded.Settles (fun fuel => m.step (evaluate fuel)) (m.step limit) := by
  cases h : m.halted with
  | true =>
    simp only [step_of_halted h]
    exact .const _
  | false =>
    rcases hi : m.program.code[m.pc]? with _ | i
    · simp only [step_of_nowhere h hi]
      exact .const _
    · simp only [step_of_current h hi]
      exact .bind (Operation.settles_outcome (he _ _) _ _) fun out => .const _

/-- The last machine settles with the values of calls, for each amount of fuel for its own steps. -/
theorem settles_finish {evaluate : Nat → Evaluator} {limit : Evaluator}
    (he : ∀ caller store call, Bounded.Settles (evaluate · caller store call)
      (limit caller store call)) (steps : Nat) (m : Machine) :
    Bounded.Settles (fun fuel => m.finish (evaluate fuel) steps) (m.finish limit steps) := by
  induction steps generalizing m with
  | zero =>
    simp only [finish, advance]
    exact .const _
  | succ steps ih =>
    cases h : m.halted with
    | true =>
      simp only [finish_of_halted h]
      exact .const _
    | false =>
      simp only [finish_succ h]
      exact .bind (settles_step he m) fun r => ih r.2

/-- More fuel for its own steps does not change where a run ends. -/
theorem finish_below_of_le {fuel fuel' : Nat} (hle : fuel ≤ fuel') (m : Machine) :
    Bounded.Below (m.finish evaluate fuel) (m.finish evaluate fuel') := by
  induction fuel generalizing fuel' m with
  | zero =>
    cases h : m.halted with
    | true => simpa only [finish_of_halted h] using Bounded.Below.refl _
    | false => exact .inl (finish_zero h)
  | succ fuel ih =>
    obtain ⟨fuel', rfl⟩ := Nat.exists_eq_succ_of_ne_zero (Nat.ne_zero_of_lt hle)
    cases h : m.halted with
    | true => simpa only [finish_of_halted h] using Bounded.Below.refl _
    | false =>
      rw [finish_succ h, finish_succ h]
      exact .bind (.refl _) fun r => ih (Nat.le_of_succ_le_succ hle) r.2

/-- More fuel, for its own steps and for the calls in it, does not change where a run ends. -/
theorem finish_below
    (he : ∀ caller store call,
      Bounded.Below (evaluate caller store call) (evaluate' caller store call))
    {fuel fuel' : Nat} (hle : fuel ≤ fuel') (m : Machine) :
    Bounded.Below (m.finish evaluate fuel) (m.finish evaluate' fuel') := by
  have hcalls := (settles_finish (fun caller store call => (he caller store call).settles)
    fuel m).below 0
  exact .trans hcalls (finish_below_of_le hle m)

/-- A run that ends is a path to the end of the program. -/
theorem path_of_finish
    (hev : ∀ store call r,
      evaluate m.program.name store call = .ok r → ev store.get call = .ok r)
    {fuel : Nat} {m' : Machine} (hm : m.Sound) (h : m.finish evaluate fuel = .ok m') :
    m'.program = m.program ∧ ∃ n cost, m'.cycles = m.cycles + cost ∧
      m.program.Path ev n cost m.config m'.config ∧ m.program.code.length ≤ m'.config.place := by
  induction fuel generalizing m with
  | zero =>
    cases hh : m.halted with
    | true =>
      obtain rfl := Except.ok.inj ((finish_of_halted hh 0).symm.trans h)
      exact ⟨rfl, 0, 0, rfl, .refl _, (length_le_place_iff hm).2 hh⟩
    | false => simp [finish_zero hh] at h
  | succ fuel ih =>
    cases hh : m.halted with
    | true =>
      obtain rfl := Except.ok.inj ((finish_of_halted hh (fuel + 1)).symm.trans h)
      exact ⟨rfl, 0, 0, rfl, .refl _, (length_le_place_iff hm).2 hh⟩
    | false =>
      rw [finish_succ hh] at h
      obtain ⟨⟨jump, next⟩, hstep, hrest⟩ := Bounded.bind_eq_ok.1 h
      obtain ⟨hprogram, -, hsound, cost, hcost, hs⟩ := step_eq_ok hm hh (hev m.store) hstep
      obtain ⟨hprogram', n, cost', hcost', hpath, hend⟩ :=
        ih (m := next) (hprogram ▸ hev) hsound hrest
      rw [hprogram] at hprogram' hpath hend
      exact ⟨hprogram', n + 1, cost + cost', by omega, .head hs hpath, hend⟩

/-- A path to the end of a program is a run of every machine at its start whose steps are not
recorded. -/
theorem exists_finish
    (hev : ∀ store call r,
      ev store.get call = .ok r → evaluate m.program.name store call = .ok r)
    {n cost : Nat} {d : Config} (hm : m.Sound) (htraced : m.traced = false)
    (h : m.program.Path ev n cost m.config d) (hend : m.program.code.length ≤ d.place) :
    ∃ m', m.finish evaluate n = .ok m' ∧ m'.config = d ∧ m'.cycles = m.cycles + cost := by
  induction n generalizing m cost with
  | zero =>
    generalize hc : m.config = c at h
    cases h
    subst hc
    exact ⟨m, finish_of_halted ((length_le_place_iff hm).1 hend) 0, rfl, rfl⟩
  | succ n ih =>
    generalize hc : m.config = c at h
    cases h with
    | @head _ cost cost' _ c' _ hs hrest =>
      subst hc
      have hh : m.halted = false := by
        rw [← Bool.not_eq_true, ← length_le_place_iff hm, Nat.not_le]
        exact hs.lt
      obtain ⟨jump, next, hstep, rfl, hprogram, hsound, htraced', hcycles⟩ :=
        exists_step hm htraced (hev m.store) hs
      rw [← hprogram] at hrest hend
      obtain ⟨m', hfinish, hconfig, hcycles'⟩ :=
        ih (m := next) (fun store call r hr => hprogram ▸ hev store call r hr) hsound htraced' hrest
          hend
      refine ⟨m', ?_, hconfig, by omega⟩
      rw [finish_succ hh]
      exact Bounded.bind_eq_ok.2 ⟨(jump, next), hstep, hfinish⟩

end Finish

end Machine

end RegisterMachine
