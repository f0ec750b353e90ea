import RegisterMachine.Machine.Step
import RegisterMachine.Proofs.Fuel
import RegisterMachine.Proofs.Store

/-!
# Paths through a program

What a run does next depends on its place in the program and on the values of its variables, and on
nothing else. A *place* is the index of an instruction, or the length of the program once the run
has ended, so `EXIT` is the place behind the last instruction.

* `Operation.outcome` — what an operation writes, where it jumps and what it costs, for a meaning of
  calls;
* `Program.Step`, `Program.Path` — one step from a configuration, and any number of them, with the
  cycles they take;
* `Program.Path.resume` — a path that has ended passes through every configuration that its start
  leads to;
* `Program.Leads` — a path of at least one step whose length does not matter.
-/

namespace RegisterMachine

/-! ### Outcomes -/

/-- What an operation does. -/
structure Outcome where
  /-- The variable that it gives another value, with the value. -/
  write : Option (Variable × Nat)
  /-- The label to go on at, if not at the next instruction. -/
  jump : Option Label
  /-- The cycles it takes. -/
  cycles : Nat

namespace Outcome

variable (o : Outcome)

/-- The values after an outcome. -/
def apply (env : Valuation) : Valuation :=
  match o.write with
  | none => env
  | some (v, n) => Function.update env v n

@[simp] theorem apply_none (jump : Option Label) (cycles : Nat) (env : Valuation) :
    (⟨none, jump, cycles⟩ : Outcome).apply env = env := rfl

@[simp] theorem apply_some (v : Variable) (n : Nat) (jump : Option Label) (cycles : Nat)
    (env : Valuation) :
    (⟨some (v, n), jump, cycles⟩ : Outcome).apply env = Function.update env v n := rfl

theorem apply_congr {env env' : Valuation} {w : Variable} (h : env' w = env w) :
    o.apply env' w = o.apply env w := by
  obtain ⟨_ | ⟨v, n⟩, jump, cycles⟩ := o
  · exact h
  · rw [apply_some, apply_some, Function.update_apply, Function.update_apply, h]

theorem apply_of_not_written {env : Valuation} {w : Variable} (h : ∀ n, o.write ≠ some (w, n)) :
    o.apply env w = env w := by
  obtain ⟨_ | ⟨v, n⟩, jump, cycles⟩ := o
  · rfl
  · exact Function.update_of_ne (fun hw => h n (by rw [hw])) _ _

/-- An outcome that changes a store. -/
def effect (store : Store) : Effect :=
  match o.write with
  | none => ⟨store, o.jump, o.cycles⟩
  | some (v, n) => ⟨store.set v n, o.jump, o.cycles⟩

theorem effect_get (store : Store) : (o.effect store).store.get = o.apply store.get := by
  rw [effect, apply]
  cases o.write <;> simp

@[simp] theorem effect_jump (store : Store) : (o.effect store).jump = o.jump := by
  rw [effect]
  cases o.write <;> rfl

@[simp] theorem effect_cycles (store : Store) : (o.effect store).cycles = o.cycles := by
  rw [effect]
  cases o.write <;> rfl

end Outcome

namespace Operation

/-- What an operation does to a valuation, where `value` gives the values of calls. -/
def outcome (value : Call → Bounded (Nat × Nat)) (env : Valuation) : Operation → Bounded Outcome
  | neutral _ => .ok ⟨none, none, 0⟩
  | increase v => .ok ⟨some (v, env v + 1), none, 1⟩
  | decrease v => .ok ⟨some (v, env v - 1), none, 1⟩
  | jumpNotZero v target => .ok ⟨none, if env v = 0 then none else some target, 2⟩
  | zeroVariable v => .ok ⟨some (v, 0), none, 1⟩
  | gotoLabel target => .ok ⟨none, some target, 1⟩
  | constantAssignment v k => .ok ⟨some (v, k), none, 2⟩
  | jumpZero v target => .ok ⟨none, if env v = 0 then some target else none, 2⟩
  | assignment v source => .ok ⟨some (v, env source), none, 4⟩
  | jumpEqualConstant v k target => .ok ⟨none, if env v = k then some target else none, 2⟩
  | jumpEqualVariable v source target =>
    .ok ⟨none, if env v = env source then some target else none, 2⟩
  | quotation v call => do
    let r ← value call
    return ⟨some (v, r.1), none, 5 + r.2⟩
  | jumpEqualFunction v call target => do
    let r ← value call
    return ⟨none, if env v = r.1 then some target else none, 6 + r.2⟩

/-- Executing an operation has its outcome. -/
theorem execute_eq_outcome (value : Call → Bounded (Nat × Nat)) (store : Store) (o : Operation) :
    o.execute value store = o.outcome value store.get >>= fun out => pure (out.effect store) := by
  cases o with
  | quotation v call =>
    simp only [execute, outcome]
    cases value call with
    | error stop => rfl
    | ok r => simp [Outcome.effect, opcode, Opcode.cycles]
  | jumpEqualFunction v call target =>
    simp only [execute, outcome]
    cases value call with
    | error stop => rfl
    | ok r => simp [Outcome.effect, opcode, Opcode.cycles]
  | _ => simp [execute, outcome, Outcome.effect, assign, jumpIf, opcode, Opcode.cycles]

/-- An outcome stays if calls keep their values. -/
theorem outcome_mono {value value' : Call → Bounded (Nat × Nat)} {env : Valuation} {o : Operation}
    {out : Outcome} (hv : ∀ call r, o.call? = some call → value call = .ok r → value' call = .ok r)
    (h : o.outcome value env = .ok out) : o.outcome value' env = .ok out := by
  cases o with
  | quotation v call =>
    obtain ⟨r, hr, ho⟩ := Bounded.bind_eq_ok.1 h
    exact Bounded.bind_eq_ok.2 ⟨r, hv call r rfl hr, ho⟩
  | jumpEqualFunction v call target =>
    obtain ⟨r, hr, ho⟩ := Bounded.bind_eq_ok.1 h
    exact Bounded.bind_eq_ok.2 ⟨r, hv call r rfl hr, ho⟩
  | _ => exact h

/-- An outcome settles if the values of calls do. -/
theorem settles_outcome {value : Nat → Call → Bounded (Nat × Nat)}
    {limit : Call → Bounded (Nat × Nat)} (h : ∀ call, Bounded.Settles (value · call) (limit call))
    (env : Valuation) (o : Operation) :
    Bounded.Settles (fun fuel => o.outcome (value fuel) env) (o.outcome limit env) := by
  cases o with
  | quotation v call => exact .bind (h call) fun r => .const _
  | jumpEqualFunction v call target => exact .bind (h call) fun r => .const _
  | _ => exact .const _

/-- An operation without a call has an outcome. -/
theorem outcome_of_call?_eq_none {o : Operation} (h : o.call? = none)
    (value : Call → Bounded (Nat × Nat)) (env : Valuation) :
    ∃ out, o.outcome value env = .ok out := by
  cases o <;> simp [call?] at h <;> exact ⟨_, rfl⟩

/-- What an operation writes goes to the variable it is about. -/
theorem subject?_eq_of_write {value : Call → Bounded (Nat × Nat)} {env : Valuation} {o : Operation}
    {out : Outcome} (h : o.outcome value env = .ok out) {v : Variable} {n : Nat}
    (hw : out.write = some (v, n)) : o.subject? = some v := by
  cases o with
  | quotation w call =>
    obtain ⟨r, -, hr⟩ := Bounded.bind_eq_ok.1 h
    obtain rfl := Except.ok.inj hr
    simp_all [subject?]
  | jumpEqualFunction w call target =>
    obtain ⟨r, -, hr⟩ := Bounded.bind_eq_ok.1 h
    obtain rfl := Except.ok.inj hr
    simp at hw
  | _ =>
    obtain rfl := Except.ok.inj h
    simp_all [subject?]

/-- Where an operation jumps to is its target. -/
theorem target?_eq_of_jump {value : Call → Bounded (Nat × Nat)} {env : Valuation} {o : Operation}
    {out : Outcome} (h : o.outcome value env = .ok out) {l : Label} (hj : out.jump = some l) :
    o.target? = some l := by
  cases o with
  | quotation w call =>
    obtain ⟨r, -, hr⟩ := Bounded.bind_eq_ok.1 h
    obtain rfl := Except.ok.inj hr
    simp at hj
  | jumpEqualFunction w call target =>
    obtain ⟨r, -, hr⟩ := Bounded.bind_eq_ok.1 h
    obtain rfl := Except.ok.inj hr
    simp_all [target?]
  | _ =>
    obtain rfl := Except.ok.inj h
    simp_all [target?]

end Operation

/-- The sum of some costs. -/
def totalCost (costs : List Nat) : Nat :=
  costs.foldr (· + ·) 0

@[simp] theorem totalCost_nil : totalCost [] = 0 := rfl

@[simp] theorem totalCost_cons (cost : Nat) (costs : List Nat) :
    totalCost (cost :: costs) = cost + totalCost costs := rfl

@[simp] theorem totalCost_append (costs costs' : List Nat) :
    totalCost (costs ++ costs') = totalCost costs + totalCost costs' := by
  induction costs with
  | nil => simp
  | cons cost costs ih => simp [ih, Nat.add_assoc]

/-! ### Places -/

namespace Program

variable (p : Program)

/-- The place that a label leads to. -/
def placeOf : Label → Option Nat
  | .exit => some p.code.length
  | .numbered k => p.indexOf? (.numbered k)

/-- The place to go on at: that of a label, or else the next one. -/
def goOn (next : Nat) : Option Label → Option Nat
  | none => some next
  | some label => p.placeOf label

end Program

/-- A point of a run. -/
structure Config where
  /-- The index of the next instruction, or the length of the program at the end. -/
  place : Nat
  /-- The values of the variables. -/
  env : Valuation

namespace Program

variable (ev : Meaning) (p : Program)

/-- One step of a program, and the cycles it takes. -/
inductive Step : Nat → Config → Config → Prop
  | intro {c : Config} {i : Instruction} {o : Outcome} {next : Nat}
      (instruction : p.code[c.place]? = some i)
      (outcome : i.operation.outcome (ev c.env) c.env = .ok o)
      (after : p.goOn (c.place + 1) o.jump = some next) :
      Step o.cycles c ⟨next, o.apply c.env⟩

/-- A number of steps of a program, and the cycles they take. -/
inductive Path : Nat → Nat → Config → Config → Prop
  | refl (c : Config) : Path 0 0 c c
  | head {n cost cost' : Nat} {c d e : Config} (step : Step ev p cost c d)
      (rest : Path n cost' d e) : Path (n + 1) (cost + cost') c e

/-- A path that has at least one step. -/
def Leads (c d : Config) : Prop :=
  ∃ n cost, 0 < n ∧ Path ev p n cost c d

variable {ev p}

/-! ### Steps -/

theorem Step.lt {cost : Nat} {c d : Config} (h : Step ev p cost c d) : c.place < p.code.length := by
  obtain ⟨hi, -, -⟩ := h
  exact (List.getElem?_eq_some_iff.1 hi).1

/-- A configuration has at most one next one. -/
theorem Step.det {cost cost' : Nat} {c d d' : Config} (h : Step ev p cost c d)
    (h' : Step ev p cost' c d') : cost = cost' ∧ d = d' := by
  obtain ⟨hi, ho, ha⟩ := h
  obtain ⟨hi', ho', ha'⟩ := h'
  obtain rfl := Option.some.inj (hi.symm.trans hi')
  obtain rfl := Except.ok.inj (ho.symm.trans ho')
  obtain rfl := Option.some.inj (ha.symm.trans ha')
  exact ⟨rfl, rfl⟩

theorem Step.path {cost : Nat} {c d : Config} (h : Step ev p cost c d) : Path ev p 1 cost c d :=
  .head h (.refl d)

theorem Step.leads {cost : Nat} {c d : Config} (h : Step ev p cost c d) : Leads ev p c d :=
  ⟨1, cost, Nat.one_pos, h.path⟩

/-! ### Paths -/

theorem Path.trans {n m cost cost' : Nat} {c d e : Config} (h : Path ev p n cost c d)
    (h' : Path ev p m cost' d e) : Path ev p (n + m) (cost + cost') c e := by
  induction h with
  | refl => simpa using h'
  | @head n k k' _ _ _ step _ ih =>
    have := Path.head step (ih h')
    rwa [← Nat.add_assoc, show n + m + 1 = n + 1 + m by omega] at this

theorem Path.tail {n cost cost' : Nat} {c d e : Config} (h : Path ev p n cost c d)
    (step : Step ev p cost' d e) : Path ev p (n + 1) (cost + cost') c e :=
  h.trans step.path

theorem Leads.trans {c d e : Config} (h : Leads ev p c d) (h' : Leads ev p d e) :
    Leads ev p c e := by
  obtain ⟨n, cost, hn, hp⟩ := h
  obtain ⟨n', cost', -, hp'⟩ := h'
  exact ⟨n + n', cost + cost', by omega, hp.trans hp'⟩

/-- A path to the end of a program goes on from every configuration that its start leads to. -/
theorem Path.resume {n m cost cost' : Nat} {c d e : Config} (h : Path ev p n cost c d)
    (h' : Path ev p m cost' c e) (hend : p.code.length ≤ e.place) :
    ∃ m' cost'', m = n + m' ∧ cost' = cost + cost'' ∧ Path ev p m' cost'' d e := by
  induction h generalizing m cost' with
  | refl => exact ⟨m, cost', by omega, by omega, h'⟩
  | head step _ ih =>
    cases h' with
    | refl => exact absurd step.lt (by omega)
    | head step' rest' =>
      obtain ⟨rfl, rfl⟩ := step.det step'
      obtain ⟨m', cost'', rfl, rfl, hrest⟩ := ih rest'
      exact ⟨m', cost'', by omega, by omega, hrest⟩

/-- Two paths from one configuration to the end of a program are one. -/
theorem Path.end_unique {n m cost cost' : Nat} {c d e : Config} (h : Path ev p n cost c d)
    (hd : p.code.length ≤ d.place) (h' : Path ev p m cost' c e) (he : p.code.length ≤ e.place) :
    n = m ∧ cost = cost' ∧ d = e := by
  obtain ⟨m', cost'', rfl, rfl, hrest⟩ := h.resume h' he
  cases hrest with
  | refl => exact ⟨rfl, rfl, rfl⟩
  | head step _ => exact absurd step.lt (by omega)

/-- From every configuration before the end of a path that ends there is a next step. -/
theorem Path.exists_step {m cost : Nat} {c e : Config} (h : Path ev p m cost c e)
    (hc : c.place < p.code.length) (hend : p.code.length ≤ e.place) :
    ∃ m' cost' cost'' d, m = m' + 1 ∧ Step ev p cost' c d ∧ Path ev p m' cost'' d e := by
  cases h with
  | refl => omega
  | head step rest => exact ⟨_, _, _, _, rfl, step, rest⟩

end Program

end RegisterMachine
