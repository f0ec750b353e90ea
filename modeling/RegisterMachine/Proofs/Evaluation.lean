import RegisterMachine.Expansion.Inline
import RegisterMachine.Machine.Run
import RegisterMachine.Proofs.Fuel
import RegisterMachine.Proofs.Store

/-!
# Evaluation that may skip arguments

A call evaluates each argument that an input of the called program is given, also if the program
does not mention the input. What is inlined for the call leaves such arguments out. The evaluation
here is told which arguments to skip, so that both can be spoken of at once: skipping nothing gives
the evaluation of `Library.callValue`, and skipping the inputs that a program does not mention gives
the evaluation that inlining keeps to.

* `Library.valueBy`, `Library.valuesBy`, `Library.callBy` — values of arguments and calls;
* `Library.valueBy_eq_binding` — an argument has the value of what inlining gives a parameter for
  it;
* `Library.callBy_caller` — the name of the caller is told in failures only;
* `Library.settles_callBy` — evaluation settles if the runs do.
-/

namespace RegisterMachine

/-- Which arguments are skipped: those for the input of a program at a position. -/
abbrev Skip := Program → Nat → Bool

namespace Skip

/-- Every argument is evaluated. -/
def nothing : Skip := fun _ _ => false

/-- The arguments for inputs that a program does not mention are skipped. -/
def unmentioned : Skip := fun p k => !p.vars.contains (.input k)

/-- Only arguments for inputs that a program does not mention are skipped. -/
def Harmless (skip : Skip) : Prop :=
  ∀ p k, skip p k = true → .input k ∉ Program.vars p

theorem harmless_nothing : Harmless nothing := by
  intro p k h
  simp [nothing] at h

theorem harmless_unmentioned : Harmless unmentioned := by
  intro p k h
  simpa [unmentioned] using h

end Skip

/-- The value of what a parameter is given, and the cycles that evaluation spends on it. -/
def Binding.value (ev : Meaning) (env : Valuation) : Binding → Bounded (Nat × Nat)
  | .constant k => .ok (k, 0)
  | .variable v => .ok (env v, 0)
  | .call c => do
    let r ← ev env c
    return (r.1, Opcode.quotation.cycles + r.2)

namespace Library

section Values

variable (skip : Skip) (lib : Library) (run : Runner) (caller : String) (env : Valuation)

mutual

/-- The value of an argument of a function, and the cycles spent on it. -/
def valueBy (function : String) : Argument → Bounded (Nat × Nat)
  | .constant value =>
    if value < 0 then throw (.error (.negativeArgument value function))
    else return (value.toNat, 0)
  | .name text =>
    match Variable.ofName? text with
    | some v => return (env v, 0)
    | none => do
      if !lib.contains text then throw (.error (.unknownVariable text))
      let callee ← lib.get text caller
      let (value, spent) ← run callee (List.replicate callee.requiredInputs 0)
      return (value, Opcode.quotation.cycles + spent)
  | .call name arguments => do
    let callee ← lib.get name caller
    let (values, spent) ← valuesBy callee 0 callee.requiredInputs arguments
    let (value, cycles) ← run callee values
    return (value, Opcode.quotation.cycles + (spent + cycles))

/-- The values of arguments for the inputs of a program from a position on, as many as are asked
for, with zeros for missing and for skipped ones, and the cycles spent on them. -/
def valuesBy (callee : Program) (k : Nat) : Nat → List Argument → Bounded (List Nat × Nat)
  | 0, _ => return ([], 0)
  | n + 1, [] => return (List.replicate (n + 1) 0, 0)
  | n + 1, a :: as => do
    let (value, spent) ← if skip callee k then pure (0, 0) else valueBy callee.name a
    let (values, rest) ← valuesBy callee (k + 1) n as
    return (value :: values, spent + rest)

end

/-- The value of a call, and the cycles spent on it. -/
def callBy (call : Call) : Bounded (Nat × Nat) := do
  let callee ← lib.get call.function caller
  let (values, spent) ←
    valuesBy skip lib run caller env callee 0 callee.requiredInputs call.arguments
  let (value, cycles) ← run callee values
  return (value, spent + cycles)

end Values

/-- Missing arguments are zeros. -/
theorem valuesBy_nil (skip : Skip) (lib : Library) (run : Runner) (caller : String)
    (env : Valuation) (callee : Program) (k n : Nat) :
    valuesBy skip lib run caller env callee k n [] = .ok (List.replicate n 0, 0) := by
  cases n <;> rfl

theorem valuesBy_cons (skip : Skip) (lib : Library) (run : Runner) (caller : String)
    (env : Valuation) (callee : Program) (k n : Nat) (a : Argument) (as : List Argument) :
    valuesBy skip lib run caller env callee k (n + 1) (a :: as) =
      (if skip callee k then pure (0, 0) else valueBy skip lib run caller env callee.name a) >>=
        fun r => valuesBy skip lib run caller env callee (k + 1) n as >>=
          fun r' => pure (r.1 :: r'.1, r.2 + r'.2) := by
  rw [valuesBy]
  split <;> rfl

/-- There are as many values as are asked for. -/
theorem length_of_valuesBy {skip : Skip} {lib : Library} {run : Runner} {caller : String}
    {env : Valuation} {callee : Program} {k n : Nat} {as : List Argument} {r : List Nat × Nat}
    (h : valuesBy skip lib run caller env callee k n as = .ok r) : r.1.length = n := by
  induction n generalizing k as r with
  | zero =>
    rw [valuesBy] at h
    obtain rfl := Except.ok.inj h
    rfl
  | succ n ih =>
    obtain _ | ⟨a, as⟩ := as
    · rw [valuesBy] at h
      obtain rfl := Except.ok.inj h
      exact List.length_replicate
    · rw [valuesBy_cons] at h
      obtain ⟨value, -, h⟩ := Bounded.bind_eq_ok.1 h
      obtain ⟨rest, hrest, h⟩ := Bounded.bind_eq_ok.1 h
      obtain rfl := Except.ok.inj h
      exact congrArg (· + 1) (ih hrest)

/-! ### Skipping nothing -/

section Nothing

variable (lib : Library) (run : Runner) (caller : String) (store : Store)

mutual

theorem valueBy_nothing (function : String) : ∀ a : Argument,
    valueBy Skip.nothing lib run caller store.get function a =
      lib.argumentValue run caller store function a
  | .constant value => by rw [valueBy, argumentValue]
  | .name text => by
    cases ht : Variable.ofName? text <;> simp only [valueBy, argumentValue, ht]
  | .call name arguments => by
    rw [valueBy, argumentValue]
    congr 1
    funext callee
    rw [valuesBy_nothing callee 0 callee.requiredInputs arguments]

theorem valuesBy_nothing (callee : Program) (k : Nat) : ∀ (n : Nat) (as : List Argument),
    valuesBy Skip.nothing lib run caller store.get callee k n as =
      lib.argumentValues run caller store callee.name n as
  | 0, _ => by rw [valuesBy, argumentValues]
  | n + 1, [] => by rw [valuesBy, argumentValues]
  | n + 1, a :: as => by
    rw [valuesBy, argumentValues, if_neg (by simp [Skip.nothing]), valueBy_nothing callee.name a]
    congr 1
    funext r
    rw [valuesBy_nothing callee (k + 1) n as]

end

/-- Evaluation that skips nothing is the evaluation of calls. -/
theorem callBy_nothing (call : Call) :
    callBy Skip.nothing lib run caller store.get call = lib.callValue run caller store call := by
  rw [callBy, callValue]
  congr 1
  funext callee
  rw [valuesBy_nothing]

end Nothing

/-! ### Bindings -/

section Bindings

variable (skip : Skip) (lib : Library) (run : Runner) (caller : String) (env : Valuation)

/-- Evaluation and inlining read an argument alike. -/
theorem valueBy_eq_binding (function : String) (a : Argument) :
    valueBy skip lib run caller env function a =
      ((lib.binding function a : Except Error Binding) : Bounded Binding) >>=
        Binding.value (callBy skip lib run caller) env := by
  cases a with
  | constant value =>
    rw [valueBy, binding]
    by_cases h : value < 0
    · rw [if_pos h, if_pos h]
      rfl
    · rw [if_neg h, if_neg h]
      rfl
  | name text =>
    rw [valueBy, binding]
    cases Variable.ofName? text with
    | some v => rfl
    | none =>
      by_cases h : lib.contains text
      · simp [h, bareCall, Binding.value, callBy, valuesBy_nil]
      · simp [h, bareCall]
  | call name arguments => simp [valueBy, binding, Binding.value, callBy]

end Bindings

/-! ### Callers -/

section Callers

variable (skip : Skip) (lib : Library) (run : Runner) (caller caller' : String) (env : Valuation)

/-- The name of the caller is told if no program is found, and not looked at otherwise. -/
theorem get_caller (name : String) :
    (liftM (lib.get name caller) : Bounded Program).toOption =
      (liftM (lib.get name caller') : Bounded Program).toOption := by
  rw [get, get]
  cases lib.find? name <;> rfl

mutual

theorem valueBy_caller (function : String) : ∀ a : Argument,
    (valueBy skip lib run caller env function a).toOption =
      (valueBy skip lib run caller' env function a).toOption
  | .constant value => by rw [valueBy, valueBy]
  | .name text => by
    rw [valueBy, valueBy]
    cases Variable.ofName? text with
    | some v => rfl
    | none =>
      by_cases h : lib.contains text
      · simp [h, Bounded.toOption_bind, get_caller lib caller caller']
      · simp [h]
  | .call name arguments => by
    rw [valueBy, valueBy]
    simp only [Bounded.toOption_bind, get_caller lib caller caller']
    congr 1
    funext callee
    rw [valuesBy_caller callee 0 callee.requiredInputs arguments]

theorem valuesBy_caller (callee : Program) (k : Nat) : ∀ (n : Nat) (as : List Argument),
    (valuesBy skip lib run caller env callee k n as).toOption =
      (valuesBy skip lib run caller' env callee k n as).toOption
  | 0, _ => by rw [valuesBy, valuesBy]
  | n + 1, [] => by rw [valuesBy, valuesBy]
  | n + 1, a :: as => by
    rw [valuesBy, valuesBy]
    by_cases h : skip callee k
    · simp only [h, if_true, Bounded.toOption_bind]
      congr 1
      funext r
      rw [valuesBy_caller callee (k + 1) n as]
    · simp only [h, Bool.false_eq_true, if_false, Bounded.toOption_bind]
      rw [valueBy_caller callee.name a]
      congr 1
      funext r
      rw [valuesBy_caller callee (k + 1) n as]

end

theorem callBy_caller (call : Call) :
    (callBy skip lib run caller env call).toOption =
      (callBy skip lib run caller' env call).toOption := by
  rw [callBy, callBy]
  simp only [Bounded.toOption_bind, get_caller lib caller caller']
  congr 1
  funext callee
  rw [valuesBy_caller skip lib run caller caller' env callee 0 callee.requiredInputs call.arguments]

theorem callBy_caller_eq_ok {call : Call} {r : Nat × Nat}
    (h : callBy skip lib run caller env call = .ok r) :
    callBy skip lib run caller' env call = .ok r := by
  rw [← Bounded.toOption_eq_some, ← callBy_caller skip lib run caller caller' env call, h]
  rfl

theorem valuesBy_caller_eq_ok {callee : Program} {k n : Nat} {as : List Argument}
    {r : List Nat × Nat} (h : valuesBy skip lib run caller env callee k n as = .ok r) :
    valuesBy skip lib run caller' env callee k n as = .ok r := by
  rw [← Bounded.toOption_eq_some, ← valuesBy_caller skip lib run caller caller' env callee k n as,
    h]
  rfl

end Callers

/-! ### Growing fuel -/

section Growth

variable {skip : Skip} {lib : Library} {run : Nat → Runner} {limit : Runner} (caller : String)
  (env : Valuation)

mutual

theorem settles_valueBy (hrun : ∀ p inputs, Bounded.Settles (run · p inputs) (limit p inputs))
    (function : String) : ∀ a : Argument,
    Bounded.Settles (fun fuel => valueBy skip lib (run fuel) caller env function a)
      (valueBy skip lib limit caller env function a)
  | .constant value => by
    simp only [valueBy]
    exact .const _
  | .name text => by
    simp only [valueBy]
    cases Variable.ofName? text with
    | some v => exact .const _
    | none =>
      by_cases h : lib.contains text
      · simp only [h, Bool.not_true, Bool.false_eq_true, if_false]
        exact .bind (.const _) fun callee => .bind (hrun callee _) fun r => .const _
      · simp only [h, Bool.not_false, if_true]
        exact .const _
  | .call name arguments => by
    simp only [valueBy]
    exact .bind (.const _) fun callee =>
      .bind (settles_valuesBy hrun callee 0 _ arguments) fun r =>
        .bind (hrun callee _) fun r' => .const _

theorem settles_valuesBy (hrun : ∀ p inputs, Bounded.Settles (run · p inputs) (limit p inputs))
    (callee : Program) (k : Nat) : ∀ (n : Nat) (as : List Argument),
    Bounded.Settles (fun fuel => valuesBy skip lib (run fuel) caller env callee k n as)
      (valuesBy skip lib limit caller env callee k n as)
  | 0, _ => by
    simp only [valuesBy]
    exact .const _
  | n + 1, [] => by
    simp only [valuesBy]
    exact .const _
  | n + 1, a :: as => by
    simp only [valuesBy]
    by_cases h : skip callee k
    · simp only [h, if_true]
      exact .bind (.const _) fun r =>
        .bind (settles_valuesBy hrun callee (k + 1) n as) fun r' => .const _
    · simp only [h, Bool.false_eq_true, if_false]
      exact .bind (settles_valueBy hrun callee.name a) fun r =>
        .bind (settles_valuesBy hrun callee (k + 1) n as) fun r' => .const _

end

theorem settles_callBy (hrun : ∀ p inputs, Bounded.Settles (run · p inputs) (limit p inputs))
    (call : Call) :
    Bounded.Settles (fun fuel => callBy skip lib (run fuel) caller env call)
      (callBy skip lib limit caller env call) := by
  simp only [callBy]
  exact .bind (.const _) fun callee =>
    .bind (settles_valuesBy caller env hrun callee 0 _ call.arguments) fun r =>
      .bind (hrun callee _) fun r' => .const _

end Growth

end Library

end RegisterMachine
