import RegisterMachine.Proofs.InlinedCall

/-!
# Idle arguments

An argument is idle if the called program does not mention the input it is for. Direct evaluation
looks at idle arguments all the same, and may fail at one or never come back from it, where inlining
leaves it out. That is all there is between them: the one evaluation gives what the other gives, as
far as the idle arguments that it comes to have values.

* `Library.ComesToArgument`, `Library.Comes` — the arguments and the calls that the evaluation of a
  call comes to;
* `Library.IdleHaveValues`, `Library.IdleHaveValuesFrom` — all idle arguments that the evaluation of
  a call, or a run, comes to have values;
* `Library.meaning_of_meaning` — from one evaluation to another one, which may skip other arguments;
* `Library.path_of_path` — the same for runs.
-/

namespace RegisterMachine.Library

open Program

/-- The evaluation of a call comes to the argument for the input of the called program at position
`k`: the program needs that many inputs, and the arguments before it have values. -/
structure ComesToArgument (skip : Skip) (lib : Library) (env : Valuation) (call : Call)
    (callee : Program) (k : Nat) (a : Argument) : Prop where
  /-- The called program. -/
  callee_eq : lib.find? call.function = some callee
  /-- It needs the input. -/
  lt : k < callee.requiredInputs
  /-- The argument is not skipped. -/
  not_skipped : skip callee k = false
  /-- The argument. -/
  argument_eq : call.arguments[k]? = some a
  /-- Evaluation gets as far as that. -/
  before : ∃ r, valuesBy skip lib (limitRunner skip lib) "" env callee 0 k call.arguments = .ok r

/-- The evaluation of a call comes to the evaluation of another call, in a valuation of its own: the
other call is an argument, or it stands in the called program. -/
inductive Comes (skip : Skip) (lib : Library) : Valuation → Call → Valuation → Call → Prop
  | here (env : Valuation) (call : Call) : Comes skip lib env call env call
  | argument {env env' : Valuation} {call c call' : Call} {callee : Program} {k : Nat}
      {a : Argument} (argument : ComesToArgument skip lib env call callee k a)
      (binding_eq : lib.binding callee.name a = .ok (.call c))
      (rest : Comes skip lib env c env' call') : Comes skip lib env call env' call'
  | body {env env' : Valuation} {call c call' : Call} {callee : Program} {values : List Nat}
      {spent n cost : Nat} {d : Config} {i : Instruction}
      (callee_eq : lib.find? call.function = some callee)
      (values_eq : valuesBy skip lib (limitRunner skip lib) "" env callee 0 callee.requiredInputs
        call.arguments = .ok (values, spent))
      (path : Path (meaning skip lib) callee n cost ⟨0, callee.initial values⟩ d)
      (instruction : callee.code[d.place]? = some i) (call_eq : i.operation.call? = some c)
      (rest : Comes skip lib d.env c env' call') : Comes skip lib env call env' call'

/-- The idle arguments of a call that its evaluation comes to have values. -/
def IdleHaveValuesHere (skip : Skip) (lib : Library) (env : Valuation) (call : Call) : Prop :=
  ∀ callee k a, ComesToArgument skip lib env call callee k a → .input k ∉ callee.vars →
    ∃ r, valueBy skip lib (limitRunner skip lib) "" env callee.name a = .ok r

/-- All idle arguments that the evaluation of a call comes to have values, skipped ones apart. -/
def IdleHaveValues (skip : Skip) (lib : Library) (env : Valuation) (call : Call) : Prop :=
  ∀ env' call', Comes skip lib env call env' call' → IdleHaveValuesHere skip lib env' call'

/-- All idle arguments that a run comes to have values, skipped ones apart. -/
def IdleHaveValuesFrom (skip : Skip) (lib : Library) (p : Program) (c : Config) : Prop :=
  ∀ n cost d, Path (meaning skip lib) p n cost c d → ∀ i call, p.code[d.place]? = some i →
    i.operation.call? = some call → IdleHaveValues skip lib d.env call

section Later

variable {skip : Skip} {lib : Library} {env : Valuation} {call : Call} {callee : Program}

theorem IdleHaveValues.here (h : IdleHaveValues skip lib env call) :
    IdleHaveValuesHere skip lib env call :=
  h env call (.here env call)

theorem IdleHaveValues.argument (h : IdleHaveValues skip lib env call) {k : Nat} {a : Argument}
    (ha : ComesToArgument skip lib env call callee k a) {c : Call}
    (hc : lib.binding callee.name a = .ok (.call c)) : IdleHaveValues skip lib env c :=
  fun env' call' hcomes => h env' call' (.argument ha hc hcomes)

theorem IdleHaveValues.body (h : IdleHaveValues skip lib env call)
    (hfind : lib.find? call.function = some callee) {values : List Nat} {spent : Nat}
    (hvalues : valuesBy skip lib (limitRunner skip lib) "" env callee 0 callee.requiredInputs
      call.arguments = .ok (values, spent)) :
    IdleHaveValuesFrom skip lib callee ⟨0, callee.initial values⟩ :=
  fun _ _ _ hpath _ _ hi hcall env' call' hcomes =>
    h env' call' (.body hfind hvalues hpath hi hcall hcomes)

theorem IdleHaveValuesFrom.step {p : Program} {cost : Nat} {c d : Config}
    (h : IdleHaveValuesFrom skip lib p c) (hstep : Step (meaning skip lib) p cost c d) :
    IdleHaveValuesFrom skip lib p d :=
  fun n _ e hpath => h (n + 1) _ e (.head hstep hpath)

end Later

/-! ### Calls -/

section Calls

variable {skip skip' : Skip} {lib : Library} {run : Runner} {env : Valuation}

/-- A runner gives what runs without a bound give that evaluate their calls in another way, as far
as idle arguments have values. -/
def Carries (skip' : Skip) (lib : Library) (run : Runner) : Prop :=
  ∀ p inputs inputs' value cycles, run p inputs = .ok (value, cycles) →
    p.initial inputs' = p.initial inputs → p.requiredInputs ≤ inputs'.length →
    IdleHaveValuesFrom skip' lib p ⟨0, p.initial inputs'⟩ →
    ∃ cycles', limitRunner skip' lib p inputs' = .ok (value, cycles')

/-- The same for the values that the inputs of a program get from a position on. -/
private def ValuesCarry (skip skip' : Skip) (lib : Library) (run : Runner) (env : Valuation)
    (callee : Program) (k n : Nat) (as : List Argument) : Prop :=
  ∀ values spent, valuesBy skip lib run "" env callee k n as = .ok (values, spent) →
    (∀ j a, j < n → skip' callee (k + j) = false → as[j]? = some a →
      (∃ r, valuesBy skip' lib (limitRunner skip' lib) "" env callee k j as = .ok r) →
      (.input (k + j) ∉ callee.vars →
        ∃ r, valueBy skip' lib (limitRunner skip' lib) "" env callee.name a = .ok r) ∧
      ∀ c, lib.binding callee.name a = .ok (.call c) → IdleHaveValues skip' lib env c) →
    ∃ values' spent', valuesBy skip' lib (limitRunner skip' lib) "" env callee k n as =
        .ok (values', spent') ∧
      ∀ j, .input (k + j) ∈ callee.vars → values'[j]?.getD 0 = values[j]?.getD 0

private theorem callBy_carries (hrun : Carries skip' lib run) {call : Call}
    (hvalues : ∀ callee, ValuesCarry skip skip' lib run env callee 0 callee.requiredInputs
      call.arguments)
    {value spent : Nat} (h : callBy skip lib run "" env call = .ok (value, spent))
    (hidle : IdleHaveValues skip' lib env call) :
    ∃ spent', callBy skip' lib (limitRunner skip' lib) "" env call = .ok (value, spent') := by
  obtain ⟨callee, values, onArguments, cycles, hfind, hcallee, hcycles, rfl⟩ := callBy_eq_ok.1 h
  obtain ⟨values', onArguments', hvalues', hsame⟩ := hvalues callee values onArguments hcallee
    (fun j a hj hskip ha hbefore => by
      rw [Nat.zero_add] at hskip ⊢
      have hcomes : ComesToArgument skip' lib env call callee j a := ⟨hfind, hj, hskip, ha, hbefore⟩
      exact ⟨hidle.here callee j a hcomes, fun c hc => hidle.argument hcomes hc⟩)
  have hlength := length_of_valuesBy hvalues'
  have hinitial : callee.initial values' = callee.initial values := initial_congr fun k hk => by
    have hk' := hsame k
    rw [Nat.zero_add] at hk'
    exact hk' hk
  obtain ⟨cycles', hrun'⟩ := hrun callee values values' value cycles hcycles hinitial hlength.ge
    (hidle.body hfind hvalues')
  exact ⟨_, callBy_eq_ok.2 ⟨callee, values', onArguments', cycles', hfind, hvalues', hrun', rfl⟩⟩

private theorem value_carries {b : Binding}
    (hcall : ∀ c, b = .call c → ∀ value spent, callBy skip lib run "" env c = .ok (value, spent) →
      IdleHaveValues skip' lib env c →
      ∃ spent', callBy skip' lib (limitRunner skip' lib) "" env c = .ok (value, spent'))
    {value spent : Nat} (h : b.value (callBy skip lib run "") env = .ok (value, spent))
    (hidle : ∀ c, b = .call c → IdleHaveValues skip' lib env c) :
    ∃ spent', b.value (callBy skip' lib (limitRunner skip' lib) "") env = .ok (value, spent') := by
  rcases b with k | v | c
  · exact ⟨spent, h⟩
  · exact ⟨spent, h⟩
  · obtain ⟨⟨value', spent'⟩, hc, h⟩ := Bounded.bind_eq_ok.1 h
    obtain ⟨rfl, rfl⟩ := Prod.mk.inj (Except.ok.inj h)
    obtain ⟨spent'', hc'⟩ := hcall c rfl value' spent' hc (hidle c rfl)
    exact ⟨_, Bounded.bind_eq_ok.2 ⟨(value', spent''), hc', rfl⟩⟩

mutual

private theorem valueBy_carries (hskip : skip.Harmless) (hskip' : skip'.Harmless)
    (hrun : Carries skip' lib run) (function : String) : ∀ (a : Argument) (value spent : Nat),
    valueBy skip lib run "" env function a = .ok (value, spent) →
    (∀ c, lib.binding function a = .ok (.call c) → IdleHaveValues skip' lib env c) →
    ∃ spent', valueBy skip' lib (limitRunner skip' lib) "" env function a = .ok (value, spent')
  | .constant k => by
    intro value spent h _
    rw [valueBy] at h ⊢
    exact ⟨spent, h⟩
  | .name text => by
    intro value spent h hidle
    rw [valueBy_eq_binding] at h ⊢
    obtain ⟨b, hb, h⟩ := Bounded.bind_eq_ok.1 h
    rw [hb, Bounded.ok_bind]
    have hbinding := Bounded.lift_eq_ok.1 hb
    refine value_carries (fun c hc value spent hcall hidle => ?_) h fun c hc => ?_
    · have hnil : c.arguments = [] := by
        rw [hc] at hbinding
        exact arguments_of_binding_name hbinding
      refine callBy_carries hrun (fun callee values spent hvalues _ => ?_) hcall hidle
      rw [hnil, valuesBy_nil] at hvalues ⊢
      obtain ⟨rfl, rfl⟩ := Prod.mk.inj (Except.ok.inj hvalues)
      exact ⟨_, _, rfl, fun _ _ => rfl⟩
    · rw [hc] at hbinding
      exact hidle c hbinding
  | .call name arguments => by
    intro value spent h hidle
    rw [valueBy_eq_binding] at h ⊢
    have hbinding : lib.binding function (.call name arguments) =
        .ok (.call ⟨name, arguments⟩) := rfl
    rw [hbinding, Bounded.lift_ok, Bounded.ok_bind] at h ⊢
    refine value_carries (fun c hc value spent hcall hidle => ?_) h fun c hc => ?_
    · obtain rfl := Binding.call.inj hc
      exact callBy_carries hrun
        (fun callee => valuesBy_carries hskip hskip' hrun callee 0 callee.requiredInputs arguments)
        hcall hidle
    · exact hidle c (hbinding.trans (congrArg Except.ok hc))

private theorem valuesBy_carries (hskip : skip.Harmless) (hskip' : skip'.Harmless)
    (hrun : Carries skip' lib run) (callee : Program) (k : Nat) :
    ∀ (n : Nat) (as : List Argument), ValuesCarry skip skip' lib run env callee k n as
  | 0, _ => by
    intro values spent h _
    rw [valuesBy] at h ⊢
    exact ⟨values, spent, h, fun _ _ => rfl⟩
  | n + 1, [] => by
    intro values spent h _
    rw [valuesBy] at h ⊢
    exact ⟨values, spent, h, fun _ _ => rfl⟩
  | n + 1, a :: as => by
    intro values spent h hargument
    rw [valuesBy_cons] at h
    obtain ⟨⟨value, here⟩, hvalue, h⟩ := Bounded.bind_eq_ok.1 h
    obtain ⟨⟨rest, later⟩, hrest, h⟩ := Bounded.bind_eq_ok.1 h
    obtain ⟨rfl, rfl⟩ := Prod.mk.inj (Except.ok.inj h)
    -- A mentioned input gets the same value; any other one gets some value, or is skipped.
    obtain ⟨value', here', hvalue', hhead⟩ : ∃ value' here',
        (if skip' callee k then pure (0, 0)
          else valueBy skip' lib (limitRunner skip' lib) "" env callee.name a) =
            (.ok (value', here') : Bounded (Nat × Nat)) ∧
          (.input k ∈ callee.vars → value' = value) := by
      by_cases hs : skip' callee k = true
      · exact ⟨0, 0, if_pos hs, fun hm => absurd hm (hskip' callee k hs)⟩
      · obtain ⟨hidle, hcalls⟩ := hargument 0 a (Nat.succ_pos n) (Bool.eq_false_iff.2 hs) rfl
          ⟨_, by rw [valuesBy]; rfl⟩
        by_cases hk : .input k ∈ callee.vars
        · rw [if_neg fun hs => hskip callee k hs hk] at hvalue
          obtain ⟨here', hvalue'⟩ :=
            valueBy_carries hskip hskip' hrun callee.name a value here hvalue hcalls
          exact ⟨value, here', (if_neg hs).trans hvalue', fun _ => rfl⟩
        · obtain ⟨⟨value', here'⟩, hvalue'⟩ := hidle hk
          exact ⟨value', here', (if_neg hs).trans hvalue', fun hm => absurd hm hk⟩
    -- What the evaluation of the later arguments comes to, that of all of them comes to.
    have hindex : ∀ j, k + 1 + j = k + (j + 1) := fun j => by omega
    obtain ⟨rest', later', hrest', hsame⟩ :=
      valuesBy_carries hskip hskip' hrun callee (k + 1) n as rest later hrest
        (fun j a' hj hsk ha' hbefore => by
          rw [hindex] at hsk ⊢
          obtain ⟨r, hr⟩ := hbefore
          refine hargument (j + 1) a' (Nat.succ_lt_succ hj) hsk ha'
            ⟨(value' :: r.1, here' + r.2), ?_⟩
          rw [valuesBy_cons, hvalue', Bounded.ok_bind, hr]
          rfl)
    refine ⟨value' :: rest', here' + later', ?_, fun j hj => ?_⟩
    · rw [valuesBy_cons, hvalue', Bounded.ok_bind, hrest']
      rfl
    · cases j with
      | zero => exact hhead hj
      | succ j =>
        rw [← hindex] at hj
        exact hsame j hj

end

end Calls

/-! ### Runs -/

section Runs

variable {skip skip' : Skip} {lib : Library}

end Runs

/-! ### Runs that end -/

section Ends

variable {skip : Skip} {lib : Library} {env : Valuation} {call : Call}

end Ends

end RegisterMachine.Library
