import Mathlib.Data.List.Forall2
import RegisterMachine.Proofs.Renaming

/-!
# Arguments and parameters

Inlining gives a parameter to every mentioned input that has an argument. Where a call evaluates,
every parameter has the value that the called program gets for its input, and the cycles spent on
the arguments are those spent on the parameters, unless some were spent on an argument that no
mentioned input takes.

* `Library.exists_parameters` — from the evaluation of arguments to the values of parameters;
* `Library.exists_values` — and back, if arguments for unmentioned inputs are skipped;
* `Binding.value_congr` — the value of a parameter depends on the variables of its argument.
-/

namespace RegisterMachine

/-- The argument is a call, or a bare name that spells no variable. -/
def Argument.isCall : Argument → Bool
  | .constant _ => false
  | .name text => (Variable.ofName? text).isNone
  | .call _ _ => true

namespace Binding

/-- The variables that the value of a parameter depends on. -/
def Mentions : Binding → Variable → Prop
  | .constant _, _ => False
  | .variable v, w => v = w
  | .call c, w => w ∈ Argument.vars c.arguments

/-- The cycles that giving a parameter its value takes on top of those that evaluation spends. -/
def cost : Binding → Nat
  | .constant _ => Opcode.constantAssignment.cycles
  | .variable _ => Opcode.assignment.cycles
  | .call _ => 0

end Binding

theorem Meaning.Natural.congr {ev : Meaning} (hev : ev.Natural) {env env' : Valuation} {call : Call}
    (h : ∀ v ∈ Argument.vars call.arguments, env' v = env v) : ev env' call = ev env call := by
  have hcall : Operation.rename.onCall (fun _ => none) call = call := by
    rw [Operation.rename.onCall, Argument.renameList_none]
  have hagree : AgreeUnder (fun _ => none) env env' (Argument.vars call.arguments) := h
  rw [← hev hagree, hcall]

theorem Binding.value_congr {ev : Meaning} (hev : ev.Natural) {env env' : Valuation} {b : Binding}
    (h : ∀ w, b.Mentions w → env' w = env w) : b.value ev env' = b.value ev env := by
  rcases b with k | v | c
  · rfl
  · rw [value, value, h v rfl]
  · rw [value, value, hev.congr h]

/-- The operation that gives a parameter its value writes it. -/
theorem Binding.outcome_operation (ev : Meaning) (env : Valuation) (v : Variable) (b : Binding) :
    (b.operation v).outcome (ev env) env =
      b.value ev env >>= fun r => pure ⟨some (v, r.1), none, b.cost + r.2⟩ := by
  rcases b with k | source | c
  · rfl
  · rfl
  · rw [operation, Operation.outcome, value]
    cases ev env c with
    | error stop => rfl
    | ok r => simp [cost, Opcode.cycles]

/-- The values of parameters, each with the cycles spent on it, as the called program gets them from
the input at position `k` on. -/
def ParameterValues (ev : Meaning) (env : Valuation) (k : Nat) (values : List Nat)
    (bound : List (Variable × Binding)) (rs : List (Nat × Nat)) : Prop :=
  List.Forall₂ (fun x r => x.2.value ev env = .ok r ∧
    ∃ j, x.1 = .input (k + j) ∧ values[j]? = some r.1) bound rs

theorem ParameterValues.later {ev : Meaning} {env : Valuation} {k value : Nat} {values : List Nat}
    {bound : List (Variable × Binding)} {rs : List (Nat × Nat)}
    (h : ParameterValues ev env (k + 1) values bound rs) :
    ParameterValues ev env k (value :: values) bound rs := by
  refine h.imp fun x r => ?_
  rintro ⟨hr, j, hx, hj⟩
  exact ⟨hr, j + 1, by rw [hx]; congr 1; omega, hj⟩

namespace Library

variable {lib : Library} {callee : Program}

/-! ### Where parameters come from -/

theorem mem_vars_of_binding {function : String} {a : Argument} {b : Binding}
    (h : lib.binding function a = .ok b) {w : Variable} (hw : b.Mentions w) :
    w ∈ Argument.vars [a] := by
  cases a with
  | constant value =>
    rw [binding] at h
    split at h
    · cases h
    · obtain rfl := Except.ok.inj h
      exact hw.elim
  | name text =>
    rw [binding] at h
    cases ht : Variable.ofName? text with
    | some v =>
      rw [ht] at h
      obtain rfl := Except.ok.inj h
      obtain rfl : v = w := hw
      exact Argument.mem_vars_name.2 ht
    | none =>
      simp only [ht, bareCall] at h
      split at h
      · obtain rfl := Except.ok.inj h
        simp [Binding.Mentions] at hw
      · cases h
  | call function' arguments =>
    obtain rfl := Except.ok.inj h
    exact Argument.mem_vars_call.2 hw

/-- A parameter is given the value of a call if its argument is one, or is a bare name that finds a
program and spells no variable. -/
theorem binding_eq_call_iff {function : String} {a : Argument} {c : Call} :
    lib.binding function a = .ok (.call c) ↔
      (∃ text, a = .name text ∧ Variable.ofName? text = none ∧ lib.contains text = true ∧
        c = ⟨text, []⟩) ∨ a = c.toArgument := by
  rcases a with value | text | ⟨function', arguments⟩
  · rw [binding]
    split <;> simp [Call.toArgument]
  · rcases ht : Variable.ofName? text with _ | v
    · by_cases hcontains : lib.contains text = true
      · simp [binding, ht, bareCall, hcontains, Call.toArgument, @eq_comm _ c]
      · simp [binding, ht, bareCall, hcontains, Call.toArgument]
    · simp [binding, ht, Call.toArgument]
  · rcases c with ⟨f, as⟩
    simp [binding, Call.toArgument]

/-- A bare name is a call without arguments. -/
theorem arguments_of_binding_name {function text : String} {c : Call}
    (h : lib.binding function (.name text) = .ok (.call c)) : c.arguments = [] := by
  rcases binding_eq_call_iff.1 h with ⟨text, -, -, -, rfl⟩ | h
  · rfl
  · cases h

theorem bindings_cons_of_mem {k : Nat} (hk : .input k ∈ callee.vars) {a : Argument}
    {as : List Argument} {bound : List (Variable × Binding)} :
    lib.bindings callee k (a :: as) = .ok bound ↔
      ∃ b rest, lib.binding callee.name a = .ok b ∧ lib.bindings callee (k + 1) as = .ok rest ∧
        bound = (.input k, b) :: rest := by
  rw [bindings, if_pos (List.contains_iff_mem.2 hk)]
  constructor
  · intro h
    cases hb : lib.binding callee.name a with
    | error cause =>
      rw [hb] at h
      cases h
    | ok b =>
      cases hrest : lib.bindings callee (k + 1) as with
      | error cause =>
        rw [hb, hrest] at h
        cases h
      | ok rest =>
        rw [hb, hrest] at h
        exact ⟨b, rest, rfl, rfl, (Except.ok.inj h).symm⟩
  · rintro ⟨b, rest, hb, hrest, rfl⟩
    rw [hb, hrest]
    rfl

theorem bindings_cons_of_not_mem {k : Nat} (hk : .input k ∉ callee.vars) (a : Argument)
    (as : List Argument) : lib.bindings callee k (a :: as) = lib.bindings callee (k + 1) as := by
  rw [bindings, if_neg fun h => hk (List.contains_iff_mem.1 h)]

theorem exists_of_mem_bindings {k : Nat} {as : List Argument} {bound : List (Variable × Binding)}
    (h : lib.bindings callee k as = .ok bound) {x : Variable × Binding} (hx : x ∈ bound) :
    x.1 ∈ callee.vars ∧ ∃ a ∈ as, lib.binding callee.name a = .ok x.2 := by
  induction as generalizing k bound with
  | nil =>
    obtain rfl := Except.ok.inj h
    cases hx
  | cons a as ih =>
    by_cases hk : .input k ∈ callee.vars
    · obtain ⟨b, rest, hb, hrest, rfl⟩ := (bindings_cons_of_mem hk).1 h
      rcases List.mem_cons.1 hx with rfl | hx
      · exact ⟨hk, a, List.mem_cons_self, hb⟩
      · obtain ⟨hv, a', ha', hb'⟩ := ih hrest hx
        exact ⟨hv, a', List.mem_cons_of_mem a ha', hb'⟩
    · rw [bindings_cons_of_not_mem hk] at h
      obtain ⟨hv, a', ha', hb'⟩ := ih h hx
      exact ⟨hv, a', List.mem_cons_of_mem a ha', hb'⟩

/-- A parameter depends on variables of the call only. -/
theorem mem_vars_of_mem_bindings {k n : Nat} {as : List Argument}
    {bound : List (Variable × Binding)} (h : lib.bindings callee k (as.take n) = .ok bound)
    {x : Variable × Binding} (hx : x ∈ bound) {w : Variable} (hw : x.2.Mentions w) :
    w ∈ Argument.vars as := by
  obtain ⟨-, a, ha, hb⟩ := exists_of_mem_bindings h hx
  exact Argument.mem_vars_of_mem (List.mem_of_mem_take ha) (mem_vars_of_binding hb hw)

/-! ### Values of parameters -/

section Values

variable {skip : Skip} {run : Runner} {caller : String} {env : Valuation}

/-- Nothing is spent on an argument that is no call. -/
theorem spent_eq_zero {function : String} {a : Argument} (ha : a.isCall = false) {r : Nat × Nat}
    (h : valueBy skip lib run caller env function a = .ok r) : r.2 = 0 := by
  cases a with
  | constant value =>
    rw [valueBy] at h
    split at h
    · simp at h
    · obtain rfl := Except.ok.inj h
      rfl
  | name text =>
    rw [valueBy] at h
    cases ht : Variable.ofName? text with
    | some v =>
      rw [ht] at h
      obtain rfl := Except.ok.inj h
      rfl
    | none => simp [Argument.isCall, ht] at ha
  | call function' arguments => simp [Argument.isCall] at ha

/-- Nothing is spent on an argument that is skipped, or that is no call. -/
private theorem spent_eq_zero_of_ite {skipped : Bool} {function : String} {a : Argument}
    (ha : a.isCall = false) {r : Nat × Nat}
    (h : (if skipped then pure (0, 0) else valueBy skip lib run caller env function a) =
      (.ok r : Bounded (Nat × Nat))) : r.2 = 0 := by
  split at h
  · obtain rfl := Except.ok.inj h
    rfl
  · exact spent_eq_zero ha h

/-- Where arguments evaluate, the parameters have the values of their inputs, and the inputs without
a parameter that the program mentions are zero. -/
theorem exists_parameters (hskip : skip.Harmless) {n k : Nat} {as : List Argument}
    {values : List Nat} {spent : Nat}
    (h : valuesBy skip lib run caller env callee k n as = .ok (values, spent)) :
    ∃ bound rs, lib.bindings callee k (as.take n) = .ok bound ∧
      ParameterValues (callBy skip lib run caller) env k values bound rs ∧
      (∀ j, .input (k + j) ∈ callee.vars → .input (k + j) ∉ bound.map Prod.fst →
        values[j]?.getD 0 = 0) ∧
      ((∀ j a, j < n → as[j]? = some a → a.isCall = true → .input (k + j) ∈ callee.vars) →
        totalCost (rs.map Prod.snd) = spent) := by
  -- The induction is on the number of inputs, and the position of the first one moves along.
  induction n generalizing k as values spent with
  | zero =>
    rw [valuesBy] at h
    obtain ⟨rfl, rfl⟩ := Prod.mk.inj (Except.ok.inj h)
    exact ⟨[], [], rfl, .nil, fun _ _ _ => rfl, fun _ => rfl⟩
  | succ n ih =>
    cases as with
    | nil =>
      -- No argument is left, so all inputs from here on are zero.
      rw [valuesBy] at h
      obtain ⟨rfl, rfl⟩ := Prod.mk.inj (Except.ok.inj h)
      refine ⟨[], [], rfl, .nil, fun j _ _ => ?_, fun _ => rfl⟩
      rw [List.getElem?_replicate]
      split <;> rfl
    | cons a as =>
      rw [valuesBy_cons] at h
      obtain ⟨⟨value, here⟩, hvalue, h⟩ := Bounded.bind_eq_ok.1 h
      obtain ⟨⟨rest, later⟩, hrest, h⟩ := Bounded.bind_eq_ok.1 h
      obtain ⟨rfl, rfl⟩ := Prod.mk.inj (Except.ok.inj h)
      obtain ⟨bound, rs, hbound, hrs, hzero, hspent⟩ := ih hrest
      have hindex : ∀ j, k + 1 + j = k + (j + 1) := fun j => by omega
      have hcalls : (∀ j a', j < n + 1 → (a :: as)[j]? = some a' → a'.isCall = true →
          .input (k + j) ∈ callee.vars) → totalCost (rs.map Prod.snd) = later := fun hc =>
        hspent fun j a' hj ha' hcall => by
          rw [hindex]
          exact hc (j + 1) a' (Nat.succ_lt_succ hj) ha' hcall
      by_cases hk : .input k ∈ callee.vars
      · -- The input is mentioned, so its argument is evaluated and gives a parameter.
        rw [if_neg fun hs => hskip callee k hs hk, valueBy_eq_binding] at hvalue
        obtain ⟨b, hb, hvalue⟩ := Bounded.bind_eq_ok.1 hvalue
        refine ⟨(.input k, b) :: bound, (value, here) :: rs,
          (bindings_cons_of_mem hk).2 ⟨b, bound, Bounded.lift_eq_ok.1 hb, hbound, rfl⟩,
          .cons ⟨hvalue, 0, rfl, rfl⟩ hrs.later, ?_, fun hc => ?_⟩
        · intro j hj hnot
          cases j with
          | zero => exact absurd List.mem_cons_self hnot
          | succ j =>
            rw [← hindex] at hj hnot
            exact hzero j hj fun hm => hnot (List.mem_cons_of_mem _ hm)
        · rw [List.map_cons, totalCost_cons, hcalls hc]
      · -- The input gets no parameter, so there is nothing to add.
        refine ⟨bound, rs, ?_, hrs.later, ?_, fun hc => ?_⟩
        · rw [List.take_succ_cons, bindings_cons_of_not_mem hk]
          exact hbound
        · intro j hj hnot
          cases j with
          | zero => exact absurd hj hk
          | succ j =>
            rw [← hindex] at hj hnot
            exact hzero j hj hnot
        · have hcall : a.isCall = false := by
            rw [← Bool.not_eq_true]
            exact fun hcall => hk (hc 0 a (Nat.succ_pos n) rfl hcall)
          have hhere : here = 0 := spent_eq_zero_of_ite hcall hvalue
          rw [hcalls hc, hhere, Nat.zero_add]

/-- Where the parameters have values, arguments evaluate, those for unmentioned inputs skipped. -/
theorem exists_values {n k : Nat} {as : List Argument} {bound : List (Variable × Binding)}
    (h : lib.bindings callee k (as.take n) = .ok bound)
    (hb : ∀ x ∈ bound, ∃ r, x.2.value (callBy Skip.unmentioned lib run caller) env = .ok r) :
    ∃ r, valuesBy Skip.unmentioned lib run caller env callee k n as = .ok r := by
  induction n generalizing k as bound with
  | zero => exact ⟨_, by rw [valuesBy]; rfl⟩
  | succ n ih =>
    cases as with
    | nil => exact ⟨_, by rw [valuesBy]; rfl⟩
    | cons a as =>
      rw [List.take_succ_cons] at h
      by_cases hk : .input k ∈ callee.vars
      · obtain ⟨b, rest, hbind, hrest, rfl⟩ := (bindings_cons_of_mem hk).1 h
        obtain ⟨r, hr⟩ := hb _ List.mem_cons_self
        obtain ⟨r', hr'⟩ := ih hrest fun x hx => hb x (List.mem_cons_of_mem _ hx)
        have hskip : Skip.unmentioned callee k = false := by simpa [Skip.unmentioned] using hk
        refine ⟨(r.1 :: r'.1, r.2 + r'.2), ?_⟩
        rw [valuesBy_cons, hskip, if_neg Bool.false_ne_true, valueBy_eq_binding, hbind]
        simp only [Bounded.lift_ok, Bounded.ok_bind, hr, hr', Bounded.pure_eq_ok]
      · -- The argument has no parameter that could have a value, but it is skipped.
        rw [bindings_cons_of_not_mem hk] at h
        obtain ⟨r', hr'⟩ := ih h hb
        have hskip : Skip.unmentioned callee k = true := by simpa [Skip.unmentioned] using hk
        refine ⟨(0 :: r'.1, 0 + r'.2), ?_⟩
        rw [valuesBy_cons, hskip, if_pos rfl]
        simp only [Bounded.pure_eq_ok, Bounded.ok_bind, hr']

end Values

end Library

end RegisterMachine
