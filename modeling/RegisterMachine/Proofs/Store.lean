import Mathlib.Logic.Function.Basic
import RegisterMachine.Bounded
import RegisterMachine.Machine.Store
import RegisterMachine.Program

/-!
# Stores as valuations

All that a run reads from a store is what value each variable has. So a store is looked at as a
valuation: setting a variable updates the valuation at one point, and the store of a program before
its first step is the valuation `Program.initial`.
-/

namespace RegisterMachine

/-- The values of all variables. -/
abbrev Valuation := Variable → Nat

/-- The values of calls: for the values of the variables of its caller, the value of a call and the
cycles spent on it. -/
abbrev Meaning := Valuation → Call → Bounded (Nat × Nat)

namespace Store

private theorem lookup_cons_eq_ite (v w : Variable) (n : Nat) (entries : List (Variable × Nat)) :
    ((v, n) :: entries).lookup w = if w = v then some n else entries.lookup w := by
  rw [List.lookup_cons]
  cases h : w == v with
  | true => rw [if_pos (eq_of_beq h)]
  | false => rw [if_neg (ne_of_beq_false h)]

theorem lookup_putInto (v w : Variable) (n : Nat) (entries : List (Variable × Nat)) :
    (putInto v n entries).lookup w = if w = v then some n else entries.lookup w := by
  induction entries with
  | nil => exact lookup_cons_eq_ite v w n []
  | cons entry entries ih =>
    obtain ⟨u, m⟩ := entry
    unfold putInto
    by_cases hvu : v = u
    · subst hvu
      by_cases h : w = v <;> simp [lookup_cons_eq_ite, h]
    · rw [if_neg hvu]
      split
      · rw [lookup_cons_eq_ite]
      · rw [lookup_cons_eq_ite, ih, lookup_cons_eq_ite]
        by_cases h : w = v
        · simp [h, hvu]
        · simp [h]

/-- Setting a variable changes its value and no other. -/
@[simp] theorem get_set (s : Store) (v : Variable) (n : Nat) :
    (s.set v n).get = Function.update s.get v n := by
  funext w
  rw [get, find?, set, lookup_putInto, Function.update_apply]
  split <;> rfl

theorem get_ofVariables (vs : List Variable) (value : Variable → Nat) (v : Variable) :
    (ofVariables vs value).get v = if v ∈ vs ∧ v ≠ .result then value v else 0 := by
  have hlookup : ∀ ws : List Variable,
      (ws.map fun w => (w, if w = .result then 0 else value w)).lookup v =
        if v ∈ ws then some (if v = .result then 0 else value v) else none := by
    intro ws
    induction ws with
    | nil => simp
    | cons w ws ih =>
      rw [List.map_cons, lookup_cons_eq_ite, ih]
      by_cases h : v = w <;> simp [h]
  rw [get, find?, ofVariables, hlookup]
  by_cases hr : v = .result
  · simp [hr]
  · by_cases hm : v ∈ vs <;> simp [hr, hm]

end Store

namespace Program

variable (p : Program)

/-- The values of the variables before the first step on some inputs. -/
def initial (inputs : List Nat) : Valuation := fun v =>
  if v ∈ p.vars then (v.inputIndex?.bind (inputs[·]?)).getD 0 else 0

theorem initial_result (inputs : List Nat) : p.initial inputs .result = 0 := by
  simp [initial, Variable.inputIndex?]

theorem initial_work (inputs : List Nat) (k : Nat) : p.initial inputs (.work k) = 0 := by
  simp [initial, Variable.inputIndex?]

theorem initial_of_not_mem {inputs : List Nat} {v : Variable} (h : v ∉ p.vars) :
    p.initial inputs v = 0 :=
  if_neg h

theorem initial_input {inputs : List Nat} {k : Nat} (h : .input k ∈ p.vars) :
    p.initial inputs (.input k) = inputs[k]?.getD 0 := by
  rw [initial, if_pos h]
  rfl

/-- A program starts with the values of the inputs that it mentions, and with no others. -/
theorem initial_congr {p : Program} {inputs inputs' : List Nat}
    (h : ∀ k, .input k ∈ p.vars → inputs'[k]?.getD 0 = inputs[k]?.getD 0) :
    p.initial inputs' = p.initial inputs := by
  funext v
  by_cases hv : v ∈ p.vars
  · cases v with
    | result => rw [initial_result, initial_result]
    | work k => rw [initial_work, initial_work]
    | input k => rw [p.initial_input hv, p.initial_input hv, h k hv]
  · rw [p.initial_of_not_mem hv, p.initial_of_not_mem hv]

/-- The store that a run of a program starts with. -/
theorem get_initialStore (inputs : List Nat) :
    (Store.ofVariables p.vars fun v => (v.inputIndex?.bind (inputs[·]?)).getD 0).get =
      p.initial inputs := by
  funext v
  rw [Store.get_ofVariables]
  cases v with
  | result => simp [initial_result]
  | input k => simp [initial]
  | work k => simp [initial]

end Program

end RegisterMachine
