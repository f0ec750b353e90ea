import RegisterMachine.Library.CallGraph
import RegisterMachine.Proofs.Inlining

/-!
# Evaluated and inlined calls

A call of a library can be evaluated, or inlined and run. Where its evaluation has a value, its
block gives the result variable of the copy that value, and costs what evaluation spends, and on top
of that what it takes to hand over the arguments and to clear the other variables. Where the block
is left, the call has a value.

* `Library.path_call` — from the evaluation of a call to a run of its block;
* `Library.exists_value_of_path` — and back, if arguments for unmentioned inputs are skipped.
-/

namespace RegisterMachine.Library

open Program

variable {skip : Skip} {lib : Library} {q : Program} {base : Nat} {s : Supply}
  {label : Option Label} {v : Variable} {call : Call} {finish : Variable → Operation}
  {entry : Expansion} {bound : List (Variable × Binding)} {env : Valuation}

/-! ### Programs of a library -/

theorem mem_of_findExpansion? {name : String} {e : Expansion}
    (h : lib.findExpansion? name = some e) : e ∈ lib.entries := by
  rw [findExpansion?, Option.or_eq_some_iff] at h
  rcases h with h | ⟨-, h⟩
  · exact List.mem_of_find?_eq_some h
  · exact List.mem_of_find?_eq_some h

theorem mem_of_find? {name : String} {p : Program} (h : lib.find? name = some p) :
    p ∈ lib.programs := by
  obtain ⟨e, he, rfl⟩ := exists_findExpansion? h
  exact List.mem_map_of_mem (mem_of_findExpansion? he)

theorem forM_eq_ok {ps : List Program} (h : ps.forM Program.validate = .ok ()) :
    ∀ p ∈ ps, p.validate = .ok () := by
  induction ps with
  | nil => exact fun p hp => nomatch hp
  | cons p ps ih =>
    have hseq : (p.validate >>= fun _ => ps.forM Program.validate) = .ok () := h
    obtain ⟨u, hp, hps⟩ := Bounded.bind_eq_ok.1 hseq
    intro p' hp'
    rcases List.mem_cons.1 hp' with rfl | hp'
    · exact hp
    · exact ih hps p' hp'

/-- A library passes its checks against a graph if this has no unknown calls and no cycle, and every
program passes its own check. -/
theorem validateWith_iff {graph : Digraph String} :
    lib.validateWith graph = .ok () ↔ lib.unknownCall? graph = none ∧
      lib.programs.forM Program.validate = .ok () ∧ graph.findCycle? = none := by
  rw [validateWith]
  rcases lib.unknownCall? graph with _ | call
  · have hforM : (∃ u, lib.programs.forM Program.validate = .ok u) ↔
        lib.programs.forM Program.validate = .ok () :=
      ⟨fun ⟨_, h⟩ => h, fun h => ⟨(), h⟩⟩
    rcases graph.findCycle? with _ | cycle
    · simpa [Bounded.bind_eq_ok] using hforM
    · simp [Bounded.bind_eq_ok]
  · simp

theorem validate_iff :
    lib.validate = .ok () ↔ lib.unknownCall? lib.callGraph = none ∧
      lib.programs.forM Program.validate = .ok () ∧ lib.callGraph.findCycle? = none :=
  validateWith_iff

/-- In a library that passes its checks, every program passes its own. -/
theorem validate_of_mem (h : lib.validate = .ok ()) {p : Program} (hp : p ∈ lib.programs) :
    p.validate = .ok () := by
  obtain ⟨-, hforM, -⟩ := validate_iff.1 h
  exact forM_eq_ok hforM p hp

/-! ### From evaluation to the block -/

/-- Every argument that is a call goes to an input that the called program mentions. -/
def NoIdleCalls (callee : Program) (call : Call) : Prop :=
  ∀ k a, k < callee.requiredInputs → call.arguments[k]? = some a → a.isCall = true →
    .input k ∈ callee.vars

/-- Where a call has a value, its block gives it to the result variable of the copy. -/
theorem path_call (hskip : skip.Harmless) (hfind : lib.findExpansion? call.function = some entry)
    (hbound : lib.bindings entry.program 0 (call.arguments.take entry.program.requiredInputs) =
      .ok bound)
    (hq : q.Holds base ((Block.inlining label v entry bound finish).body s))
    (hfresh : ∀ w ∈ Argument.vars call.arguments, ¬ s.Fresh w)
    {value spent : Nat} (hvalue : meaning skip lib env call = .ok (value, spent)) :
    ∃ n env' cost, Path (meaning skip lib) q n cost ⟨base, env⟩
        ⟨Block.finishPlace base label v entry.program bound, env'⟩ ∧
      env' (entry.program.copyResult s) = value ∧ entry.program.Frames s env env' ∧
      (NoIdleCalls entry.program call → cost = spent + totalCost (bound.map (·.2.cost)) +
        (Block.unsupplied entry.program bound).length) := by
  obtain ⟨callee, values, onArguments, cycles, hfind', hvalues, hrun, rfl⟩ := callBy_eq_ok.1 hvalue
  obtain rfl := Option.some.inj ((find?_of_findExpansion? hfind).symm.trans hfind')
  obtain ⟨bound', rs, hbound', hrs, hzero, hspent⟩ := exists_parameters hskip hvalues
  obtain rfl := Except.ok.inj (hbound.symm.trans hbound')
  obtain ⟨-, -, n, d, hpath, hend, rfl⟩ := (limitRunner_eq_ok_iff skip lib).1 hrun
  have hzero' : ∀ j, .input j ∈ entry.program.vars → .input j ∉ bound.map Prod.fst →
      values[j]?.getD 0 = 0 := fun j => by
    have hj := hzero j
    rwa [Nat.zero_add] at hj
  obtain ⟨n', env', hblockPath, hresult, hframe⟩ := Block.path_inlining
    (natural_meaning skip lib) hq (fun x hx => (exists_of_mem_bindings hbound hx).1)
    (fun x hx w hw => hfresh w (mem_vars_of_mem_bindings hbound hx hw)) hrs hzero' hpath hend
  refine ⟨n', env', _, hblockPath, hresult, hframe, fun hidle => ?_⟩
  rw [hspent fun k a hk ha hcall => by rw [Nat.zero_add]; exact hidle k a hk ha hcall]
  omega

/-! ### From the block to evaluation -/

/-- Where a run of a host ends that has the block of a call, the call has a value, if arguments for
unmentioned inputs are skipped. -/
theorem exists_value_of_path (hlib : lib.validate = .ok ())
    (hfind : lib.findExpansion? call.function = some entry)
    (hbound : lib.bindings entry.program 0 (call.arguments.take entry.program.requiredInputs) =
      .ok bound)
    (hq : q.Holds base ((Block.inlining label v entry bound finish).body s))
    (hfresh : ∀ w ∈ Argument.vars call.arguments, ¬ s.Fresh w) {n cost : Nat} {e : Config}
    (hpath : Path (meaning Skip.unmentioned lib) q n cost ⟨base, env⟩ e)
    (hend : q.code.length ≤ e.place) :
    ∃ r, meaning Skip.unmentioned lib env call = .ok r := by
  have hev : (meaning Skip.unmentioned lib).Natural := natural_meaning Skip.unmentioned lib
  have hparameter : ∀ x ∈ bound, x.1 ∈ entry.program.vars := fun x hx =>
    (exists_of_mem_bindings hbound hx).1
  have hmention : ∀ x ∈ bound, ∀ w, x.2.Mentions w → ¬ s.Fresh w := fun x hx w hw =>
    hfresh w (mem_vars_of_mem_bindings hbound hx hw)
  -- The arguments have values, since the run gets past them.
  have hparameters : ∀ x ∈ bound, ∃ r, x.2.value (meaning Skip.unmentioned lib) env = .ok r := by
    obtain ⟨n₀, hlanding⟩ := Block.path_landing (meaning Skip.unmentioned lib) env
      (Block.holds_landing hq)
    obtain ⟨n₁, cost₁, -, -, hrest⟩ := hlanding.resume hpath hend
    exact Block.parameters_of_path hev hparameter hmention (fun _ _ => rfl)
      (Block.holds_parameters hq) hrest hend
  obtain ⟨⟨values, onArguments⟩, hvalues⟩ := exists_values hbound hparameters
  have hlength := length_of_valuesBy hvalues
  obtain ⟨bound', rs, hbound', hrs, hzero, -⟩ :=
    exists_parameters Skip.harmless_unmentioned hvalues
  obtain rfl := Except.ok.inj (hbound.symm.trans hbound')
  have hzero' : ∀ j, .input j ∈ entry.program.vars → .input j ∉ bound.map Prod.fst →
      values[j]?.getD 0 = 0 := fun j => by
    have hj := hzero j
    rwa [Nat.zero_add] at hj
  -- The copy starts from the values of the arguments, and the run gets past it too.
  obtain ⟨n₁, env₁, hprologue, hcopies⟩ :=
    Block.path_prologue hev hq hparameter hmention hrs hzero'
  obtain ⟨n₂, cost₂, -, -, hrest⟩ := hprologue.resume hpath hend
  -- So the run of the called program ends, and the call has its result.
  have hcallee := find?_of_findExpansion? hfind
  have hvalid := validate_of_mem hlib (mem_of_find? hcallee)
  obtain ⟨n₃, cycles, d, hrun, hd⟩ :=
    (hosts_copy (Block.holds_copy hq)).ends hev hvalid hcopies hrest hend
  have hlimit := (limitRunner_eq_ok_iff Skip.unmentioned lib).2
    ⟨hvalid, hlength.ge, n₃, d, hrun, hd, rfl⟩
  exact ⟨_, callBy_eq_ok.2 ⟨entry.program, values, onArguments, cycles, hcallee, hvalues,
    hlimit, rfl⟩⟩

end RegisterMachine.Library
