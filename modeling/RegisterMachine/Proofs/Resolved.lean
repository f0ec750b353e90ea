import RegisterMachine.Proofs.Acyclic
import RegisterMachine.Proofs.ExpandedRun

/-!
# Resolved calls

In a library that passes its checks, every function that a program calls explicitly finds a program.
Expansion puts no other calls into a program, so this stays so at every degree.

* `Argument.mem_calledFunctions`, `Argument.mem_bareNames` — what the nodes of arguments name;
* `Library.Resolved` — all explicit calls of an operation find programs;
* `Library.resolved_of_mem` — the programs of a library that passes its checks;
* `Library.resolved_expandRounds` — programs after any number of rounds.
-/

namespace RegisterMachine

/-! ### Nodes of arguments -/

namespace Argument

/-- The called functions of arguments are those of their nodes, at any depth. -/
theorem mem_calledFunctions {f : String} {as : List Argument} :
    f ∈ calledFunctions as ↔ ∃ n ∈ walk as, n.function? = some f := by
  rw [calledFunctions, mem_sortedSet, List.mem_filterMap]

/-- The bare names of arguments are those of their nodes, at any depth. -/
theorem mem_bareNames {name : String} {as : List Argument} :
    name ∈ bareNames as ↔ ∃ n ∈ walk as, n.bareName? = some name := by
  rw [bareNames, mem_sortedSet, List.mem_filterMap]

theorem walk_singleton (a : Argument) : walk [a] = a.nodes := by
  rw [walk, walk, List.append_nil]

/-- The nodes of some of the arguments are nodes of all of them. -/
theorem walk_tail_subset (a : Argument) (as : List Argument) : walk as ⊆ walk (a :: as) := by
  rw [walk]
  exact List.subset_append_right _ _

/-- The nodes of one of the arguments are nodes of all of them. -/
theorem walk_singleton_subset {a : Argument} {as : List Argument} (ha : a ∈ as) :
    walk [a] ⊆ walk as := by
  induction as with
  | nil => cases ha
  | cons b bs ih =>
    rcases List.mem_cons.1 ha with rfl | ha
    · rw [walk_singleton, walk]
      exact List.subset_append_left _ _
    · exact fun n hn => walk_tail_subset b bs (ih ha hn)

/-- The nodes of a call are the call itself and those of its arguments. -/
theorem walk_call (function : String) (as : List Argument) :
    walk [call function as] = call function as :: walk as := by
  rw [walk_singleton, nodes]

theorem walk_subset_walk_call (function : String) (as : List Argument) :
    walk as ⊆ walk [call function as] := by
  rw [walk_call]
  exact List.subset_cons_self _ _

theorem mem_walk_toArgument (c : Call) : c.toArgument ∈ walk [c.toArgument] := by
  rw [Call.toArgument, walk_call]
  exact List.mem_cons_self

/-- The nodes of each argument of a call are nodes of the call. -/
theorem walk_subset_walk_toArgument {c : Call} {a : Argument} (ha : a ∈ c.arguments) :
    walk [a] ⊆ walk [c.toArgument] := fun _ hn =>
  walk_subset_walk_call c.function c.arguments (walk_singleton_subset ha hn)

end Argument

/-! ### Resolved operations -/

namespace Library

variable {lib : Library}

/-- All functions that arguments call explicitly, at any depth, find programs. -/
def ResolvedIn (lib : Library) (as : List Argument) : Prop :=
  ∀ f ∈ Argument.calledFunctions as, lib.contains f = true

/-- All functions that an operation calls explicitly find programs. -/
def Resolved (lib : Library) (o : Operation) : Prop :=
  ∀ call, o.call? = some call → lib.ResolvedIn [call.toArgument]

/-- Whether functions are found is asked of each node by itself, so it holds for some of the nodes
if it holds for all. -/
theorem ResolvedIn.of_walk_subset {as bs : List Argument} (h : lib.ResolvedIn bs)
    (hsubset : Argument.walk as ⊆ Argument.walk bs) : lib.ResolvedIn as := by
  intro f hf
  obtain ⟨n, hn, hfn⟩ := Argument.mem_calledFunctions.1 hf
  exact h f (Argument.mem_calledFunctions.2 ⟨n, hsubset hn, hfn⟩)

/-- Where all functions of a call are found, the one that is called is. -/
theorem ResolvedIn.function {function : String} {as : List Argument}
    (h : lib.ResolvedIn [.call function as]) : lib.contains function = true := by
  refine h function (Argument.mem_calledFunctions.2 ⟨.call function as, ?_, rfl⟩)
  rw [Argument.walk_call]
  exact List.mem_cons_self

/-- All functions of a call are found if the one that is called is found, and all those in its
arguments. -/
theorem ResolvedIn.intro {function : String} {as : List Argument}
    (hfunction : lib.contains function = true) (has : lib.ResolvedIn as) :
    lib.ResolvedIn [.call function as] := by
  intro f hf
  obtain ⟨n, hn, hfn⟩ := Argument.mem_calledFunctions.1 hf
  rw [Argument.walk_call] at hn
  rcases List.mem_cons.1 hn with rfl | hn
  · obtain rfl := Option.some.inj hfn
    exact hfunction
  · exact has f (Argument.mem_calledFunctions.2 ⟨n, hn, hfn⟩)

theorem resolvedIn_nil (lib : Library) : lib.ResolvedIn [] := by
  intro f hf
  obtain ⟨n, hn, -⟩ := Argument.mem_calledFunctions.1 hf
  cases hn

/-- Renaming variables leaves functions as they are, so all are still found. -/
theorem ResolvedIn.rename {as : List Argument} (h : lib.ResolvedIn as) (m : Argument.Renaming) :
    lib.ResolvedIn (Argument.renameList m as) := by
  rw [ResolvedIn, Argument.calledFunctions_renameList]
  exact h

/-- The functions of an operation are found after renaming as before. -/
theorem Resolved.rename {o : Operation} (h : lib.Resolved o) (m : Argument.Renaming)
    (f : Label → Label) : lib.Resolved (o.rename m f) := by
  intro call hcall
  obtain ⟨call', hcall', rfl⟩ : ∃ call', o.call? = some call' ∧
      Operation.rename.onCall m call' = call := by
    cases o <;> simp_all [Operation.rename, Operation.call?]
  have hcall := h call' hcall'
  have harguments := hcall.of_walk_subset (Argument.walk_subset_walk_call _ _)
  exact .intro hcall.function (harguments.rename m)

/-- Operations without calls have no functions to be found. -/
theorem resolved_of_call?_eq_none {o : Operation} (h : o.call? = none) : lib.Resolved o := by
  intro call hcall
  rw [h] at hcall
  cases hcall

/-! ### Libraries that pass their checks -/

section Checked

variable {p q : Program}

theorem not_mem_names_of_findExact? {name : String} (h : lib.findExact? name = none) :
    name ∉ lib.names := by
  intro hname
  obtain ⟨q, hq, rfl⟩ := List.mem_map.1 hname
  obtain ⟨entry, hentry, rfl⟩ := List.mem_map.1 hq
  have hne := List.find?_eq_none.1 h entry hentry
  exact hne (decide_eq_true rfl)

/-- What a program calls has a name in the library, if no call is unknown. -/
theorem mem_names_of_mem_directCalls (hlib : lib.validate = .ok ()) (hp : p ∈ lib.programs)
    {name : String} (hname : name ∈ lib.directCalls p) : name ∈ lib.names := by
  obtain ⟨hcalls, -, -⟩ := validate_iff.1 hlib
  have hedge : (p.name, name) ∈ lib.callGraph.edges := by
    refine List.mem_flatMap.2 ⟨(p.name, lib.directCalls p), List.mem_map_of_mem hp, ?_⟩
    exact List.mem_map_of_mem hname
  have hknown := List.find?_eq_none.1 hcalls _ hedge
  simpa using hknown

/-- Every function that a program calls finds a program. -/
theorem contains_of_mem_calledFunctions (hlib : lib.validate = .ok ()) (hp : p ∈ lib.programs)
    {f : String} (hf : f ∈ p.calledFunctions) : lib.contains f = true := by
  have hname : (lib.resolve? f).getD f ∈ lib.directCalls p := by
    rw [directCalls, mem_sortedSet]
    exact List.mem_map_of_mem (List.mem_append_left _ hf)
  have hmem := mem_names_of_mem_directCalls hlib hp hname
  rcases hfind : lib.find? f with _ | q
  · -- A name that finds nothing would have to stand in the library.
    rw [resolve?, hfind] at hmem
    rw [find?, Option.map_eq_none_iff, findExpansion?, Option.or_eq_none_iff] at hfind
    exact absurd hmem (not_mem_names_of_findExact? hfind.1)
  · rw [contains, hfind]
    rfl

/-- In a library that passes its checks, all calls in its programs are resolved. -/
theorem resolved_of_mem (hlib : lib.validate = .ok ()) (hp : p ∈ lib.programs) {i : Instruction}
    (hi : i ∈ p.code) : lib.Resolved i.operation := by
  intro call hcall f hf
  refine contains_of_mem_calledFunctions hlib hp ?_
  rw [Program.calledFunctions, mem_sortedSet, List.mem_flatMap]
  refine ⟨i, hi, ?_⟩
  rw [Instruction.calledFunctions, hcall]
  exact hf

/-- Some node of the arguments names the program. -/
def Calls (lib : Library) (as : List Argument) (q : Program) : Prop :=
  ∃ name, (name ∈ Argument.calledFunctions as ∨ name ∈ Argument.bareNames as) ∧
    lib.find? name = some q

/-- What is called from some of the nodes is called from all of them. -/
theorem Calls.of_walk_subset {as bs : List Argument} (h : Argument.walk as ⊆ Argument.walk bs)
    (hq : lib.Calls as q) : lib.Calls bs q := by
  obtain ⟨name, hname, hfind⟩ := hq
  refine ⟨name, ?_, hfind⟩
  rw [Argument.mem_calledFunctions, Argument.mem_bareNames] at hname ⊢
  exact hname.imp (fun ⟨n, hn, hname⟩ => ⟨n, h hn, hname⟩) fun ⟨n, hn, hname⟩ => ⟨n, h hn, hname⟩

/-- A call calls the program that its function finds. -/
theorem calls_function {function : String} {as : List Argument} (h : lib.find? function = some q) :
    lib.Calls [.call function as] q := by
  refine ⟨function, .inl ?_, h⟩
  rw [Argument.mem_calledFunctions, Argument.walk_call]
  exact ⟨_, List.mem_cons_self, rfl⟩

/-- A bare name calls the program that it finds, if it spells no variable. -/
theorem calls_name {text : String} (htext : Variable.ofName? text = none)
    (h : lib.find? text = some q) : lib.Calls [.name text] q := by
  refine ⟨text, .inr ?_, h⟩
  rw [Argument.mem_bareNames, Argument.walk_singleton, Argument.nodes]
  refine ⟨.name text, List.mem_singleton.2 rfl, ?_⟩
  rw [Argument.bareName?, Variable.isName, htext]
  rfl

/-- An argument names every program that is named by the call that it is. -/
theorem Calls.of_binding {function : String} {a : Argument} {c : Call}
    (h : lib.binding function a = .ok (.call c)) (hq : lib.Calls [c.toArgument] q) :
    lib.Calls [a] q := by
  rcases binding_eq_call_iff.1 h with ⟨text, rfl, htext, -, rfl⟩ | rfl
  · obtain ⟨name, hname, hfind⟩ := hq
    rw [Argument.mem_calledFunctions, Argument.mem_bareNames, Call.toArgument,
      Argument.walk_call] at hname
    rcases hname with ⟨n, hn, hname⟩ | ⟨n, hn, hname⟩
    · obtain rfl := List.mem_singleton.1 hn
      obtain rfl := Option.some.inj hname
      exact calls_name htext hfind
    · obtain rfl := List.mem_singleton.1 hn
      cases hname
  · exact hq

/-- What holds of a call if it holds of its arguments, holds of every call. -/
theorem call_induction {P : Call → Prop}
    (step : ∀ c, (∀ a ∈ c.arguments, ∀ function c',
      lib.binding function a = .ok (.call c') → P c') → P c) (c : Call) : P c := by
  -- The arguments of an argument are smaller, and a bare name has none.
  induction hsize : sizeOf c.arguments using Nat.strong_induction_on generalizing c with
  | _ size ih =>
    subst hsize
    refine step c fun a ha function c' hc' => ih (sizeOf c'.arguments) ?_ c' rfl
    have hlt := List.sizeOf_lt_of_mem ha
    rcases binding_eq_call_iff.1 hc' with ⟨text, rfl, -, -, rfl⟩ | rfl
    · simp only [Argument.name.sizeOf_spec, List.nil.sizeOf_spec] at hlt ⊢
      omega
    · simp only [Call.toArgument, Argument.call.sizeOf_spec] at hlt ⊢
      omega

theorem lookup_map {f : Program → List String} {ps : List Program}
    (h : (ps.map Program.name).Nodup) (hp : p ∈ ps) :
    (ps.map fun q => (q.name, f q)).lookup p.name = some (f p) := by
  induction ps with
  | nil => cases hp
  | cons q ps ih =>
    obtain ⟨hq, hps⟩ := List.nodup_cons.1 h
    rw [List.map_cons, List.lookup_cons]
    rcases List.mem_cons.1 hp with rfl | hp
    · simp
    · have hne : (p.name == q.name) = false := by
        rw [beq_eq_false_iff_ne]
        exact fun heq => hq (heq ▸ List.mem_map_of_mem hp)
      rw [hne]
      exact ih hps hp

/-- The programs that a program calls follow it in the call graph. -/
theorem follows_of_calls (hp : p ∈ lib.programs) {i : Instruction} (hi : i ∈ p.code) {call : Call}
    (hcall : i.operation.call? = some call) (hq : lib.Calls [call.toArgument] q) :
    lib.callGraph.Follows q.name p.name := by
  have hsuccessors : lib.callGraph.successors p.name = lib.directCalls p := by
    rw [Digraph.successors, callGraph, lookup_map lib.nodup_names hp]
    rfl
  rw [Digraph.Follows, hsuccessors, directCalls, mem_sortedSet, List.mem_map]
  obtain ⟨name, hname, hfind⟩ := hq
  refine ⟨name, ?_, by rw [resolve?, hfind]; rfl⟩
  rw [List.mem_append]
  rcases hname with hname | hname
  · left
    rw [Program.calledFunctions, mem_sortedSet, List.mem_flatMap]
    exact ⟨i, hi, by rw [Instruction.calledFunctions, hcall]; exact hname⟩
  · right
    rw [List.mem_filter, Program.bareNames, mem_sortedSet, List.mem_flatMap]
    refine ⟨⟨i, hi, ?_⟩, by rw [contains, hfind]; rfl⟩
    rw [Instruction.bareNames, Instruction.arguments, hcall, Argument.mem_bareNames]
    rw [Argument.mem_bareNames, Call.toArgument, Argument.walk_call] at hname
    obtain ⟨n, hn, hname⟩ := hname
    rcases List.mem_cons.1 hn with rfl | hn
    · cases hname
    · exact ⟨n, hn, hname⟩

/-- No infinite chain of calls starts at a program of a library that passes its checks. -/
theorem acc_of_mem (hlib : lib.validate = .ok ()) (hp : p ∈ lib.programs) :
    Acc lib.callGraph.Follows p.name := by
  obtain ⟨-, -, hcycle⟩ := validate_iff.1 hlib
  refine Digraph.acc_of_findCycle? hcycle (List.mem_append_left _ ?_)
  rw [Digraph.sources, callGraph, List.map_map]
  exact List.mem_map_of_mem (f := Program.name) hp

end Checked

/-! ### Rounds -/

section Rounds

variable {i : Instruction} {block : Block}

/-- The block of an instruction without a call has no calls. -/
theorem call?_of_mem_block (hcall : i.operation.call? = none) (hblock : lib.BlockOf i block)
    (s : Supply) : ∀ i' ∈ block.body s, i'.operation.call? = none := by
  have hlanding : ∀ label v, ∀ i' ∈ Block.landing label v, i'.operation.call? = none := by
    intro label v i' hi'
    obtain ⟨-, rfl⟩ := Block.mem_landing.1 hi'
    rfl
  cases hblock with
  | self =>
    rw [Block.body_ofCode]
    exact List.forall_mem_singleton.2 hcall
  | zeroVariable v =>
    rw [Block.zeroVariable, Block.body_ofCode]
    refine List.forall_mem_append.2 ⟨hlanding _ v, ?_⟩
    simp [Instruction.plain, Operation.call?]
  | selfAssignment v =>
    rw [Block.selfAssignment, Block.body_ofCode]
    exact hlanding _ v
  | call hi => cases hi.call?_eq.symm.trans hcall
  | _ =>
    simp [Block.gotoLabel, Block.constantAssignment, Block.jumpZero, Block.assignment,
      Block.jumpEqualConstant, Block.jumpEqualVariable, Instruction.plain, Operation.call?, or_imp,
      forall_and]

/-- A parameter that is given a call has it from an argument whose functions are found, so they are
found in the call too. -/
theorem resolved_of_binding {function : String} {a : Argument} (ha : lib.ResolvedIn [a]) {c : Call}
    (h : lib.binding function a = .ok (.call c)) : lib.ResolvedIn [c.toArgument] := by
  rcases binding_eq_call_iff.1 h with ⟨text, -, -, htext, rfl⟩ | rfl
  · exact .intro htext (resolvedIn_nil lib)
  · exact ha

/-- The block of a call has no calls that are not resolved. -/
theorem resolved_inlining (hlib : lib.validate = .ok ()) {label : Option Label} {v : Variable}
    {call : Call} {entry : Expansion} {bound : List (Variable × Binding)}
    {finish : Variable → Operation} (hfinish : ∀ r, (finish r).call? = none)
    (hcall : lib.ResolvedIn [call.toArgument])
    (hfind : lib.findExpansion? call.function = some entry)
    (hbound : lib.bindings entry.program 0 (call.arguments.take entry.program.requiredInputs) =
      .ok bound) (s : Supply) : ∀ i' ∈ (Block.inlining label v entry bound finish).body s,
      lib.Resolved i'.operation := by
  intro i' hi'
  rcases Block.mem_body_inlining.1 hi' with
    ⟨-, rfl⟩ | ⟨⟨u, b⟩, hx, rfl⟩ | ⟨u, -, rfl⟩ | ⟨j, hj, rfl⟩ | rfl
  · exact resolved_of_call?_eq_none rfl
  · rcases b with k | source | c
    · exact resolved_of_call?_eq_none rfl
    · exact resolved_of_call?_eq_none rfl
    · obtain ⟨-, a, ha, hbinding⟩ := exists_of_mem_bindings hbound hx
      have hargument := hcall.of_walk_subset
        (Argument.walk_subset_walk_toArgument (List.mem_of_mem_take ha))
      rintro c' hc'
      obtain rfl := Option.some.inj hc'
      exact resolved_of_binding hargument hbinding
  · exact resolved_of_call?_eq_none rfl
  · exact (resolved_of_mem hlib (mem_of_find? (find?_of_findExpansion? hfind)) hj).rename _ _
  · exact resolved_of_call?_eq_none (hfinish _)

/-- The block of an instruction has no calls that are not resolved, if the instruction has none. -/
theorem resolved_block (hlib : lib.validate = .ok ()) (hi : lib.Resolved i.operation)
    (hblock : lib.BlockOf i block) (s : Supply) :
    ∀ i' ∈ block.body s, lib.Resolved i'.operation := by
  rcases hcall : i.operation.call? with _ | call
  · exact fun i' hi' => resolved_of_call?_eq_none (call?_of_mem_block hcall hblock s i' hi')
  · obtain ⟨v, entry, bound, finish, htakes, hfind, hbound, rfl⟩ := hblock.exists_inlining hcall
    exact resolved_inlining hlib htakes.call?_finish (hi call hcall) hfind hbound s

/-- Expansion keeps all calls of a program resolved. -/
theorem resolved_expandRounds (hlib : lib.validate = .ok ()) {n : Nat} {e e' : Expansion}
    (h : lib.expandRounds n e = .ok e')
    (he : ∀ i ∈ e.program.code, lib.Resolved i.operation) :
    ∀ i ∈ e'.program.code, lib.Resolved i.operation := by
  refine expandRounds_induction (P := fun e₁ => ∀ i ∈ e₁.program.code, lib.Resolved i.operation)
    (fun e₁ e₂ hround he => ?_) h he
  exact forall_mem_round hround (fun hblock _ hi => resolved_block hlib hi hblock _) he

end Rounds

end Library

end RegisterMachine
