import RegisterMachine.Expansion.Inline
import RegisterMachine.Proofs.VariableName

/-!
# Mentioned variables

An instruction mentions the variables of its operation, those in the arguments of its call, and its
spare ones. Renaming an instruction renames what it mentions.

* `Argument.mem_vars_cons` — the variables of arguments, one argument after another;
* `Argument.walk_renameList`, `Argument.mem_vars_renameList` — renamed arguments, node by node, and
  their variables;
* `Operation.Mentions` — the variables that an operation reads or writes;
* `Instruction.mem_referencedVariables`, `Instruction.exists_of_mem_rename` — the variables of an
  instruction and of a renamed one;
* `Program.mem_copiedVariables` — the variables of a copy of a program.
-/

namespace RegisterMachine

namespace Argument

/-! ### Arguments -/

/-- The variables of arguments are those of the first one and those of the others, though the list
of all of them is sorted. -/
theorem mem_vars_cons {v : Variable} {a : Argument} {as : List Argument} :
    v ∈ vars (a :: as) ↔ v ∈ vars [a] ∨ v ∈ vars as := by
  simp [vars, walk, List.filterMap_append]

@[simp] theorem vars_nil : vars [] = [] := rfl

@[simp] theorem vars_constant (value : Int) : vars [.constant value] = [] := by
  rw [vars, walk, nodes]
  rfl

/-- A name has a variable if it spells one. Other names stand for calls and have none. -/
theorem mem_vars_name {v : Variable} {text : String} :
    v ∈ vars [.name text] ↔ Variable.ofName? text = some v := by
  simp [vars, walk, nodes, asVariable?]

/-- A call has the variables of its arguments. -/
theorem mem_vars_call {v : Variable} {function : String} {as : List Argument} :
    v ∈ vars [.call function as] ↔ v ∈ vars as := by
  simp [vars, walk, nodes, asVariable?]

/-- Each argument has its variables among those of all arguments. -/
theorem mem_vars_of_mem {v : Variable} {a : Argument} {as : List Argument} (ha : a ∈ as)
    (hv : v ∈ vars [a]) : v ∈ vars as := by
  induction as with
  | nil => cases ha
  | cons b bs ih =>
    rcases List.mem_cons.1 ha with rfl | ha
    · exact mem_vars_cons.2 (.inl hv)
    · exact mem_vars_cons.2 (.inr (ih ha))

section Rename

variable {m : Renaming}

/-- Arguments are renamed one by one. The definition by recursion is for its termination only. -/
theorem renameList_eq_map (as : List Argument) : renameList m as = as.map (rename m) := by
  induction as with
  | nil => rw [renameList, List.map_nil]
  | cons a as ih => rw [renameList, List.map_cons, ih]

mutual

/-- Renaming changes every node of an argument in its place, so the nodes of the renamed argument
are the renamed nodes. -/
theorem nodes_rename : ∀ a : Argument, (a.rename m).nodes = a.nodes.map (rename m)
  | .constant value => by rw [rename, nodes, List.map_singleton, rename]
  | .name text => by
    rw [nodes, List.map_singleton, rename]
    split <;> rw [nodes]
  | .call function as => by
    rw [rename, nodes, nodes, List.map_cons, rename, walk_renameList as]

/-- The nodes of renamed arguments, one argument after another. -/
theorem walk_renameList : ∀ as : List Argument, walk (renameList m as) = (walk as).map (rename m)
  | [] => by rw [renameList, walk, List.map_nil]
  | a :: as => by rw [renameList, walk, walk, List.map_append, nodes_rename a, walk_renameList as]

end

/-- The variable of a renamed node is the one in the place of its variable. What stands for no
variable stands for none after renaming. -/
theorem asVariable?_rename (a : Argument) :
    (a.rename m).asVariable? = a.asVariable?.map fun v => (m v).getD v := by
  cases a with
  | constant value => rw [rename]; rfl
  | call function as => rw [rename]; rfl
  | name text =>
    rw [rename]
    cases ht : Variable.ofName? text with
    | none => simp [asVariable?, ht]
    | some v => cases hm : m v <;> simp [asVariable?, ht, hm]

/-- The variables of renamed arguments are those in the place of their variables. -/
theorem mem_vars_renameList {v : Variable} {as : List Argument} :
    v ∈ vars (renameList m as) ↔ ∃ w ∈ vars as, (m w).getD w = v := by
  have hvars : (walk (renameList m as)).filterMap asVariable? =
      ((walk as).filterMap asVariable?).map fun w => (m w).getD w := by
    rw [walk_renameList, List.filterMap_map, List.map_filterMap]
    exact congrArg (List.filterMap · _) (funext asVariable?_rename)
  simp only [vars, mem_sortedSet, hvars, List.mem_map]

/-- Renaming leaves the function that a node calls as it is. -/
theorem function?_rename (a : Argument) : (a.rename m).function? = a.function? := by
  cases a with
  | constant value => rw [rename]
  | call function as => rw [rename]; rfl
  | name text => rw [rename]; split <;> rfl

/-- Renaming variables leaves the called functions as they are. -/
theorem calledFunctions_renameList (as : List Argument) :
    calledFunctions (renameList m as) = calledFunctions as := by
  rw [calledFunctions, walk_renameList, List.filterMap_map]
  exact congrArg (fun f => sortedSet (List.filterMap f _)) (funext function?_rename)

/-- A name that spells no variable is not renamed, and one that spells a variable becomes another
one that does. -/
theorem bareName?_rename (a : Argument) : (a.rename m).bareName? = a.bareName? := by
  cases a with
  | constant value => rw [rename]
  | call function as => rw [rename]; rfl
  | name text =>
    rw [rename]
    cases ht : Variable.ofName? text with
    | none => rfl
    | some v => cases hm : m v <;> simp [bareName?, Variable.isName, ht, hm]

/-- Renaming variables leaves the bare names that spell none as they are. -/
theorem bareNames_renameList (as : List Argument) :
    bareNames (renameList m as) = bareNames as := by
  rw [bareNames, walk_renameList, List.filterMap_map]
  exact congrArg (fun f => sortedSet (List.filterMap f _)) (funext bareName?_rename)

mutual

/-- Where nothing is to be renamed, arguments keep even the spelling of their names. -/
theorem rename_none : ∀ a : Argument, a.rename (fun _ => none) = a
  | .constant value => by rw [rename]
  | .name text => by
    rw [rename]
    cases Variable.ofName? text <;> rfl
  | .call function as => by rw [rename, renameList_none as]

theorem renameList_none : ∀ as : List Argument, renameList (fun _ => none) as = as
  | [] => by rw [renameList]
  | a :: as => by rw [renameList, rename_none a, renameList_none as]

end

end Rename

end Argument

/-! ### Operations and instructions -/

namespace Operation

/-- The operation reads or writes the variable, in its operands or in an argument of its call. -/
def Mentions (o : Operation) (v : Variable) : Prop :=
  o.subject? = some v ∨ o.source? = some v ∨
    ∃ call, o.call? = some call ∧ v ∈ Argument.vars call.arguments

/-- A renamed operation mentions only variables that stand in the place of mentioned ones. -/
theorem exists_of_mentions_rename {m : Argument.Renaming} {f : Label → Label} {o : Operation}
    {v : Variable} (h : (o.rename m f).Mentions v) : ∃ w, o.Mentions w ∧ v = (m w).getD w := by
  rcases h with h | h | ⟨call, hc, h⟩
  · cases o <;> simp only [rename, subject?, Option.some.injEq, reduceCtorEq] at h <;>
      exact ⟨_, .inl rfl, h.symm⟩
  · cases o <;> simp only [rename, source?, Option.some.injEq, reduceCtorEq] at h <;>
      exact ⟨_, .inr (.inl rfl), h.symm⟩
  · cases o <;> simp only [rename, call?, Option.some.injEq, reduceCtorEq] at hc <;> subst hc <;>
      obtain ⟨w, hw, rfl⟩ := Argument.mem_vars_renameList.1 h <;>
      exact ⟨w, .inr (.inr ⟨_, rfl, hw⟩), rfl⟩

/-- An operation is itself again if neither its variables nor its labels change. -/
theorem rename_none (o : Operation) : o.rename (fun _ => none) id = o := by
  have honCall : ∀ call : Call, rename.onCall (fun _ => none) call = call := fun call => by
    rw [rename.onCall, Argument.renameList_none]
  cases o <;> simp [rename, rename.onVariable, honCall]

end Operation

namespace Instruction

/-- An instruction references the variables that its operation mentions, and its spare ones, which
have no part in what it does. -/
theorem mem_referencedVariables {i : Instruction} {v : Variable} :
    v ∈ i.referencedVariables ↔ i.operation.Mentions v ∨ v ∈ i.spareVariables := by
  simp only [referencedVariables, operandVariables, callVariables, arguments, Operation.Mentions,
    List.mem_eraseDups, List.mem_append, Option.mem_toList]
  cases i.operation.call? with
  | none => simp [or_assoc]
  | some call =>
    simp only [Option.some.injEq, exists_eq_left']
    rw [or_right_comm, or_assoc (a := _ = some v)]

/-- An instruction without spare operands references what its operation mentions. -/
theorem mem_referencedVariables_plain {label : Option Label} {o : Operation} {v : Variable} :
    v ∈ (plain label o).referencedVariables ↔ o.Mentions v := by
  rw [mem_referencedVariables]
  simp [plain]

/-- A renamed instruction references only variables that stand in the place of referenced ones. -/
theorem exists_of_mem_rename {m : Argument.Renaming} {f : Label → Label} {i : Instruction}
    {v : Variable} (h : v ∈ (i.rename m f).referencedVariables) :
    ∃ w ∈ i.referencedVariables, v = (m w).getD w := by
  rcases mem_referencedVariables.1 h with h | h
  · obtain ⟨w, hw, rfl⟩ := Operation.exists_of_mentions_rename h
    exact ⟨w, mem_referencedVariables.2 (.inl hw), rfl⟩
  · obtain ⟨w, hw, rfl⟩ := List.mem_map.1 h
    exact ⟨w, mem_referencedVariables.2 (.inr hw), rfl⟩

/-- The target of a renamed instruction is the renamed target, also if it is a spare one. -/
theorem target_rename (m : Argument.Renaming) (f : Label → Label) (i : Instruction) :
    (i.rename m f).target = i.target.map f := by
  obtain ⟨label, operation, spareVariables, spareTarget⟩ := i
  cases operation <;> simp [rename, target, Operation.rename, Operation.target?]

theorem rename_none (i : Instruction) : i.rename (fun _ => none) id = i := by
  rw [rename, Operation.rename_none]
  simp

end Instruction

/-! ### Programs -/

namespace Program

variable {p : Program}

/-- The variables of a program are those that its instructions reference. -/
theorem mem_vars {v : Variable} : v ∈ p.vars ↔ ∃ i ∈ p.code, v ∈ i.referencedVariables := by
  simp [vars]

/-- A copy of a program has the variables of the program, and the result even where it is not
mentioned. -/
theorem mem_copiedVariables {v : Variable} : v ∈ p.copiedVariables ↔ v ∈ p.vars ∨ v = .result := by
  rw [copiedVariables]
  by_cases h : p.vars.contains .result
  · rw [if_pos h, List.append_nil]
    have hr : .result ∈ p.vars := by simpa using h
    exact ⟨.inl, fun hv => hv.elim id fun he => he ▸ hr⟩
  · rw [if_neg h, List.mem_append, List.mem_singleton]

theorem foldr_max_le_iff {ns : List Nat} {n : Nat} : ns.foldr max 0 ≤ n ↔ ∀ k ∈ ns, k ≤ n := by
  induction ns with
  | nil => simp
  | cons k ns ih => rw [List.foldr_cons, Nat.max_le, ih, List.forall_mem_cons]

/-- The number of inputs that a run needs is the least one that covers every mentioned input. -/
theorem requiredInputs_le_iff {n : Nat} :
    p.requiredInputs ≤ n ↔ ∀ k, .input k ∈ p.vars → k < n := by
  rw [requiredInputs, foldr_max_le_iff]
  simp only [inputVariables, List.mem_map, List.mem_filter, forall_exists_index, and_imp]
  constructor
  · intro h k hk
    exact h _ _ hk rfl rfl
  · rintro h a v hv hinput rfl
    cases v with
    | input k => exact h k hv
    | result => simp [Variable.isInput, Variable.inputIndex?] at hinput
    | work k => simp [Variable.isInput, Variable.inputIndex?] at hinput

/-- Every input that is mentioned is one of those that a run needs. -/
theorem lt_requiredInputs {k : Nat} (h : .input k ∈ p.vars) : k < p.requiredInputs :=
  requiredInputs_le_iff.1 (Nat.le_refl _) k h

end Program

end RegisterMachine
