import RegisterMachine.Proofs.BlockSimulation

/-!
# The names in a block

A block mentions the variables of its instruction and fresh ones, and no others. Its first
instruction carries the label of the instruction that it replaces, and all its jumps lead into the
block itself, to `EXIT`, or to where that instruction jumps to.

* `Replaces` — a list of instructions may stand in the place of an instruction;
* `Library.replaces_block` — the block of an instruction may stand in its place.
-/

namespace RegisterMachine

open Instruction (plain)

/-- A list of instructions may stand in the place of an instruction: it carries the same label, and
all names in it come from the instruction or from a supply. -/
structure Replaces (s : Supply) (i : Instruction) (body : List Instruction) : Prop where
  /-- The label of the instruction stands on the first one of the list. -/
  label : ∀ l, i.label = some l → ∃ i', body[0]? = some i' ∧ i'.label = some l
  /-- The variables are those of the instruction and fresh ones. -/
  mentions : ∀ i' ∈ body, ∀ w ∈ i'.referencedVariables, w ∈ i.referencedVariables ∨ s.Fresh w
  /-- The targets are declared in the list, or they are those of the instruction. -/
  targets : ∀ i' ∈ body, ∀ l, i'.target = some l →
    l = .exit ∨ i.target = some l ∨ ∃ i'' ∈ body, i''.label = some l

/-- An instruction may stand in its own place. -/
theorem Replaces.self (s : Supply) (i : Instruction) : Replaces s i [i] where
  label l hl := ⟨i, rfl, hl⟩
  mentions i' hi' w hw := by
    obtain rfl := List.mem_singleton.1 hi'
    exact .inl hw
  targets i' hi' l hl := by
    obtain rfl := List.mem_singleton.1 hi'
    exact .inr (.inl hl)

namespace Block

variable {s : Supply} {label : Option Label} {spares : List Variable} {spare : Option Label}

/-! ### Blocks without calls -/

section Plain

attribute [local simp] Operation.Mentions Operation.subject? Operation.source? Operation.call?
  Operation.target? Instruction.mem_referencedVariables Instruction.target plain Supply.Fresh

/-- Clearing a variable: the loop has a fresh label and jumps nowhere else. The label of the
instruction, if it has one, is on a line in front of the loop. -/
theorem replaces_zeroVariable (v : Variable) :
    Replaces s ⟨label, .zeroVariable v, spares, spare⟩ ((zeroVariable label v).body s) := by
  rcases label with _ | l <;> refine ⟨?_, ?_, ?_⟩ <;> simp [zeroVariable, landing]

/-- A plain jump: the only jump leads to the target of the instruction, and the variable that is
tested is fresh. -/
theorem replaces_gotoLabel (target : Label) :
    Replaces s ⟨label, .gotoLabel target, spares, spare⟩ ((gotoLabel label target).body s) := by
  refine ⟨?_, ?_, ?_⟩ <;> simp [gotoLabel]

/-- An assignment of a constant: there is no jump, and only the variable itself is named. -/
theorem replaces_constantAssignment (v : Variable) (k : Nat) :
    Replaces s ⟨label, .constantAssignment v k, spares, spare⟩
      ((constantAssignment label v k).body s) := by
  refine ⟨?_, ?_, ?_⟩ <;> simp [constantAssignment]

/-- A jump for zero: one jump leads to the target and the other one over it, to a fresh label. -/
theorem replaces_jumpZero (v : Variable) (target : Label) :
    Replaces s ⟨label, .jumpZero v target, spares, spare⟩ ((jumpZero label v target).body s) := by
  refine ⟨?_, ?_, ?_⟩ <;> simp [jumpZero]

/-- An assignment of a variable to itself: nothing is left, or one line that has the label. -/
theorem replaces_selfAssignment (v : Variable) :
    Replaces s ⟨label, .assignment v v, spares, spare⟩ ((selfAssignment label v).body s) := by
  rcases label with _ | l <;> refine ⟨?_, ?_, ?_⟩ <;> simp [selfAssignment, landing]

/-- An assignment: both loops and the end of the block have fresh labels. -/
theorem replaces_assignment (v source : Variable) :
    Replaces s ⟨label, .assignment v source, spares, spare⟩
      ((assignment label v source).body s) := by
  refine ⟨?_, ?_, ?_⟩ <;> simp +contextual [assignment]

/-- A comparison with a constant: all tests lead to one fresh label, and the last jump to the
target. -/
theorem replaces_jumpEqualConstant (v : Variable) (k : Nat) (target : Label) :
    Replaces s ⟨label, .jumpEqualConstant v k target, spares, spare⟩
      ((jumpEqualConstant label v k target).body s) := by
  refine ⟨?_, ?_, ?_⟩
  · simp [jumpEqualConstant]
  · simp +contextual [jumpEqualConstant, or_imp, forall_and]
  · simp +contextual [jumpEqualConstant, or_imp, forall_and, or_and_right, exists_or]

/-- A comparison of two variables: the jumps between the tests lead to fresh labels, and one of the
last jumps leads to the target. -/
theorem replaces_jumpEqualVariable (v source : Variable) (target : Label) :
    Replaces s ⟨label, .jumpEqualVariable v source target, spares, spare⟩
      ((jumpEqualVariable label v source target).body s) := by
  refine ⟨?_, ?_, ?_⟩ <;> simp +contextual [jumpEqualVariable, or_imp]

end Plain

/-! ### Blocks of calls -/

section Inlining

open Program

variable {lib : Library} {i : Instruction} {v : Variable} {call : Call} {entry : Expansion}
  {bound : List (Variable × Binding)} {finish : Variable → Operation}

/-- The instructions in the block of a call: the line for its label, one for each argument, one for
each other variable of the copy, those of the copy itself, and the last one, which hands over the
result. -/
theorem mem_body_inlining {i' : Instruction} :
    i' ∈ (inlining label v entry bound finish).body s ↔
      (label.isSome = true ∧ i' = plain label (.neutral v)) ∨
      (∃ x ∈ bound, i' = plain none (x.2.operation (entry.program.freshFor s x.1))) ∨
      (∃ u ∈ unsupplied entry.program bound,
        i' = plain none (.zeroVariable (entry.program.freshFor s u))) ∨
      (∃ j ∈ entry.program.code,
        i' = j.rename (entry.program.copyVariable s) (entry.program.copyLabel s)) ∨
      i' = plain (some (copyEnd s)) (finish (entry.program.copyResult s)) := by
  rw [body_inlining]
  simp only [writes, List.map_append, List.map_map, List.mem_append, mem_landing, List.mem_map,
    List.mem_singleton, copy, or_assoc, @eq_comm _ _ i', Function.comp_apply]

/-- Handing over an argument mentions the parameter and what the argument mentions. -/
theorem mentions_operation {b : Binding} {w : Variable} (h : (b.operation v).Mentions w) :
    w = v ∨ b.Mentions w := by
  rcases b with k | source | c <;>
    simpa [Binding.operation, Binding.Mentions, Operation.Mentions, Operation.subject?,
      Operation.source?, Operation.call?, eq_comm] using h

/-- The block of a call owns the variables of its copy. -/
theorem owns_freshFor {u : Variable} (h : u ∈ entry.program.copiedVariables) :
    (inlining label v entry bound finish).Owns s (entry.program.freshFor s u) := by
  obtain ⟨k, hk, he⟩ := exists_freshFor (s := s) h
  exact ⟨k, hk, he⟩

/-- The variables of a copy are fresh ones. -/
theorem fresh_freshFor {u : Variable} (h : u ∈ entry.program.copiedVariables) :
    s.Fresh (entry.program.freshFor s u) := by
  obtain ⟨k, -, hk⟩ := exists_freshFor (s := s) h
  exact ⟨k, hk⟩

section Calls

variable (hi : i.operation.Takes v call finish)
  (hbound : lib.bindings entry.program 0 (call.arguments.take entry.program.requiredInputs) =
    .ok bound)

include hi hbound

/-- The variables in the block of a call are those of its instruction and those of the copy. -/
theorem mentions_inlining {i' : Instruction}
    (hi' : i' ∈ (inlining label v entry bound finish).body s) {w : Variable}
    (hw : w ∈ i'.referencedVariables) :
    w ∈ i.referencedVariables ∨ (inlining label v entry bound finish).Owns s w := by
  have hv : v ∈ i.referencedVariables := Instruction.mem_referencedVariables.2 (.inl hi.mentions)
  -- Line by line: landing, parameters, cleared variables, copy and last instruction.
  rcases mem_body_inlining.1 hi' with ⟨-, rfl⟩ | ⟨x, hx, rfl⟩ | ⟨u, hu, rfl⟩ | ⟨j, hj, rfl⟩ | rfl
  · rw [Instruction.mem_referencedVariables_plain] at hw
    obtain rfl : v = w := by simpa [Operation.Mentions, Operation.subject?, Operation.source?,
      Operation.call?] using hw
    exact .inl hv
  · rw [Instruction.mem_referencedVariables_plain] at hw
    rcases mentions_operation hw with rfl | hw
    · have hparameter := (Library.exists_of_mem_bindings hbound hx).1
      exact .inr (owns_freshFor (mem_copiedVariables.2 (.inl hparameter)))
    · exact .inl (Library.mem_referencedVariables_of_bindings hi.call?_eq hbound hx hw)
  · rw [Instruction.mem_referencedVariables_plain] at hw
    obtain rfl : entry.program.freshFor s u = w := by simpa [Operation.Mentions, Operation.subject?,
      Operation.source?, Operation.call?] using hw
    exact .inr (owns_freshFor (mem_unsupplied.1 hu).1)
  · obtain ⟨u, hu, rfl⟩ := Instruction.exists_of_mem_rename hw
    exact .inr (owns_freshFor (mem_copiedVariables.2 (.inl (mem_vars.2 ⟨j, hj, hu⟩))))
  · rw [Instruction.mem_referencedVariables_plain] at hw
    rcases hi.eq_of_mentions_finish hw with rfl | rfl
    · exact .inl hv
    · exact .inr (owns_freshFor (mem_copiedVariables.2 (.inr rfl)))

/-- The block of a call may stand in the place of its instruction. -/
theorem replaces_inlining (hcallee : entry.program.validate = .ok ()) :
    Replaces s i ((inlining i.label v entry bound finish).body s) where
  label l hl := by
    refine ⟨plain i.label (.neutral v), ?_, hl⟩
    rw [body_inlining, landing, hl]
    rfl
  mentions i' hi' w hw := (mentions_inlining hi hbound hi' hw).imp_right Owns.fresh
  targets i' hi' l hl := by
    have hplain : ∀ {label : Option Label} {o : Operation}, (plain label o).target = o.target? :=
      Option.or_none
    rcases mem_body_inlining.1 hi' with ⟨-, rfl⟩ | ⟨x, hx, rfl⟩ | ⟨u, hu, rfl⟩ | ⟨j, hj, rfl⟩ | rfl
    · cases hplain.symm.trans hl
    · obtain ⟨p, k | source | c⟩ := x <;> cases hplain.symm.trans hl
    · cases hplain.symm.trans hl
    · -- A target of the called program has a place in it, so the copy declares the new label.
      rw [Instruction.target_rename] at hl
      obtain ⟨t, ht, rfl⟩ := Option.map_eq_some_iff.1 hl
      obtain ⟨k, hk⟩ := validate_eq_ok_iff.1 hcallee j hj t ht
      cases t with
      | exit => exact .inr (.inr ⟨_, mem_body_inlining.2 (.inr (.inr (.inr (.inr rfl)))), rfl⟩)
      | numbered n =>
        obtain ⟨j', hj', hn⟩ := placeOf_numbered_iff.1 hk
        refine .inr (.inr ⟨j'.rename _ _, mem_body_inlining.2
          (.inr (.inr (.inr (.inl ⟨j', List.mem_of_getElem? hj', rfl⟩)))), ?_⟩)
        rw [Instruction.rename, hn]
        rfl
    · exact .inr (.inl (hi.target_eq_some (hplain.symm.trans hl)))

end Calls

end Inlining

end Block

/-! ### The block of any instruction -/

namespace Library

variable {lib : Library} {s : Supply} {i : Instruction} {block : Block}

/-- The block of an instruction may stand in its place. -/
theorem replaces_block (hlib : lib.validate = .ok ()) (h : lib.BlockOf i block)
    (s : Supply) : Replaces s i (block.body s) := by
  cases h with
  | self => exact .self s i
  | zeroVariable v => exact Block.replaces_zeroVariable v
  | gotoLabel target => exact Block.replaces_gotoLabel target
  | constantAssignment v k => exact Block.replaces_constantAssignment v k
  | jumpZero v target => exact Block.replaces_jumpZero v target
  | selfAssignment v => exact Block.replaces_selfAssignment v
  | assignment => exact Block.replaces_assignment _ _
  | jumpEqualConstant v k target => exact Block.replaces_jumpEqualConstant v k target
  | jumpEqualVariable v source target => exact Block.replaces_jumpEqualVariable v source target
  | call hi hfind hbound =>
    exact Block.replaces_inlining hi hbound
      (validate_of_mem hlib (mem_of_find? (find?_of_findExpansion? hfind)))

end Library

end RegisterMachine
