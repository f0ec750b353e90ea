import RegisterMachine.Proofs.RoundsNeeded

/-!
# A round takes one off

Everything in a block needs one round less than the instruction that the block replaces, and
something in it needs no fewer. For the latter the names of the block have to be fresh: the copy of
a variable to itself needs less than a copy to another one.

* `Block.ownDegree_le`, `Block.le_ownDegree` — blocks without calls;
* `Library.basicWithin_of_mem_block`, `Library.basicWithin_of_block` — from an instruction to its
  block, and back;
* `Library.basicWithin_round`, `Library.basicWithin_of_round` — the same for whole rounds.
-/

namespace RegisterMachine

open Instruction (plain)
open Program

variable {lib : Library} {i : Instruction} {block : Block}

/-! ### Blocks without calls -/

namespace Block

section Plain

attribute [local simp] Operation.ownDegree plain Operation.opcode Opcode.degree?

theorem ownDegree_of_mem_landing {label : Option Label} {v : Variable} {i' : Instruction}
    (h : i' ∈ landing label v) : i'.operation.ownDegree = 0 := by
  obtain ⟨-, rfl⟩ := mem_landing.1 h
  rfl

/-- Every instruction of a block without calls needs a round less. -/
theorem ownDegree_le (hcall : i.operation.call? = none) (hblock : lib.BlockOf i block)
    (s : Supply) : ∀ i' ∈ block.body s, i'.operation.ownDegree ≤ i.operation.ownDegree - 1 := by
  cases hblock with
  | self hbasic =>
    rw [body_ofCode, List.forall_mem_singleton, Operation.ownDegree_eq_zero_iff.2 hbasic]
  | zeroVariable v =>
    rw [zeroVariable, body_ofCode]
    refine List.forall_mem_append.2 ⟨fun i' hi' => (ownDegree_of_mem_landing hi').le, ?_⟩
    simp
  | selfAssignment v =>
    rw [selfAssignment, body_ofCode]
    exact fun i' hi' => (ownDegree_of_mem_landing hi').le.trans (Nat.zero_le _)
  | assignment hne => simp [assignment, hne]
  | jumpEqualConstant v k target =>
    have hcopy := Operation.ownDegree_assignment_le (s.freshVariable 0) v
    simpa [jumpEqualConstant, or_imp, forall_and] using hcopy
  | jumpEqualVariable v source target =>
    have hcopy := Operation.ownDegree_assignment_le (s.freshVariable 0) v
    have hcopy' := Operation.ownDegree_assignment_le (s.freshVariable 1) source
    simpa [jumpEqualVariable] using ⟨hcopy, hcopy'⟩
  | call hi => cases hi.call?_eq.symm.trans hcall
  | _ => simp [gotoLabel, constantAssignment, jumpZero]

/-- Where every instruction of a block without calls needs at most `n` rounds, the block is that of
an instruction that needs at most one more. -/
theorem le_ownDegree (hcall : i.operation.call? = none) (hblock : lib.BlockOf i block)
    {s : Supply} (hfresh : ∀ w ∈ i.referencedVariables, ¬ s.Fresh w) {n : Nat}
    (h : ∀ i' ∈ block.body s, i'.operation.ownDegree ≤ n) : i.operation.ownDegree ≤ n + 1 := by
  obtain ⟨label, operation, spares, spare⟩ := i
  have hcopy : ∀ v, operation.Mentions v → ∀ k,
      (Operation.assignment (s.freshVariable k) v).ownDegree = 2 := by
    intro v hv k
    refine if_neg fun he => hfresh v (Instruction.mem_referencedVariables.2 (.inl hv)) ⟨k, he.symm⟩
  cases hblock with
  | self hbasic => exact (Operation.ownDegree_eq_zero_iff.2 hbasic).le.trans (Nat.zero_le _)
  | @assignment _ _ _ v _ hne =>
    have hzero : 1 ≤ n := h (plain label (.zeroVariable v)) (by simp [assignment])
    simpa [hne] using hzero
  | constantAssignment v k =>
    have hzero : 1 ≤ n := h (plain label (.zeroVariable v)) (by simp [constantAssignment])
    simpa using hzero
  | jumpZero v target =>
    have hgoto : 1 ≤ n := h (plain none (.gotoLabel target)) (by simp [jumpZero])
    simpa using hgoto
  | jumpEqualConstant v k target =>
    have hfirst := h (plain label (.assignment (s.freshVariable 0) v)) (by simp [jumpEqualConstant])
    have htwo : 2 ≤ n := (hcopy v (.inl rfl) 0).symm.le.trans hfirst
    simpa using htwo
  | jumpEqualVariable v source target =>
    have hfirst := h (plain label (.assignment (s.freshVariable 0) v)) (by simp [jumpEqualVariable])
    have htwo : 2 ≤ n := (hcopy v (.inl rfl) 0).symm.le.trans hfirst
    simpa using htwo
  | call hi => cases hi.call?_eq.symm.trans hcall
  | _ => simp

end Plain

end Block

/-! ### Blocks of calls -/

namespace Library

variable {ok : Call → Prop} {n : Nat} {label : Option Label} {v : Variable} {call : Call}
  {entry : Expansion} {bound : List (Variable × Binding)} {finish : Variable → Operation}
  (hok : ∀ m call, ok (Operation.rename.onCall m call) ↔ ok call)

include hok

/-- Everything in the block of a call needs a round less than the operation with the call. -/
theorem basicWithin_of_mem_inlining {o : Operation} (htakes : o.Takes v call finish)
    (hfind : lib.find? call.function = some entry.program)
    (hbound : lib.bindings entry.program 0 (call.arguments.take entry.program.requiredInputs) =
      .ok bound) (ho : lib.BasicWithin ok (n + 1) o) (s : Supply) :
    ∀ i' ∈ (Block.inlining label v entry bound finish).body s,
      lib.BasicWithin ok n i'.operation := by
  obtain ⟨hdegree, -, h⟩ := (basicWithin_of_call htakes.call?_eq).1 ho
  have hthree := Operation.three_le_ownDegree htakes.call?_eq
  have hplain : ∀ {o : Operation}, o.call? = none → o.ownDegree ≤ 2 → lib.BasicWithin ok n o :=
    fun hcall hle => (basicWithin_iff_of_call?_eq_none hcall).2 (by omega)
  intro i' hi'
  rcases Block.mem_body_inlining.1 hi' with
    ⟨-, rfl⟩ | ⟨⟨u, k | source | c⟩, hx, rfl⟩ | ⟨u, -, rfl⟩ | ⟨j, hj, rfl⟩ | rfl
  · exact hplain rfl (Nat.zero_le 2)
  · exact hplain rfl le_rfl
  · exact hplain rfl (Operation.ownDegree_assignment_le _ _)
  · exact (basicWithin_quotation_congr u _ c).1
      (h.quotations entry.program bound hfind hbound u c hx)
  · exact hplain rfl (Nat.le_succ 1)
  · exact (h.body entry.program hfind j hj).rename (hok _) _
  · have hfinish := htakes.ownDegree_finish_le (entry.program.copyResult s)
    exact (basicWithin_iff_of_call?_eq_none (htakes.call?_finish _)).2 (by omega)

/-- What inlining takes over needs no more rounds than the block of the call. -/
theorem takesOver_of_inlining (hfind : lib.find? call.function = some entry.program)
    (hbound : lib.bindings entry.program 0 (call.arguments.take entry.program.requiredInputs) =
      .ok bound) {s : Supply} (h : ∀ i' ∈ (Block.inlining label v entry bound finish).body s,
      lib.BasicWithin ok n i'.operation) :
    lib.TakesOver call (lib.BasicWithin ok n) := by
  refine .of_bindings hfind hbound (fun j hj => ?_) fun u c hc => ?_
  · have hcopy := h _ (Block.mem_body_inlining.2 (.inr (.inr (.inr (.inl ⟨j, hj, rfl⟩)))))
    refine (basicWithin_rename (hok _) _ fun u w hu hw he => ?_).1 hcopy
    exact freshFor_injective (mem_copiedVariables_of_mentions hj hu)
      (mem_copiedVariables_of_mentions hj hw) he
  · have hquotation := h _ (Block.mem_body_inlining.2 (.inr (.inl ⟨(u, .call c), hc, rfl⟩)))
    exact (basicWithin_quotation_congr _ u c).1 hquotation

/-- From an instruction to its block. -/
theorem basicWithin_of_mem_block (hblock : lib.BlockOf i block)
    (hi : lib.BasicWithin ok (n + 1) i.operation) (s : Supply) :
    ∀ i' ∈ block.body s, lib.BasicWithin ok n i'.operation := by
  rcases hcall : i.operation.call? with _ | call
  · intro i' hi'
    have hle := Block.ownDegree_le hcall hblock s i' hi'
    have hdegree := hi.ownDegree_le
    exact (basicWithin_iff_of_call?_eq_none (call?_of_mem_block hcall hblock s i' hi')).2 (by omega)
  · obtain ⟨v, entry, bound, finish, htakes, hfind, hbound, rfl⟩ := hblock.exists_inlining hcall
    exact basicWithin_of_mem_inlining hok htakes (find?_of_findExpansion? hfind) hbound hi s

/-- From the block of an instruction back to it. -/
theorem basicWithin_of_block (hblock : lib.BlockOf i block) {s : Supply}
    (hfresh : ∀ w ∈ i.referencedVariables, ¬ s.Fresh w)
    (hcalls : ∀ call, i.operation.call? = some call → ok call)
    (h : ∀ i' ∈ block.body s, lib.BasicWithin ok n i'.operation) :
    lib.BasicWithin ok (n + 1) i.operation := by
  rcases hcall : i.operation.call? with _ | call
  · refine (basicWithin_iff_of_call?_eq_none hcall).2 (Block.le_ownDegree hcall hblock hfresh ?_)
    exact fun i' hi' => (h i' hi').ownDegree_le
  · obtain ⟨v, entry, bound, finish, htakes, hfind, hbound, rfl⟩ := hblock.exists_inlining hcall
    have htakesOver := takesOver_of_inlining hok (find?_of_findExpansion? hfind) hbound h
    refine (basicWithin_of_call hcall).2 ⟨?_, hcalls call hcall, htakesOver⟩
    -- The result is copied from a fresh variable, so to another one.
    have hv : ¬ s.Fresh v := hfresh v (Instruction.mem_referencedVariables.2 (.inl htakes.mentions))
    have hresult : s.Fresh (entry.program.copyResult s) :=
      Block.fresh_freshFor (mem_copiedVariables.2 (.inr rfl))
    rw [← htakes.ownDegree_finish fun he => hv (he ▸ hresult)]
    exact Nat.succ_le_succ (h _ (Block.mem_body_inlining.2
      (.inr (.inr (.inr (.inr rfl)))))).ownDegree_le

/-! ### Rounds -/

variable {e e' : Expansion}

/-- A round takes one off. -/
theorem basicWithin_round (hround : lib.round e = .ok e')
    (h : ∀ i ∈ e.code, lib.BasicWithin ok (n + 1) i.operation) :
    ∀ i ∈ e'.code, lib.BasicWithin ok n i.operation :=
  forall_mem_round hround (fun hblock _ hi => basicWithin_of_mem_block hok hblock hi _) h

/-- A round takes no more than one off. -/
theorem basicWithin_of_round (hround : lib.round e = .ok e')
    (hcalls : ∀ i ∈ e.code, ∀ call, i.operation.call? = some call → ok call)
    (h : ∀ i ∈ e'.code, lib.BasicWithin ok n i.operation) :
    ∀ i ∈ e.code, lib.BasicWithin ok (n + 1) i.operation := by
  obtain ⟨xs, hxs⟩ := exists_pieces_of_round hround
  intro i hi
  obtain ⟨x, hx, rfl⟩ := List.mem_map.1 (hxs.source ▸ hi)
  have hfresh : ∀ w ∈ x.source.referencedVariables, ¬ x.supply.Fresh w := fun w =>
    hxs.not_fresh_source hx
  have hbody : ∀ i' ∈ x.block.body x.supply, lib.BasicWithin ok n i'.operation := fun i' hi' =>
    h i' (hxs.mem_target.2 ⟨x, hx, hi'⟩)
  exact basicWithin_of_block hok (hxs.blockOf hx) hfresh (hcalls x.source hi) hbody

end Library

end RegisterMachine
