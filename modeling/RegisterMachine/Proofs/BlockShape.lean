import RegisterMachine.Proofs.Inlining

/-!
# The shapes of blocks

An instruction has a block of one of ten shapes. What holds of all blocks is proved from here, shape
by shape: the two operations with a call have one shape, whatever they do with the result, and an
assignment has two, since a variable is not copied to itself.

The shape does not depend on the names that are free. These decide whether there is a block at all:
the labels of the block have to be handed out, and the variables in the calls of a copy have to be
named, and no number can have too many digits for that.

* `Operation.Takes` — what an operation with a call does with the result;
* `Library.BlockOf` — an instruction and its block;
* `Library.Fits` — a supply has names for a block;
* `Library.block_eq_ok_iff`, `Library.block_eq_error` — when an instruction is given its block, and
  why it is not.
-/

namespace RegisterMachine

/-- The operation is one on a variable and the result of a call. Where a variable holds the result,
`finish` is the operation that does the same without the call. -/
inductive Operation.Takes : Operation → Variable → Call → (Variable → Operation) → Prop
  | quotation (v : Variable) (call : Call) : Takes (.quotation v call) v call (.assignment v ·)
  | jumpEqualFunction (v : Variable) (call : Call) (target : Label) :
    Takes (.jumpEqualFunction v call target) v call (.jumpEqualVariable v · target)

namespace Operation.Takes

variable {o : Operation} {v : Variable} {call : Call} {finish : Variable → Operation}

theorem call?_eq (h : o.Takes v call finish) : o.call? = some call := by
  cases h <;> rfl

theorem mentions (h : o.Takes v call finish) : o.Mentions v := by
  cases h <;> exact .inl rfl

theorem target?_finish (h : o.Takes v call finish) (r : Variable) :
    (finish r).target? = o.target? := by
  cases h <;> rfl

theorem call?_finish (h : o.Takes v call finish) (r : Variable) : (finish r).call? = none := by
  cases h <;> rfl

theorem eq_of_mentions_finish (h : o.Takes v call finish) {r w : Variable}
    (hw : (finish r).Mentions w) : w = v ∨ w = r := by
  cases h <;> simpa [Mentions, subject?, source?, call?, eq_comm] using hw

/-- An operation takes one call, in one way. -/
theorem unique {v' : Variable} {finish' : Variable → Operation} (h : o.Takes v call finish)
    (h' : o.Takes v' call finish') : v = v' ∧ finish = finish' := by
  cases h <;> cases h' <;> exact ⟨rfl, rfl⟩

theorem target_eq_some {i : Instruction} (h : i.operation.Takes v call finish) {r : Variable}
    {l : Label} (hl : (finish r).target? = some l) : i.target = some l := by
  rw [h.target?_finish] at hl
  rw [Instruction.target, hl, Option.some_or]

end Operation.Takes

/-- An instruction and its block. -/
inductive Library.BlockOf (lib : Library) : Instruction → Block → Prop
  | self {i : Instruction} (h : i.isBasic = true) : BlockOf lib i (.ofCode 0 0 fun _ => [i])
  | zeroVariable {label spares spare} (v : Variable) :
    BlockOf lib ⟨label, .zeroVariable v, spares, spare⟩ (.zeroVariable label v)
  | gotoLabel {label spares spare} (target : Label) :
    BlockOf lib ⟨label, .gotoLabel target, spares, spare⟩ (.gotoLabel label target)
  | constantAssignment {label spares spare} (v : Variable) (k : Nat) :
    BlockOf lib ⟨label, .constantAssignment v k, spares, spare⟩ (.constantAssignment label v k)
  | jumpZero {label spares spare} (v : Variable) (target : Label) :
    BlockOf lib ⟨label, .jumpZero v target, spares, spare⟩ (.jumpZero label v target)
  | selfAssignment {label spares spare} (v : Variable) :
    BlockOf lib ⟨label, .assignment v v, spares, spare⟩ (.selfAssignment label v)
  | assignment {label spares spare} {v source : Variable} (hne : v ≠ source) :
    BlockOf lib ⟨label, .assignment v source, spares, spare⟩ (.assignment label v source)
  | jumpEqualConstant {label spares spare} (v : Variable) (k : Nat) (target : Label) :
    BlockOf lib ⟨label, .jumpEqualConstant v k target, spares, spare⟩
      (.jumpEqualConstant label v k target)
  | jumpEqualVariable {label spares spare} (v source : Variable) (target : Label) :
    BlockOf lib ⟨label, .jumpEqualVariable v source target, spares, spare⟩
      (.jumpEqualVariable label v source target)
  | call {i : Instruction} {v : Variable} {call : Call} {finish : Variable → Operation}
    {entry : Expansion} {bound : List (Variable × Binding)} (hi : i.operation.Takes v call finish)
    (hfind : lib.findExpansion? call.function = some entry)
    (hbound : lib.bindings entry.program 0 (call.arguments.take entry.program.requiredInputs) =
      .ok bound) :
    BlockOf lib i (.inlining i.label v entry bound finish)

/-- A supply has names for the block of an instruction: the labels can be handed out, and the
variables in the calls of a copy can be named. -/
structure Library.Fits (lib : Library) (s : Supply) (i : Instruction) (block : Block) : Prop where
  /-- The labels of the block can be handed out. -/
  labels : ∀ k < block.labelCount, (s.freshLabel k).Brief
  /-- The calls of the copy can be written. -/
  calls : ∀ call entry, i.operation.call? = some call →
    lib.findExpansion? call.function = some entry →
    ∀ j ∈ entry.program.copy s, j.hasOverlongName = false

/-! ### Handing out names -/

theorem Supply.drawLabels_eq_ok_iff {s : Supply} {n : Nat} :
    s.drawLabels n = .ok () ↔ ∀ k < n, (s.freshLabel k).Brief := by
  rw [drawLabels, showing_eq_ok_iff, and_iff_left rfl, List.forall_mem_map]
  simp only [List.mem_range]
  rfl

/-- There is one way for labels not to be handed out. -/
theorem Supply.drawLabels_eq_error_iff {s : Supply} {n : Nat} {cause : Error} :
    s.drawLabels n = .error cause ↔
      (∃ k < n, ¬ (s.freshLabel k).Brief) ∧ cause = .numeral .tooLong := by
  rw [drawLabels, showing_eq_error_iff, List.forall_mem_map]
  simp only [List.mem_range]
  push Not
  rfl

theorem Block.drawn_eq_tooLong (block : Block) {s : Supply} {k : Nat} (hk : k < block.labelCount)
    (h : ¬ (s.freshLabel k).Brief) : block.drawn s = .error (.numeral .tooLong) :=
  Bounded.bind_pure_eq_error.2 (Supply.drawLabels_eq_error_iff.2 ⟨⟨k, hk, h⟩, rfl⟩)

theorem Block.drawn_eq_ok_iff {block block' : Block} {s : Supply} :
    block.drawn s = .ok block' ↔
      (∀ k < block.labelCount, (s.freshLabel k).Brief) ∧ block = block' := by
  rw [drawn, Bounded.bind_eq_ok, ← Supply.drawLabels_eq_ok_iff]
  constructor
  · rintro ⟨u, hu, h⟩
    exact ⟨hu, Except.ok.inj h⟩
  · rintro ⟨hu, rfl⟩
    exact ⟨(), hu, rfl⟩

theorem Program.writeCopy_eq_ok_iff {p : Program} {s : Supply} :
    p.writeCopy s = .ok () ↔ ∀ j ∈ p.copy s, j.hasOverlongName = false := by
  rw [writeCopy]
  split
  · rename_i h
    obtain ⟨j, hj, hlong⟩ := List.any_eq_true.1 h
    exact iff_of_false nofun fun hall => Bool.false_ne_true ((hall j hj).symm.trans hlong)
  · rename_i h
    exact iff_of_true rfl (by simpa using h)

theorem Program.writeCopy_eq_error_iff {p : Program} {s : Supply} {cause : Error} :
    p.writeCopy s = .error cause ↔
      (∃ j ∈ p.copy s, j.hasOverlongName = true) ∧ cause = .numeral .tooLong := by
  rw [writeCopy, ← List.any_eq_true]
  split
  · rename_i h
    rw [Except.error.injEq, and_iff_right h, eq_comm]
  · rename_i h
    exact iff_of_false nofun fun hlong => h hlong.1

namespace Library

variable {lib : Library} {i : Instruction} {block : Block} {s : Supply} {label : Option Label}
  {v : Variable} {call : Call} {finish : Variable → Operation}

theorem inline_eq_ok : lib.inline s label v call finish = .ok block ↔
    ∃ entry bound, lib.findExpansion? call.function = some entry ∧
      lib.bindings entry.program 0 (call.arguments.take entry.program.requiredInputs) =
        .ok bound ∧
      block = Block.inlining label v entry bound finish ∧
      (∀ k < block.labelCount, (s.freshLabel k).Brief) ∧
      ∀ j ∈ entry.program.copy s, j.hasOverlongName = false := by
  rw [inline, Bounded.bind_eq_ok]
  constructor
  · rintro ⟨entry, hentry, h⟩
    obtain ⟨_, hdraw, h⟩ := Bounded.bind_eq_ok.1 h
    obtain ⟨bound, hbound, h⟩ := Bounded.bind_eq_ok.1 h
    obtain ⟨_, hwrite, h⟩ := Bounded.bind_eq_ok.1 h
    obtain rfl := Except.ok.inj h
    exact ⟨entry, bound, getExpansion_eq_ok.1 hentry, hbound, rfl,
      Supply.drawLabels_eq_ok_iff.1 hdraw, Program.writeCopy_eq_ok_iff.1 hwrite⟩
  · rintro ⟨entry, bound, hentry, hbound, rfl, hlabels, hcalls⟩
    exact ⟨entry, getExpansion_eq_ok.2 hentry,
      Bounded.bind_eq_ok.2 ⟨(), Supply.drawLabels_eq_ok_iff.2 hlabels,
        Bounded.bind_eq_ok.2 ⟨bound, hbound,
          Bounded.bind_eq_ok.2 ⟨(), Program.writeCopy_eq_ok_iff.2 hcalls, rfl⟩⟩⟩⟩

/-! ### The block of an instruction -/

variable (lib) in
/-- An instruction without a call has one block, which is drawn from the supply. -/
theorem exists_blockOf_iff (hcall : i.operation.call? = none) :
    ∃ block, (∀ block', lib.BlockOf i block' ↔ block' = block) ∧
      ∀ s, lib.block s i = block.drawn s := by
  -- The shape is read off the operation, and no other constructor has this operation.
  have hone : ∀ {block : Block}, lib.BlockOf i block →
      (∀ block', lib.BlockOf i block' → block' = block) →
      ∀ block', lib.BlockOf i block' ↔ block' = block := fun hblock hunique block' =>
    ⟨hunique block', fun he => he ▸ hblock⟩
  obtain ⟨label, operation, spares, spare⟩ := i
  cases operation with
  | neutral v | increase v | decrease v | jumpNotZero v target =>
    refine ⟨_, hone (.self rfl) fun block' h => ?_, fun s => rfl⟩
    cases h with
    | self => rfl
    | call hi => cases hi
  | assignment v source =>
    by_cases hne : v = source
    · subst hne
      refine ⟨_, hone (.selfAssignment v) fun block' h => ?_,
        fun s => congrArg (Block.drawn · s) (if_pos rfl)⟩
      cases h with
      | self hbasic => cases hbasic
      | selfAssignment => rfl
      | assignment hne => exact absurd rfl hne
      | call hi => cases hi
    · refine ⟨_, hone (.assignment hne) fun block' h => ?_,
        fun s => congrArg (Block.drawn · s) (if_neg hne)⟩
      cases h with
      | self hbasic => cases hbasic
      | selfAssignment => exact absurd rfl hne
      | assignment => rfl
      | call hi => cases hi
  | quotation v call => cases hcall
  | jumpEqualFunction v call target => cases hcall
  | _ =>
    refine ⟨_, hone (by constructor) fun block' h => ?_, fun s => rfl⟩
    cases h with
    | self hbasic => cases hbasic
    | call hi => cases hi
    | _ => rfl

theorem exists_takes (hcall : i.operation.call? = some call) :
    ∃ v finish, i.operation.Takes v call finish := by
  obtain ⟨label, operation, spares, spare⟩ := i
  cases operation with
  | quotation v call' =>
    obtain rfl := Option.some.inj hcall
    exact ⟨v, _, .quotation v call'⟩
  | jumpEqualFunction v call' target =>
    obtain rfl := Option.some.inj hcall
    exact ⟨v, _, .jumpEqualFunction v call' target⟩
  | _ => cases hcall

/-- Any other instruction has its call inlined. -/
theorem block_of_takes (h : i.operation.Takes v call finish) :
    lib.block s i = lib.inline s i.label v call finish := by
  obtain ⟨label, operation, spares, spare⟩ := i
  cases h <;> rfl

/-- The block of an instruction with a call inlines the call. -/
theorem BlockOf.exists_inlining (h : lib.BlockOf i block) (hcall : i.operation.call? = some call) :
    ∃ v entry bound finish, i.operation.Takes v call finish ∧
      lib.findExpansion? call.function = some entry ∧
      lib.bindings entry.program 0 (call.arguments.take entry.program.requiredInputs) =
        .ok bound ∧
      block = .inlining i.label v entry bound finish := by
  cases h with
  | self hbasic =>
    obtain ⟨v, finish, htakes⟩ := exists_takes hcall
    obtain ⟨label, operation, spares, spare⟩ := i
    cases htakes <;> cases hbasic
  | call hi hfind hbound =>
    obtain rfl := Option.some.inj (hi.call?_eq.symm.trans hcall)
    exact ⟨_, _, _, _, hi, hfind, hbound, rfl⟩
  | _ => cases hcall

/-- An instruction has one block at most. -/
theorem BlockOf.unique {block' : Block} (h : lib.BlockOf i block) (h' : lib.BlockOf i block') :
    block = block' := by
  rcases hcall : i.operation.call? with _ | call
  · obtain ⟨_, hiff, -⟩ := exists_blockOf_iff lib hcall
    exact ((hiff block).1 h).trans ((hiff block').1 h').symm
  · obtain ⟨v, entry, bound, finish, htakes, hfind, hbound, rfl⟩ := h.exists_inlining hcall
    obtain ⟨v', entry', bound', finish', htakes', hfind', hbound', rfl⟩ := h'.exists_inlining hcall
    obtain rfl := Option.some.inj (hfind.symm.trans hfind')
    obtain rfl := Except.ok.inj (hbound.symm.trans hbound')
    obtain ⟨rfl, rfl⟩ := htakes.unique htakes'
    rfl

/-- An instruction is given its block if the supply has names for it. -/
theorem block_eq_ok_iff :
    lib.block s i = .ok block ↔ lib.BlockOf i block ∧ lib.Fits s i block := by
  rcases hcall : i.operation.call? with _ | call
  · obtain ⟨block', hiff, hdrawn⟩ := exists_blockOf_iff lib hcall
    rw [hdrawn, Block.drawn_eq_ok_iff, hiff]
    constructor
    · rintro ⟨hlabels, rfl⟩
      exact ⟨rfl, hlabels, fun call entry h => by rw [hcall] at h; cases h⟩
    · rintro ⟨rfl, hfits⟩
      exact ⟨hfits.labels, rfl⟩
  · obtain ⟨v, finish, htakes⟩ := exists_takes hcall
    rw [block_of_takes htakes, inline_eq_ok]
    constructor
    · rintro ⟨entry, bound, hfind, hbound, rfl, hlabels, hcalls⟩
      refine ⟨.call htakes hfind hbound, hlabels, fun call' entry' hcall' hfind' => ?_⟩
      obtain rfl := Option.some.inj (hcall.symm.trans hcall')
      obtain rfl := Option.some.inj (hfind.symm.trans hfind')
      exact hcalls
    · rintro ⟨hblock, hfits⟩
      obtain ⟨_, entry, bound, _, htakes', hfind, hbound, rfl⟩ := hblock.exists_inlining hcall
      obtain ⟨rfl, rfl⟩ := htakes.unique htakes'
      exact ⟨entry, bound, hfind, hbound, rfl, hfits.labels, hfits.calls call entry hcall hfind⟩

/-- A basic instruction is its own block, whatever the supply. -/
theorem block_of_isBasic (h : i.isBasic = true) :
    lib.block s i = .ok (.ofCode 0 0 fun _ => [i]) := by
  obtain ⟨label, operation, spares, spare⟩ := i
  cases operation with
  | neutral v | increase v | decrease v | jumpNotZero v target => rfl
  | _ => cases h

/-! ### No block -/

/-- The call of an instruction finds no program, or an argument of it has no meaning. -/
def CallFails (lib : Library) (i : Instruction) (cause : Error) : Prop :=
  ∃ call, i.operation.call? = some call ∧
    (lib.getExpansion call.function "" = .error cause ∨
      ∃ entry, lib.findExpansion? call.function = some entry ∧
        lib.bindings entry.program 0 (call.arguments.take entry.program.requiredInputs) =
          .error cause)

/-- The number of labels that the block of an instruction draws. For a call it is known before the
arguments are looked at. -/
inductive Draws (lib : Library) : Instruction → Nat → Prop
  | block {i : Instruction} {block : Block} (h : lib.BlockOf i block) :
    Draws lib i block.labelCount
  | call {i : Instruction} {call : Call} {entry : Expansion}
    (hcall : i.operation.call? = some call)
    (hfind : lib.findExpansion? call.function = some entry) :
    Draws lib i (entry.program.mentionedLabels.length + 1)

/-- A supply lacks names for the block of an instruction: a label that has to be handed out has too
many digits, or a variable that has to be named in a call of a copy does. -/
def Lacks (lib : Library) (s : Supply) (i : Instruction) : Prop :=
  (∃ n, lib.Draws i n ∧ ∃ k < n, ¬ (s.freshLabel k).Brief) ∨
    ∃ call entry, i.operation.call? = some call ∧ lib.findExpansion? call.function = some entry ∧
      ∃ j ∈ entry.program.copy s, j.hasOverlongName = true

theorem CallFails.not_blockOf {cause : Error} (h : lib.CallFails i cause) :
    ¬ lib.BlockOf i block := by
  intro hblock
  obtain ⟨call, hcall, hcause⟩ := h
  obtain ⟨_, entry, bound, _, -, hfind, hbound, -⟩ := hblock.exists_inlining hcall
  rcases hcause with hget | ⟨entry', hfind', hbound'⟩
  · cases hget.symm.trans (getExpansion_eq_ok.2 hfind)
  · obtain rfl := Option.some.inj (hfind.symm.trans hfind')
    cases hbound.symm.trans hbound'

/-- A call fails in one way. -/
theorem CallFails.unique {cause cause' : Error} (h : lib.CallFails i cause)
    (h' : lib.CallFails i cause') : cause = cause' := by
  obtain ⟨call, hcall, hcause⟩ := h
  obtain ⟨call', hcall', hcause'⟩ := h'
  obtain rfl := Option.some.inj (hcall.symm.trans hcall')
  rcases hcause with hget | ⟨entry, hfind, hbound⟩ <;>
    rcases hcause' with hget' | ⟨entry', hfind', hbound'⟩
  · exact Except.error.inj (hget.symm.trans hget')
  · cases hget.symm.trans (getExpansion_eq_ok.2 hfind')
  · cases hget'.symm.trans (getExpansion_eq_ok.2 hfind)
  · obtain rfl := Option.some.inj (hfind.symm.trans hfind')
    exact Except.error.inj (hbound.symm.trans hbound')

/-- An instruction whose supply lacks names has no block there. -/
theorem Lacks.block_ne_ok (h : lib.Lacks s i) : lib.block s i ≠ .ok block := by
  intro hblock
  obtain ⟨hblock, hfits⟩ := block_eq_ok_iff.1 hblock
  rcases h with ⟨n, hdraws, k, hk, hlong⟩ | ⟨call, entry, hcall, hfind, j, hj, hlong⟩
  · refine hlong (hfits.labels k ?_)
    cases hdraws with
    | block hblock' =>
      obtain rfl := hblock.unique hblock'
      exact hk
    | call hcall hfind =>
      obtain ⟨_, entry, _, _, -, hfind', -, rfl⟩ := hblock.exists_inlining hcall
      obtain rfl := Option.some.inj (hfind.symm.trans hfind')
      exact hk
  · exact Bool.false_ne_true ((hfits.calls call entry hcall hfind j hj).symm.trans hlong)

/-- A call is not inlined because the supply lacks names for it, or because it fails. -/
theorem inline_eq_error {cause : Error} (hcall : i.operation.call? = some call)
    (h : lib.inline s label v call finish = .error cause) :
    (cause = .numeral .tooLong ∧ lib.Lacks s i) ∨ lib.CallFails i cause := by
  rw [inline, Bounded.bind_eq_error] at h
  rcases h with hget | ⟨entry, hget, h⟩
  · exact .inr ⟨call, hcall, .inl hget⟩
  have hfind := getExpansion_eq_ok.1 hget
  rcases Bounded.bind_eq_error.1 h with hdraw | ⟨_, -, h⟩
  · obtain ⟨hlong, rfl⟩ := Supply.drawLabels_eq_error_iff.1 hdraw
    exact .inl ⟨rfl, .inl ⟨_, .call hcall hfind, hlong⟩⟩
  rcases Bounded.bind_eq_error.1 h with hbound | ⟨bound, -, h⟩
  · exact .inr ⟨call, hcall, .inr ⟨entry, hfind, hbound⟩⟩
  obtain ⟨hlong, rfl⟩ := Program.writeCopy_eq_error_iff.1 (Bounded.bind_pure_eq_error.1 h)
  exact .inl ⟨rfl, .inr ⟨call, entry, hcall, hfind, hlong⟩⟩

/-- An instruction is given no block because its supply lacks names for it, or its call fails. -/
theorem block_eq_error {cause : Error} (h : lib.block s i = .error cause) :
    (cause = .numeral .tooLong ∧ lib.Lacks s i) ∨ lib.CallFails i cause := by
  rcases hcall : i.operation.call? with _ | call
  · obtain ⟨block, hiff, hdrawn⟩ := exists_blockOf_iff lib hcall
    rw [hdrawn, Block.drawn] at h
    obtain ⟨hlong, rfl⟩ := Supply.drawLabels_eq_error_iff.1 (Bounded.bind_pure_eq_error.1 h)
    exact .inl ⟨rfl, .inl ⟨_, .block ((hiff block).2 rfl), hlong⟩⟩
  · obtain ⟨v, finish, htakes⟩ := exists_takes hcall
    rw [block_of_takes htakes] at h
    exact inline_eq_error hcall h

end Library

theorem Block.mem_landing {label : Option Label} {v : Variable} {i : Instruction} :
    i ∈ landing label v ↔ label.isSome = true ∧ i = .plain label (.neutral v) := by
  rw [landing]
  split <;> simp_all

/-- What a call gives to a parameter mentions variables of the instruction only. -/
theorem Library.mem_referencedVariables_of_bindings {lib : Library} {i : Instruction} {call : Call}
    {callee : Program} {bound : List (Variable × Binding)} {k n : Nat}
    (hcall : i.operation.call? = some call)
    (hbound : lib.bindings callee k (call.arguments.take n) = .ok bound)
    {x : Variable × Binding} (hx : x ∈ bound) {w : Variable} (hw : x.2.Mentions w) :
    w ∈ i.referencedVariables :=
  Instruction.mem_referencedVariables.2
    (.inl (.inr (.inr ⟨call, hcall, mem_vars_of_mem_bindings hbound hx hw⟩)))

end RegisterMachine
