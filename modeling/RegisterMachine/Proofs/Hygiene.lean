import RegisterMachine.Proofs.DeclaredLabels

/-!
# Hygiene

A round captures no name. The block in the place of an instruction mentions the names of that
instruction and fresh ones of its own, the fresh ones are above all names in use, and no two blocks
share one. In the block of a call the copy of the called program has a fresh name for every variable
and every label that the program mentions, in the arguments of its calls as well, and different
names for different ones. None of this needs the called programs to pass their checks.

* `Block.Hygienic`, `Library.hygienic_block` — the names in a block;
* `Program.RenamedApart`, `Block.renamedApart_inlining` — the names in the copy of a program;
* `Piece.Above`, `Piece.Apart` — fresh names against the names in use, and against each other;
* `Library.expandOnce_hygienic` — all of it, for one round.
-/

namespace RegisterMachine

open Instruction (plain)

/-! ### Mentioned labels -/

/-- An instruction carries a label or may jump to it. -/
def Instruction.MentionsLabel (i : Instruction) (l : Label) : Prop :=
  i.label = some l ∨ i.target = some l

theorem Instruction.mentionsLabel_plain {label : Option Label} {o : Operation} {l : Label} :
    (plain label o).MentionsLabel l ↔ label = some l ∨ o.target? = some l := by
  simp [MentionsLabel, plain, target]

theorem Instruction.exists_of_mentionsLabel_rename {m : Argument.Renaming} {f : Label → Label}
    {i : Instruction} {l : Label} (h : (i.rename m f).MentionsLabel l) :
    ∃ l', i.MentionsLabel l' ∧ l = f l' := by
  rcases h with h | h
  · obtain ⟨l', hl', rfl⟩ := Option.map_eq_some_iff.1 h
    exact ⟨l', .inl hl', rfl⟩
  · rw [Instruction.target_rename] at h
    obtain ⟨l', hl', rfl⟩ := Option.map_eq_some_iff.1 h
    exact ⟨l', .inr hl', rfl⟩

/-- The label is one of the fresh labels of a block. -/
def Block.OwnsLabel (b : Block) (s : Supply) (l : Label) : Prop :=
  ∃ k < b.labelCount, l = s.freshLabel k

@[simp] theorem Block.owns_freshVariable {b : Block} {s : Supply} {k : Nat} :
    b.Owns s (s.freshVariable k) ↔ k < b.variableCount := by
  refine ⟨fun ⟨j, hj, he⟩ => ?_, fun hk => ⟨k, hk, rfl⟩⟩
  rwa [Supply.freshVariable_injective he]

theorem Supply.freshLabel_injective {s : Supply} {j k : Nat}
    (h : s.freshLabel j = s.freshLabel k) : j = k := by
  have hnumber := Label.numbered.inj h
  omega

@[simp] theorem Block.ownsLabel_freshLabel {b : Block} {s : Supply} {k : Nat} :
    b.OwnsLabel s (s.freshLabel k) ↔ k < b.labelCount := by
  refine ⟨fun ⟨j, hj, he⟩ => ?_, fun hk => ⟨k, hk, rfl⟩⟩
  rwa [Supply.freshLabel_injective he]

/-! ### Copies -/

/-- The copy of a program has a fresh name of a block in the place of everything that the program
mentions, and no name in the place of two. -/
structure Program.RenamedApart (p : Program) (s : Supply) (b : Block) : Prop where
  /-- Every variable has a fresh one in its place. -/
  owns : ∀ v ∈ p.copiedVariables, ∃ w, p.copyVariable s v = some w ∧ b.Owns s w
  /-- No two variables have one variable in their place. -/
  injective : ∀ v ∈ p.copiedVariables, ∀ w ∈ p.copiedVariables,
    p.copyVariable s v = p.copyVariable s w → v = w
  /-- All variables of a copied instruction, in arguments too, stand in the place of others. -/
  renamed : ∀ i ∈ p.code, ∀ w ∈ (i.rename (p.copyVariable s) (p.copyLabel s)).referencedVariables,
    ∃ v ∈ i.referencedVariables, p.copyVariable s v = some w
  /-- Every label has a fresh one in its place. -/
  ownsLabel : ∀ i ∈ p.code, ∀ l, i.MentionsLabel l → b.OwnsLabel s (p.copyLabel s l)
  /-- No two labels have one label in their place, and no label has the end of the copy. -/
  injective_label : ∀ l l', (l = .exit ∨ ∃ i ∈ p.code, i.MentionsLabel l) →
    (l' = .exit ∨ ∃ i ∈ p.code, i.MentionsLabel l') → p.copyLabel s l = p.copyLabel s l' → l = l'
  /-- All labels of a copied instruction stand in the place of others. -/
  renamed_label : ∀ i ∈ p.code, ∀ l,
    (i.rename (p.copyVariable s) (p.copyLabel s)).MentionsLabel l →
      ∃ l', i.MentionsLabel l' ∧ l = p.copyLabel s l'

namespace Program

variable {p : Program} {s : Supply}

/-- The place of a label of a copy among the fresh labels. -/
theorem exists_copyLabel {l : Label} (h : l = .exit ∨ ∃ i ∈ p.code, i.MentionsLabel l) :
    ∃ k < p.mentionedLabels.length + 1, p.copyLabel s l = s.freshLabel k ∧
      ∀ l', (l' = .exit ∨ ∃ i ∈ p.code, i.MentionsLabel l') →
        p.copyLabel s l' = s.freshLabel k → l = l' := by
  have hmem : ∀ {n}, (.numbered n = Label.exit ∨ ∃ i ∈ p.code, i.MentionsLabel (.numbered n)) →
      .numbered n ∈ p.mentionedLabels := by
    rintro n (h | ⟨i, hi, h⟩)
    · cases h
    · exact mem_mentionedLabels.2 ⟨rfl, i, hi, h⟩
  cases l with
  | exit =>
    refine ⟨0, Nat.succ_pos _, rfl, fun l' h' he => ?_⟩
    cases l' with
    | exit => rfl
    | numbered n =>
      rw [copyLabel_of_mem (hmem h')] at he
      cases Supply.freshLabel_injective he
  | numbered n =>
    have hn := hmem h
    refine ⟨_, Nat.succ_lt_succ (List.idxOf_lt_length_of_mem hn), copyLabel_of_mem hn,
      fun l' h' he => ?_⟩
    cases l' with
    | exit => cases Supply.freshLabel_injective (he : s.freshLabel 0 = _)
    | numbered m =>
      rw [copyLabel_of_mem (hmem h')] at he
      exact (List.idxOf_inj hn).1 (Nat.succ.inj (Supply.freshLabel_injective he)).symm

end Program

namespace Block

/-! ### Hygienic blocks -/

/-- All names in a block are those of its instruction and fresh names of its own. -/
structure Hygienic (b : Block) (s : Supply) (i : Instruction) : Prop where
  /-- The variables, those in arguments included. -/
  mentions : ∀ i' ∈ b.body s, ∀ w ∈ i'.referencedVariables, w ∈ i.referencedVariables ∨ b.Owns s w
  /-- The labels, those that are jumped to included. -/
  mentionsLabel : ∀ i' ∈ b.body s, ∀ l, i'.MentionsLabel l → i.MentionsLabel l ∨ b.OwnsLabel s l

variable {s : Supply} {label : Option Label} {spares : List Variable} {spare : Option Label}

theorem hygienic_self (s : Supply) (i : Instruction) : Hygienic (.ofCode 0 0 fun _ => [i]) s i where
  mentions i' hi' w hw := by
    rw [body_ofCode] at hi'
    obtain rfl := List.mem_singleton.1 hi'
    exact .inl hw
  mentionsLabel i' hi' l hl := by
    rw [body_ofCode] at hi'
    obtain rfl := List.mem_singleton.1 hi'
    exact .inl hl

section Plain

attribute [local simp] Operation.Mentions Operation.subject? Operation.source? Operation.call?
  Operation.target? Instruction.mem_referencedVariables Instruction.MentionsLabel
  Instruction.target plain

theorem hygienic_zeroVariable (v : Variable) :
    (zeroVariable label v).Hygienic s ⟨label, .zeroVariable v, spares, spare⟩ := by
  rcases label with _ | l <;> refine ⟨?_, ?_⟩ <;> simp +contextual [zeroVariable, landing]

theorem hygienic_gotoLabel (target : Label) :
    (gotoLabel label target).Hygienic s ⟨label, .gotoLabel target, spares, spare⟩ := by
  refine ⟨?_, ?_⟩ <;> simp +contextual [gotoLabel, or_imp]

theorem hygienic_constantAssignment (v : Variable) (k : Nat) :
    (constantAssignment label v k).Hygienic s ⟨label, .constantAssignment v k, spares, spare⟩ := by
  refine ⟨?_, ?_⟩ <;> simp +contextual [constantAssignment, or_imp]

theorem hygienic_jumpZero (v : Variable) (target : Label) :
    (jumpZero label v target).Hygienic s ⟨label, .jumpZero v target, spares, spare⟩ := by
  refine ⟨?_, ?_⟩ <;> simp +contextual [jumpZero, or_imp]

theorem hygienic_selfAssignment (v : Variable) :
    (selfAssignment label v).Hygienic s ⟨label, .assignment v v, spares, spare⟩ := by
  rcases label with _ | l <;> refine ⟨?_, ?_⟩ <;> simp +contextual [selfAssignment, landing]

theorem hygienic_assignment (v source : Variable) :
    (assignment label v source).Hygienic s ⟨label, .assignment v source, spares, spare⟩ := by
  refine ⟨?_, ?_⟩ <;> simp +contextual [assignment, or_imp, forall_and]

theorem hygienic_jumpEqualConstant (v : Variable) (k : Nat) (target : Label) :
    (jumpEqualConstant label v k target).Hygienic s
      ⟨label, .jumpEqualConstant v k target, spares, spare⟩ := by
  refine ⟨?_, ?_⟩ <;> simp +contextual [jumpEqualConstant, or_imp, forall_and]

theorem hygienic_jumpEqualVariable (v source : Variable) (target : Label) :
    (jumpEqualVariable label v source target).Hygienic s
      ⟨label, .jumpEqualVariable v source target, spares, spare⟩ := by
  refine ⟨?_, ?_⟩ <;> simp +contextual [jumpEqualVariable, or_imp, forall_and]

end Plain

section Inlining

open Program

variable {lib : Library} {i : Instruction} {v : Variable} {call : Call} {entry : Expansion}
  {bound : List (Variable × Binding)} {finish : Variable → Operation}

theorem ownsLabel_copyLabel {l : Label}
    (h : l = .exit ∨ ∃ j ∈ entry.program.code, j.MentionsLabel l) :
    (inlining label v entry bound finish).OwnsLabel s (entry.program.copyLabel s l) := by
  obtain ⟨k, hk, he, -⟩ := exists_copyLabel (s := s) h
  exact ⟨k, hk, he⟩

/-- The block of a call has the names of its instruction and fresh ones. -/
theorem hygienic_inlining (hi : i.operation.Takes v call finish)
    (hbound : lib.bindings entry.program 0 (call.arguments.take entry.program.requiredInputs) =
      .ok bound) : (inlining i.label v entry bound finish).Hygienic s i where
  mentions i' hi' w hw := mentions_inlining hi hbound hi' hw
  mentionsLabel i' hi' l hl := by
    rcases mem_body_inlining.1 hi' with ⟨-, rfl⟩ | ⟨x, hx, rfl⟩ | ⟨u, hu, rfl⟩ | ⟨j, hj, rfl⟩ | rfl
    · rcases Instruction.mentionsLabel_plain.1 hl with hl | hl
      · exact .inl (.inl hl)
      · cases hl
    · obtain ⟨p, k | source | c⟩ := x <;>
        rcases Instruction.mentionsLabel_plain.1 hl with hl | hl <;> cases hl
    · rcases Instruction.mentionsLabel_plain.1 hl with hl | hl <;> cases hl
    · obtain ⟨l', hl', rfl⟩ := Instruction.exists_of_mentionsLabel_rename hl
      exact .inr (ownsLabel_copyLabel (.inr ⟨j, hj, hl'⟩))
    · rcases Instruction.mentionsLabel_plain.1 hl with hl | hl
      · obtain rfl := Option.some.inj hl
        exact .inr (ownsLabel_copyLabel (.inl rfl))
      · exact .inl (.inr (hi.target_eq_some hl))

/-- The copy in the block of a call renames everything that the called program mentions. -/
theorem renamedApart_inlining :
    entry.program.RenamedApart s (inlining label v entry bound finish) where
  owns u hu := by
    obtain ⟨k, hk, hcopy⟩ := copyVariable_of_mem (s := s) hu
    exact ⟨_, hcopy, owns_freshVariable.2 (List.getElem?_eq_some_iff.1 hk).1⟩
  injective u hu w hw he := by
    refine freshFor_injective (s := s) hu hw ?_
    obtain ⟨k, -, hcopy⟩ := copyVariable_of_mem (s := s) hu
    rw [freshFor, freshFor, ← he, hcopy]
    rfl
  renamed j hj w hw := by
    obtain ⟨u, hu, rfl⟩ := Instruction.exists_of_mem_rename hw
    obtain ⟨k, -, hcopy⟩ := copyVariable_of_mem (s := s)
      (mem_copiedVariables.2 (.inl (mem_vars.2 ⟨j, hj, hu⟩)))
    exact ⟨u, hu, by rw [hcopy]; rfl⟩
  ownsLabel j hj l hl := ownsLabel_copyLabel (.inr ⟨j, hj, hl⟩)
  injective_label l l' hl hl' he := by
    obtain ⟨k, -, hk, hunique⟩ := exists_copyLabel (s := s) hl
    exact hunique l' hl' (he.symm.trans hk)
  renamed_label j _ _ hl := Instruction.exists_of_mentionsLabel_rename hl

end Inlining

end Block

/-! ### The block of any instruction -/

namespace Library

variable {lib : Library} {s : Supply} {i : Instruction} {block : Block}

/-- The block of an instruction has the names of the instruction and fresh ones. -/
theorem hygienic_block (h : lib.BlockOf i block) (s : Supply) : block.Hygienic s i := by
  cases h with
  | self => exact Block.hygienic_self s i
  | zeroVariable v => exact Block.hygienic_zeroVariable v
  | gotoLabel target => exact Block.hygienic_gotoLabel target
  | constantAssignment v k => exact Block.hygienic_constantAssignment v k
  | jumpZero v target => exact Block.hygienic_jumpZero v target
  | selfAssignment v => exact Block.hygienic_selfAssignment v
  | assignment => exact Block.hygienic_assignment _ _
  | jumpEqualConstant v k target => exact Block.hygienic_jumpEqualConstant v k target
  | jumpEqualVariable v source target => exact Block.hygienic_jumpEqualVariable v source target
  | call hi _ hbound => exact Block.hygienic_inlining hi hbound

end Library

/-! ### Fresh names -/

namespace Supply

variable {code : List Instruction} {i : Instruction} {n : Nat}

/-- The work variables in use are below the first fresh one. -/
theorem lt_firstVariable (hi : i ∈ code) (h : .work n ∈ i.referencedVariables) :
    n < (ofCode code).firstVariable := by
  refine Nat.lt_of_not_le fun hle => not_fresh_ofCode hi h ⟨n - (ofCode code).firstVariable, ?_⟩
  rw [freshVariable, Nat.add_sub_cancel' hle]

/-- The labels in use, carried or jumped to, are below the first fresh one. -/
theorem lt_firstLabel_of_mentionsLabel (hi : i ∈ code) (h : i.MentionsLabel (.numbered n)) :
    n < (ofCode code).firstLabel := by
  have hused : n + 1 ∈ usedLabelNumbers code := by
    rw [usedLabelNumbers, mem_sortedSet]
    refine List.mem_map_of_mem (List.mem_flatMap.2 ⟨i, hi,
      List.mem_filterMap.2 ⟨.numbered n, ?_, rfl⟩⟩)
    rw [List.mem_append, Option.mem_toList, Option.mem_toList]
    exact h
  exact NumberPool.le_highWater hused

end Supply

namespace Piece

/-- The label is one of the fresh labels of a piece. -/
def OwnsLabel (x : Piece) (l : Label) : Prop :=
  x.block.OwnsLabel x.supply l

/-- The fresh names of a piece are numbered above all names in use. -/
structure Above (x : Piece) (code : List Instruction) : Prop where
  /-- Fresh variables are above the work variables that an instruction mentions. -/
  work : ∀ w, x.Owns w → ∃ n, w = .work n ∧
    ∀ i ∈ code, ∀ m, .work m ∈ i.referencedVariables → m < n
  /-- Fresh labels are above the labels that an instruction carries or jumps to. -/
  numbered : ∀ l, x.OwnsLabel l → ∃ n, l = .numbered n ∧
    ∀ i ∈ code, ∀ m, i.MentionsLabel (.numbered m) → m < n

/-- Two pieces have no fresh name in common. -/
structure Apart (x y : Piece) : Prop where
  /-- They have no variable in common. -/
  work : ∀ w, x.Owns w → ¬ y.Owns w
  /-- They have no label in common. -/
  numbered : ∀ l, x.OwnsLabel l → ¬ y.OwnsLabel l

variable {s : Supply} {code : List Instruction} {xs : List Piece}

theorem Chained.above (h : Chained (Supply.ofCode code) xs) {x : Piece} (hx : x ∈ xs) :
    x.Above code where
  work w hw := by
    obtain ⟨k, rfl⟩ := h.fresh hx hw.fresh
    exact ⟨_, rfl, fun i hi m hm => Nat.lt_add_right k (Supply.lt_firstVariable hi hm)⟩
  numbered l hl := by
    obtain ⟨k, -, rfl⟩ := hl
    have hle := (Library.pairwise_firstLabel h).1 x hx
    refine ⟨_, rfl, fun i hi m hm => ?_⟩
    have hlt := Supply.lt_firstLabel_of_mentionsLabel hi hm
    omega

theorem Chained.apart (h : Chained s xs) : xs.Pairwise Apart := by
  refine List.Pairwise.imp₂ (fun x y hwork hlabel => ⟨hwork, fun l hx hy => ?_⟩) h.pairwise
    (Library.pairwise_firstLabel h).2
  obtain ⟨j, hj, rfl⟩ := hx
  obtain ⟨k, -, he⟩ := hy
  have hnumber : x.supply.firstLabel + j = y.supply.firstLabel + k := Label.numbered.inj he
  omega

end Piece

/-! ### Rounds -/

namespace Library

variable {lib : Library} {code code' : List Instruction} {xs : List Piece}

theorem Pieces.renamedApart {s : Supply} (h : lib.Pieces s code code' xs) {x : Piece} (hx : x ∈ xs)
    {call : Call} (hcall : x.source.operation.call? = some call) :
    ∃ callee, lib.find? call.function = some callee ∧ callee.copy x.supply <:+: x.body ∧
      callee.RenamedApart x.supply x.block := by
  obtain ⟨v, entry, bound, finish, -, hfind, -, hblock⟩ := (h.blockOf hx).exists_inlining hcall
  refine ⟨entry.program, find?_of_findExpansion? hfind, ?_, hblock ▸ Block.renamedApart_inlining⟩
  rw [Piece.body, hblock, Block.body_inlining, ← List.append_assoc]
  exact ⟨_, _, rfl⟩

/-- A round is hygienic. The new list is made of blocks, one for each instruction. A block has the
names of its instruction and fresh ones. These are above all names in use, and no two blocks have
one in common. The block of a call has in it the copy of the called program, in which everything is
renamed. -/
theorem expandOnce_hygienic {lines : List Line} (h : lib.expandOnce code = .ok lines) :
    ∃ xs, lib.Pieces (Supply.ofCode code) code (lines.map Line.instruction) xs ∧
      (∀ x ∈ xs, x.block.Hygienic x.supply x.source) ∧ (∀ x ∈ xs, x.Above code) ∧
      xs.Pairwise Piece.Apart ∧
      ∀ x ∈ xs, ∀ call, x.source.operation.call? = some call →
        ∃ callee, lib.find? call.function = some callee ∧ callee.copy x.supply <:+: x.body ∧
          callee.RenamedApart x.supply x.block := by
  rw [expandOnce] at h
  split at h
  · cases h
  · obtain ⟨xs, hxs⟩ := exists_pieces h
    have hcode : (code.map Line.initial).map Line.instruction = code := by
      rw [List.map_map]
      exact List.map_id' code
    rw [hcode] at hxs
    exact ⟨xs, hxs, fun x hx => hygienic_block (hxs.blockOf hx) x.supply,
      fun x hx => hxs.chained.above hx, hxs.chained.apart,
      fun x hx call hcall => hxs.renamedApart hx hcall⟩

/-- A program with a variable in the arguments of a nested call, and a loop. -/
def relay : Program where
  name := "RELAY"
  code :=
    [.plain (some (.numbered 0)) (.quotation (.work 0) ⟨"ID", [.call "ID" [.name "z1"]]⟩),
     .plain none (.jumpNotZero (.work 0) (.numbered 0)),
     .plain none (.jumpZero (.input 0) .exit)]
  nodup_labels := by decide

/-- A program that copies its input. -/
def identity : Program where
  name := "ID"
  code := [.plain none (.assignment .result (.input 0))]
  nodup_labels := List.nodup_nil

/-- A library of it and the program that it calls. -/
def relayLibrary : Library :=
  ⟨[.ofProgram relay, .ofProgram identity], by decide⟩

/-- A list of instructions that calls it, with variables and labels of the same names. -/
def relayCode : List Instruction :=
  [.plain (some (.numbered 0)) (.quotation (.work 0) ⟨"RELAY", [.call "ID" [.name "z8"]]⟩),
   .plain none (.gotoLabel (.numbered 4)),
   .plain none (.jumpEqualFunction .result ⟨"relay", [.name "z1"]⟩ .exit)]

theorem relay_expandOnce_hygienic :
    ∃ lines, relayLibrary.expandOnce relayCode = .ok lines ∧
      ∃ xs, relayLibrary.Pieces ⟨8, 5⟩ relayCode (lines.map Line.instruction) xs ∧
        (∀ x ∈ xs, x.block.Hygienic x.supply x.source) ∧ (∀ x ∈ xs, x.Above relayCode) ∧
        xs.Pairwise Piece.Apart ∧
        ∀ x ∈ xs, ∀ call, x.source.operation.call? = some call →
          ∃ callee, relayLibrary.find? call.function = some callee ∧
            callee.copy x.supply <:+: x.body ∧ callee.RenamedApart x.supply x.block := by
  have hround : ∃ lines, relayLibrary.expandOnce relayCode = .ok lines := ⟨_, rfl⟩
  obtain ⟨lines, hlines⟩ := hround
  exact ⟨lines, hlines, expandOnce_hygienic hlines⟩

end Library

end RegisterMachine
