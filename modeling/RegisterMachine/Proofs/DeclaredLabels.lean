import Mathlib.Data.List.Nodup
import RegisterMachine.Proofs.Pieces

/-!
# Labels after a round

A block declares the label of its instruction first, and then fresh labels, each of them once. The
fresh labels of a round are above all labels in use, and each block draws its own. So the labels of
a program stay distinct in a round, unless some instruction of a called program is labelled `EXIT`:
its copy gets the label that stands at the end of the copy too.

* `duplicateLabel?_eq_none_iff` — what the check for labels that are declared twice is for;
* `Block.Declares`, `Library.declares_block` — the labels of a block;
* `Library.Pieces.nodup_labels` — the labels after a round;
* `Library.round_of_inlinable`, `Library.cause_of_round` — when a round succeeds, and why it fails.
-/

namespace RegisterMachine

open Instruction (plain)

/-! ### Labels declared twice -/

theorem declaredLabels_append (code code' : List Instruction) :
    declaredLabels (code ++ code') = declaredLabels code ++ declaredLabels code' :=
  List.filterMap_append

theorem declaredLabels_cons (i : Instruction) (code : List Instruction) :
    declaredLabels (i :: code) = i.declared?.toList ++ declaredLabels code := by
  rw [declaredLabels, List.filterMap_cons]
  cases i.declared? <;> rfl

@[simp] theorem declaredLabels_nil : declaredLabels [] = [] := rfl

theorem declaredLabels_flatMap {α : Type} (xs : List α) (f : α → List Instruction) :
    declaredLabels (xs.flatMap f) = xs.flatMap fun x => declaredLabels (f x) :=
  List.filterMap_flatMap

private theorem duplicateFrom_eq_none {seen : List (Label × Nat)} {i : Nat}
    {code : List Instruction} (h : (declaredLabels code).Nodup)
    (hseen : ∀ l ∈ declaredLabels code, seen.lookup l = none) :
    duplicateFrom seen i code = none := by
  induction code generalizing seen i with
  | nil => rfl
  | cons instruction code ih =>
    rw [declaredLabels_cons] at h hseen
    rw [duplicateFrom]
    rcases hd : instruction.declared? with _ | l
    · rw [hd] at h hseen
      exact ih h hseen
    · rw [hd] at h hseen
      obtain ⟨hl, hcode⟩ := List.nodup_cons.1 h
      have hnew : seen.lookup l = none := hseen l List.mem_cons_self
      simp only [hnew]
      refine ih hcode fun l' hl' => ?_
      have hne : (l' == l) = false := beq_eq_false_iff_ne.2 fun he => hl (he ▸ hl')
      rw [List.lookup_cons, hne]
      exact hseen l' (List.mem_cons_of_mem l hl')

/-- No label is found to be declared again if and only if the declared labels are distinct. -/
theorem duplicateLabel?_eq_none_iff {code : List Instruction} :
    duplicateLabel? code = none ↔ (declaredLabels code).Nodup :=
  ⟨nodup_declaredLabels, fun h => duplicateFrom_eq_none h fun _ _ => rfl⟩

/-! ### Labels in use -/

/-- No label that a list of instructions declares is fresh for it. -/
theorem Supply.lt_firstLabel {code : List Instruction} {n : Nat}
    (h : .numbered n ∈ declaredLabels code) : n < (Supply.ofCode code).firstLabel := by
  obtain ⟨i, hi, hd⟩ := List.mem_filterMap.1 h
  obtain ⟨hlabel, -⟩ := Program.declared?_eq_some.1 hd
  have hused : n + 1 ∈ usedLabelNumbers code := by
    rw [usedLabelNumbers, mem_sortedSet]
    refine List.mem_map_of_mem (List.mem_flatMap.2 ⟨i, hi, ?_⟩)
    refine List.mem_filterMap.2 ⟨.numbered n, ?_, rfl⟩
    rw [hlabel]
    exact List.mem_append_left _ (List.mem_singleton.2 rfl)
  exact NumberPool.le_highWater hused

/-! ### The labels of a block -/

namespace Block

/-- The labels that a block declares: that of its instruction, and fresh ones. -/
def Declares (block : Block) (s : Supply) (i : Instruction) : Prop :=
  ∃ ks : List Nat, ks.Nodup ∧ (∀ k ∈ ks, k < block.labelCount) ∧
    declaredLabels (block.body s) = i.declared?.toList ++ ks.map s.freshLabel

/-- A label of a block is that of its instruction, or fresh. -/
theorem Declares.mem {block : Block} {s : Supply} {i : Instruction} (h : block.Declares s i)
    {l : Label} (hl : l ∈ declaredLabels (block.body s)) :
    i.declared? = some l ∨ ∃ k < block.labelCount, l = s.freshLabel k := by
  obtain ⟨ks, -, hks, hlabels⟩ := h
  rw [hlabels, List.mem_append, Option.mem_toList] at hl
  refine hl.imp_right fun hl => ?_
  obtain ⟨k, hk, rfl⟩ := List.mem_map.1 hl
  exact ⟨k, hks k hk, rfl⟩

variable {s : Supply} {label : Option Label}

@[simp] theorem declared?_mk (o : Operation) (spares : List Variable) (spare : Option Label) :
    (Instruction.mk label o spares spare).declared? = label.filter Label.isNumbered := rfl

@[simp] theorem declared?_plain (o : Operation) :
    (plain label o).declared? = label.filter Label.isNumbered := rfl

@[simp] theorem filter_freshLabel (k : Nat) :
    (some (s.freshLabel k)).filter Label.isNumbered = some (s.freshLabel k) := rfl

theorem declaredLabels_landing (v : Variable) :
    declaredLabels (landing label v) = (label.filter Label.isNumbered).toList := by
  rcases label with _ | l <;> simp [landing, declaredLabels_cons]

/-- Instructions without labels declare none. -/
theorem declaredLabels_eq_nil {code : List Instruction} (h : ∀ i ∈ code, i.label = none) :
    declaredLabels code = [] := by
  refine List.filterMap_eq_nil_iff.2 fun i hi => ?_
  rw [Instruction.declared?, h i hi]
  rfl

section Plain

variable {spares : List Variable} {spare : Option Label}

attribute [local simp] declaredLabels_cons declaredLabels_append declaredLabels_landing

theorem declares_zeroVariable (v : Variable) :
    (zeroVariable label v).Declares s ⟨label, .zeroVariable v, spares, spare⟩ :=
  ⟨[0], by simp [zeroVariable]⟩

theorem declares_gotoLabel (target : Label) :
    (gotoLabel label target).Declares s ⟨label, .gotoLabel target, spares, spare⟩ :=
  ⟨[], by simp [gotoLabel]⟩

theorem declares_constantAssignment (v : Variable) (k : Nat) :
    (constantAssignment label v k).Declares s ⟨label, .constantAssignment v k, spares, spare⟩ := by
  have hunits : declaredLabels (List.replicate k (plain none (.increase v))) = [] :=
    declaredLabels_eq_nil fun i hi => by rw [List.eq_of_mem_replicate hi]; rfl
  exact ⟨[], by simp [constantAssignment, hunits]⟩

theorem declares_jumpZero (v : Variable) (target : Label) :
    (jumpZero label v target).Declares s ⟨label, .jumpZero v target, spares, spare⟩ :=
  ⟨[0], by simp [jumpZero]⟩

theorem declares_selfAssignment (v : Variable) :
    (selfAssignment label v).Declares s ⟨label, .assignment v v, spares, spare⟩ :=
  ⟨[], by simp [selfAssignment]⟩

theorem declares_assignment (v source : Variable) :
    (assignment label v source).Declares s ⟨label, .assignment v source, spares, spare⟩ :=
  ⟨[0, 1, 2], by simp [assignment]⟩

theorem declares_jumpEqualConstant (v : Variable) (k : Nat) (target : Label) :
    (jumpEqualConstant label v k target).Declares s
      ⟨label, .jumpEqualConstant v k target, spares, spare⟩ := by
  have htests : ∀ differ z, declaredLabels (List.replicate k
      [plain none (.jumpZero z differ), plain none (.decrease z)]).flatten = [] := by
    intro differ z
    refine declaredLabels_eq_nil fun i hi => ?_
    obtain ⟨test, htest, hi⟩ := List.mem_flatten.1 hi
    rw [List.eq_of_mem_replicate htest] at hi
    rcases List.mem_pair.1 hi with rfl | rfl <;> rfl
  exact ⟨[0], by simp [jumpEqualConstant, htests]⟩

theorem declares_jumpEqualVariable (v source : Variable) (target : Label) :
    (jumpEqualVariable label v source target).Declares s
      ⟨label, .jumpEqualVariable v source target, spares, spare⟩ :=
  ⟨[1, 2, 0], by simp [jumpEqualVariable]⟩

end Plain

/-! ### Blocks of calls -/

section Inlining

open Program

variable {i : Instruction} {v : Variable} {callee : Program} {entry : Expansion}
  {bound : List (Variable × Binding)} {finish : Variable → Operation}

/-- The labels of a copy are those of the program over other names, unless `EXIT` is among them. -/
theorem declaredLabels_copy (hexit : ∀ j ∈ callee.code, j.label ≠ some .exit) :
    declaredLabels (callee.copy s) = callee.labels.map (callee.copyLabel s) := by
  rw [copy, declaredLabels, labels, declaredLabels, List.filterMap_map, List.map_filterMap]
  refine List.filterMap_congr fun j hj => ?_
  have hdeclared : ∀ f : Label → Label,
      (j.rename (callee.copyVariable s) f).declared? = (j.label.map f).filter Label.isNumbered :=
    fun f => rfl
  rw [Function.comp_apply, hdeclared, Instruction.declared?]
  rcases hlabel : j.label with _ | _ | n
  · rfl
  · exact absurd hlabel (hexit j hj)
  · have hmem : .numbered n ∈ callee.mentionedLabels :=
      mem_mentionedLabels.2 ⟨rfl, j, hj, .inl hlabel⟩
    rw [Option.map_some, copyLabel_of_mem hmem]
    exact (congrArg some (copyLabel_of_mem hmem)).symm

theorem declaredLabels_inlining :
    declaredLabels ((inlining label v entry bound finish).body s) =
      (label.filter Label.isNumbered).toList ++
        (declaredLabels (entry.program.copy s) ++ [copyEnd s]) := by
  have hwrites : ∀ {α : Type} (xs : List α) (f : α → Operation),
      declaredLabels (xs.map fun x => plain none (f x)) = [] := fun xs f =>
    declaredLabels_eq_nil fun i hi => by
      obtain ⟨x, -, rfl⟩ := List.mem_map.1 hi
      rfl
  have hfinish : declaredLabels [plain (some (copyEnd s)) (finish (entry.program.copyResult s))] =
      [copyEnd s] := rfl
  rw [body_inlining, declaredLabels_append, declaredLabels_append, declaredLabels_append,
    declaredLabels_landing, hwrites, hfinish, List.append_nil]

/-- The block of a call, unless an instruction of the called program is labelled `EXIT`. -/
theorem declares_inlining (hexit : ∀ j ∈ entry.program.code, j.label ≠ some .exit) :
    (inlining i.label v entry bound finish).Declares s i := by
  obtain ⟨callee, hcallee⟩ : ∃ callee, callee = entry.program := ⟨_, rfl⟩
  rw [← hcallee] at hexit
  have hlabels : ∀ l ∈ callee.labels, l.isNumbered = true ∧ l ∈ callee.mentionedLabels := by
    intro l hl
    obtain ⟨j, hj, hd⟩ := List.mem_filterMap.1 hl
    obtain ⟨hlabel, hnumbered⟩ := declared?_eq_some.1 hd
    exact ⟨hnumbered, mem_mentionedLabels.2 ⟨hnumbered, j, hj, .inl hlabel⟩⟩
  -- The end comes last but has the first fresh label, the labels of the copy the ones after it.
  refine ⟨callee.labels.map (fun l => callee.mentionedLabels.idxOf l + 1) ++ [0], ?_, ?_, ?_⟩
  · have hnodup : (callee.labels.map fun l => callee.mentionedLabels.idxOf l + 1).Nodup := by
      refine List.Nodup.map_on (fun l hl l' hl' he => ?_) callee.nodup_labels
      exact (List.idxOf_inj (hlabels l hl).2).1 (Nat.succ_injective he)
    refine List.Nodup.append hnodup (List.nodup_singleton 0) fun k hk hzero => ?_
    obtain ⟨l, -, rfl⟩ := List.mem_map.1 hk
    cases List.mem_singleton.1 hzero
  · intro k hk
    change k < entry.program.mentionedLabels.length + 1
    rw [← hcallee]
    rcases List.mem_append.1 hk with hk | hk
    · obtain ⟨l, hl, rfl⟩ := List.mem_map.1 hk
      exact Nat.succ_lt_succ (List.idxOf_lt_length_of_mem (hlabels l hl).2)
    · rw [List.mem_singleton.1 hk]
      exact Nat.succ_pos _
  · rw [declaredLabels_inlining, ← hcallee, declaredLabels_copy hexit, List.map_append,
      List.map_map]
    refine congrArg₂ _ rfl (congrArg₂ _ (List.map_congr_left fun l hl => ?_) rfl)
    obtain ⟨hnumbered, hmem⟩ := hlabels l hl
    cases l with
    | exit => cases hnumbered
    | numbered n => exact copyLabel_of_mem hmem

/-- Where the labels of the block of a call are distinct, no instruction of the called program is
labelled `EXIT`. -/
theorem ne_exit_of_nodup
    (h : (declaredLabels ((inlining label v entry bound finish).body s)).Nodup) :
    ∀ j ∈ entry.program.code, j.label ≠ some .exit := by
  intro j hj hlabel
  rw [declaredLabels_inlining] at h
  have hdisjoint := List.disjoint_of_nodup_append (List.Nodup.of_append_right h)
  refine hdisjoint (a := copyEnd s) ?_ (List.mem_singleton.2 rfl)
  refine List.mem_filterMap.2
    ⟨j.rename (entry.program.copyVariable s) (entry.program.copyLabel s),
      List.mem_map_of_mem hj, ?_⟩
  exact declared?_eq_some.2 ⟨by rw [Instruction.rename, hlabel]; rfl, rfl⟩

end Inlining

end Block

namespace Library

variable {lib : Library} {s : Supply} {i : Instruction} {block : Block}

/-- The operation calls a program with an instruction that is labelled `EXIT`. -/
def EntersExit (lib : Library) (o : Operation) : Prop :=
  ∃ call callee, o.call? = some call ∧ lib.find? call.function = some callee ∧
    ∃ j ∈ callee.code, j.label = some .exit

/-- The call can be inlined: it finds a program, its arguments can be given to parameters, and no
instruction of the program is labelled `EXIT`. -/
def Inlinable (lib : Library) (call : Call) : Prop :=
  ∃ callee bound, lib.find? call.function = some callee ∧
    lib.bindings callee 0 (call.arguments.take callee.requiredInputs) = .ok bound ∧
    ∀ j ∈ callee.code, j.label ≠ some .exit

/-- The labels of the block of any instruction. -/
theorem declares_block (hexit : ¬ lib.EntersExit i.operation) (hblock : lib.BlockOf i block)
    (s : Supply) : block.Declares s i := by
  cases hblock with
  | self =>
    refine ⟨[], List.nodup_nil, nofun, ?_⟩
    rw [Block.body_ofCode]
    exact declaredLabels_cons _ []
  | zeroVariable v => exact Block.declares_zeroVariable v
  | gotoLabel target => exact Block.declares_gotoLabel target
  | constantAssignment v k => exact Block.declares_constantAssignment v k
  | jumpZero v target => exact Block.declares_jumpZero v target
  | selfAssignment v => exact Block.declares_selfAssignment v
  | assignment => exact Block.declares_assignment _ _
  | jumpEqualConstant v k target => exact Block.declares_jumpEqualConstant v k target
  | jumpEqualVariable v source target => exact Block.declares_jumpEqualVariable v source target
  | call hi hfind =>
    exact Block.declares_inlining fun j hj hlabel =>
      hexit ⟨_, _, hi.call?_eq, find?_of_findExpansion? hfind, j, hj, hlabel⟩

/-! ### The labels of a round -/

section Round

variable {code code' : List Instruction} {xs : List Piece} {e e' : Expansion}

/-- No fresh label has two pieces. -/
theorem pairwise_firstLabel (h : Piece.Chained s xs) :
    (∀ x ∈ xs, s.firstLabel ≤ x.supply.firstLabel) ∧
      xs.Pairwise fun x y => x.supply.firstLabel + x.block.labelCount ≤ y.supply.firstLabel := by
  induction xs generalizing s with
  | nil => exact ⟨List.forall_mem_nil _, .nil⟩
  | cons x xs ih =>
    obtain ⟨rfl, hxs⟩ := h
    obtain ⟨hle, hpair⟩ := ih hxs
    refine ⟨List.forall_mem_cons.2 ⟨le_rfl, fun y hy => ?_⟩, .cons hle hpair⟩
    exact (Nat.le_add_right _ _).trans (hle y hy)

/-- No fresh label of a piece is in use. -/
theorem Pieces.freshLabel_not_mem (h : lib.Pieces (Supply.ofCode code) code code' xs) {x : Piece}
    (hx : x ∈ xs) (k : Nat) : x.supply.freshLabel k ∉ declaredLabels code := by
  intro hk
  have hlt := Supply.lt_firstLabel hk
  have hle := (pairwise_firstLabel h.chained).1 x hx
  omega

theorem Pieces.mem_of_declared (h : lib.Pieces (Supply.ofCode code) code code' xs) {x : Piece}
    (hx : x ∈ xs) {l : Label} (hl : x.source.declared? = some l) : l ∈ declaredLabels code :=
  List.mem_filterMap.2 ⟨x.source, h.source_mem hx, hl⟩

/-- The labels of a piece are distinct. -/
theorem Pieces.nodup_body (h : lib.Pieces (Supply.ofCode code) code code' xs) {x : Piece}
    (hx : x ∈ xs) (hdeclares : x.block.Declares x.supply x.source) :
    (declaredLabels x.body).Nodup := by
  obtain ⟨ks, hks, -, hlabels⟩ := hdeclares
  have hown : x.source.declared?.toList.Nodup := by
    cases x.source.declared? with
    | none => exact List.nodup_nil
    | some l => exact List.nodup_singleton l
  have hfresh : (ks.map x.supply.freshLabel).Nodup := by
    refine hks.map fun j k he => ?_
    have hnumber := Label.numbered.inj he
    omega
  rw [Piece.body, hlabels]
  refine hown.append hfresh fun l hl hl' => ?_
  obtain ⟨k, -, rfl⟩ := List.mem_map.1 hl'
  exact h.freshLabel_not_mem hx k (h.mem_of_declared hx (Option.mem_toList.1 hl))

/-- The labels of a program stay distinct in a round. -/
theorem Pieces.nodup_labels (h : lib.Pieces (Supply.ofCode code) code code' xs)
    (hcode : (declaredLabels code).Nodup) (hxs : ∀ x ∈ xs, x.block.Declares x.supply x.source) :
    (declaredLabels code').Nodup := by
  obtain ⟨-, hpair⟩ := pairwise_firstLabel h.chained
  have hsources : xs.Pairwise fun x y => ∀ l, x.source.declared? = some l →
      y.source.declared? ≠ some l := by
    rw [h.source, declaredLabels, List.filterMap_map, List.Nodup, List.pairwise_filterMap] at hcode
    exact hcode.imp fun hne l hx hy => hne l hx l hy rfl
  rw [h.target, declaredLabels_flatMap, List.nodup_flatMap]
  refine ⟨fun x hx => h.nodup_body hx (hxs x hx), (hpair.and hsources).imp_of_mem ?_⟩
  -- Labels of two pieces are both old, or one of them is old and the other fresh, or both fresh.
  rintro x y hx hy ⟨hle, hne⟩ l hlx hly
  rcases (hxs x hx).mem hlx with hsource | ⟨j, hj, rfl⟩
  · rcases (hxs y hy).mem hly with hsource' | ⟨k, -, rfl⟩
    · exact hne l hsource hsource'
    · exact h.freshLabel_not_mem hy k (h.mem_of_declared hx hsource)
  · rcases (hxs y hy).mem hly with hsource' | ⟨k, -, he⟩
    · exact h.freshLabel_not_mem hx j (h.mem_of_declared hy hsource')
    · have hnumber := Label.numbered.inj he
      omega

/-! ### What a round does, and why it fails -/

theorem withLines?_eq_ok_iff {lines : List Line} :
    e.withLines? lines = .ok e' ↔ e'.name = e.name ∧ e'.lines = lines := by
  rw [Expansion.withLines?]
  split
  · rename_i hdup
    refine ⟨nofun, ?_⟩
    rintro ⟨-, rfl⟩
    cases hdup.symm.trans (duplicateLabel?_eq_none_iff.2 e'.nodup_labels)
  · rw [Except.ok.injEq, Expansion.ext_iff]
    exact and_congr eq_comm eq_comm

/-- Lines are refused for a label that is declared twice. -/
theorem withLines?_eq_error {lines : List Line} {cause : Error}
    (h : e.withLines? lines = .error cause) :
    ∃ l first second, cause = .duplicateLabel l first second e.name := by
  rw [Expansion.withLines?] at h
  split at h
  · rename_i l first second hdup
    exact ⟨l, first, second, (Except.error.inj h).symm⟩
  · cases h

/-- A round puts other lines in the place of those of a program. -/
theorem round_eq_ok_iff :
    lib.round e = .ok e' ↔
      e'.name = e.name ∧ lib.expandLines (Supply.ofCode e.code) e.lines = .ok e'.lines := by
  rw [round, Bounded.bind_eq_ok]
  constructor
  · rintro ⟨lines, hlines, h⟩
    obtain ⟨hname, rfl⟩ := withLines?_eq_ok_iff.1 h
    exact ⟨hname, hlines⟩
  · rintro ⟨hname, hlines⟩
    exact ⟨e'.lines, hlines, withLines?_eq_ok_iff.2 ⟨hname, rfl⟩⟩

/-- A round of expansion is made of pieces. -/
theorem exists_pieces_of_round (h : lib.round e = .ok e') :
    ∃ xs, lib.Pieces (Supply.ofCode e.code) e.code e'.code xs :=
  exists_pieces (round_eq_ok_iff.1 h).2

/-- What every block has from the instruction that it replaces, a round has from the program. -/
theorem forall_mem_round {P Q : Instruction → Prop} (h : lib.round e = .ok e')
    (step : ∀ {s i block}, lib.BlockOf i block →
      (∀ w ∈ i.referencedVariables, ¬ s.Fresh w) → P i → ∀ i' ∈ block.body s, Q i')
    (he : ∀ i ∈ e.code, P i) : ∀ i' ∈ e'.code, Q i' := by
  obtain ⟨xs, hxs⟩ := exists_pieces_of_round h
  intro i' hi'
  obtain ⟨x, hx, hbody⟩ := hxs.mem_target.1 hi'
  exact step (hxs.blockOf hx) (fun _ => hxs.not_fresh_source hx) (he _ (hxs.source_mem hx)) i' hbody

/-- A round leaves a program alone whose instructions are all basic. -/
theorem round_of_isFullyBasic (h : e.program.isFullyBasic = true) : lib.round e = .ok e := by
  have hlines : ∀ (s : Supply) (lines : List Line),
      (∀ line ∈ lines, line.instruction.isBasic = true) → lib.expandLines s lines = .ok lines := by
    intro s lines hbasic
    induction lines with
    | nil => rfl
    | cons line lines ih =>
      obtain ⟨hline, hlines⟩ := List.forall_mem_cons.1 hbasic
      rw [expandLines, if_pos hline, ih hlines]
      rfl
  refine round_eq_ok_iff.2 ⟨rfl, hlines _ _ fun line hline => ?_⟩
  exact List.all_eq_true.1 h line.instruction (List.mem_map_of_mem hline)

/-- A round fails where names run out, some call fails, or some call enters a program with an
instruction that is labelled `EXIT`. -/
theorem cause_of_round {cause : Error} (h : lib.round e = .error cause) :
    (cause = .numeral .tooLong ∧ lib.RunsOut (.ofCode e.code) e.code) ∨
      (∃ i ∈ e.code, lib.CallFails i cause) ∨
      ((∃ l first second, cause = .duplicateLabel l first second e.name) ∧
        ∃ i ∈ e.code, lib.EntersExit i.operation) := by
  rw [round] at h
  rcases Bounded.bind_eq_error.1 h with hlines | ⟨lines, hlines, h⟩
  · rcases expandLines_eq_error hlines with hout | ⟨line, hline, hcall⟩
    · exact .inl hout
    · exact .inr (.inl ⟨line.instruction, List.mem_map_of_mem hline, hcall⟩)
  · refine .inr (.inr ⟨withLines?_eq_error h, ?_⟩)
    by_contra hexit
    push Not at hexit
    obtain ⟨xs, hxs⟩ := exists_pieces hlines
    have hnodup := hxs.nodup_labels e.nodup_labels fun x hx =>
      declares_block (hexit x.source (hxs.source_mem hx)) (hxs.blockOf hx) _
    have hok : e.withLines? lines = .ok ⟨e.name, lines, hnodup⟩ :=
      withLines?_eq_ok_iff.2 ⟨rfl, rfl⟩
    cases hok.symm.trans h

/-! ### When a round succeeds -/

/-- A call that fails cannot be inlined. -/
theorem CallFails.exists_call {cause : Error} (h : lib.CallFails i cause) :
    ∃ call, i.operation.call? = some call ∧ ¬ lib.Inlinable call := by
  obtain ⟨call, hcall, hcause⟩ := h
  refine ⟨call, hcall, ?_⟩
  rintro ⟨callee, bound, hfind, hbound, -⟩
  obtain ⟨entry, hentry, rfl⟩ := exists_findExpansion? hfind
  rcases hcause with hget | ⟨entry', hentry', hbound'⟩
  · cases hget.symm.trans (getExpansion_eq_ok.2 hentry)
  · obtain rfl := Option.some.inj (hentry.symm.trans hentry')
    cases hbound.symm.trans hbound'

/-- All calls can be inlined in a round that succeeds. -/
theorem inlinable_of_round (hround : lib.round e = .ok e') :
    ∀ i ∈ e.code, ∀ call, i.operation.call? = some call → lib.Inlinable call := by
  intro i hi call hcall
  obtain ⟨xs, hxs⟩ := exists_pieces_of_round hround
  obtain ⟨x, hx, rfl⟩ := List.mem_map.1 (hxs.source ▸ hi)
  have hnodup : (declaredLabels x.body).Nodup := by
    have hlabels : (declaredLabels e'.code).Nodup := e'.nodup_labels
    rw [hxs.target, declaredLabels_flatMap, List.nodup_flatMap] at hlabels
    exact hlabels.1 x hx
  obtain ⟨v, entry, bound, finish, -, hfind, hbound, hblock⟩ :=
    (hxs.blockOf hx).exists_inlining hcall
  rw [Piece.body, hblock] at hnodup
  exact ⟨entry.program, bound, find?_of_findExpansion? hfind, hbound, Block.ne_exit_of_nodup hnodup⟩

/-- Names do not run out in a round that succeeds. -/
theorem not_runsOut_of_round (hround : lib.round e = .ok e') :
    ¬ lib.RunsOut (.ofCode e.code) e.code := fun hout =>
  expandLines_ne_ok hout (round_eq_ok_iff.1 hround).2

/-- A round succeeds if all calls can be inlined, unless names run out. -/
theorem round_of_inlinable
    (h : ∀ i ∈ e.code, ∀ call, i.operation.call? = some call → lib.Inlinable call) :
    (∃ e', lib.round e = .ok e') ∨ lib.round e = .error (.numeral .tooLong) := by
  rcases hround : lib.round e with cause | e'
  · right
    rcases cause_of_round hround with
      ⟨rfl, -⟩ | ⟨i, hi, hfails⟩ | ⟨-, i, hi, call, callee, hcall, hfind, j, hj, hexit⟩
    · rfl
    · obtain ⟨call, hcall, hnot⟩ := hfails.exists_call
      exact absurd (h i hi call hcall) hnot
    · obtain ⟨callee', bound, hfind', -, hlabels⟩ := h i hi call hcall
      obtain rfl := Option.some.inj (hfind.symm.trans hfind')
      exact absurd hexit (hlabels j hj)
  · exact .inl ⟨e', rfl⟩

/-- A round does not succeed where a call enters a program with an `EXIT` label. -/
theorem not_entersExit_of_round (h : lib.round e = .ok e') :
    ∀ i ∈ e.code, ¬ lib.EntersExit i.operation := by
  rintro i hi ⟨call, callee, hcall, hfind, j, hj, hexit⟩
  obtain ⟨callee', bound, hfind', -, hlabels⟩ := inlinable_of_round h i hi call hcall
  obtain rfl := Option.some.inj (hfind.symm.trans hfind')
  exact hlabels j hj hexit

end Round

end Library

end RegisterMachine
