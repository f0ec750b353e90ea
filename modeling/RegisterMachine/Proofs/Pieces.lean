import RegisterMachine.Expansion.Round
import RegisterMachine.Proofs.BlockNames
import RegisterMachine.Proofs.BlockSimulation

/-!
# The pieces of a round

A round puts a block in the place of each instruction, the next block over the names that the ones
before left free. So the new program is made of pieces: an instruction each, with its block and the
supply of the block's names. No two pieces have a fresh variable in common, and no instruction
before the round mentions one.

* `Piece`, `Piece.Chained` — the pieces of a round, each with the supply behind the one before it;
* `Piece.offset` — the place of a piece in the new program;
* `Library.exists_pieces` — what a round over a list of lines is made of;
* `Library.RunsOut` — there are not names enough for the blocks;
* `Library.expandLines_eq_error` — why a round over a list of lines fails.
-/

namespace RegisterMachine

/-! ### Names in use -/

/-- No number in use is above the high-water mark of a pool. -/
theorem NumberPool.le_highWater {ns : List Nat} {n : Nat} (h : n ∈ ns) :
    n ≤ (NumberPool.ofUsed ns).highWater := by
  rw [NumberPool.ofUsed]
  cases hm : ns.max? with
  | none =>
    rw [List.max?_eq_none_iff.1 hm] at h
    cases h
  | some m => exact (List.max?_eq_some_iff.1 hm).2 n h

/-- No variable that a list of instructions mentions is fresh for it. -/
theorem Supply.not_fresh_ofCode {code : List Instruction} {i : Instruction} (hi : i ∈ code)
    {w : Variable} (hw : w ∈ i.referencedVariables) : ¬ (Supply.ofCode code).Fresh w := by
  rintro ⟨k, rfl⟩
  have hused : (Supply.ofCode code).firstVariable + k + 1 ∈ usedWorkNumbers code := by
    rw [usedWorkNumbers, mem_sortedSet]
    refine List.mem_map_of_mem (List.mem_flatMap.2 ⟨i, hi, List.mem_filterMap.2 ⟨_, hw, rfl⟩⟩)
  have hle := NumberPool.le_highWater hused
  have hfirst : (Supply.ofCode code).firstVariable =
      (NumberPool.ofUsed (usedWorkNumbers code)).highWater := rfl
  omega

theorem Supply.not_fresh_of_mem_vars {p : Program} {w : Variable} (hw : w ∈ p.vars) :
    ¬ (Supply.ofCode p.code).Fresh w := by
  obtain ⟨i, hi, hw⟩ := Program.mem_vars.1 hw
  exact not_fresh_ofCode hi hw

/-! ### Pieces -/

/-- An instruction with the block that a round puts in its place. -/
structure Piece where
  /-- The names that the block draws from. -/
  supply : Supply
  /-- The instruction. -/
  source : Instruction
  /-- The block. -/
  block : Block

namespace Piece

/-- The instructions that a piece gives the new program. -/
def body (x : Piece) : List Instruction :=
  x.block.body x.supply

/-- The variable is one of the fresh variables of a piece. -/
def Owns (x : Piece) (w : Variable) : Prop :=
  x.block.Owns x.supply w

/-- What a run of the piece relies on. -/
def Clean (x : Piece) (env : Valuation) : Prop :=
  x.source.Clean x.supply env

/-- Each piece draws its names from the supply behind the piece before it. -/
def Chained : Supply → List Piece → Prop
  | _, [] => True
  | s, x :: xs => x.supply = s ∧ Chained (s.skip x.block.variableCount x.block.labelCount) xs

/-- A variable that a supply hands out behind some names is one that it hands out. -/
theorem fresh_of_fresh_skip {s : Supply} {m n : Nat} {w : Variable} (h : (s.skip m n).Fresh w) :
    s.Fresh w := by
  obtain ⟨k, rfl⟩ := h
  exact ⟨m + k, congrArg Variable.work (Nat.add_assoc _ _ _)⟩

theorem Chained.fresh {s : Supply} {xs : List Piece} (h : Chained s xs) {x : Piece} (hx : x ∈ xs)
    {w : Variable} (hw : x.supply.Fresh w) : s.Fresh w := by
  induction xs generalizing s with
  | nil => cases hx
  | cons y xs ih =>
    obtain ⟨rfl, hxs⟩ := h
    rcases List.mem_cons.1 hx with rfl | hx
    · exact hw
    · exact fresh_of_fresh_skip (ih hxs hx)

/-- No two pieces have a fresh variable in common. -/
theorem Chained.pairwise {s : Supply} {xs : List Piece} (h : Chained s xs) :
    xs.Pairwise fun x y => ∀ w, x.Owns w → ¬ y.Owns w := by
  induction xs generalizing s with
  | nil => exact .nil
  | cons x xs ih =>
    obtain ⟨rfl, hxs⟩ := h
    refine .cons (fun y hy w hx hw => ?_) (ih hxs)
    obtain ⟨j, hj, rfl⟩ := hx
    obtain ⟨k, hk⟩ := hxs.fresh hy hw.fresh
    have hwork : x.supply.firstVariable + j = x.supply.firstVariable + x.block.variableCount + k :=
      Variable.work.inj hk
    omega

/-- A fresh variable has one piece only. -/
theorem Chained.unique {s : Supply} {xs : List Piece} (h : Chained s xs) {j k : Nat} {x y : Piece}
    (hx : xs[j]? = some x) (hy : xs[k]? = some y) {w : Variable} (hxw : x.Owns w)
    (hyw : y.Owns w) : j = k := by
  have hpair := List.pairwise_iff_getElem.1 h.pairwise
  obtain ⟨hj, rfl⟩ := List.getElem?_eq_some_iff.1 hx
  obtain ⟨hk, rfl⟩ := List.getElem?_eq_some_iff.1 hy
  rcases Nat.lt_trichotomy j k with hlt | heq | hlt
  · exact absurd hyw (hpair j k hj hk hlt w hxw)
  · exact heq
  · exact absurd hxw (hpair k j hk hj hlt w hyw)

/-- What a run of a piece relies on is lost only if a fresh variable of the piece changes. -/
theorem Clean.congr {lib : Library} {x : Piece} (hx : lib.BlockOf x.source x.block)
    {env env' : Valuation} (h : x.Clean env) (henv : ∀ w, x.Owns w → env' w = env w) :
    x.Clean env' := by
  intro v source ho hne
  have hblock : lib.BlockOf x.source (.assignment x.source.label v source) := by
    obtain ⟨supply, ⟨label, operation, spares, spare⟩, block⟩ := x
    obtain rfl : operation = .assignment v source := ho
    exact .assignment hne
  have hcount : x.block.variableCount = 1 := by
    rw [hx.unique hblock]
    rfl
  rw [henv _ ⟨0, by omega, rfl⟩]
  exact h v source ho hne

/-! ### Places -/

/-- The place of the piece at a position. -/
def offset (xs : List Piece) (k : Nat) : Nat :=
  ((xs.take k).flatMap body).length

theorem offset_length (xs : List Piece) : offset xs xs.length = (xs.flatMap body).length := by
  rw [offset, List.take_length]

theorem offset_succ {xs : List Piece} {k : Nat} {x : Piece} (h : xs[k]? = some x) :
    offset xs (k + 1) = offset xs k + x.body.length := by
  rw [offset, offset, List.take_add_one, h]
  simp

/-- The new program has each piece at its offset. -/
theorem holds_offset {q : Program} {xs : List Piece} (hq : q.code = xs.flatMap body) {k : Nat}
    {x : Piece} (h : xs[k]? = some x) : q.Holds (offset xs k) x.body := by
  obtain ⟨hk, rfl⟩ := List.getElem?_eq_some_iff.1 h
  have hsplit : xs.flatMap body =
      (xs.take k).flatMap body ++ xs[k].body ++ (xs.drop (k + 1)).flatMap body := by
    rw [List.append_assoc, ← List.flatMap_cons, ← List.drop_eq_getElem_cons hk,
      ← List.flatMap_append, List.take_append_drop]
  exact Program.holds_of_eq (hq.trans hsplit)

end Piece

/-! ### Rounds -/

namespace Library

variable {lib : Library}

/-- The pieces have the blocks of their instructions, and draw their names in a row. -/
structure Pieces (lib : Library) (s : Supply) (code code' : List Instruction) (xs : List Piece) :
    Prop where
  /-- The instructions before the round. -/
  source : code = xs.map Piece.source
  /-- The instructions after the round. -/
  target : code' = xs.flatMap Piece.body
  /-- The blocks are those of the instructions. -/
  block : ∀ x ∈ xs, lib.block x.supply x.source = .ok x.block
  /-- The names are drawn in a row. -/
  chained : Piece.Chained s xs

theorem Pieces.source_mem {s : Supply} {code code' : List Instruction} {xs : List Piece}
    (h : lib.Pieces s code code' xs) {x : Piece} (hx : x ∈ xs) : x.source ∈ code := by
  rw [h.source]
  exact List.mem_map_of_mem hx

theorem Pieces.mem_target {s : Supply} {code code' : List Instruction} {xs : List Piece}
    (h : lib.Pieces s code code' xs) {i' : Instruction} : i' ∈ code' ↔ ∃ x ∈ xs, i' ∈ x.body := by
  rw [h.target, List.mem_flatMap]

/-- No piece of a round draws a name that its instruction has. -/
theorem Pieces.not_fresh_source {code code' : List Instruction} {xs : List Piece}
    (h : lib.Pieces (.ofCode code) code code' xs) {x : Piece} (hx : x ∈ xs) {w : Variable}
    (hw : w ∈ x.source.referencedVariables) : ¬ x.supply.Fresh w := fun hfresh =>
  Supply.not_fresh_ofCode (h.source_mem hx) hw (h.chained.fresh hx hfresh)

theorem Pieces.blockOf {s : Supply} {code code' : List Instruction} {xs : List Piece}
    (h : lib.Pieces s code code' xs) {x : Piece} (hx : x ∈ xs) : lib.BlockOf x.source x.block :=
  (block_eq_ok_iff.1 (h.block x hx)).1

private theorem Pieces.cons {s : Supply} {code code' : List Instruction} {xs : List Piece}
    {i : Instruction} {block : Block} (hblock : lib.block s i = .ok block)
    (h : lib.Pieces (s.skip block.variableCount block.labelCount) code code' xs) :
    lib.Pieces s (i :: code) (block.body s ++ code') (⟨s, i, block⟩ :: xs) where
  source := by rw [h.source, List.map_cons]
  target := by rw [h.target, List.flatMap_cons]; rfl
  block := List.forall_mem_cons.2 ⟨hblock, h.block⟩
  chained := ⟨rfl, h.chained⟩

/-- A round over a list of lines is made of pieces. -/
theorem exists_pieces {s : Supply} {lines lines' : List Line}
    (h : lib.expandLines s lines = .ok lines') :
    ∃ xs, lib.Pieces s (lines.map Line.instruction) (lines'.map Line.instruction) xs := by
  induction lines generalizing s lines' with
  | nil =>
    obtain rfl := Except.ok.inj h
    exact ⟨[], rfl, rfl, List.forall_mem_nil _, trivial⟩
  | cons line lines ih =>
    rw [expandLines] at h
    by_cases hbasic : line.instruction.isBasic = true
    · rw [if_pos hbasic] at h
      obtain ⟨rest, hrest, h⟩ := Bounded.bind_eq_ok.1 h
      obtain rfl := Except.ok.inj h
      obtain ⟨xs, hxs⟩ := ih hrest
      exact ⟨_, .cons (block_of_isBasic hbasic) hxs⟩
    · rw [if_neg hbasic] at h
      obtain ⟨block, hblock, h⟩ := Bounded.bind_eq_ok.1 h
      obtain ⟨rest, hrest, h⟩ := Bounded.bind_eq_ok.1 h
      obtain rfl := Except.ok.inj h
      obtain ⟨xs, hxs⟩ := ih hrest
      refine ⟨⟨s, line.instruction, block⟩ :: xs, ?_⟩
      have hbody : ((block.lines s).map line.derive).map Line.instruction = block.body s := by
        rw [List.map_map]
        rfl
      rw [List.map_append, hbody]
      exact .cons hblock hxs

/-! ### Names running out -/

/-- Where a round over a list of instructions comes to an instruction, the names that are left do
not do for its block. -/
inductive RunsOut (lib : Library) : Supply → List Instruction → Prop
  /-- There are none for the first instruction. -/
  | here {s : Supply} {i : Instruction} {code : List Instruction} (h : lib.Lacks s i) :
    RunsOut lib s (i :: code)
  /-- The first instruction has its block, and the others draw from what is left. -/
  | there {s : Supply} {i : Instruction} {block : Block} {code : List Instruction}
    (hblock : lib.block s i = .ok block)
    (h : RunsOut lib (s.skip block.variableCount block.labelCount) code) : RunsOut lib s (i :: code)

/-- A round over a list of lines fails where names run out or a call fails. -/
theorem expandLines_eq_error {s : Supply} {lines : List Line} {cause : Error}
    (h : lib.expandLines s lines = .error cause) :
    (cause = .numeral .tooLong ∧ lib.RunsOut s (lines.map Line.instruction)) ∨
      ∃ line ∈ lines, lib.CallFails line.instruction cause := by
  induction lines generalizing s with
  | nil => cases h
  | cons line lines ih =>
    -- A failure behind the first line is one of the whole list.
    have htail : ∀ block, lib.block s line.instruction = .ok block →
        lib.expandLines (s.skip block.variableCount block.labelCount) lines = .error cause →
        (cause = .numeral .tooLong ∧ lib.RunsOut s ((line :: lines).map Line.instruction)) ∨
          ∃ line' ∈ line :: lines, lib.CallFails line'.instruction cause := by
      intro block hblock hrest
      refine (ih hrest).imp (And.imp_right (.there hblock)) ?_
      rintro ⟨line', hline', hcall⟩
      exact ⟨line', List.mem_cons_of_mem line hline', hcall⟩
    rw [expandLines] at h
    by_cases hbasic : line.instruction.isBasic = true
    · rw [if_pos hbasic] at h
      exact htail _ (block_of_isBasic hbasic) (Bounded.bind_pure_eq_error.1 h)
    · rw [if_neg hbasic] at h
      rcases Bounded.bind_eq_error.1 h with hblock | ⟨block, hblock, h⟩
      · rcases block_eq_error hblock with ⟨rfl, hlacks⟩ | hcall
        · exact .inl ⟨rfl, .here hlacks⟩
        · exact .inr ⟨line, List.mem_cons_self, hcall⟩
      · exact htail block hblock (Bounded.bind_pure_eq_error.1 h)

/-- A round does not get past an instruction for which names run out. -/
theorem expandLines_ne_ok {s : Supply} {lines lines' : List Line}
    (h : lib.RunsOut s (lines.map Line.instruction)) : lib.expandLines s lines ≠ .ok lines' := by
  induction lines generalizing s lines' with
  | nil => cases h
  | cons line lines ih =>
    -- The first line has its block where the round succeeds, so names run out behind it.
    have htail : ∀ block rest, lib.block s line.instruction = .ok block →
        lib.expandLines (s.skip block.variableCount block.labelCount) lines ≠ .ok rest := by
      intro block rest hblock
      cases h with
      | here hlacks => exact absurd hblock hlacks.block_ne_ok
      | there hblock' h =>
        obtain rfl := Except.ok.inj (hblock.symm.trans hblock')
        exact ih h
    rw [expandLines]
    intro hlines
    by_cases hbasic : line.instruction.isBasic = true
    · rw [if_pos hbasic] at hlines
      obtain ⟨rest, hrest, -⟩ := Bounded.bind_eq_ok.1 hlines
      exact htail _ rest (block_of_isBasic hbasic) hrest
    · rw [if_neg hbasic] at hlines
      obtain ⟨block, hblock, hlines⟩ := Bounded.bind_eq_ok.1 hlines
      obtain ⟨rest, hrest, -⟩ := Bounded.bind_eq_ok.1 hlines
      exact htail block rest hblock hrest

end Library

end RegisterMachine
