import RegisterMachine.Proofs.WellFormed

/-!
# Where the lines of an expanded program come from

A program that is expanded to a degree is made of blocks, one for each of its instructions and in
their order. All lines of a block go back to the instruction. The ancestry of a line is a record of
the rounds: each entry of it is an instruction that a round met and replaced, and the one in front
of it is among those that the round put in its place. Basic instructions pass through rounds as
they are, so they may have fewer ancestors than there were rounds; synthetic ones have one for each
round.

The programs that calls bring in may themselves be the outcome of rounds, and then their lines have
ancestries of their own. A copy brings these along into the block of the call. There they are
replaced: behind a line of the copy stands the instruction with the call, and then what that one
goes back to, and nothing that the called program went through.

* `Library.Produces` — a line is one of those that a round has for the block of a line, before it
  goes back to that one;
* `Library.GoesBack` — a line is one of those that rounds made of an instruction of a program;
* `Library.exists_parts_of_round` — what a single round makes of lines;
* `Library.expand_provenance` — the blocks of an expanded program.
-/

namespace RegisterMachine

/-- If each item of a block makes way for a part, the blocks are made of these parts then. -/
theorem exists_blocks_of_parts {α β γ : Type} {A : α → β → Prop} {B : α → γ → Prop} {xs : List α}
    {blocks : List (List β)} {parts : List (List γ)}
    (hblocks : List.Forall₂ (fun x block => ∀ y ∈ block, A x y) xs blocks)
    (hparts : List.Forall₂ (fun y part => ∀ x, A x y → ∀ z ∈ part, B x z) blocks.flatten parts) :
    ∃ blocks', parts.flatten = blocks'.flatten ∧
      List.Forall₂ (fun x block => ∀ z ∈ block, B x z) xs blocks' := by
  induction hblocks generalizing parts with
  | nil =>
    cases hparts
    exact ⟨[], rfl, .nil⟩
  | @cons x block xs blocks hblock _ ih =>
    rw [List.flatten_cons] at hparts
    have hfirst := List.forall₂_take block.length hparts
    have hrest := List.forall₂_drop block.length hparts
    rw [List.take_left] at hfirst
    rw [List.drop_left] at hrest
    obtain ⟨blocks', hflatten, hblocks'⟩ := ih hrest
    refine ⟨(parts.take block.length).flatten :: blocks', ?_, .cons ?_ hblocks'⟩
    · rw [List.flatten_cons, ← hflatten, ← List.flatten_append, List.take_append_drop]
    · have hboth := (List.forall₂_and_left _ _).2 ⟨hblock, hfirst⟩
      have hgood : List.Forall₂ (fun part y => (∀ z ∈ part, B x z) ∧ A x y)
          (parts.take block.length) block := hboth.flip.imp fun part y h => ⟨h.2 x h.1, h.1⟩
      have hpart := ((List.forall₂_and_left _ _).1 hgood).1
      intro z hz
      obtain ⟨part, hmem, hz⟩ := List.mem_flatten.1 hz
      exact hpart part hmem z hz

/-- The lines that a round with a piece puts in the place of a line. -/
def Line.replacement (line : Line) (x : Piece) : List Line :=
  if line.instruction.isBasic then [line] else (x.block.lines x.supply).map line.derive

namespace Library

variable {lib : Library} {p : Program} {e e' : Expansion}

/-! ### What a round produces -/

/-- A round over a program makes a line, among others, for the block of a synthetic line. What was
made may have an ancestry, if it is the copy of a line. -/
def Produces (lib : Library) (e : Expansion) (line made : Line) : Prop :=
  line.instruction.isBasic = false ∧
    ∃ (e' : Expansion) (xs : List Piece) (k : Nat) (x : Piece), lib.round e = .ok e' ∧
      lib.Pieces (Supply.ofCode e.code) e.code e'.code xs ∧
      e.lines[k]? = some line ∧ xs[k]? = some x ∧ made ∈ x.block.lines x.supply

/-- The line is an instruction of a program, or a round produced its instruction for a line that
goes back to that instruction; then its ancestry is this line and the ancestry of this line. Before
the round there was one for each ancestor of the earlier line. -/
inductive GoesBack (lib : Library) (p : Program) (i : Instruction) : Line → Prop
  | initial : GoesBack lib p i (.initial i)
  | derive {line made : Line} {e : Expansion} (earlier : GoesBack lib p i line)
    (stage : lib.expand p line.ancestry.length = .ok e) (produced : lib.Produces e line made) :
    GoesBack lib p i ⟨made.instruction, line.instruction :: line.ancestry⟩

theorem GoesBack.origin_eq {i : Instruction} {line : Line} (h : lib.GoesBack p i line) :
    line.origin = i := by
  induction h with
  | initial => rfl
  | derive _ _ _ ih => exact (Line.origin_derive _ _).trans ih

/-- A round puts in the place of each line what its piece holds. -/
theorem lines_of_pieces {s : Supply} {lines lines' : List Line} {xs : List Piece}
    (h : lib.expandLines s lines = .ok lines')
    (hsource : lines.map Line.instruction = xs.map Piece.source)
    (hblock : ∀ x ∈ xs, lib.block x.supply x.source = .ok x.block) (hchained : Piece.Chained s xs) :
    lines' = (List.zipWith Line.replacement lines xs).flatten := by
  induction lines generalizing s lines' xs with
  | nil =>
    obtain rfl := Except.ok.inj h
    rfl
  | cons line lines ih =>
    obtain _ | ⟨x, xs⟩ := xs
    · cases hsource
    obtain ⟨hline, hrest⟩ := List.cons.inj hsource
    obtain ⟨rfl, htail⟩ := hchained
    have hx : lib.block x.supply line.instruction = .ok x.block :=
      hline ▸ hblock x List.mem_cons_self
    have hxs : ∀ y ∈ xs, lib.block y.supply y.source = .ok y.block :=
      fun y hy => hblock y (List.mem_cons_of_mem _ hy)
    rw [List.zipWith_cons_cons, List.flatten_cons, Line.replacement]
    rw [expandLines] at h
    by_cases hbasic : line.instruction.isBasic = true
    · rw [if_pos hbasic] at h ⊢
      obtain ⟨rest, hlines, h⟩ := Bounded.bind_eq_ok.1 h
      obtain rfl := Except.ok.inj h
      -- the piece of a basic line takes no names
      rw [Except.ok.inj (hx.symm.trans (block_of_isBasic hbasic))] at htail
      exact congrArg (line :: ·) (ih hlines hrest hxs htail)
    · rw [if_neg hbasic] at h ⊢
      obtain ⟨block, hline', h⟩ := Bounded.bind_eq_ok.1 h
      obtain ⟨rest, hlines, h⟩ := Bounded.bind_eq_ok.1 h
      obtain rfl := Except.ok.inj h
      obtain rfl := Except.ok.inj (hx.symm.trans hline')
      exact congrArg (_ ++ ·) (ih hlines hrest hxs htail)

/-- A round leaves a basic line as it is, and puts what it produces in the place of any other. -/
theorem exists_parts_of_round (h : lib.round e = .ok e') :
    ∃ parts, e'.lines = parts.flatten ∧ List.Forall₂ (fun line part => ∀ line' ∈ part,
      (line.instruction.isBasic = true ∧ line' = line) ∨
        ∃ made, lib.Produces e line made ∧ line' = line.derive made) e.lines parts := by
  obtain ⟨xs, hxs⟩ := exists_pieces_of_round h
  have hlines := (round_eq_ok_iff.1 h).2
  have hlength : e.lines.length = xs.length := by
    have hmap := congrArg List.length hxs.source
    rwa [Expansion.code, List.length_map, List.length_map] at hmap
  refine ⟨_, lines_of_pieces hlines hxs.source hxs.block hxs.chained, ?_⟩
  refine List.forall₂_iff_get.2 ⟨by simp [hlength], fun k hk hk' line' hline' => ?_⟩
  have hkx : k < xs.length := hlength ▸ hk
  simp only [List.get_eq_getElem, List.getElem_zipWith, Line.replacement] at hline' ⊢
  split at hline'
  · rename_i hbasic
    exact .inl ⟨hbasic, List.mem_singleton.1 hline'⟩
  · rename_i hbasic
    obtain ⟨made, hmade, rfl⟩ := List.mem_map.1 hline'
    exact .inr ⟨made, ⟨Bool.eq_false_iff.2 hbasic, e', xs, k, xs[k], h, hxs,
      List.getElem?_eq_getElem hk, List.getElem?_eq_getElem hkx, hmade⟩, rfl⟩

/-! ### Any number of rounds -/

/-- What is known of a line after `n` rounds that goes back to an instruction of a program. -/
structure StemsFrom (lib : Library) (p : Program) (n : Nat) (i : Instruction) (line : Line) :
    Prop where
  /-- Rounds made the line of the instruction. -/
  goesBack : lib.GoesBack p i line
  /-- A synthetic line was replaced in every round. -/
  synthetic : line.instruction.isBasic = false → line.ancestry.length = n
  /-- No line was replaced more than once in a round. -/
  length_le : line.ancestry.length ≤ n

theorem StemsFrom.of_basic {n : Nat} {i : Instruction} {line : Line}
    (h : lib.StemsFrom p n i line) (hbasic : line.instruction.isBasic = true) :
    lib.StemsFrom p (n + 1) i line where
  goesBack := h.goesBack
  synthetic hsynthetic := by rw [hbasic] at hsynthetic; cases hsynthetic
  length_le := Nat.le_succ_of_le h.length_le

theorem StemsFrom.derive {n : Nat} {i : Instruction} {line made : Line}
    (h : lib.StemsFrom p n i line) (he : lib.expand p n = .ok e)
    (hmade : lib.Produces e line made) :
    lib.StemsFrom p (n + 1) i (line.derive made) := by
  have hlength : line.ancestry.length = n := h.synthetic hmade.1
  have hderived : (line.derive made).ancestry.length = n + 1 := congrArg Nat.succ hlength
  exact ⟨.derive h.goesBack (hlength.symm ▸ he) hmade, fun _ => hderived, hderived.le⟩

/-- A line that takes part in a round stands behind it for what went into it. -/
theorem StemsFrom.of_round {n : Nat} {i : Instruction} {line line' : Line}
    (h : lib.StemsFrom p n i line) (he : lib.expand p n = .ok e)
    (hround : (line.instruction.isBasic = true ∧ line' = line) ∨
      ∃ made, lib.Produces e line made ∧ line' = line.derive made) :
    lib.StemsFrom p (n + 1) i line' := by
  rcases hround with ⟨hbasic, rfl⟩ | ⟨made, hmade, rfl⟩
  · exact h.of_basic hbasic
  · exact h.derive he hmade

/-- The last one of some rounds, which may have nothing left to do. -/
theorem exists_round_of_expand_succ {n : Nat} (h : lib.expand p (n + 1 : Nat) = .ok e) :
    ∃ e₁, lib.expand p n = .ok e₁ ∧ lib.round e₁ = .ok e := by
  have hrounds := (expand_eq_ok_iff.1 h).2
  rw [Int.toNat_natCast, expandRounds_add] at hrounds
  obtain ⟨e₁, hearlier, hlast⟩ := Bounded.bind_eq_ok.1 hrounds
  refine ⟨e₁, expand_eq_ok_iff.2 ⟨Int.natCast_nonneg n, hearlier⟩, ?_⟩
  rcases expandRounds_succ.1 hlast with ⟨hbasic, rfl⟩ | ⟨-, e₂, hround, hnone⟩
  · exact round_of_isFullyBasic hbasic
  · obtain rfl := Except.ok.inj hnone
    exact hround

/-- After any number of rounds there is a block of lines for each instruction of the program. -/
theorem exists_blocks_of_expand_natCast {n : Nat} (h : lib.expand p n = .ok e) :
    ∃ blocks, e.lines = blocks.flatten ∧
      List.Forall₂ (fun i block => ∀ line ∈ block, lib.StemsFrom p n i line) p.code blocks := by
  induction n generalizing e with
  | zero =>
    obtain rfl := Except.ok.inj h
    refine ⟨p.code.map fun i => [.initial i], ?_, ?_⟩
    · rw [← List.flatMap_def]
      exact List.map_eq_flatMap
    · refine List.forall₂_map_right_iff.2 (List.forall₂_same.2 fun i _ line hline => ?_)
      obtain rfl := List.mem_singleton.1 hline
      exact ⟨.initial, fun _ => rfl, Nat.le_refl 0⟩
  | succ n ih =>
    obtain ⟨e₁, hearlier, hround⟩ := exists_round_of_expand_succ h
    obtain ⟨blocks, hlines, hblocks⟩ := ih hearlier
    obtain ⟨parts, hmade, hparts⟩ := exists_parts_of_round hround
    rw [hlines] at hparts
    obtain ⟨blocks', hflatten, hblocks'⟩ := exists_blocks_of_parts hblocks
      (hparts.imp fun line part hpart i hline line' hline' =>
        hline.of_round hearlier (hpart line' hline'))
    exact ⟨blocks', hmade.trans hflatten, hblocks'⟩

/-- A program that was expanded to a degree has a block of lines for each of its instructions, in
their order. All lines of a block go back to the instruction, and behind each line stands all that
rounds replaced on the way. A synthetic line has as many ancestors as there were rounds, and a basic
one has no more than that. -/
theorem expand_provenance {degree : Int} (h : lib.expand p degree = .ok e) :
    ∃ blocks, e.lines = blocks.flatten ∧ List.Forall₂ (fun i block => ∀ line ∈ block,
      line.origin = i ∧
      (line.instruction.isBasic = false → (line.ancestry.length : Int) = degree) ∧
      (line.ancestry.length : Int) ≤ degree ∧
      lib.GoesBack p i line) p.code blocks := by
  obtain ⟨n, rfl⟩ := Int.eq_ofNat_of_zero_le (expand_eq_ok_iff.1 h).1
  obtain ⟨blocks, hlines, hblocks⟩ := exists_blocks_of_expand_natCast h
  refine ⟨blocks, hlines, hblocks.imp fun i block hblock line hline => ?_⟩
  obtain ⟨hback, hsynthetic, hle⟩ := hblock line hline
  exact ⟨hback.origin_eq, fun hline => Int.ofNat_inj.2 (hsynthetic hline), Int.ofNat_le.2 hle,
    hback⟩

/-- The program that clears its result, after one round. -/
def cleared : Expansion where
  name := "CLEAR"
  lines :=
    [⟨.plain (some (.numbered 0)) (.decrease .result), [.plain none (.zeroVariable .result)]⟩,
      ⟨.plain none (.jumpNotZero .result (.numbered 0)), [.plain none (.zeroVariable .result)]⟩]
  nodup_labels := by decide

/-- A program that calls it. -/
def callCleared : Program where
  name := "MAIN"
  code := [.plain none (.quotation (.work 0) ⟨"CLEAR", []⟩)]
  nodup_labels := by decide

/-- A library of both. One of them has a history. -/
def clearedLibrary : Library :=
  ⟨[.ofProgram callCleared, cleared], by decide⟩

/-- What the called program went through is not found behind the lines of its copy. -/
theorem callCleared_expand_provenance :
    ∃ e, clearedLibrary.expand callCleared 2 = .ok e ∧
      (∀ line ∈ e.lines, .plain none (.zeroVariable .result) ∉ line.ancestry) ∧
      ∃ blocks, e.lines = blocks.flatten ∧ List.Forall₂ (fun i block => ∀ line ∈ block,
        line.origin = i ∧
        (line.instruction.isBasic = false → (line.ancestry.length : Int) = 2) ∧
        (line.ancestry.length : Int) ≤ 2 ∧
        clearedLibrary.GoesBack callCleared i line) callCleared.code blocks := by
  obtain ⟨e, he, hlost⟩ : ∃ e, clearedLibrary.expand callCleared 2 = .ok e ∧
      ∀ line ∈ e.lines, .plain none (.zeroVariable .result) ∉ line.ancestry :=
    ⟨_, rfl, by decide +kernel⟩
  exact ⟨e, he, hlost, expand_provenance he⟩

end Library

end RegisterMachine
