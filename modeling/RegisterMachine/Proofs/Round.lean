import RegisterMachine.Proofs.Pieces

/-!
# One round preserves runs

The run of a program and the run of the program after a round go side by side: whenever the one is
at an instruction, the other is at the first instruction of its block, and all variables that are
not fresh for the round have the same values. So the one ends if and only if the other does, and
then with the same values.

* `Round` — a program and the program after a round, with the pieces of the round;
* `Round.Matches` — configurations side by side;
* `Round.path` — from a path of the program to a path after the round;
* `Round.ends` — where the program after the round ends, the program does, if arguments for
  unmentioned inputs are skipped.
-/

namespace RegisterMachine

open Program Library

/-- A program, the program after a round, and the pieces of the round. -/
structure Round (lib : Library) (p q : Program) (xs : List Piece) : Prop where
  /-- The library passes its checks. -/
  library : lib.validate = .ok ()
  /-- The pieces make up both programs. -/
  pieces : lib.Pieces (Supply.ofCode p.code) p.code q.code xs

namespace Round

variable {lib : Library} {p q : Program} {xs : List Piece}

/-! ### Places -/

theorem exists_piece (h : Round lib p q xs) {k : Nat} {i : Instruction} (hi : p.code[k]? = some i) :
    ∃ x, xs[k]? = some x ∧ x.source = i := by
  rw [h.pieces.source, List.getElem?_map] at hi
  exact Option.map_eq_some_iff.1 hi

theorem replaces (h : Round lib p q xs) {x : Piece} (hx : x ∈ xs) :
    Replaces x.supply x.source x.body :=
  replaces_block h.library (h.pieces.blockOf hx) x.supply

theorem source_mem (h : Round lib p q xs) {x : Piece} (hx : x ∈ xs) : x.source ∈ p.code :=
  h.pieces.source_mem hx

theorem mem_target (h : Round lib p q xs) {i' : Instruction} :
    i' ∈ q.code ↔ ∃ x ∈ xs, i' ∈ x.body :=
  h.pieces.mem_target

/-- A label leads to the block of the instruction that it led to. -/
theorem placeOf_offset (h : Round lib p q xs) {l : Label} {k : Nat} (hl : p.placeOf l = some k) :
    q.placeOf l = some (Piece.offset xs k) := by
  cases l with
  | exit =>
    have hlength : p.code.length = xs.length := by rw [h.pieces.source, List.length_map]
    obtain rfl : p.code.length = k := Option.some.inj hl
    rw [placeOf, h.pieces.target, hlength, Piece.offset_length]
  | numbered n =>
    obtain ⟨i, hi, hlabel⟩ := placeOf_numbered_iff.1 hl
    obtain ⟨x, hx, rfl⟩ := h.exists_piece hi
    obtain ⟨i', hi', hlabel'⟩ := (h.replaces (List.mem_of_getElem? hx)).label _ hlabel
    exact placeOf_of_label (Piece.holds_offset h.pieces.target hx 0 i' hi') hlabel'

theorem goOn_offset (h : Round lib p q xs) {k next : Nat} {x : Piece} (hx : xs[k]? = some x)
    {jump : Option Label} (hnext : p.goOn (k + 1) jump = some next) :
    q.goOn (Piece.offset xs k + x.body.length) jump = some (Piece.offset xs next) := by
  cases jump with
  | none =>
    obtain rfl : k + 1 = next := Option.some.inj hnext
    rw [Piece.offset_succ hx]
    rfl
  | some l => exact h.placeOf_offset hnext

/-! ### Names -/

theorem not_fresh_source (h : Round lib p q xs) {x : Piece} (hx : x ∈ xs) {w : Variable}
    (hw : w ∈ x.source.referencedVariables) : ¬ x.supply.Fresh w :=
  h.pieces.not_fresh_source hx hw

/-- A variable after the round was there before it, or it is fresh. -/
theorem mem_vars_or_fresh (h : Round lib p q xs) {w : Variable} (hw : w ∈ q.vars) :
    w ∈ p.vars ∨ (Supply.ofCode p.code).Fresh w := by
  obtain ⟨i', hi', hw⟩ := mem_vars.1 hw
  obtain ⟨x, hx, hi'⟩ := h.mem_target.1 hi'
  rcases (h.replaces hx).mentions i' hi' w hw with hw | hw
  · exact .inl (mem_vars.2 ⟨x.source, h.source_mem hx, hw⟩)
  · exact .inr (h.pieces.chained.fresh hx hw)

/-- Every target after the round has a place, if every target before it has one. -/
theorem validate (h : Round lib p q xs) (hp : p.validate = .ok ()) : q.validate = .ok () := by
  rw [validate_eq_ok_iff] at hp ⊢
  intro i' hi' l hl
  obtain ⟨x, hx, hbody⟩ := h.mem_target.1 hi'
  rcases (h.replaces hx).targets i' hbody l hl with rfl | hl' | ⟨i'', hi'', hl''⟩
  · exact ⟨_, rfl⟩
  · obtain ⟨k, hk⟩ := hp x.source (h.source_mem hx) l hl'
    exact ⟨_, h.placeOf_offset hk⟩
  · cases l with
    | exit => exact ⟨_, rfl⟩
    | numbered n =>
      obtain ⟨k, hk⟩ := List.getElem?_of_mem (h.mem_target.2 ⟨x, hx, hi''⟩)
      exact ⟨k, placeOf_of_label hk hl''⟩

/-- No more inputs are needed after the round. -/
theorem requiredInputs_le (h : Round lib p q xs) : q.requiredInputs ≤ p.requiredInputs := by
  refine requiredInputs_le_iff.2 fun k hk => ?_
  rcases h.mem_vars_or_fresh hk with hk | ⟨j, hj⟩
  · exact lt_requiredInputs hk
  · cases hj

/-! ### Side by side -/

/-- A run of the program and a run after the round are at corresponding points. -/
structure Matches (p : Program) (xs : List Piece) (c c' : Config) : Prop where
  /-- The second one is at the block of the instruction that the first one is at. -/
  place : c'.place = Piece.offset xs c.place
  /-- All variables that are not fresh have the same values. -/
  values : ∀ w, ¬ (Supply.ofCode p.code).Fresh w → c'.env w = c.env w
  /-- All blocks can be run. -/
  clean : ∀ x ∈ xs, x.Clean c'.env

section Paths

variable {skip : Skip} {c c' : Config}

/-- The two runs stay side by side, while one instruction is executed and its block is run. The path
through the block is empty only if the next instruction comes after. -/
theorem Matches.step (h : Round lib p q xs) (hskip : skip.Harmless) (hc : Matches p xs c c')
    {i : Instruction} (hi : p.code[c.place]? = some i) {out : Outcome}
    (ho : i.operation.outcome (meaning skip lib c.env) c.env = .ok out) {next : Nat}
    (hnext : p.goOn (c.place + 1) out.jump = some next) :
    ∃ n cost d', Path (meaning skip lib) q n cost c' d' ∧ (n = 0 → out.jump = none) ∧
      Matches p xs ⟨next, out.apply c.env⟩ d' := by
  obtain ⟨x, hx, rfl⟩ := h.exists_piece hi
  obtain ⟨place, env'⟩ := c'
  obtain rfl : place = Piece.offset xs c.place := hc.place
  have hmem := List.mem_of_getElem? hx
  have hsource : ∀ w ∈ x.source.referencedVariables, ¬ (Supply.ofCode p.code).Fresh w := fun w hw =>
    Supply.not_fresh_ofCode (h.source_mem hmem) hw
  have hmentions : ∀ w, x.source.operation.Mentions w → ¬ (Supply.ofCode p.code).Fresh w :=
    fun w hw => hsource w (Instruction.mem_referencedVariables.2 (.inl hw))
  -- The two runs may differ in fresh variables, but the instruction mentions none.
  have ho' : x.source.operation.outcome (meaning skip lib env') env' = .ok out := by
    rw [← ho]
    exact Operation.outcome_congr (natural_meaning skip lib) _ fun w hw =>
      hc.values w (hmentions w hw)
  obtain ⟨env'', ⟨n, cost, hpath, hempty⟩, hclean, houtside⟩ :=
    path_block hskip (h.pieces.blockOf hmem) (Piece.holds_offset h.pieces.target hx)
      (fun w hw => h.not_fresh_source hmem hw) (hc.clean x hmem) ho' (h.goOn_offset hx hnext)
  refine ⟨n, cost, _, hpath, hempty, rfl, fun w hw => ?_, fun y hy => ?_⟩
  · have hout := houtside w fun howns => hw (h.pieces.chained.fresh hmem howns.fresh)
    exact hout.trans (out.apply_congr (hc.values w hw))
  · obtain ⟨k, hk⟩ := List.getElem?_of_mem hy
    by_cases hkc : k = c.place
    · subst hkc
      obtain rfl := Option.some.inj (hk.symm.trans hx)
      exact hclean
    · -- Another block relies on fresh variables that neither this block nor the instruction writes.
      refine (hc.clean y hy).congr (h.pieces.blockOf hy) fun w hw => ?_
      have hout := houtside w fun howns => hkc (h.pieces.chained.unique hk hx hw howns)
      refine hout.trans (out.apply_of_not_written fun n hwrite => ?_)
      exact hmentions w (.inl (Operation.subject?_eq_of_write ho hwrite))
        (h.pieces.chained.fresh hy hw.fresh)

/-- From a path of the program to a path after the round. -/
theorem Matches.path (h : Round lib p q xs) (hskip : skip.Harmless) (hc : Matches p xs c c')
    {n cost : Nat} {d : Config} (hpath : Path (meaning skip lib) p n cost c d) :
    ∃ n' cost' d', Path (meaning skip lib) q n' cost' c' d' ∧ Matches p xs d d' := by
  induction hpath generalizing c' with
  | refl c => exact ⟨0, 0, c', .refl c', hc⟩
  | head step _ ih =>
    obtain ⟨hi, ho, hnext⟩ := step
    obtain ⟨n₁, cost₁, d', hblock, -, hd⟩ := hc.step h hskip hi ho hnext
    obtain ⟨n₂, cost₂, e', hrest, he⟩ := ih hd
    exact ⟨_, _, e', hblock.trans hrest, he⟩

/-- Where the run after the round ends, the instruction of the program has an outcome. -/
theorem Matches.exists_outcome (h : Round lib p q xs) (hc : Matches p xs c c') {i : Instruction}
    (hi : p.code[c.place]? = some i) {n' cost' : Nat} {e' : Config}
    (hpath : Path (meaning Skip.unmentioned lib) q n' cost' c' e')
    (hend : q.code.length ≤ e'.place) :
    ∃ out, i.operation.outcome (meaning Skip.unmentioned lib c.env) c.env = .ok out := by
  obtain ⟨x, hx, rfl⟩ := h.exists_piece hi
  obtain ⟨place, env'⟩ := c'
  obtain rfl : place = Piece.offset xs c.place := hc.place
  have hmem := List.mem_of_getElem? hx
  obtain ⟨out, ho⟩ := Library.exists_outcome h.library (h.pieces.blockOf hmem)
    (Piece.holds_offset h.pieces.target hx) (fun w hw => h.not_fresh_source hmem hw) hpath hend
  refine ⟨out, ?_⟩
  rw [← ho]
  refine (Operation.outcome_congr (natural_meaning Skip.unmentioned lib) _ fun w hw => ?_).symm
  refine hc.values w (Supply.not_fresh_ofCode (h.source_mem hmem) ?_)
  exact Instruction.mem_referencedVariables.2 (.inl hw)

/-- Where the run after the round ends, the run of the program ends. -/
theorem Matches.ends (h : Round lib p q xs) (hp : p.validate = .ok ()) (hc : Matches p xs c c')
    {n' cost' : Nat} {e' : Config} (hpath : Path (meaning Skip.unmentioned lib) q n' cost' c' e')
    (hend : q.code.length ≤ e'.place) :
    ∃ n cost d, Path (meaning Skip.unmentioned lib) p n cost c d ∧ p.code.length ≤ d.place := by
  -- A block takes steps off the rest of the run, or it is empty and what is left of the program
  -- gets shorter.
  induction n' using Nat.strong_induction_on generalizing c c' cost' with
  | _ n' ihSteps =>
    obtain ⟨left, hleft⟩ : ∃ left, left = p.code.length - c.place := ⟨_, rfl⟩
    induction left using Nat.strong_induction_on generalizing c c' cost' with
    | _ left ihLeft =>
      rcases Nat.lt_or_ge c.place p.code.length with hlt | hge
      · have hi : p.code[c.place]? = some p.code[c.place] := List.getElem?_eq_getElem hlt
        obtain ⟨out, ho⟩ := hc.exists_outcome h hi hpath hend
        obtain ⟨next, hnext⟩ := exists_goOn hp (List.mem_of_getElem? hi) ho (c.place + 1)
        obtain ⟨n₁, cost₁, d', hblock, hempty, hd⟩ :=
          hc.step h Skip.harmless_unmentioned hi ho hnext
        obtain ⟨n₂, cost₂, rfl, -, hrest⟩ := hblock.resume hpath hend
        have hstep : Step (meaning Skip.unmentioned lib) p out.cycles c ⟨next, out.apply c.env⟩ :=
          .intro hi ho hnext
        obtain ⟨n, cost, e, htail, he⟩ : ∃ n cost e, Path (meaning Skip.unmentioned lib) p n cost
            ⟨next, out.apply c.env⟩ e ∧ p.code.length ≤ e.place := by
          rcases Nat.eq_zero_or_pos n₁ with rfl | hpos
          · rw [hempty rfl] at hnext
            obtain rfl : c.place + 1 = next := Option.some.inj hnext
            rw [Nat.zero_add] at ihSteps ihLeft
            exact ihLeft (p.code.length - (c.place + 1)) (by omega) hd hrest rfl
          · exact ihSteps n₂ (by omega) hd hrest
        exact ⟨n + 1, _, e, .head hstep htail, he⟩
      · exact ⟨0, 0, c, .refl c, hge⟩

end Paths

/-! ### Runs from the start -/

section Start

variable {skip : Skip} {inputs : List Nat}

/-- Before the first step all fresh variables are zero. -/
theorem matches_initial (p : Program) (xs : List Piece) (inputs : List Nat) :
    Matches p xs ⟨0, p.initial inputs⟩ ⟨0, p.initial inputs⟩ where
  place := rfl
  values _ _ := rfl
  clean _ _ _ _ _ _ := p.initial_work inputs _

/-- What the program after the round mentions starts with the same values in both programs. -/
theorem initial_eq (h : Round lib p q xs) {v : Variable} (hv : v ∈ q.copiedVariables) :
    q.initial inputs v = p.initial inputs v := by
  cases v with
  | result => rw [q.initial_result, p.initial_result]
  | work k => rw [q.initial_work, p.initial_work]
  | input k =>
    have hq : .input k ∈ q.vars := (mem_copiedVariables.1 hv).resolve_right nofun
    have hp : .input k ∈ p.vars := (h.mem_vars_or_fresh hq).resolve_right nofun
    rw [q.initial_input hq, p.initial_input hp]

theorem offset_end (h : Round lib p q xs) : Piece.offset xs p.code.length = q.code.length := by
  have hexit : p.placeOf .exit = some p.code.length := rfl
  exact (Option.some.inj (h.placeOf_offset hexit)).symm

/-- Where the program ends, it ends after the round, with the same values. -/
theorem path (h : Round lib p q xs) (hskip : skip.Harmless) {n cost : Nat} {d : Config}
    (hpath : Path (meaning skip lib) p n cost ⟨0, p.initial inputs⟩ d)
    (hend : p.code.length ≤ d.place) :
    ∃ n' cost' d', Path (meaning skip lib) q n' cost' ⟨0, q.initial inputs⟩ d' ∧
      q.code.length ≤ d'.place ∧
      ∀ v ∈ q.copiedVariables, ¬ (Supply.ofCode p.code).Fresh v → d'.env v = d.env v := by
  obtain ⟨n', cost', d', hpath', hd⟩ := (matches_initial p xs inputs).path h hskip hpath
  obtain ⟨env, hpath'', henv⟩ := hpath'.congr (natural_meaning skip lib) fun v hv => h.initial_eq hv
  refine ⟨n', cost', _, hpath'', ?_, fun v hv hfresh => ?_⟩
  · have hplace : d.place = p.code.length := le_antisymm (hpath.le (Nat.zero_le _)) hend
    change q.code.length ≤ d'.place
    rw [hd.place, hplace, h.offset_end]
  · exact (henv v hv).trans (hd.values v hfresh)

/-- Where the program after the round ends, the program ends. -/
theorem ends (h : Round lib p q xs) (hp : p.validate = .ok ()) {n' cost' : Nat} {d' : Config}
    (hpath : Path (meaning Skip.unmentioned lib) q n' cost' ⟨0, q.initial inputs⟩ d')
    (hend : q.code.length ≤ d'.place) :
    ∃ n cost d, Path (meaning Skip.unmentioned lib) p n cost ⟨0, p.initial inputs⟩ d ∧
      p.code.length ≤ d.place := by
  have hinitial : ∀ v ∈ q.copiedVariables, p.initial inputs v = q.initial inputs v := fun v hv =>
    (h.initial_eq hv).symm
  obtain ⟨env, hpath', -⟩ := hpath.congr (natural_meaning Skip.unmentioned lib) hinitial
  exact (matches_initial p xs inputs).ends h hp hpath' hend

end Start

end Round

end RegisterMachine
