import RegisterMachine.Proofs.CallAgreement
import RegisterMachine.Proofs.DegreeIndependence
import RegisterMachine.Proofs.Safety

/-!
# Expanded programs are well formed

Any number of rounds puts a block in the place of each line of a program. All lines of the block go
back to that line, and its first line has the label of that line. So each label of the program is
declared once after the rounds, where it was declared before them.

Rounds may fail for an argument that cannot be given to a parameter. Apart from that they fail only
where a call enters a program with an instruction that is labelled `EXIT`, since two lines of the
block of the call get the same label then, and where there are no names left for a block that are
not too long to be written.

* `Line.Descend` — lines and what rounds make of them;
* `Library.cause_of_expandRounds` — why rounds fail;
* `Library.expand_wellFormed` — programs of a library without `EXIT` labels;
* `Workbench.expand_accepted` — programs of any workbench.
-/

namespace RegisterMachine

/-! ### Lines and their blocks -/

namespace Line

/-- The instruction that a line goes back to. -/
def origin (line : Line) : Instruction :=
  line.ancestry.getLast?.getD line.instruction

/-- What was made for a line goes back to where the line goes back to, wherever it was copied from.
-/
theorem origin_derive (line made : Line) : (line.derive made).origin = line.origin := by
  rw [origin, derive, List.getLast?_cons]
  rfl

/-- The lines have come to stand in the place of a line: all of them go back to where it goes back
to, and the first one has its label. -/
structure Becomes (line : Line) (block : List Line) : Prop where
  /-- The lines go back to the same instruction. -/
  origin : ∀ line' ∈ block, line'.origin = line.origin
  /-- A label stands on the first one of the lines. -/
  label : ∀ l, line.instruction.label = some l →
    ∃ line', block.head? = some line' ∧ line'.instruction.label = some l

theorem Becomes.self (line : Line) : line.Becomes [line] where
  origin _ hline' := congrArg Line.origin (List.mem_singleton.1 hline')
  label _ hl := ⟨line, rfl, hl⟩

/-- Lines, and the lines that have come to stand in their places. -/
inductive Descend : List Line → List Line → Prop
  | nil : Descend [] []
  | cons {line : Line} {block lines lines' : List Line} (head : line.Becomes block)
    (tail : Descend lines lines') : Descend (line :: lines) (block ++ lines')

variable {line : Line} {block block' lines lines' lines'' : List Line}

theorem Descend.refl (lines : List Line) : Descend lines lines := by
  induction lines with
  | nil => exact .nil
  | cons line lines ih => exact .cons (.self line) ih

/-- What stands in the place of two lists of lines is in two parts. -/
theorem Descend.of_append (h : Descend (lines ++ lines') lines'') :
    ∃ below below', lines'' = below ++ below' ∧ Descend lines below ∧ Descend lines' below' := by
  induction lines generalizing lines'' with
  | nil => exact ⟨[], lines'', rfl, .nil, h⟩
  | cons line lines ih =>
    cases h with
    | cons head tail =>
      obtain ⟨below, below', rfl, hbelow, hbelow'⟩ := ih tail
      exact ⟨_, below', (List.append_assoc _ _ _).symm, .cons head hbelow, hbelow'⟩

/-- Every line goes back to where the line goes back to in whose place it stands. -/
theorem Descend.exists_origin (h : Descend lines lines') :
    ∀ line' ∈ lines', ∃ line ∈ lines, line'.origin = line.origin := by
  induction h with
  | nil => exact List.forall_mem_nil _
  | cons head _ ih =>
    intro line' hline'
    rcases List.mem_append.1 hline' with hline' | hline'
    · exact ⟨_, List.mem_cons_self, head.origin line' hline'⟩
    · obtain ⟨line, hline, horigin⟩ := ih line' hline'
      exact ⟨line, List.mem_cons_of_mem _ hline, horigin⟩

/-- The label of a line still stands on some line. -/
theorem Descend.exists_label (h : Descend lines lines') {l : Label} :
    ∀ line ∈ lines, line.instruction.label = some l →
      ∃ line' ∈ lines', line'.instruction.label = some l := by
  induction h with
  | nil => exact List.forall_mem_nil _
  | cons head _ ih =>
    intro line hline hl
    rcases List.mem_cons.1 hline with rfl | hline
    · obtain ⟨line', hhead, hl'⟩ := head.label l hl
      exact ⟨line', List.mem_append_left _ (List.mem_of_mem_head? hhead), hl'⟩
    · obtain ⟨line', hline', hl'⟩ := ih line hline hl
      exact ⟨line', List.mem_append_right _ hline', hl'⟩

theorem Becomes.trans (h : line.Becomes block) (h' : Descend block block') :
    line.Becomes block' where
  origin line'' hline'' := by
    obtain ⟨line', hline', horigin⟩ := h'.exists_origin line'' hline''
    exact horigin.trans (h.origin line' hline')
  label l hl := by
    obtain ⟨line', hhead, hl'⟩ := h.label l hl
    cases h' with
    | nil => cases hhead
    | cons head tail =>
      obtain rfl := Option.some.inj hhead
      obtain ⟨line'', hhead', hl''⟩ := head.label l hl'
      exact ⟨line'', by rw [List.head?_append, hhead']; rfl, hl''⟩

theorem Descend.trans (h : Descend lines lines') (h' : Descend lines' lines'') :
    Descend lines lines'' := by
  induction h generalizing lines'' with
  | nil => exact h'
  | cons head _ ih =>
    obtain ⟨below, below', rfl, hblock, htail⟩ := h'.of_append
    exact .cons (head.trans hblock) (ih htail)

/-- The blocks that stand in the places of lines, one by one. -/
theorem Descend.exists_blocks (h : Descend lines lines') :
    ∃ blocks, lines' = blocks.flatten ∧ List.Forall₂ Becomes lines blocks := by
  induction h with
  | nil => exact ⟨[], rfl, .nil⟩
  | cons head _ ih =>
    obtain ⟨blocks, rfl, hblocks⟩ := ih
    exact ⟨_ :: blocks, rfl, .cons head hblocks⟩

end Line

open Line (Descend)

/-! ### Rounds -/

namespace Library

variable {lib : Library} {e e' : Expansion} {n : Nat} {cause : Error}

/-- A round puts a block in the place of each line. -/
theorem descend_expandLines (hlib : lib.validate = .ok ()) {s : Supply} {lines lines' : List Line}
    (h : lib.expandLines s lines = .ok lines') : Descend lines lines' := by
  induction lines generalizing s lines' with
  | nil =>
    obtain rfl := Except.ok.inj h
    exact .nil
  | cons line lines ih =>
    rw [expandLines] at h
    split at h
    · obtain ⟨rest, hrest, h⟩ := Bounded.bind_eq_ok.1 h
      obtain rfl := Except.ok.inj h
      exact .cons (.self line) (ih hrest)
    · obtain ⟨block, hblock, h⟩ := Bounded.bind_eq_ok.1 h
      obtain ⟨rest, hrest, h⟩ := Bounded.bind_eq_ok.1 h
      obtain rfl := Except.ok.inj h
      refine .cons ⟨fun line' hline' => ?_, fun l hl => ?_⟩ (ih hrest)
      · obtain ⟨made, -, rfl⟩ := List.mem_map.1 hline'
        exact line.origin_derive made
      · obtain ⟨i, hi, hlabel⟩ := (replaces_block hlib (block_eq_ok_iff.1 hblock).1 s).label l hl
        rw [Block.body, List.getElem?_map] at hi
        obtain ⟨made, hmade, rfl⟩ := Option.map_eq_some_iff.1 hi
        refine ⟨line.derive made, ?_, hlabel⟩
        rw [List.head?_map, List.head?_eq_getElem?, hmade]
        rfl

/-- Any number of rounds puts a block in the place of each line. -/
theorem descend_expandRounds (hlib : lib.validate = .ok ()) (h : lib.expandRounds n e = .ok e') :
    Descend e.lines e'.lines :=
  expandRounds_induction (P := fun e₁ => Descend e.lines e₁.lines)
    (fun _ _ hround he => he.trans (descend_expandLines hlib (round_eq_ok_iff.1 hround).2)) h
    (.refl e.lines)

/-! ### Why rounds fail -/

theorem cause_of_binding {function : String} {a : Argument}
    (h : lib.binding function a = .error cause) : cause.OfArgument := by
  cases a with
  | constant value =>
    rw [binding] at h
    split at h
    · obtain rfl := Except.error.inj h
      exact .negative value function
    · cases h
  | name text =>
    rcases htext : Variable.ofName? text with _ | v
    · rw [binding, htext] at h
      by_cases hcontains : lib.contains text = true
      · simp [bareCall, hcontains] at h
      · simp only [bareCall, hcontains] at h
        obtain rfl := Except.error.inj h
        exact .unknown text
    · rw [binding, htext] at h
      cases h
  | call function' arguments => cases h

theorem cause_of_bindings {callee : Program} {k : Nat} {as : List Argument}
    (h : lib.bindings callee k as = .error cause) : cause.OfArgument := by
  induction as generalizing k with
  | nil => cases h
  | cons a as ih =>
    rw [bindings] at h
    split at h
    · rcases hb : lib.binding callee.name a with cause' | b
      · rw [hb] at h
        obtain rfl := Except.error.inj h
        exact cause_of_binding hb
      · rw [hb] at h
        exact ih (Bounded.bind_pure_eq_error.1 h)
    · exact ih h

/-- Where all calls are resolved, they fail for an argument only. -/
theorem CallFails.ofArgument {i : Instruction} (hi : lib.Resolved i.operation)
    (h : lib.CallFails i cause) : cause.OfArgument := by
  obtain ⟨call, hcall, hget | ⟨entry, -, hbound⟩⟩ := h
  · obtain ⟨callee, hfind⟩ := Option.isSome_iff_exists.1 (hi call hcall).function
    obtain ⟨entry, hentry, -⟩ := exists_findExpansion? hfind
    cases hget.symm.trans (getExpansion_eq_ok.2 hentry)
  · exact cause_of_bindings hbound

/-- Rounds fail for an argument, or where names run out, or where a call enters a program with an
`EXIT` label. -/
theorem cause_of_expandRounds (hlib : lib.validate = .ok ())
    (he : ∀ i ∈ e.code, lib.Resolved i.operation) (h : lib.expandRounds n e = .error cause) :
    cause.OfArgument ∨
      ∃ k < n, ∃ e', lib.expandRounds k e = .ok e' ∧
        ((cause = .numeral .tooLong ∧ lib.RunsOut (.ofCode e'.code) e'.code) ∨
          (∃ l first second, cause = .duplicateLabel l first second e.name) ∧
            ∃ i ∈ e'.code, lib.EntersExit i.operation) := by
  induction n generalizing e with
  | zero => cases h
  | succ n ih =>
    rw [expandRounds] at h
    split at h
    · cases h
    · rename_i hbasic
      rcases hround : lib.round e with cause' | e₁
      · rw [hround] at h
        obtain rfl := Except.error.inj h
        rcases cause_of_round hround with hout | ⟨i, hi, hfails⟩ | hexit
        · exact .inr ⟨0, Nat.succ_pos n, e, rfl, .inl hout⟩
        · exact .inl (hfails.ofArgument (he i hi))
        · exact .inr ⟨0, Nat.succ_pos n, e, rfl, .inr hexit⟩
      · rw [hround] at h
        have he₁ : ∀ i ∈ e₁.code, lib.Resolved i.operation :=
          resolved_expandRounds hlib (n := 1) (expandRounds_succ.2
            (.inr ⟨Bool.eq_false_iff.2 hbasic, e₁, hround, rfl⟩)) he
        have hname : e₁.name = e.name := (round_eq_ok_iff.1 hround).1
        have hrest := ih he₁ h
        rw [hname] at hrest
        refine hrest.imp_right ?_
        rintro ⟨k, hk, e', he', hcause⟩
        exact ⟨k + 1, Nat.succ_lt_succ hk, e', expandRounds_succ.2
          (.inr ⟨Bool.eq_false_iff.2 hbasic, e₁, hround, he'⟩), hcause⟩

/-! ### Expanded programs -/

section Program

variable {p : Program}

/-- The lines of an expanded program, block by block. -/
theorem exists_blocks_of_expand (hlib : lib.validate = .ok ()) {degree : Int}
    (h : lib.expand p degree = .ok e) :
    ∃ blocks, e.lines = blocks.flatten ∧ List.Forall₂ (fun i block =>
      (∀ line ∈ block, line.origin = i) ∧ ∀ l, i.label = some l →
        ∃ line, block.head? = some line ∧ line.instruction.label = some l) p.code blocks := by
  obtain ⟨blocks, hlines, hblocks⟩ :=
    (descend_expandRounds hlib (expand_eq_ok_iff.1 h).2).exists_blocks
  refine ⟨blocks, hlines, ?_⟩
  have hinitial := List.forall₂_map_left_iff.1 hblocks
  exact hinitial.imp fun i block hblock => ⟨hblock.origin, hblock.label⟩

/-- The labels of a program are declared once after any number of rounds. -/
theorem count_labels_of_expand (hlib : lib.validate = .ok ()) {degree : Int}
    (h : lib.expand p degree = .ok e) : ∀ l ∈ p.labels, e.program.labels.count l = 1 := by
  intro l hl
  obtain ⟨i, hi, hd⟩ := List.mem_filterMap.1 hl
  obtain ⟨hlabel, hnumbered⟩ := Program.declared?_eq_some.1 hd
  obtain ⟨line, hline, hlabel'⟩ := (descend_expandRounds hlib (expand_eq_ok_iff.1 h).2).exists_label
    (.initial i) (List.mem_map_of_mem hi) hlabel
  refine List.count_eq_one_of_mem e.nodup_labels (List.mem_filterMap.2 ⟨line.instruction, ?_, ?_⟩)
  · exact List.mem_map_of_mem hline
  · exact Program.declared?_eq_some.2 ⟨hlabel', hnumbered⟩

/-- No call entered a program with an `EXIT` label and names did not run out, if the rounds after it
succeeded. -/
theorem exists_round_of_expand {degree k : Nat} (hk : k < degree) (h : lib.expand p degree = .ok e)
    (h' : lib.expand p (k : Nat) = .ok e') : ∃ e₁, lib.round e' = .ok e₁ :=
  exists_round_of_expandRounds hk (expand_eq_ok_iff.1 h).2 (expand_eq_ok_iff.1 h').2

theorem validate_of_expand (hlib : lib.validate = .ok ()) (hp : p ∈ lib.programs) {degree : Int}
    (h : lib.expand p degree = .ok e) : e.program.validate = .ok () := by
  refine validate_expandRounds hlib (expand_eq_ok_iff.1 h).2 ?_
  rw [program_ofProgram]
  exact validate_of_mem hlib hp

/-- Expansion fails for an argument, or where names run out, or where a call enters a program with
an `EXIT` label. -/
theorem cause_of_expand (hlib : lib.validate = .ok ()) (hp : p ∈ lib.programs) {degree : Nat}
    (h : lib.expand p degree = .error cause) :
    cause.OfArgument ∨
      ∃ k < degree, ∃ e, lib.expand p (k : Nat) = .ok e ∧
        ((cause = .numeral .tooLong ∧ lib.RunsOut (.ofCode e.code) e.code) ∨
          (∃ l first second, cause = .duplicateLabel l first second p.name) ∧
            ∃ i ∈ e.code, lib.EntersExit i.operation) := by
  have hresolved : ∀ i ∈ (Expansion.ofProgram p).code, lib.Resolved i.operation := fun i hi =>
    resolved_of_mem hlib hp (code_ofProgram p ▸ hi)
  have hrounds : lib.expandRounds degree (.ofProgram p) = .error cause := by
    rw [expand, expandFrom, if_neg (Int.not_lt.2 (Int.natCast_nonneg degree))] at h
    exact h
  refine (cause_of_expandRounds hlib hresolved hrounds).imp_right ?_
  rintro ⟨k, hk, e, he, hcause⟩
  exact ⟨k, hk, e, expand_eq_ok_iff.2 ⟨Int.natCast_nonneg k, he⟩, hcause⟩

/-- In a library without `EXIT` labels, a program expanded to a degree passes its check, and each
label of the program is declared in it once. The expanded program has a block for each instruction,
whose lines all go back to the instruction and of which the first one has its label. Expansion fails
only for an argument that cannot be given to a parameter, and where a round comes to an instruction
for whose block there are no names that are short enough to be written. -/
theorem expand_wellFormed (hlib : lib.validate = .ok ())
    (hlabels : ∀ q ∈ lib.programs, ∀ i ∈ q.code, i.label ≠ some .exit) (hp : p ∈ lib.programs)
    (degree : Nat) :
    (∃ cause, lib.expand p degree = .error cause ∧ cause.OfArgument) ∨
    (lib.expand p degree = .error (.numeral .tooLong) ∧
      ∃ k < degree, ∃ e, lib.expand p (k : Nat) = .ok e ∧ lib.RunsOut (.ofCode e.code) e.code) ∨
    ∃ e, lib.expand p degree = .ok e ∧ e.program.validate = .ok () ∧
      (∀ l ∈ p.labels, e.program.labels.count l = 1) ∧
      ∃ blocks, e.lines = blocks.flatten ∧ List.Forall₂ (fun i block =>
        (∀ line ∈ block, line.origin = i) ∧ ∀ l, i.label = some l →
          ∃ line, block.head? = some line ∧ line.instruction.label = some l) p.code blocks := by
  rcases he : lib.expand p degree with cause | e
  · rcases cause_of_expand hlib hp he with hcause | ⟨k, hk, e, hk', ⟨rfl, hout⟩ | ⟨-, hexit⟩⟩
    · exact .inl ⟨cause, rfl, hcause⟩
    · exact .inr (.inl ⟨rfl, k, hk, e, hk', hout⟩)
    · obtain ⟨i, -, call, callee, -, hfind, j, hj, hlabel⟩ := hexit
      exact absurd hlabel (hlabels callee (mem_of_find? hfind) j hj)
  · exact .inr (.inr ⟨e, rfl, validate_of_expand hlib hp he, count_labels_of_expand hlib he,
      exists_blocks_of_expand hlib he⟩)

end Program

/-- A program that starts over as long as a call gives something else than its input. -/
def echoLoop : Program where
  name := "LOOP"
  code := [.plain (some (.numbered 0)) (.quotation .result ⟨"ECHO", [.name "x1"]⟩),
    .plain (some (.numbered 4)) (.jumpEqualVariable .result (.input 0) .exit),
    .plain none (.gotoLabel (.numbered 0))]
  nodup_labels := by decide

/-- A library of the program and the one that it calls. -/
def echoLoopLibrary : Library :=
  ⟨[.ofProgram echoLoop, .ofProgram echo], by decide⟩

theorem echoLoop_expand_wellFormed :
    echoLoopLibrary.validate = .ok () ∧ echoLoop ∈ echoLoopLibrary.programs ∧
    (∀ q ∈ echoLoopLibrary.programs, ∀ i ∈ q.code, i.label ≠ some .exit) ∧
    ∃ e, echoLoopLibrary.expand echoLoop 2 = .ok e ∧ e.program.validate = .ok () ∧
      e.program.labels.count (.numbered 0) = 1 ∧ e.program.labels.count (.numbered 4) = 1 := by
  have hlib : echoLoopLibrary.validate = .ok () := rfl
  have hmem : echoLoop ∈ echoLoopLibrary.programs := List.mem_cons_self
  have hlabels : ∀ q ∈ echoLoopLibrary.programs, ∀ i ∈ q.code, i.label ≠ some .exit := by decide
  obtain ⟨e, he⟩ : ∃ e, echoLoopLibrary.expand echoLoop 2 = .ok e := ⟨_, rfl⟩
  refine ⟨hlib, hmem, hlabels, ?_⟩
  rcases expand_wellFormed hlib hlabels hmem 2 with
    ⟨cause, hcause, -⟩ | ⟨hlong, -⟩ | ⟨e, he, hvalid, hcount, -⟩
  · cases he.symm.trans hcause
  · cases he.symm.trans hlong
  · exact ⟨e, he, hvalid, hcount _ (by decide), hcount _ (by decide)⟩

/-- The operation that clears an input, under the last label that can be written. -/
def clearAtLastLabel : Instruction :=
  .plain (some (.numbered (10 ^ Text.maxDigits - 2))) (.zeroVariable (.input 0))

/-- A program of this instruction alone. -/
def lastLabel : Program where
  name := "LAST"
  code := [clearAtLastLabel]
  nodup_labels := List.nodup_singleton _

/-- A library of the program. -/
def lastLabelLibrary : Library :=
  ⟨[.ofProgram lastLabel], by decide⟩

/-- A program without calls may not be expanded: there is no label left for the block of its
instruction. -/
theorem lastLabel_expand_tooLong :
    lastLabelLibrary.validate = .ok () ∧ lastLabel ∈ lastLabelLibrary.programs ∧
      (∀ q ∈ lastLabelLibrary.programs, ∀ i ∈ q.code, i.label ≠ some .exit) ∧
      ∃ cause, lastLabelLibrary.expand lastLabel 1 = .error cause ∧ ¬ cause.OfArgument := by
  have hfirst : (Supply.ofCode lastLabel.code).freshLabel 0 =
      .numbered (10 ^ Text.maxDigits - 1) := by decide +kernel
  have hblock : lastLabelLibrary.block (.ofCode lastLabel.code) clearAtLastLabel =
      .error (.numeral .tooLong) :=
    Block.drawn_eq_tooLong (.zeroVariable _ _) Nat.one_pos (hfirst ▸ Text.not_short_succ)
  have hlines : lastLabelLibrary.expandLines (.ofCode lastLabel.code) [.initial clearAtLastLabel] =
      .error (.numeral .tooLong) := Bounded.bind_eq_error.2 (.inl hblock)
  have hround : lastLabelLibrary.round (.ofProgram lastLabel) = .error (.numeral .tooLong) :=
    Bounded.bind_eq_error.2 (.inl hlines)
  exact ⟨validate_iff.2 ⟨by decide +kernel, rfl, by decide +kernel⟩, List.mem_singleton.2 rfl,
    by decide +kernel, .numeral .tooLong, Bounded.bind_eq_error.2 (.inl hround), nofun⟩

end Library

/-! ### Accepted programs -/

namespace Workbench

open Library

variable {w : Workbench} {name : Option String} {p : Program}

/-- A program of a workbench can be expanded to any degree, and then passes its check, with three
exceptions: an argument that cannot be given to a parameter, a block for which there are no names
that are short enough to be written, and a call that enters a program with an instruction that is
labelled `EXIT`, in the program itself or after some of the rounds. The last one gives two
instructions one label, so the rounds do not get past such a call. -/
theorem expand_accepted (hp : w.program name = .ok p) (degree : Nat) :
    (∃ e, w.expand degree name = .ok e ∧ e.program.validate = .ok () ∧
      ∀ k < degree, ∀ e', w.expand (k : Nat) name = .ok e' →
        ¬ w.library.RunsOut (.ofCode e'.code) e'.code ∧
        ∀ i ∈ e'.code, ¬ w.library.EntersExit i.operation) ∨
    (∃ cause, w.expand degree name = .error cause ∧ cause.OfArgument) ∨
    (w.expand degree name = .error (.numeral .tooLong) ∧
      ∃ k < degree, ∃ e', w.expand (k : Nat) name = .ok e' ∧
        w.library.RunsOut (.ofCode e'.code) e'.code) ∨
    ((∃ l first second, w.expand degree name = .error (.duplicateLabel l first second p.name)) ∧
      ∃ k < degree, ∃ e', w.expand (k : Nat) name = .ok e' ∧
        ∃ i ∈ e'.code, w.library.EntersExit i.operation) := by
  have hexpand : ∀ d, w.expand d name = w.library.expand p d := fun d => by
    rw [expand, hp]
    rfl
  have hmem := mem_of_program hp
  simp only [hexpand]
  rcases he : w.library.expand p degree with cause | e
  · right
    rcases cause_of_expand w.valid hmem he with
      hcause | ⟨k, hk, e', he', ⟨rfl, hout⟩ | ⟨⟨l, first, second, rfl⟩, hexit⟩⟩
    · exact .inl ⟨cause, rfl, hcause⟩
    · exact .inr (.inl ⟨rfl, k, hk, e', he', hout⟩)
    · exact .inr (.inr ⟨⟨l, first, second, rfl⟩, k, hk, e', he', hexit⟩)
  · refine .inl ⟨e, rfl, validate_of_expand w.valid hmem he, fun k hk e' he' => ?_⟩
    obtain ⟨e₁, hround⟩ := exists_round_of_expand hk he he'
    exact ⟨not_runsOut_of_round hround, not_entersExit_of_round hround⟩

/-- A program whose only instruction is labelled `EXIT`. -/
def stop : Program where
  name := "STOP"
  code := [.plain (some .exit) (.increase .result)]
  nodup_labels := List.nodup_nil

/-- A program that calls it. -/
def callStop : Program where
  name := "MAIN"
  code := [.plain none (.quotation .result ⟨"STOP", []⟩)]
  nodup_labels := List.nodup_nil

/-- A workbench for it. -/
def stopWorkbench : Workbench :=
  ⟨"MAIN", ⟨[.ofProgram callStop, .ofProgram stop], by decide⟩, false, rfl⟩

theorem stop_expand_accepted :
    stopWorkbench.program none = .ok callStop ∧
    ∃ k < 1, ∃ e, stopWorkbench.expand (k : Nat) none = .ok e ∧
      ∃ i ∈ e.code, stopWorkbench.library.EntersExit i.operation := by
  have hp : stopWorkbench.program none = .ok callStop := rfl
  have hfails : stopWorkbench.expand 1 none =
      .error (.duplicateLabel (.numbered 0) 1 2 "MAIN") := rfl
  rcases expand_accepted hp 1 with ⟨e, he, -⟩ | ⟨cause, hcause, harg⟩ | ⟨hlong, -⟩ | ⟨-, hexit⟩
  · cases hfails.symm.trans he
  · obtain rfl := Except.error.inj (hfails.symm.trans hcause)
    cases harg
  · cases hfails.symm.trans hlong
  · exact ⟨hp, hexit⟩

/-- Not every accepted program can be expanded, even if it can be run. -/
theorem not_expand_of_accepted :
    ¬ ∀ (w : Workbench) (name : Option String) (p : Program) (degree : Nat),
      w.program name = .ok p → (∃ fuel r, w.run fuel [] 0 name none = .ok r) →
      ∀ l first second, w.expand degree name ≠ .error (.duplicateLabel l first second p.name) := by
  intro h
  have hruns : ∃ fuel r, stopWorkbench.run fuel [] 0 none none = .ok r := ⟨3, _, rfl⟩
  exact h stopWorkbench none callStop 1 rfl hruns (.numbered 0) 1 2 rfl

end Workbench

end RegisterMachine
