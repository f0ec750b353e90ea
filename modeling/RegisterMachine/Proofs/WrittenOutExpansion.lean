import RegisterMachine.Proofs.CallStack
import RegisterMachine.Proofs.Termination
import RegisterMachine.Proofs.WrittenOutRun

/-!
# Expansion of programs with names written out

Inlining turns a bare name into the call that it stands for before it gives it to a parameter, and
the formula for degrees counts the one as the other. So every round puts a block in the place of an
instruction that is the block of the instruction with names written out, again with names written
out in the calls that are left. Once all calls are gone, no difference is left at all.

* `Library.WrittenOut.block` — blocks;
* `Library.WrittenOut.expandRounds`, `Library.WrittenOut.maxDegree_eq` — rounds, and how many of
  them it takes;
* `Library.WrittenOut.instructionDegree_eq` — the degree of an instruction, by the formula;
* `Library.bareNames_stand_for_calls` — a bare name is a call without arguments everywhere.
-/

namespace RegisterMachine

variable {lib lib' : Library}

/-! ### What parameters are given -/

/-- The second binding is the first one with names written out, if it is a call. -/
inductive Binding.WrittenOut (lib : Library) : Binding → Binding → Prop
  | same (b : Binding) : WrittenOut lib b b
  | call {c c' : Call} (call : c.WrittenOut lib c') : WrittenOut lib (.call c) (.call c')

/-- The instruction that hands over an argument is written out where the argument is. -/
theorem Binding.WrittenOut.operation {b b' : Binding} (h : b.WrittenOut lib b') (v : Variable) :
    (b.operation v).WrittenOut lib (b'.operation v) := by
  cases h with
  | same => exact .same _
  | call hcall => exact .quotation v hcall

theorem Argument.ListWrittenOut.take : ∀ {as bs : List Argument}, ListWrittenOut lib as bs →
    ∀ n, ListWrittenOut lib (as.take n) (bs.take n)
  | _, _, _, 0 => .nil
  | _, _, .nil, _ + 1 => .nil
  | _, _, .cons hhead htail, n + 1 => .cons hhead (htail.take n)

namespace Library

/-- A bare name gives a parameter the call that it stands for. -/
theorem WrittenOut.binding (h : lib.WrittenOut lib') (function : String) {a b : Argument}
    (hab : a.WrittenOut lib b) :
    Agree (Binding.WrittenOut lib) (lib.binding function a) (lib'.binding function b) := by
  cases hab with
  | constant value =>
    rw [Library.binding, Library.binding]
    split
    · exact .error _
    · exact .ok (.same _)
  | name text =>
    rw [Library.binding, Library.binding, bareCall, bareCall, h.contains_eq]
    cases Variable.ofName? text with
    | some v => exact .ok (.same _)
    | none =>
      cases lib.contains text with
      | true => exact .ok (.same _)
      | false => exact .error _
  | @bare text hvariable hfound =>
    rw [Library.binding, Library.binding, bareCall,
      Argument.ofName?_of_isName_eq_false hvariable, if_pos hfound]
    exact .ok (.same _)
  | call harguments =>
    rw [Library.binding, Library.binding]
    exact .ok (.call ⟨rfl, harguments⟩)

/-- The second parameter is the first one, and what it is given has names written out. -/
def ParameterWrittenOut (lib : Library) (x x' : Variable × Binding) : Prop :=
  x'.1 = x.1 ∧ x.2.WrittenOut lib x'.2

/-- All parameters are given arguments that are written out, or the same argument cannot be given in
both libraries. -/
theorem WrittenOut.bindings (h : lib.WrittenOut lib') {callee callee' : Program}
    (hcallee : callee.WrittenOut lib callee') {as bs : List Argument} (k : Nat)
    (hlist : Argument.ListWrittenOut lib as bs) :
    Agree (List.Forall₂ lib.ParameterWrittenOut) (lib.bindings callee k as)
      (lib'.bindings callee' k bs) := by
  induction as generalizing bs k with
  | nil =>
    cases hlist with
    | nil => exact .ok .nil
  | cons a as ih =>
    cases hlist with
    | cons hhead htail =>
      rw [Library.bindings, Library.bindings, hcallee.vars_eq, hcallee.name_eq]
      have hlater := ih (k + 1) htail
      split
      · refine (h.binding callee.name hhead).bind fun b b' hb => ?_
        exact hlater.bind fun bs bs' hbs => .ok (.cons ⟨rfl, hb⟩ hbs)
      · exact hlater

end Library

/-! ### Blocks -/

namespace Program

variable {p p' : Program}

/-- The copies of a program have the same variables. -/
theorem WrittenOut.copiedVariables_eq (h : p.WrittenOut lib p') :
    p'.copiedVariables = p.copiedVariables := by
  rw [copiedVariables, copiedVariables, h.vars_eq]

theorem WrittenOut.mentionedLabels_eq (h : p.WrittenOut lib p') :
    p'.mentionedLabels = p.mentionedLabels := by
  rw [mentionedLabels, mentionedLabels]
  congr 1
  exact flatMap_eq_of_forall₂ (fun i i' hi => by rw [hi.label_eq, hi.target_eq]) h.code

/-- The same fresh variables stand in the place of the variables of both programs. -/
theorem WrittenOut.copyVariable_eq (h : p.WrittenOut lib p') :
    p'.copyVariable = p.copyVariable := by
  funext s v
  rw [copyVariable, copyVariable, h.copiedVariables_eq]

/-- The same fresh labels stand in the place of the labels of both programs. -/
theorem WrittenOut.copyLabel_eq (h : p.WrittenOut lib p') : p'.copyLabel = p.copyLabel := by
  funext s l
  cases l with
  | exit => rfl
  | numbered n => rw [copyLabel, copyLabel, h.mentionedLabels_eq]

theorem WrittenOut.copyResult_eq (h : p.WrittenOut lib p') : p'.copyResult = p.copyResult := by
  funext s
  rw [copyResult, copyResult, h.copyVariable_eq]

/-- The copy of a program with names written out is the copy of the program, with names written
out. -/
theorem WrittenOut.copy (h : p.WrittenOut lib p') (s : Supply) :
    List.Forall₂ (Instruction.WrittenOut lib) (p.copy s) (p'.copy s) := by
  rw [Program.copy, Program.copy, h.copyVariable_eq, h.copyLabel_eq]
  refine List.forall₂_map_left_iff.2 (List.forall₂_map_right_iff.2 ?_)
  exact h.code.imp fun i i' hi => hi.rename _ _

end Program

/-- The second block is the first one with names written out, over any names. -/
structure Block.WrittenOut (lib : Library) (block block' : Block) : Prop where
  /-- As many variables are fresh. -/
  variableCount_eq : block'.variableCount = block.variableCount
  /-- As many labels are fresh. -/
  labelCount_eq : block'.labelCount = block.labelCount
  /-- Names in the calls of the instructions are written out. -/
  body : ∀ s, List.Forall₂ (Instruction.WrittenOut lib) (block.body s) (block'.body s)

theorem Block.WrittenOut.refl (block : Block) : block.WrittenOut lib block :=
  ⟨rfl, rfl, fun _ => List.forall₂_same.2 fun i _ => .refl i⟩

/-- The blocks of a call are written out where the called programs and the arguments are. -/
theorem Block.WrittenOut.inlining (label : Option Label) (v : Variable) {e e' : Expansion}
    (he : e.program.WrittenOut lib e'.program) {bound bound' : List (Variable × Binding)}
    (hbound : List.Forall₂ lib.ParameterWrittenOut bound bound') (finish : Variable → Operation) :
    (Block.inlining label v e bound finish).WrittenOut lib
      (Block.inlining label v e' bound' finish) where
  variableCount_eq := congrArg List.length he.copiedVariables_eq
  labelCount_eq := congrArg (fun ls : List Label => ls.length + 1) he.mentionedLabels_eq
  body s := by
    have hparameters : bound'.map Prod.fst = bound.map Prod.fst :=
      map_eq_of_forall₂ (fun _ _ hx => hx.1) hbound
    have hunsupplied : unsupplied e'.program bound' = unsupplied e.program bound := by
      rw [unsupplied, unsupplied, he.copiedVariables_eq, hparameters]
    have hfresh : e'.program.freshFor s = e.program.freshFor s := by
      funext u
      rw [Program.freshFor, Program.freshFor, he.copyVariable_eq]
    have hsame : ∀ code : List Instruction, List.Forall₂ (Instruction.WrittenOut lib) code code :=
      fun code => List.forall₂_same.2 fun i _ => .refl i
    rw [body_inlining, body_inlining, he.copyResult_eq, writes, writes, hunsupplied, hfresh,
      List.map_append, List.map_append]
    refine List.rel_append (List.rel_append (hsame _) (List.rel_append ?_ (hsame _)))
      (List.rel_append (he.copy s) (hsame _))
    simp only [List.forall₂_map_left_iff, List.forall₂_map_right_iff]
    refine hbound.imp fun x x' hx => ?_
    rw [hx.1]
    exact .plain none (hx.2.operation _)

namespace Library

/-- The fresh variables that are written in the arguments of a copy are the same, so they are too
long in both. -/
theorem WrittenOut.writeCopy_eq {p p' : Program} (h : p.WrittenOut lib p') (s : Supply) :
    p'.writeCopy s = p.writeCopy s := by
  have hoverlong : (p'.copy s).any Instruction.hasOverlongName =
      (p.copy s).any Instruction.hasOverlongName := by
    have hcopy := h.copy s
    generalize p.copy s = code, p'.copy s = code' at hcopy ⊢
    induction hcopy with
    | nil => rfl
    | cons hi _ ih => rw [List.any_cons, List.any_cons, hi.hasOverlongName_eq, ih]
  rw [Program.writeCopy, Program.writeCopy, hoverlong]

/-- A call has blocks in both libraries, or it fails alike in both. -/
theorem WrittenOut.inline (h : lib.WrittenOut lib') (s : Supply) (label : Option Label)
    (v : Variable) {c c' : Call} (hc : c.WrittenOut lib c') (finish : Variable → Operation) :
    Agree (Block.WrittenOut lib) (lib.inline s label v c finish)
      (lib'.inline s label v c' finish) := by
  rw [Library.inline, Library.inline, hc.function_eq]
  refine (h.getExpansion c.function "").bind fun e e' he => ?_
  simp only [he.mentionedLabels_eq, he.requiredInputs_eq, writeCopy_eq he s]
  refine (Agree.of_eq rfl : Agree Eq (s.drawLabels _) (s.drawLabels _)).bind fun _ _ _ => ?_
  refine (h.bindings he 0 (hc.arguments.take _)).bind fun bound bound' hbound => ?_
  refine (Agree.of_eq rfl : Agree Eq (e.program.writeCopy s) _).bind fun _ _ _ => ?_
  exact .ok (.inlining label v he hbound finish)

/-- The block of an instruction with names written out is the block of the instruction, with names
written out. -/
theorem WrittenOut.block (h : lib.WrittenOut lib') (s : Supply) {i i' : Instruction}
    (hi : i.WrittenOut lib i') :
    Agree (Block.WrittenOut lib) (lib.block s i) (lib'.block s i') := by
  have hdrawn : ∀ block : Block,
      Agree (Block.WrittenOut lib) (block.drawn s) (block.drawn s) := fun block =>
    (Agree.of_eq rfl : Agree Eq (block.drawn s) _).imp fun _ _ hblock => hblock ▸ .refl _
  obtain @⟨label, o, o', ho, spares, spare⟩ := hi
  cases ho with
  | quotation v hcall | jumpEqualFunction v hcall target => exact h.inline s label v hcall _
  | same =>
    cases o with
    | quotation v call | jumpEqualFunction v call target => exact h.inline s label v (.refl call) _
    | neutral | increase | decrease | jumpNotZero => exact .ok (.refl _)
    | _ => exact hdrawn _

end Library

/-! ### Rounds -/

/-- The instruction of the second line is that of the first one with names written out. -/
def Line.WrittenOut (lib : Library) (line line' : Line) : Prop :=
  line.instruction.WrittenOut lib line'.instruction

/-- The second program is the first one with names written out, whatever it went through. -/
structure Expansion.WrittenOut (lib : Library) (e e' : Expansion) : Prop where
  /-- The name stays. -/
  name_eq : e'.name = e.name
  /-- Names in the calls of the instructions are written out. -/
  lines : List.Forall₂ (Line.WrittenOut lib) e.lines e'.lines

namespace Expansion

variable {e e' : Expansion}

/-- The programs of such expansions are written out line by line. -/
theorem WrittenOut.program (h : e.WrittenOut lib e') : e.program.WrittenOut lib e'.program where
  name_eq := h.name_eq
  code := List.forall₂_map_left_iff.2 (List.forall₂_map_right_iff.2 h.lines)

theorem WrittenOut.ofProgram {p p' : Program} (h : p.WrittenOut lib p') :
    (ofProgram p).WrittenOut lib (ofProgram p') where
  name_eq := h.name_eq
  lines := List.forall₂_map_left_iff.2 (List.forall₂_map_right_iff.2 h.code)

/-- New lines make a program in both, or they declare the same label twice in both. -/
theorem WrittenOut.withLines? (h : e.WrittenOut lib e') {lines lines' : List Line}
    (hlines : List.Forall₂ (Line.WrittenOut lib) lines lines') :
    Agree (Expansion.WrittenOut lib) (e.withLines? lines) (e'.withLines? lines') := by
  have hduplicate : duplicateLabel? (lines'.map Line.instruction) =
      duplicateLabel? (lines.map Line.instruction) :=
    duplicateLabel?_eq (List.forall₂_map_left_iff.2 (List.forall₂_map_right_iff.2 hlines))
  rw [Expansion.withLines?, Expansion.withLines?]
  split
  · rename_i label first second hfirst
    split
    · rename_i label' first' second' hsecond
      obtain ⟨rfl, rfl, rfl⟩ : label' = label ∧ first' = first ∧ second' = second := by
        simpa using hsecond.symm.trans (hduplicate.trans hfirst)
      rw [h.name_eq]
      exact .error _
    · rename_i hsecond
      cases hsecond.symm.trans (hduplicate.trans hfirst)
  · rename_i hfirst
    split
    · rename_i hsecond
      cases hsecond.symm.trans (hduplicate.trans hfirst)
    · exact .ok ⟨h.name_eq, hlines⟩

end Expansion

namespace Library

/-- The lines of a round are written out one after another, with the same fresh names left over for
the next one. -/
theorem WrittenOut.expandLines (h : lib.WrittenOut lib') (s : Supply) {lines lines' : List Line}
    (hlines : List.Forall₂ (Line.WrittenOut lib) lines lines') :
    Agree (List.Forall₂ (Line.WrittenOut lib)) (lib.expandLines s lines)
      (lib'.expandLines s lines') := by
  induction hlines generalizing s with
  | nil => exact .ok .nil
  | @cons line line' lines lines' hline _ ih =>
    rw [Library.expandLines, Library.expandLines, Instruction.WrittenOut.isBasic_eq hline]
    split
    · exact (ih s).bind fun rest rest' hrest => .ok (.cons hline hrest)
    · refine (h.block s hline).bind fun block block' hblock => ?_
      rw [hblock.variableCount_eq, hblock.labelCount_eq]
      refine (ih _).bind fun rest rest' hrest => .ok (List.rel_append ?_ hrest)
      have hbody := hblock.body s
      rw [Block.body, Block.body, List.forall₂_map_left_iff, List.forall₂_map_right_iff] at hbody
      exact List.forall₂_map_left_iff.2 (List.forall₂_map_right_iff.2 hbody)

/-- One round over both programs gives such programs again. The supplies are the same, as the names
that are mentioned are. -/
theorem WrittenOut.round (h : lib.WrittenOut lib') {e e' : Expansion} (he : e.WrittenOut lib e') :
    Agree (Expansion.WrittenOut lib) (lib.round e) (lib'.round e') := by
  have hsupply : Supply.ofCode e'.code = Supply.ofCode e.code := supply_eq he.program.code
  rw [Library.round, Library.round, hsupply]
  exact (h.expandLines _ he.lines).bind fun lines lines' hlines => he.withLines? hlines

/-- After any number of rounds, one program is the other one with names written out. -/
theorem WrittenOut.expandRounds (h : lib.WrittenOut lib') (n : Nat) {e e' : Expansion}
    (he : e.WrittenOut lib e') :
    Agree (Expansion.WrittenOut lib) (lib.expandRounds n e) (lib'.expandRounds n e') := by
  induction n generalizing e e' with
  | zero => exact .ok he
  | succ n ih =>
    rw [Library.expandRounds, Library.expandRounds, he.program.isFullyBasic_eq]
    split
    · exact .ok he
    · exact (h.round he).bind fun _ _ he₁ => ih he₁

/-- Any number of rounds over both programs gives such programs, or fails alike. -/
theorem WrittenOut.expand (h : lib.WrittenOut lib') {p p' : Program} (hp : p.WrittenOut lib p')
    (degree : Int) :
    Agree (Expansion.WrittenOut lib) (lib.expand p degree) (lib'.expand p' degree) := by
  rw [Library.expand, Library.expand, expandFrom, expandFrom]
  split
  · exact .error _
  · exact h.expandRounds _ (.ofProgram hp)

/-- It takes as many rounds until all instructions are basic. -/
theorem WrittenOut.roundsToBasic_eq (h : lib.WrittenOut lib') (fuel : Nat) {e e' : Expansion}
    (he : e.WrittenOut lib e') : lib'.roundsToBasic fuel e' = lib.roundsToBasic fuel e := by
  induction fuel generalizing e e' with
  | zero => rw [roundsToBasic, roundsToBasic, he.program.isFullyBasic_eq]
  | succ fuel ih =>
    rw [roundsToBasic, roundsToBasic, he.program.isFullyBasic_eq]
    split
    · rfl
    · exact (h.round he).lift.bind_eq fun e₁ e₁' he₁ => by rw [ih he₁]

/-- Both programs need the same number of rounds. -/
theorem WrittenOut.maxDegree_eq (h : lib.WrittenOut lib') (fuel : Nat) {p p' : Program}
    (hp : p.WrittenOut lib p') : lib'.maxDegree fuel p' = lib.maxDegree fuel p :=
  h.roundsToBasic_eq fuel (.ofProgram hp)

/-! ### Degrees of instructions -/

section Degrees

variable {degree degree' : Program → Bounded Nat}

mutual

/-- A bare name counts like the call that it stands for. -/
theorem WrittenOut.bindingDegree_eq (h : lib.WrittenOut lib')
    (hdegree : ∀ {p p' : Program}, p.WrittenOut lib p' → degree' p' = degree p) :
    ∀ {a b : Argument}, a.WrittenOut lib b →
      bindingDegree lib' degree' b = bindingDegree lib degree a
  | _, _, .constant value => by rw [bindingDegree, bindingDegree]
  | _, _, .name text => by
    rw [bindingDegree, bindingDegree, bareCall, bareCall, h.contains_eq]
    split
    · rfl
    · split
      · refine (h.get text "").lift.bind_eq fun p p' hp => ?_
        rw [hdegree hp]
      · rfl
  | .name text, _, .bare hvariable hfound => by
    rw [bindingDegree, bindingDegree, bareCall, if_pos hfound, hvariable,
      if_neg Bool.false_ne_true]
    refine (h.get text "").lift.bind_eq fun p p' hp => ?_
    -- without arguments, the degree of the program is all there is
    have hnone : ∀ n d, bindingDegrees lib' degree' n d [] = pure d := fun n d => by
      cases n <;> rw [bindingDegrees]
    simp only [hnone, hdegree hp, pure_bind]
  | .call function as, .call _ bs, .call harguments => by
    rw [bindingDegree, bindingDegree]
    refine (h.get function "").lift.bind_eq fun p p' hp => ?_
    rw [hdegree hp, hp.requiredInputs_eq]
    exact bind_congr fun d => by rw [h.bindingDegrees_eq hdegree p.requiredInputs d harguments]

/-- The degrees that the formula gives to arguments are the same, as long as those of programs are.
The recursion follows the formula. -/
theorem WrittenOut.bindingDegrees_eq (h : lib.WrittenOut lib')
    (hdegree : ∀ {p p' : Program}, p.WrittenOut lib p' → degree' p' = degree p) :
    ∀ (n d : Nat) {as bs : List Argument}, Argument.ListWrittenOut lib as bs →
      bindingDegrees lib' degree' n d bs = bindingDegrees lib degree n d as
  | 0, _, _, _, _ => by rw [bindingDegrees, bindingDegrees]
  | _ + 1, _, _, _, .nil => by rw [bindingDegrees, bindingDegrees]
  | n + 1, d, _, _, .cons hhead htail => by
    rw [bindingDegrees, bindingDegrees, h.bindingDegree_eq hdegree hhead]
    exact bind_congr fun d' => h.bindingDegrees_eq hdegree n (max d d') htail

end

/-- The degree that the formula gives to a call is the same. -/
theorem WrittenOut.callDegree_eq (h : lib.WrittenOut lib')
    (hdegree : ∀ {p p' : Program}, p.WrittenOut lib p' → degree' p' = degree p) {c c' : Call}
    (hc : c.WrittenOut lib c') : callDegree lib' degree' c' = callDegree lib degree c := by
  rw [callDegree, callDegree, hc.function_eq]
  refine (h.get c.function "").lift.bind_eq fun p p' hp => ?_
  rw [hdegree hp, hp.requiredInputs_eq]
  exact bind_congr fun d => h.bindingDegrees_eq hdegree _ d hc.arguments

/-- The degree that the formula gives to an operation is the same. -/
theorem WrittenOut.operationDegree_eq (h : lib.WrittenOut lib')
    (hdegree : ∀ {p p' : Program}, p.WrittenOut lib p' → degree' p' = degree p) {o o' : Operation}
    (ho : o.WrittenOut lib o') :
    operationDegree lib' degree' o' = operationDegree lib degree o := by
  cases ho with
  | quotation v hc | jumpEqualFunction v hc target =>
    rw [operationDegree, operationDegree, h.callDegree_eq hdegree hc]
  | same =>
    cases o with
    | quotation v c | jumpEqualFunction v c target =>
      rw [operationDegree, operationDegree, h.callDegree_eq hdegree (.refl c)]
    | _ => rfl

end Degrees

/-- The formula gives the same degree once names are written out. -/
theorem WrittenOut.instructionDegree_eq (h : lib.WrittenOut lib') (fuel : Nat)
    {i i' : Instruction} (hi : i.WrittenOut lib i') :
    lib'.instructionDegree fuel i' = lib.instructionDegree fuel i :=
  h.operationDegree_eq (h.maxDegree_eq fuel) hi.operation

/-! ### Everywhere -/

/-- Once all calls are gone, it makes no difference whether names were written out. -/
theorem WrittenOut.expandFully_eq (h : lib.WrittenOut lib') (fuel : Nat) {p p' : Program}
    (hp : p.WrittenOut lib p') :
    Expansion.program <$> lib'.expandFully fuel p' =
      Expansion.program <$> lib.expandFully fuel p := by
  rw [expandFully, expandFully, h.maxDegree_eq fuel hp]
  rcases hdegree : lib.maxDegree fuel p with stop | d
  · rw [Bounded.error_bind, Bounded.error_bind]
  · obtain ⟨e, he, hbasic⟩ := exists_expandRounds_of_roundsToBasic hdegree
    have hexpand : lib.expand p d = .ok e :=
      expand_eq_ok_iff.2 ⟨Int.natCast_nonneg d, he⟩
    have hagree := h.expand hp d
    simp only [Bounded.ok_bind]
    rw [hexpand] at hagree ⊢
    generalize lib'.expand p' d = y at hagree ⊢
    cases hagree with
    | @ok _ e' hee' => exact congrArg Except.ok (hee'.program.eq_of_isFullyBasic hbasic)

/-- **Bare names.** A bare name that finds a program stands for a call without arguments everywhere.
Whichever of these names are written out as calls, in whichever programs of a library: the library
passes the same checks and has the same call graph, calls have the same values, cycles and errors in
every store, instructions have the same degrees, and programs have the same callees, the same
degrees, and are the same once they are expanded to the end. -/
theorem bareNames_stand_for_calls (h : lib.WrittenOut lib') :
    lib'.validate = lib.validate ∧ lib'.callGraph = lib.callGraph ∧
    (∀ c c' : Call, c.WrittenOut lib c' → ∀ fuel caller store,
      lib'.evaluator fuel caller store c' = lib.evaluator fuel caller store c) ∧
    (∀ i i' : Instruction, i.WrittenOut lib i' → ∀ fuel,
      (∀ caller store, i'.operation.execute (lib'.evaluator fuel caller store) store =
        i.operation.execute (lib.evaluator fuel caller store) store) ∧
      lib'.instructionDegree fuel i' = lib.instructionDegree fuel i) ∧
    ∀ p p' : Program, p.WrittenOut lib p' → lib'.directCalls p' = lib.directCalls p ∧ ∀ fuel,
      lib'.maxDegree fuel p' = lib.maxDegree fuel p ∧
      Expansion.program <$> lib'.expandFully fuel p' =
        Expansion.program <$> lib.expandFully fuel p := by
  refine ⟨h.validate_eq, h.callGraph_eq, fun c c' hc fuel caller store =>
    h.evaluator_eq fuel caller store hc, fun i i' hi fuel => ⟨fun caller store => ?_, ?_⟩,
    fun p p' hp => ⟨h.directCalls_eq hp, fun fuel => ⟨h.maxDegree_eq fuel hp, ?_⟩⟩⟩
  · exact hi.operation.execute_eq (h.evaluator_eq fuel caller store) store
  · exact h.instructionDegree_eq fuel hi
  · exact h.expandFully_eq fuel hp

/-- The program that calls two others, without a bare name. -/
def viaBothCalls : Program where
  name := "MAIN"
  code := [.plain none (.quotation .result ⟨"VIA", [.call "ONE" []]⟩)]
  nodup_labels := List.nodup_nil

/-- The library with this program in the place of the one with the bare name. -/
def nestedCallsLibrary : Library :=
  ⟨[.ofProgram viaBothCalls, .ofProgram viaOne, .ofProgram one], by decide⟩

theorem viaBoth_writtenOut : viaBoth.WrittenOut nestedLibrary viaBothCalls := by
  have hname : Argument.WrittenOut nestedLibrary (.name "ONE") (.call "ONE" []) :=
    .bare rfl rfl
  have hcall : Call.WrittenOut nestedLibrary ⟨"VIA", [.name "ONE"]⟩ ⟨"VIA", [.call "ONE" []]⟩ :=
    ⟨rfl, .cons hname .nil⟩
  exact ⟨rfl, .cons (.plain none (.quotation .result hcall)) .nil⟩

theorem nested_bareNames_stand_for_calls :
    nestedLibrary.WrittenOut nestedCallsLibrary ∧ viaBoth.WrittenOut nestedLibrary viaBothCalls ∧
    viaBoth ≠ viaBothCalls ∧
    nestedCallsLibrary.directCalls viaBothCalls = nestedLibrary.directCalls viaBoth ∧
    nestedCallsLibrary.maxDegree 9 viaBothCalls = nestedLibrary.maxDegree 9 viaBoth := by
  have hlib : nestedLibrary.WrittenOut nestedCallsLibrary :=
    ⟨.cons viaBoth_writtenOut (.cons (.refl _) (.cons (.refl _) .nil))⟩
  obtain ⟨-, -, -, -, hprograms⟩ := bareNames_stand_for_calls hlib
  obtain ⟨hcallees, hfuel⟩ := hprograms viaBoth viaBothCalls viaBoth_writtenOut
  exact ⟨hlib, viaBoth_writtenOut, by decide, hcallees, (hfuel 9).1⟩

end Library

end RegisterMachine
