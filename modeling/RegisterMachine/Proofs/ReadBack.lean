import RegisterMachine.Proofs.ExpandedRun
import RegisterMachine.Proofs.Hygiene
import RegisterMachine.Proofs.ParsedText
import RegisterMachine.Proofs.Resolved

/-!
# Expanded programs are read back

Whatever the expansion of programs puts in the place of an instruction can be printed, if the
instructions of all programs can: the blocks have labels that a line can carry, the copies of a
called program copy no variable into itself, since fresh names are no names in use, and no argument
is spoilt by renaming. What has been read can be printed in the first place. So the text of expanded
programs is read again, and as the same programs but for one operation: the argument zero of a call
is handed over as the assignment of a constant, whose text is that of clearing a variable.

* `Library.printable_block`, `Library.printable_expand` — blocks and expanded programs;
* `Assembly.assemble_write_expand` — what the text of expanded programs is read as;
* `Assembly.not_assemble_write_expand` — a program that is read as another one.
-/

namespace RegisterMachine

open Instruction (plain)

/-! ### Renaming -/

section Rename

variable (m : Argument.Renaming)

/-- Renaming leaves identifiers or puts names of variables in their place. -/
theorem Argument.Worded.rename {a : Argument} (h : a.Worded) : (a.rename m).Worded := by
  cases a with
  | constant value => rwa [Argument.rename]
  | call function as => rwa [Argument.rename]
  | name text =>
    rw [Argument.rename]
    split
    · rename_i v _
      exact v.isIdentifier_name
    · exact h

/-- Names that are put in the place of others are names of variables, and thus words. -/
theorem Argument.worded_renameList {as : List Argument} (h : ∀ n ∈ walk as, n.Worded) :
    ∀ n ∈ walk (renameList m as), n.Worded := by
  rw [walk_renameList]
  exact List.forall_mem_map.2 fun n hn => (h n hn).rename m

/-- A renamed operation can be read back if the operation can. -/
theorem Operation.Worded.rename {o : Operation} (h : o.Worded) (f : Label → Label) :
    (o.rename m f).Worded := by
  have hcall : ∀ c, (∀ n ∈ Argument.walk [Call.toArgument c], n.Worded) →
      ∀ n ∈ Argument.walk [(rename.onCall m c).toArgument], n.Worded := by
    intro c hc
    rw [Call.toArgument, Argument.walk_call, List.forall_mem_cons] at hc ⊢
    exact ⟨hc.1, Argument.worded_renameList m hc.2⟩
  cases o with
  | quotation v c | jumpEqualFunction v c target =>
    exact worded_of_call?_eq_some rfl (hcall c (h c rfl))
  | _ => exact worded_of_call?_eq_none rfl

end Rename

/-! ### Blocks -/

/-- An instruction without spare operands can be printed if its label is no `EXIT`, the names in its
call are words, and its statement is that of no other operation. -/
@[simp] theorem Instruction.printable_plain {label : Option Label} {o : Operation} :
    (plain label o).Printable ↔ label ≠ some .exit ∧ o.Worded ∧ o.Distinct :=
  ⟨fun h => ⟨h.label, h.worded, h.distinct⟩, fun ⟨hlabel, hworded, hdistinct⟩ =>
    ⟨rfl, hlabel, hworded, hdistinct⟩⟩

/-- Fresh labels are numbered ones. -/
@[simp] theorem Supply.freshLabel_ne_exit {s : Supply} {k : Nat} : s.freshLabel k ≠ .exit :=
  Label.noConfusion

/-- The value of an argument is given by a call in it. -/
theorem Library.worded_of_binding {lib : Library} {function : String} {a : Argument} {c : Call}
    (h : lib.binding function a = .ok (.call c)) (ha : ∀ n ∈ a.nodes, n.Worded) :
    ∀ n ∈ Argument.walk [c.toArgument], n.Worded := by
  rcases binding_eq_call_iff.1 h with ⟨text, rfl, -, -, rfl⟩ | rfl
  · rw [Argument.nodes] at ha
    rw [Call.toArgument, Argument.walk_call, Argument.walk]
    have hword : (Argument.name text).Worded := ha _ List.mem_cons_self
    exact List.forall_mem_singleton.2 hword
  · rwa [Argument.walk_singleton]

namespace Block

section Plain

variable {s : Supply} {label : Option Label} (hlabel : label ≠ some .exit)
include hlabel

/-- The line for the label of a block can be printed. -/
theorem printable_landing (v : Variable) : ∀ i ∈ landing label v, i.Printable := by
  rcases label with _ | l
  · exact List.forall_mem_nil _
  · simpa [landing, Operation.Worded, Operation.call?, Operation.Distinct] using hlabel

/-- The block that clears a variable can be printed, if the label of its instruction can. -/
theorem printable_zeroVariable (v : Variable) :
    ∀ i ∈ (zeroVariable label v).body s, i.Printable := by
  have hlanding := printable_landing hlabel v
  simpa [zeroVariable, Operation.Worded, Operation.call?, Operation.Distinct, or_imp, forall_and]
    using hlanding

/-- The block of a plain jump can be printed. It jumps because a fresh variable is not zero. -/
theorem printable_gotoLabel (target : Label) :
    ∀ i ∈ (gotoLabel label target).body s, i.Printable := by
  simpa [gotoLabel, Operation.Worded, Operation.call?, Operation.Distinct] using hlabel

/-- The block of an assignment of a constant can be printed, whatever the constant, as it is counted
up to from zero. -/
theorem printable_constantAssignment (v : Variable) (k : Nat) :
    ∀ i ∈ (constantAssignment label v k).body s, i.Printable := by
  simpa [constantAssignment, Operation.Worded, Operation.call?, Operation.Distinct] using hlabel

/-- The block of a jump for zero can be printed. -/
theorem printable_jumpZero (v : Variable) (target : Label) :
    ∀ i ∈ (jumpZero label v target).body s, i.Printable := by
  simpa [jumpZero, Operation.Worded, Operation.call?, Operation.Distinct] using hlabel

/-- The block of an assignment can be printed. It copies by counting, without assignments of its
own. -/
theorem printable_assignment (v source : Variable) :
    ∀ i ∈ (assignment label v source).body s, i.Printable := by
  simpa [assignment, Operation.Worded, Operation.call?, Operation.Distinct] using hlabel

/-- The block of a comparison with a constant can be printed. It copies the variable to a fresh one,
and these two have to be different. -/
theorem printable_jumpEqualConstant {v : Variable} (hv : ¬ s.Fresh v) (k : Nat) (target : Label) :
    ∀ i ∈ (jumpEqualConstant label v k target).body s, i.Printable := by
  have hne : v ≠ s.freshVariable 0 := fun he => hv ⟨0, he⟩
  simpa [jumpEqualConstant, Operation.Worded, Operation.call?, Operation.Distinct, or_imp,
    forall_and, hne] using hlabel

/-- The block of a comparison of two variables can be printed. It copies both to fresh ones, which
have to be different from them. -/
theorem printable_jumpEqualVariable {v source : Variable} (hv : ¬ s.Fresh v)
    (hsource : ¬ s.Fresh source) (target : Label) :
    ∀ i ∈ (jumpEqualVariable label v source target).body s, i.Printable := by
  have hne : v ≠ s.freshVariable 0 := fun he => hv ⟨0, he⟩
  have hne' : source ≠ s.freshVariable 1 := fun he => hsource ⟨1, he⟩
  simpa [jumpEqualVariable, Operation.Worded, Operation.call?, Operation.Distinct, hne, hne']
    using hlabel

end Plain

section Inlining

open Program

variable {lib : Library} {s : Supply} {i : Instruction} {v : Variable} {call : Call}
  {callee : Program} {entry : Expansion} {bound : List (Variable × Binding)}
  {finish : Variable → Operation}

/-- No label of a copy is `EXIT`, since that one is replaced by the end of the copy. -/
theorem copyLabel_ne_exit (l : Label) : callee.copyLabel s l ≠ .exit := by
  cases l with
  | exit => exact Supply.freshLabel_ne_exit
  | numbered n =>
    rw [copyLabel]
    split <;> exact Label.noConfusion

/-- The copy of an instruction has different names in the place of different ones. -/
theorem printable_rename {j : Instruction} (hj : j ∈ callee.code) (hprintable : j.Printable) :
    (j.rename (callee.copyVariable s) (callee.copyLabel s)).Printable := by
  obtain ⟨hplain, hlabel, hworded, hdistinct⟩ := hprintable
  have hvars : ∀ v, j.operation.Mentions v → v ∈ callee.copiedVariables := fun v hv =>
    mem_copiedVariables.2 (.inl (mem_vars.2
      ⟨j, hj, Instruction.mem_referencedVariables.2 (.inl hv)⟩))
  have hrename : j.rename (callee.copyVariable s) (callee.copyLabel s) =
      plain (j.label.map (callee.copyLabel s))
        (j.operation.rename (callee.copyVariable s) (callee.copyLabel s)) := by
    rw [hplain]
    rfl
  rw [hrename, Instruction.printable_plain]
  refine ⟨?_, hworded.rename _ _, ?_⟩
  · intro hexit
    obtain ⟨l, -, hl⟩ := Option.map_eq_some_iff.1 hexit
    exact copyLabel_ne_exit l hl
  · cases ho : j.operation with
    | assignment v source =>
      -- Both variables are copied, and no two copies are one variable.
      rw [ho] at hdistinct hvars
      exact fun he => hdistinct (freshFor_injective (hvars source (.inr (.inl rfl)))
        (hvars v (.inl rfl)) he)
    | jumpEqualConstant v k target =>
      rw [ho] at hdistinct
      exact hdistinct
    | _ => trivial

/-- What a parameter is given can be printed. -/
theorem printable_binding {w : Variable} (hw : s.Fresh w) {b : Binding}
    (hfresh : ∀ u, b.Mentions u → ¬ s.Fresh u)
    (hcall : ∀ c, b = .call c → ∀ n ∈ Argument.walk [c.toArgument], n.Worded) :
    (plain none (b.operation w)).Printable := by
  rw [Instruction.printable_plain]
  refine ⟨nofun, ?_⟩
  rcases b with k | source | c
  · exact ⟨Operation.worded_of_call?_eq_none rfl, trivial⟩
  · refine ⟨Operation.worded_of_call?_eq_none rfl, ?_⟩
    rintro rfl
    exact hfresh _ rfl hw
  · exact ⟨Operation.worded_of_call?_eq_some rfl (hcall c rfl), trivial⟩

/-- What is done with the result of a copy can be printed. -/
theorem printable_finish (h : i.operation.Takes v call finish)
    (hfresh : ∀ w ∈ i.referencedVariables, ¬ s.Fresh w) {r : Variable} (hr : s.Fresh r)
    {label : Option Label} (hlabel : label ≠ some .exit) : (plain label (finish r)).Printable := by
  have hv : ¬ s.Fresh v := hfresh v (Instruction.mem_referencedVariables.2 (.inl h.mentions))
  refine Instruction.printable_plain.2
    ⟨hlabel, Operation.worded_of_call?_eq_none (h.call?_finish r), ?_⟩
  obtain ⟨label, operation, spares, spare⟩ := i
  cases h with
  | quotation =>
    -- The result is in a fresh variable, so it is not copied into itself.
    rintro rfl
    exact hv hr
  | jumpEqualFunction => trivial

/-- The block of a call, if the called program can be printed: the copies of its instructions can,
and so can those that hand over arguments and the result. -/
theorem printable_inlining (hi : i.Printable) (h : i.operation.Takes v call finish)
    (hbound : lib.bindings entry.program 0
      (call.arguments.take entry.program.requiredInputs) = .ok bound)
    (hfresh : ∀ w ∈ i.referencedVariables, ¬ s.Fresh w)
    (hcallee : ∀ j ∈ entry.program.code, j.Printable) :
    ∀ i' ∈ (inlining i.label v entry bound finish).body s, i'.Printable := by
  intro i' hi'
  -- Line by line: landing, parameters, cleared variables, copy and last instruction.
  rcases mem_body_inlining.1 hi' with ⟨-, rfl⟩ | ⟨x, hx, rfl⟩ | ⟨u, hu, rfl⟩ | ⟨j, hj, rfl⟩ | rfl
  · exact Instruction.printable_plain.2
      ⟨hi.label, Operation.worded_of_call?_eq_none rfl, trivial⟩
  · obtain ⟨hparameter, a, ha, hbinding⟩ := Library.exists_of_mem_bindings hbound hx
    have hargument : ∀ w, x.2.Mentions w → ¬ s.Fresh w := fun w hw =>
      hfresh w (Library.mem_referencedVariables_of_bindings h.call?_eq hbound hx hw)
    refine printable_binding (fresh_freshFor (mem_copiedVariables.2 (.inl hparameter))) hargument
      fun c hc => ?_
    rw [hc] at hbinding
    refine Library.worded_of_binding hbinding fun n hn => hi.worded call h.call?_eq n ?_
    refine Argument.walk_subset_walk_toArgument (List.mem_of_mem_take ha) ?_
    rwa [Argument.walk_singleton]
  · exact Instruction.printable_plain.2
      ⟨nofun, Operation.worded_of_call?_eq_none rfl, trivial⟩
  · exact printable_rename hj (hcallee j hj)
  · exact printable_finish h hfresh (fresh_freshFor (mem_copiedVariables.2 (.inr rfl))) nofun

end Inlining

end Block

/-! ### Rounds -/

namespace Library

/-- The instructions of all programs can be printed. -/
def Printable (lib : Library) : Prop :=
  ∀ p ∈ lib.programs, ∀ i ∈ p.code, i.Printable

variable {lib : Library} {s : Supply} {i : Instruction} {block : Block}

/-- The block of an instruction that can be printed can be printed. -/
theorem printable_block (hlib : lib.Printable) (hi : i.Printable)
    (hfresh : ∀ w ∈ i.referencedVariables, ¬ s.Fresh w) (h : lib.BlockOf i block) :
    ∀ i' ∈ block.body s, i'.Printable := by
  have hsubject : ∀ w, i.operation.Mentions w → ¬ s.Fresh w := fun w hw =>
    hfresh w (Instruction.mem_referencedVariables.2 (.inl hw))
  cases h with
  | self =>
    rw [Block.body_ofCode]
    exact List.forall_mem_singleton.2 hi
  | zeroVariable v => exact Block.printable_zeroVariable hi.label v
  | gotoLabel target => exact Block.printable_gotoLabel hi.label target
  | constantAssignment v k => exact Block.printable_constantAssignment hi.label v k
  | jumpZero v target => exact Block.printable_jumpZero hi.label v target
  | selfAssignment v => exact absurd rfl hi.distinct
  | assignment => exact Block.printable_assignment hi.label _ _
  | jumpEqualConstant v k target =>
    exact Block.printable_jumpEqualConstant hi.label (hsubject v (.inl rfl)) k target
  | jumpEqualVariable v source target =>
    exact Block.printable_jumpEqualVariable hi.label (hsubject v (.inl rfl))
      (hsubject source (.inr (.inl rfl))) target
  | call hcall hfind hbound =>
    exact Block.printable_inlining hi hcall hbound hfresh
      (hlib _ (mem_of_find? (find?_of_findExpansion? hfind)))

variable {e e' : Expansion}

/-- A round over instructions that can be printed gives such instructions. -/
theorem printable_round (hlib : lib.Printable) (he : ∀ i ∈ e.code, i.Printable)
    (h : lib.round e = .ok e') : ∀ i ∈ e'.code, i.Printable :=
  forall_mem_round h (fun hblock hfresh hi => printable_block hlib hi hfresh hblock) he

/-- So do any number of rounds. -/
theorem printable_expandRounds (hlib : lib.Printable) {n : Nat}
    (he : ∀ i ∈ e.code, i.Printable) (h : lib.expandRounds n e = .ok e') :
    ∀ i ∈ e'.code, i.Printable :=
  expandRounds_induction (P := fun e₁ => ∀ i ∈ e₁.code, i.Printable)
    (fun _ _ hround he => printable_round hlib he hround) h he

/-- A program that can be printed can be printed at any degree, and keeps its name. -/
theorem printable_expand (hlib : lib.Printable) {p : Program} (hp : p.Printable) {degree : Int}
    (h : lib.expand p degree = .ok e) : e.program.Printable ∧ e.program.name = p.name := by
  obtain ⟨-, h⟩ := expand_eq_ok_iff.1 h
  have hname : e.program.name = p.name := name_expandRounds h
  have hcode : ∀ i ∈ (Expansion.ofProgram p).code, i.Printable := by
    rw [code_ofProgram]
    exact hp.code
  refine ⟨⟨?_, printable_expandRounds hlib hcode h⟩, hname⟩
  rw [hname]
  exact hp.name

/-- What is in a list after an entry was put in is the entry, or was there before. -/
theorem mem_of_mem_putInto {e e' : Expansion} {es : List Expansion} (h : e' ∈ putInto e es) :
    e' = e ∨ e' ∈ es := by
  induction es with
  | nil => exact .inl (List.mem_singleton.1 h)
  | cons e₁ es ih =>
    rw [putInto] at h
    split at h
    · exact (List.mem_cons.1 h).imp_right (List.mem_cons_of_mem e₁)
    · rcases List.mem_cons.1 h with rfl | h
      · exact .inr List.mem_cons_self
      · exact (ih h).imp_right (List.mem_cons_of_mem e₁)

/-- The programs of a library that a program was put into are this one and those before. -/
theorem mem_of_mem_programs_put {e : Expansion} {q : Program} (h : q ∈ (lib.put e).programs) :
    q = e.program ∨ q ∈ lib.programs := by
  obtain ⟨e', he', rfl⟩ := List.mem_map.1 h
  rcases mem_of_mem_putInto he' with rfl | he'
  · exact .inl rfl
  · exact .inr (List.mem_map_of_mem he')

/-- The programs of a library that was made from a list are in the list. -/
theorem mem_of_mem_ofList {ps : List Program} : ∀ q ∈ (ofList ps).programs, q ∈ ps := by
  -- The fold starts from any library, since putting a program in changes where it goes on from.
  have hfold : ∀ (ps : List Program) (lib : Library),
      ∀ q ∈ (ps.foldl (fun lib p => lib.put (.ofProgram p)) lib).programs,
        q ∈ lib.programs ∨ q ∈ ps := by
    intro ps
    induction ps with
    | nil => exact fun lib q hq => .inl hq
    | cons p ps ih =>
      intro lib q hq
      rcases ih (lib.put (.ofProgram p)) q hq with hq | hq
      · rcases mem_of_mem_programs_put hq with rfl | hq
        · rw [program_ofProgram]
          exact .inr List.mem_cons_self
        · exact .inl hq
      · exact .inr (List.mem_cons_of_mem p hq)
  intro q hq
  exact (hfold ps empty q hq).resolve_left List.not_mem_nil

end Library

namespace Assembly

variable {a e : Assembly} {degree : Int}

/-- The library of an assembly has no programs but those of the assembly. -/
theorem Printable.library (ha : a.Printable) : a.library.Printable := fun p hp =>
  (ha.program p (Library.mem_of_mem_ofList p hp)).code

/-- The programs of an assembly, expanded one by one. -/
theorem forall₂_of_expand (h : a.expand degree = .ok e) :
    List.Forall₂ (fun p q => ∃ x, a.library.expand p degree = .ok x ∧ x.program = q)
      a.programs e.programs := by
  obtain ⟨main, hmain, h⟩ := Bounded.bind_eq_ok.1 h
  obtain ⟨functions, hfunctions, h⟩ := Bounded.bind_eq_ok.1 h
  obtain rfl := Except.ok.inj h
  refine .cons (Bounded.map_eq_ok.1 hmain) ?_
  exact (Bounded.forall₂_of_mapM hfunctions).imp fun p q hpq => Bounded.map_eq_ok.1 hpq

/-- Expanded programs can be printed. -/
theorem Printable.expand (ha : a.Printable) (h : a.expand degree = .ok e) : e.Printable := by
  have hall : List.Forall₂ (fun p q => p.Printable → q.Printable ∧ q.name = p.name)
      a.programs e.programs := by
    refine (forall₂_of_expand h).imp fun p q hpq hp => ?_
    obtain ⟨x, hx, rfl⟩ := hpq
    exact Library.printable_expand ha.library hp hx
  have hkept : ∀ {ps qs : List Program},
      List.Forall₂ (fun p q => p.Printable → q.Printable ∧ q.name = p.name) ps qs →
      (∀ p ∈ ps, p.Printable) →
      (∀ q ∈ qs, q.Printable) ∧ qs.map Program.name = ps.map Program.name := by
    intro ps qs hpq
    induction hpq with
    | nil => exact fun _ => ⟨List.forall_mem_nil _, rfl⟩
    | cons hpq _ ih =>
      intro hps
      rw [List.forall_mem_cons] at hps
      obtain ⟨hq, hname⟩ := hpq hps.1
      obtain ⟨hqs, hnames⟩ := ih hps.2
      exact ⟨List.forall_mem_cons.2 ⟨hq, hqs⟩, by rw [List.map_cons, List.map_cons, hname, hnames]⟩
  obtain ⟨hprogram, hnames⟩ := hkept hall ha.program
  refine ⟨hprogram, ?_⟩
  rw [hnames]
  exact ha.names

/-- An assembly that passes the checks is the one that the text was read as. -/
theorem parse_of_assemble {source defaultName : String} {validate : Bool}
    (h : assemble source defaultName validate = .ok a) : parse source defaultName = .ok a := by
  obtain ⟨a', hparse, h⟩ := Bounded.bind_eq_ok.1 h
  have ha : a' = a := by
    dsimp only at h
    split at h
    · obtain ⟨-, -, h⟩ := Bounded.bind_eq_ok.1 h
      exact Except.ok.inj h
    · exact Except.ok.inj h
  rw [hparse, ha]

/-- Whatever text they come from and however far they are expanded, programs are read from their
text again, with one exception: an assignment of the constant zero, which is how an argument zero is
handed over, is read as the operation that clears a variable. -/
theorem assemble_write_expand {source : String} {validate : Bool}
    (ha : assemble source "main" validate = .ok a) (he : a.expand degree = .ok e)
    (hbrief : e.Brief) :
    assemble e.write "main" false = .ok e.asRead ∧
      (assemble e.write "main" false = .ok e ↔
        ∀ p ∈ e.programs, ∀ i ∈ p.code, ∀ v, i.operation ≠ .constantAssignment v 0) := by
  have hprintable := printable_of_parse (by decide +kernel) (parse_of_assemble ha)
  have hread : assemble e.write "main" false = .ok e.asRead := by
    rw [assemble, parse_write "main" (hprintable.expand he) hbrief]
    rfl
  refine ⟨hread, ?_⟩
  rw [hread, Except.ok.injEq]
  exact asRead_eq_self_iff

/-- A program that calls another one with the argument zero. -/
def bump : Assembly where
  main := ⟨"main", [.plain none (.quotation .result ⟨"INC", [.constant 0]⟩)], List.nodup_nil⟩
  functions := [⟨"INC", [.plain none (.increase (.input 0))], List.nodup_nil⟩]

/-- The text of it. -/
def bumpText : String :=
  "PROGRAM main\n      y <- (INC,0)\nFUNCTION INC\n      x1 <- x1 + 1\n"

/-- The same after one round, in which the parameter is assigned the constant zero, and the result
is cleared. -/
def bumped : Assembly where
  main :=
    ⟨"main",
     [.plain none (.constantAssignment (.work 0) 0),
      .plain none (.zeroVariable (.work 1)),
      .plain none (.increase (.work 0)),
      .plain (some (.numbered 0)) (.assignment .result (.work 1))],
     by decide⟩
  functions := bump.functions

theorem bump_write : bump.write = bumpText := by decide +kernel

theorem bump_assemble : assemble bumpText "main" true = .ok bump := by
  have hparse : parse bump.write "main" = .ok bump :=
    parse_write "main" (by decide +kernel) (by decide +kernel)
  have hvalid : bump.library.validate = .ok () := by rfl
  rw [assemble, ← bump_write, hparse, Bounded.ok_bind]
  simp [hvalid]

theorem bump_expand : bump.expand 1 = .ok bumped := by rfl

theorem bump_assemble_write_expand :
    assemble bumpText "main" true = .ok bump ∧ bump.expand 1 = .ok bumped ∧ bumped.Brief ∧
      assemble bumped.write "main" false = .ok bumped.asRead := by
  have hbrief : bumped.Brief := by decide +kernel
  exact ⟨bump_assemble, bump_expand, hbrief,
    (assemble_write_expand bump_assemble bump_expand hbrief).1⟩

/-- The text of an expanded program may be that of another one. -/
theorem not_assemble_write_expand : ¬ ∀ (source : String) (a e : Assembly) (degree : Int),
    assemble source "main" true = .ok a → a.expand degree = .ok e →
      assemble e.write "main" false = .ok e := by
  intro h
  have hback := parse_of_assemble (h bumpText bump bumped 1 bump_assemble bump_expand)
  rw [parse_write "main" (by decide +kernel) (by decide +kernel), Except.ok.injEq] at hback
  exact absurd hback (by decide)

end Assembly

end RegisterMachine
