import RegisterMachine.Proofs.Sections
import RegisterMachine.Proofs.StatementText

/-!
# Printed programs

The text of programs is read back line by line. No printed line has a comment in it or runs into the
next one, a header opens the section of its program, and each statement below it says its
instruction as it is read. So what is read are the programs that were printed, with their names, in
their order, and with their instructions as the lines are read.

* `Assembly.Prints.reads`, `Assembly.means_join` — what printed lines say;
* `Assembly.Printable`, `Assembly.means_write` — what the lines of programs say;
* `Assembly.parts_meanings`, `Assembly.parse_write` — what the text of programs is read as;
* `Assembly.assemble_write` — programs that are read as they are.
-/

namespace RegisterMachine

namespace Assembly

/-! ### Lines -/

theorem stripComment_eq_self {cs : List Char} (h : ∀ c ∈ cs, isPlain c = true) :
    stripComment cs = cs := by
  induction cs with
  | nil => rfl
  | cons c cs ih =>
    rw [List.forall_mem_cons, isPlain, Bool.and_eq_true, Bool.and_eq_true, bne_iff_ne, bne_iff_ne]
      at h
    obtain ⟨⟨⟨hhash, hslash⟩, -⟩, hcs⟩ := h
    rw [stripComment, ih hcs]
    · exact fun he => hhash he
    · exact fun _ he => absurd he hslash

theorem splitLines_append {cs rest : List Char} (h : ∀ c ∈ cs, isPlain c = true) :
    splitLines (cs ++ '\n' :: rest) = cs :: splitLines rest := by
  induction cs with
  | nil => rw [List.nil_append, splitLines]
  | cons c cs ih =>
    rw [List.forall_mem_cons, isPlain, Bool.and_eq_true, bne_iff_ne] at h
    rw [List.cons_append, splitLines, ih h.2]
    exact fun he => h.1.2 he

/-- A text of lines is cut into the lines, and an empty one behind them. -/
theorem splitLines_join {lines : List String}
    (h : ∀ line ∈ lines, ∀ c ∈ line.toList, isPlain c = true) :
    splitLines (String.join (lines.map (· ++ "\n"))).toList = lines.map String.toList ++ [[]] := by
  induction lines with
  | nil => rfl
  | cons line lines ih =>
    rw [List.forall_mem_cons] at h
    have htext : (String.join ((line :: lines).map (· ++ "\n"))).toList =
        line.toList ++ '\n' :: (String.join (lines.map (· ++ "\n"))).toList := by
      simp
    rw [htext, splitLines_append h.1, ih h.2]
    rfl

/-- A line is printed as it is, and says something. -/
structure Reads (line : String) (m : Meaning) : Prop where
  plain : ∀ c ∈ line.toList, isPlain c = true
  means : Means Argument.FewDigits line.toList m

/-- A printed line says what its words denote. -/
theorem Prints.reads {line : String} {ws : List (TokenKind × String)} {m : Meaning}
    (h : Prints line ws) (hdenotes : Denotes Argument.FewDigits ws m)
    (hnames : m.NamesFit Argument.FewDigits) : Reads line m := by
  obtain ⟨ts, hts, rfl⟩ := h.lexes 0 0
  refine ⟨h.plain, _, ?_, hdenotes, hnames⟩
  rw [stripComment_eq_self h.plain]
  exact splits_of_lineTokensFrom hts

/-- The lines of a text say what they say as they are printed, and the empty one behind them
nothing. -/
theorem means_join {lines : List String} {ms : List Meaning} (h : List.Forall₂ Reads lines ms) :
    List.Forall₂ (Means Argument.FewDigits)
      (splitLines (String.join (lines.map (· ++ "\n"))).toList) (ms ++ [.blank]) := by
  have hplain : ∀ line ∈ lines, ∀ c ∈ line.toList, isPlain c = true := by
    induction h with
    | nil => exact List.forall_mem_nil _
    | cons hline _ ih => exact List.forall_mem_cons.2 ⟨hline.plain, ih⟩
  have hempty : Means Argument.FewDigits [] .blank := ⟨[], .nil, .blank, trivial⟩
  rw [splitLines_join hplain]
  refine List.rel_append ?_ (.cons hempty .nil)
  rw [List.forall₂_map_left_iff]
  exact h.imp fun _ _ hline => hline.means

end Assembly

/-! ### Programs -/

/-- The name of a program is a word and no keyword. -/
def Assembly.IsName (name : String) : Prop :=
  Text.isIdentifier name.toList = true ∧ wordKind name.toList = .identifier

instance : DecidablePred Assembly.IsName := fun name =>
  inferInstanceAs (Decidable (Text.isIdentifier name.toList = true ∧
    Assembly.wordKind name.toList = .identifier))

theorem declaredLabels_map_asRead (code : List Instruction) :
    declaredLabels (code.map Instruction.asRead) = declaredLabels code :=
  List.filterMap_map

namespace Program

/-- What the text of a program is read as. -/
def asRead (p : Program) : Program where
  name := p.name
  code := p.code.map Instruction.asRead
  nodup_labels := by
    rw [declaredLabels_map_asRead]
    exact p.nodup_labels

/-- The text of a program says all that there is to it. -/
structure Printable (p : Program) : Prop where
  name : Assembly.IsName p.name
  code : ∀ i ∈ p.code, i.Printable

/-- The numbers of a program are not too long to be read. -/
def Brief (p : Program) : Prop :=
  ∀ i ∈ p.code, i.Brief

instance (p : Program) : Decidable p.Printable :=
  decidable_of_iff (Assembly.IsName p.name ∧ ∀ i ∈ p.code, i.Printable)
    ⟨fun ⟨name, code⟩ => ⟨name, code⟩, fun h => ⟨h.name, h.code⟩⟩

instance (p : Program) : Decidable p.Brief :=
  inferInstanceAs (Decidable (∀ i ∈ p.code, i.Brief))

/-- A program that assigns no constant zero is read as it is. -/
theorem asRead_eq_self_iff {p : Program} :
    p.asRead = p ↔ ∀ i ∈ p.code, ∀ v, i.operation ≠ .constantAssignment v 0 := by
  have hcode : p.asRead = p ↔ p.code.map Instruction.asRead = p.code.map id := by
    rw [Program.ext_iff, List.map_id]
    exact and_iff_right rfl
  simp only [hcode, List.map_inj_left, id_eq, Instruction.asRead_eq_self_iff]

theorem hasOverlongName_asRead {i : Instruction} (hbrief : i.Brief) :
    i.asRead.hasOverlongName = false := by
  have hcall : i.asRead.operation.call? = i.operation.call? := i.operation.call?_asRead
  rw [Instruction.hasOverlongName, Instruction.arguments, hcall, List.any_eq_false]
  intro n hn
  rcases hnone : i.operation.call? with _ | c
  · rw [hnone, Argument.walk] at hn
    cases hn
  · rw [hnone] at hn
    have hnode : n ∈ Argument.walk [c.toArgument] := by
      rw [Argument.walk, Argument.walk, List.append_nil, Call.toArgument, Argument.nodes]
      exact List.mem_cons_of_mem _ hn
    rw [(hbrief.operation.call c hnone n hnode).isOverlong]
    exact Bool.false_ne_true

end Program

namespace Assembly

/-! ### Texts -/

/-- The text of the programs says all that there is to them. -/
structure Printable (a : Assembly) : Prop where
  program : ∀ p ∈ a.programs, p.Printable
  names : (a.programs.map Program.name).Nodup

/-- The numbers of the programs are not too long to be read. -/
def Brief (a : Assembly) : Prop :=
  ∀ p ∈ a.programs, p.Brief

instance (a : Assembly) : Decidable a.Printable :=
  decidable_of_iff ((∀ p ∈ a.programs, p.Printable) ∧ (a.programs.map Program.name).Nodup)
    ⟨fun ⟨program, names⟩ => ⟨program, names⟩, fun h => ⟨h.program, h.names⟩⟩

instance (a : Assembly) : Decidable a.Brief :=
  inferInstanceAs (Decidable (∀ p ∈ a.programs, p.Brief))

/-- What the text of the programs is read as. -/
def asRead (a : Assembly) : Assembly :=
  ⟨a.main.asRead, a.functions.map Program.asRead⟩

/-- What the lines of a program say. -/
def sectionMeanings (isMain : Bool) (p : Program) : List Meaning :=
  .header isMain p.name :: p.code.map .statement

/-- What the lines of programs say; the text ends with a line end, so there is an empty line behind
them. -/
def meanings (a : Assembly) : List Meaning :=
  sectionMeanings true a.main ++ (a.functions.flatMap (sectionMeanings false) ++ [.blank])

section Parts

variable {ms : List Meaning}

theorem leading_statements (code : List Instruction) :
    leading (code.map .statement ++ ms) = code ++ leading ms := by
  induction code with
  | nil => rfl
  | cons i code ih => exact congrArg (i :: ·) ih

theorem headed_statements (code : List Instruction) :
    headed (code.map .statement ++ ms) = headed ms := by
  induction code with
  | nil => rfl
  | cons i code ih => exact ih

/-- The lines of a program are a section. -/
theorem headed_sectionMeanings {isMain : Bool} {p : Program} (hms : leading ms = []) :
    headed (sectionMeanings isMain p ++ ms) = partOf (isMain, p) :: headed ms := by
  rw [sectionMeanings, List.cons_append, headed, leading_statements, headed_statements, hms,
    List.append_nil, partOf]

/-- The lines of functions are sections. -/
theorem headed_functions (ps : List Program) :
    leading (ps.flatMap (sectionMeanings false) ++ [.blank]) = [] ∧
      headed (ps.flatMap (sectionMeanings false) ++ [.blank]) =
        ps.map fun p => partOf (false, p) := by
  induction ps with
  | nil => exact ⟨rfl, rfl⟩
  | cons p ps ih =>
    rw [List.flatMap_cons, List.append_assoc, headed_sectionMeanings ih.1, ih.2]
    exact ⟨rfl, rfl⟩

/-- The lines of programs make up the programs. -/
theorem parts_meanings (defaultName : String) (a : Assembly) :
    parts defaultName a.meanings =
      partOf (true, a.main) :: a.functions.map fun p => partOf (false, p) := by
  obtain ⟨hleading, hheaded⟩ := headed_functions a.functions
  have hfirst : leading a.meanings = [] := rfl
  rw [parts, hfirst, meanings]
  dsimp only
  rw [headed_sectionMeanings hleading, hheaded]

theorem holds_parts_meanings (defaultName : String) (a : Assembly) :
    a.Holds (parts defaultName a.meanings) := by
  rw [parts_meanings]
  constructor
  · rw [List.filter_cons_of_pos rfl, List.filter_eq_nil_iff.2 (List.forall_mem_map.2 nofun)]
    rfl
  · rw [List.filter_cons_of_neg (by simp [partOf]),
      List.filter_eq_self.2 (List.forall_mem_map.2 fun _ _ => rfl), List.map_map]
    rfl

theorem wellFormed_parts_meanings (defaultName : String) {a : Assembly}
    (hnames : (a.programs.map Program.name).Nodup) :
    WellFormed (parts defaultName a.meanings) := by
  rw [parts_meanings]
  constructor
  · refine ⟨partOf (true, a.main), ?_⟩
    rw [List.filter_cons_of_pos rfl, List.filter_eq_nil_iff.2 (List.forall_mem_map.2 nofun)]
  · rw [List.map_cons, List.map_map]
    exact hnames
  · exact List.forall_mem_cons.2
      ⟨a.main.nodup_labels, List.forall_mem_map.2 fun p _ => p.nodup_labels⟩

end Parts

/-- The line of an instruction says what it is read as. -/
theorem reads_line {i : Instruction} (hi : i.Printable) (hbrief : i.Brief) (width : Nat) :
    Reads (i.line width) (.statement i.asRead) :=
  (prints_line hi.worded width).reads (i.denotes_words hi hbrief)
    (hasOverlongName_eq_false_iff.1 (Program.hasOverlongName_asRead hbrief))

/-- The kind of word that a header starts with. -/
def headerKind (isMain : Bool) : TokenKind :=
  if isMain then .program else .function

/-- The header of a program says its name. -/
theorem reads_header (isMain : Bool) {name : String} (hname : IsName name) :
    Reads s!"{(headerKind isMain).name} {name}" (.header isMain name) := by
  cases isMain with
  | true => exact (prints_header (by decide +kernel) hname).reads (.program rfl rfl) trivial
  | false => exact (prints_header (by decide +kernel) hname).reads (.function rfl rfl) trivial

theorem reads_sectionLines (isMain : Bool) {p : Program} (hp : p.Printable) (hbrief : p.Brief) :
    List.Forall₂ Reads (sectionLines (headerKind isMain).name p)
      (sectionMeanings isMain p.asRead) := by
  refine .cons (reads_header isMain hp.name) ?_
  rw [Program.asRead, List.map_map, List.forall₂_map_left_iff, List.forall₂_map_right_iff,
    List.forall₂_same]
  exact fun i hi => reads_line (hp.code i hi) (hbrief i hi) _

theorem reads_functions {ps : List Program} (hps : ∀ p ∈ ps, p.Printable)
    (hbrief : ∀ p ∈ ps, p.Brief) :
    List.Forall₂ Reads (ps.flatMap (sectionLines "FUNCTION"))
      ((ps.map Program.asRead).flatMap (sectionMeanings false)) := by
  induction ps with
  | nil => exact .nil
  | cons p ps ih =>
    rw [List.forall_mem_cons] at hps hbrief
    rw [List.map_cons, List.flatMap_cons, List.flatMap_cons]
    exact List.rel_append (reads_sectionLines false hps.1 hbrief.1) (ih hps.2 hbrief.2)

/-- The lines of a printed text say the programs. -/
theorem means_write {a : Assembly} (ha : a.Printable) (hbrief : a.Brief) :
    List.Forall₂ (Means Argument.FewDigits) (splitLines a.write.toList) a.asRead.meanings := by
  have hprograms := ha.program
  rw [programs, List.forall_mem_cons] at hprograms
  rw [Brief, programs, List.forall_mem_cons] at hbrief
  have hmain : List.Forall₂ Reads (sectionLines "PROGRAM" a.main)
      (sectionMeanings true a.main.asRead) := reads_sectionLines true hprograms.1 hbrief.1
  have hlines := means_join (List.rel_append hmain (reads_functions hprograms.2 hbrief.2))
  rwa [List.append_assoc] at hlines

/-- The text of programs is read back as the programs, line by line. -/
theorem parse_write (defaultName : String) {a : Assembly} (ha : a.Printable) (hbrief : a.Brief) :
    parse a.write defaultName = .ok a.asRead := by
  have hnames : (a.asRead.programs.map Program.name).Nodup := by
    have heq : a.asRead.programs.map Program.name = a.programs.map Program.name := by
      rw [asRead, programs, programs, List.map_cons, List.map_cons, List.map_map]
      rfl
    rw [heq]
    exact ha.names
  exact parse_eq_ok_iff.2 ⟨a.asRead.meanings, means_write ha hbrief,
    wellFormed_parts_meanings defaultName hnames, holds_parts_meanings defaultName a.asRead⟩

/-- Programs that assign no constant zero are read as they are. -/
theorem asRead_eq_self_iff {a : Assembly} : a.asRead = a ↔
    ∀ p ∈ a.programs, ∀ i ∈ p.code, ∀ v, i.operation ≠ .constantAssignment v 0 := by
  have hprograms : a.asRead = a ↔ a.programs.map Program.asRead = a.programs.map id := by
    obtain ⟨main, functions⟩ := a
    simp only [asRead, programs, Assembly.mk.injEq, List.map_cons, List.cons.injEq, List.map_id,
      id_eq]
  simp only [hprograms, List.map_inj_left, id_eq, Program.asRead_eq_self_iff]

/-- Programs that assign no constant zero are read back from their text. -/
theorem assemble_write (defaultName : String) {a : Assembly} (ha : a.Printable) (hbrief : a.Brief)
    (hzero : ∀ p ∈ a.programs, ∀ i ∈ p.code, ∀ v, i.operation ≠ .constantAssignment v 0) :
    assemble a.write defaultName false = .ok a := by
  rw [assemble, parse_write defaultName ha hbrief, asRead_eq_self_iff.2 hzero]
  rfl

/-- A main program and functions with a statement of every kind. -/
def sampler : Assembly where
  main :=
    ⟨"MAIN",
     [.plain (some (.numbered 11)) (.quotation .result
        ⟨"f_1", [.call "PICK" [.name "x1", .constant (-3)], .name "IF"]⟩),
      .plain none (.jumpEqualFunction (.work 0) ⟨"PICK", []⟩ (.numbered 11)),
      .plain (some (.numbered 0)) (.neutral .result),
      .plain none (.increase (.work 9)),
      .plain none (.decrease (.input 0)),
      .plain none (.jumpNotZero .result .exit)],
     by decide⟩
  functions :=
    [⟨"f_1",
      [.plain (some (.numbered 0)) (.zeroVariable (.work 0)),
       .plain none (.constantAssignment .result 10),
       .plain none (.assignment .result (.input 0)),
       .plain none (.jumpZero (.input 1) (.numbered 0)),
       .plain none (.jumpEqualConstant (.input 1) 7 .exit),
       .plain none (.jumpEqualVariable (.input 1) (.input 1) .exit),
       .plain none (.gotoLabel .exit)],
      by decide⟩,
     ⟨"PICK", [], by decide⟩]

theorem sampler_assemble_write :
    sampler.Printable ∧ sampler.Brief ∧ assemble sampler.write "main" false = .ok sampler := by
  have hprintable : sampler.Printable := by decide +kernel
  have hbrief : sampler.Brief := by decide +kernel
  refine ⟨hprintable, hbrief, assemble_write "main" hprintable hbrief ?_⟩
  simp [programs, sampler, Instruction.plain]

end Assembly

end RegisterMachine
