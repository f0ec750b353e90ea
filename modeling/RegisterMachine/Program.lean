import RegisterMachine.Error
import RegisterMachine.Instruction.Basic

/-!
# Programs

A program is a name and a list of instructions in which no numbered label stands twice. A label is
declared by the instruction it stands on; `EXIT` may stand on an instruction too, but declares
nothing.

* `Program.ofCode?` — the program of a list of instructions, or the first instruction that declares
  a label again;
* `Program.indexOf`, `Program.validate` — where a label is declared, and whether every jump leads
  to a declared label. A program need not pass to exist, only to run;
* `Program.vars` — the variables that a program mentions, in order.
-/

namespace RegisterMachine

/-- The numbered label that an instruction declares. -/
def Instruction.declared? (i : Instruction) : Option Label :=
  i.label.filter Label.isNumbered

/-- The labels that a list of instructions declares, in order. -/
def declaredLabels (code : List Instruction) : List Label :=
  code.filterMap Instruction.declared?

/-! ### Labels declared twice -/

/-- The first label that is declared again, with the indices of both declarations, where `seen`
holds the labels declared before the index `i`. -/
def duplicateFrom (seen : List (Label × Nat)) (i : Nat) :
    List Instruction → Option (Label × Nat × Nat)
  | [] => none
  | instruction :: code =>
    match instruction.declared? with
    | none => duplicateFrom seen (i + 1) code
    | some label =>
      match seen.lookup label with
      | some first => some (label, first, i)
      | none => duplicateFrom ((label, i) :: seen) (i + 1) code

/-- The first label of a list of instructions that is declared again. -/
def duplicateLabel? (code : List Instruction) : Option (Label × Nat × Nat) :=
  duplicateFrom [] 0 code

private theorem nodup_of_duplicateFrom {seen : List (Label × Nat)} {i : Nat}
    {code : List Instruction} (h : duplicateFrom seen i code = none) :
    (declaredLabels code).Nodup ∧ ∀ label ∈ declaredLabels code, seen.lookup label = none := by
  induction code generalizing seen i with
  | nil => simp [declaredLabels]
  | cons instruction code ih =>
    unfold duplicateFrom at h
    cases hd : instruction.declared? with
    | none =>
      rw [hd] at h
      simpa [declaredLabels, hd] using ih h
    | some label =>
      simp only [hd] at h
      cases hl : seen.lookup label with
      | some first => simp [hl] at h
      | none =>
        simp only [hl] at h
        obtain ⟨hn, hs⟩ := ih h
        have hs' : ∀ other ∈ declaredLabels code, other ≠ label ∧ seen.lookup other = none := by
          intro other ho
          have hm := hs other ho
          rw [List.lookup_cons] at hm
          cases he : other == label with
          | true => simp [he] at hm
          | false => exact ⟨by simpa using he, by simpa only [he] using hm⟩
        have hc : declaredLabels (instruction :: code) = label :: declaredLabels code := by
          simp [declaredLabels, hd]
        rw [hc]
        refine ⟨List.nodup_cons.2 ⟨fun hm => (hs' label hm).1 rfl, hn⟩, fun other ho => ?_⟩
        rcases List.mem_cons.1 ho with rfl | ho
        · exact hl
        · exact (hs' other ho).2

/-- Where no label is declared again, the declared labels are distinct. -/
theorem nodup_declaredLabels {code : List Instruction} (h : duplicateLabel? code = none) :
    (declaredLabels code).Nodup :=
  (nodup_of_duplicateFrom h).1

/-! ### Programs -/

/-- A named list of instructions with distinct labels. -/
@[ext] structure Program where
  /-- The name under which a program is called. -/
  name : String
  /-- The instructions. -/
  code : List Instruction
  /-- No numbered label is declared twice. -/
  nodup_labels : (declaredLabels code).Nodup
  deriving DecidableEq

namespace Program

/-- The program of a list of instructions with distinct labels. -/
def ofDistinct? (name : String) (code : List Instruction) : Except Error Program :=
  match h : duplicateLabel? code with
  | some (label, first, second) => .error (.duplicateLabel label first second name)
  | none => .ok ⟨name, code, nodup_declaredLabels h⟩

/-- The program of a list of instructions. The instructions are taken one after another: the first
one that declares a label again is refused, and so is the first one that names a variable by too
many digits. -/
def ofCode? (name : String) (code : List Instruction) : Except Error Program :=
  match code.findIdx? Instruction.hasOverlongName with
  | none => ofDistinct? name code
  | some i => do
    let _ ← ofDistinct? name (code.take (i + 1))
    .error (.numeral .tooLong)

variable (p : Program)

/-! ### Labels -/

/-- The declared labels, in order. -/
def labels : List Label :=
  declaredLabels p.code

/-- Some instruction declares the label. -/
def hasLabel (label : Option Label) : Bool :=
  match label with
  | some l => p.labels.contains l
  | none => false

/-- The index of the instruction that declares a label. -/
def indexOf? (label : Label) : Option Nat :=
  p.code.findIdx? fun i => i.declared? = some label

/-- The index of the instruction that declares a label, which must not be lacking. -/
def indexOf (label : Option Label) : Except Error Nat :=
  match label.bind p.indexOf? with
  | some i => .ok i
  | none => .error (.unknownLabel label p.name none)

/-- The instruction that declares a label, with its index. -/
def instructionAt (label : Option Label) : Except Error (Nat × Instruction) := do
  let i ← p.indexOf label
  match p.code[i]? with
  | some instruction => return (i, instruction)
  | none => .error (.unknownLabel label p.name none)

/-- A target that no instruction declares, although it is a numbered label. -/
def isDangling (label : Label) : Bool :=
  label.isNumbered && !p.labels.contains label

/-- The first instruction with a dangling target, spare or not. -/
def danglingTarget? : Option (Label × Nat) :=
  p.code.zipIdx.findSome? fun (instruction, i) =>
    (instruction.target.filter p.isDangling).map (·, i)

/-- Every target is declared. -/
def validate : Except Error Unit :=
  match p.danglingTarget? with
  | some (label, i) => .error (.unknownLabel (some label) p.name (some i))
  | none => .ok ()

/-! ### Variables -/

/-- The variables that a program mentions, in order. -/
def vars : List Variable :=
  sortedSet (p.code.flatMap Instruction.referencedVariables)

/-- The input variables among them. -/
def inputVariables : List Variable :=
  p.vars.filter Variable.isInput

/-- The work variables among them. -/
def workVariables : List Variable :=
  p.vars.filter Variable.isWork

/-- The number of inputs a run needs: the greatest number of an input variable. -/
def requiredInputs : Nat :=
  (p.inputVariables.map Variable.number).foldr max 0

/-! ### Structure -/

/-- All instructions are basic. -/
def isFullyBasic : Bool :=
  p.code.all Instruction.isBasic

/-- The functions that a program calls explicitly, in order. -/
def calledFunctions : List String :=
  sortedSet (p.code.flatMap Instruction.calledFunctions)

/-- The bare names in the arguments of a program that spell no variable, in order. -/
def bareNames : List String :=
  sortedSet (p.code.flatMap Instruction.bareNames)

end Program

end RegisterMachine
