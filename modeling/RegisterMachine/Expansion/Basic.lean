import RegisterMachine.Program

/-!
# Programs with ancestries

Rounds of expansion keep for every line of a program the instructions that the line came from. A
line that was not made by a round has no ancestry. Programs with ancestries may be called like any
other: a copy of a line brings along the ancestry of the line, until the copy is put in the place of
an instruction and goes back to that one.

* `Line` — an instruction with the instructions it came from;
* `Expansion` — a program with the ancestry of its lines.
-/

namespace RegisterMachine

/-- An instruction with the instructions it came from. -/
structure Line where
  /-- The instruction. -/
  instruction : Instruction
  /-- The instructions it came from, nearest first. -/
  ancestry : List Instruction
  deriving DecidableEq, Repr

namespace Line

/-- A line that no expansion produced. -/
def initial (i : Instruction) : Line :=
  ⟨i, []⟩

/-- A line in the place of another one, which it goes back to from now on. Its own ancestry is lost.
-/
def derive (line made : Line) : Line :=
  ⟨made.instruction, line.instruction :: line.ancestry⟩

/-- Puts other variables and labels in the place of those of the instruction. Its ancestry is left
as it is. -/
def rename (m : Argument.Renaming) (onLabel : Label → Label) (line : Line) : Line :=
  { line with instruction := line.instruction.rename m onLabel }

end Line

/-- A program with the ancestry of its lines. -/
@[ext] structure Expansion where
  /-- The name of the program. -/
  name : String
  /-- The lines of the program. -/
  lines : List Line
  /-- No numbered label is declared twice. -/
  nodup_labels : (declaredLabels (lines.map Line.instruction)).Nodup
  deriving DecidableEq

namespace Expansion

/-- A program before the first round. -/
def ofProgram (p : Program) : Expansion where
  name := p.name
  lines := p.code.map Line.initial
  nodup_labels := by
    have h : (p.code.map Line.initial).map Line.instruction = p.code := by
      simp [Function.comp_def, Line.initial]
    rw [h]
    exact p.nodup_labels

variable (e : Expansion)

/-- The instructions without their ancestry. -/
def code : List Instruction :=
  e.lines.map Line.instruction

/-- The program without the ancestry of its lines. -/
def program : Program :=
  ⟨e.name, e.code, e.nodup_labels⟩

/-- The expansion with other lines. -/
def withLines? (lines : List Line) : Except Error Expansion :=
  match h : duplicateLabel? (lines.map Line.instruction) with
  | some (label, first, second) => .error (.duplicateLabel label first second e.name)
  | none => .ok ⟨e.name, lines, nodup_declaredLabels h⟩

end Expansion

end RegisterMachine
