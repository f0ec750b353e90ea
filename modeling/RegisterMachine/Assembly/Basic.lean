import RegisterMachine.Assembly.Statement
import RegisterMachine.Expansion.Round
import RegisterMachine.Instruction.Text
import RegisterMachine.Library.CallGraph

/-!
# Assembly text

Assembly text is a row of sections. A section is a program: its header gives its name and says
whether it is the main program or a function, and its statements are the lines up to the next
header. Statements in front of the first header belong to a main program without a header, whose
name is given from outside. There has to be exactly one main program, and the names have to be
distinct.

* `Section` — a section as far as it has been read;
* `assemble` — the programs of a text, checked against each other if that is wanted;
* `Assembly.write` — the text of programs.
-/

namespace RegisterMachine

/-- The programs of an assembly text. -/
structure Assembly where
  /-- The main program. -/
  main : Program
  /-- The functions, in the order of the text. -/
  functions : List Program
  deriving DecidableEq

namespace Assembly

/-- All programs, the main program first. -/
def programs (a : Assembly) : List Program :=
  a.main :: a.functions

/-- The library of the programs. -/
def library (a : Assembly) : Library :=
  .ofList a.programs

/-! ### Sections -/

/-- A section of assembly text. -/
structure Section where
  /-- The name of the program. -/
  name : String
  /-- The section is a main program. -/
  isMain : Bool
  /-- The line of the header, or of the first statement if there is no header. -/
  line : Nat
  /-- The instructions. -/
  code : List Instruction
  /-- The declared labels, each with its line. -/
  labels : List (Label × Nat)
  deriving Repr

/-- A section without statements. -/
def Section.new (name : String) (isMain : Bool) (line : Nat) : Section :=
  ⟨name, isMain, line, [], []⟩

/-- A section with one more instruction from a line. -/
def Section.push (s : Section) (line : Nat) (i : Instruction) : Section :=
  { s with
    code := s.code ++ [i]
    labels := s.labels ++ i.label.toList.map (·, line) }

/-- The sections read so far, latest first, after one more line. -/
def readLine (defaultName : String) (sections : List Section) (line : TokenLine) :
    Except Error (List Section) := do
  let r := line.reader
  match r.next.kind with
  | .lineEnd => return sections
  | .program => return .new (← r.skip.readHeader) true line.number :: sections
  | .function => return .new (← r.skip.readHeader) false line.number :: sections
  | _ =>
    let current := sections.headD (.new defaultName true line.number)
    return current.push line.number (← r.readStatement current.labels) :: sections.tail

/-- The sections of some lines, in order. -/
def sections (defaultName : String) (lines : List TokenLine) : Except Error (List Section) :=
  List.reverse <$> lines.foldlM (readLine defaultName) []

/-- The first section whose name an earlier one has. -/
def repeatedSection? (seen : List String) : List Section → Option Section
  | [] => none
  | s :: rest => if seen.contains s.name then some s else repeatedSection? (s.name :: seen) rest

/-- The one main section of a text with a number of lines. -/
def mainSection (lineCount : Nat) (sections : List Section) : Except Error Section :=
  match sections.filter Section.isMain with
  | [] => .error (.assembly .noMain lineCount 0)
  | [s] => .ok s
  | _ :: second :: _ => .error (.assembly .secondMain second.line 0)

/-- The program of a section. -/
def Section.program (s : Section) : Except Error Program :=
  Program.ofCode? s.name s.code

/-- The programs of the sections of a text with a number of lines. -/
def ofSections (lineCount : Nat) (sections : List Section) : Except Error Assembly := do
  let _ ← mainSection lineCount sections
  if let some s := repeatedSection? [] sections then
    throw (.assembly (.definedTwice s.name) s.line 0)
  let programs ← sections.mapM fun s => (s.isMain, ·) <$> s.program
  match programs.filter Prod.fst with
  | (_, main) :: _ => return ⟨main, (programs.filter (!·.1)).map Prod.snd⟩
  | [] => throw (.assembly .noMain lineCount 0)

/-- The programs of a text, each well formed in itself. -/
def parse (source defaultName : String) : Except Error Assembly := do
  let lines ← tokenLines source
  ofSections lines.length (← sections defaultName lines)

/-! ### Writing -/

/-- The lines of a program under its header. -/
def sectionLines (header : String) (p : Program) : List String :=
  s!"{header} {p.name}" :: p.code.map (·.line Instruction.labelWidth)

/-- The lines of a main program and functions. -/
def lines (a : Assembly) : List String :=
  sectionLines "PROGRAM" a.main ++ a.functions.flatMap (sectionLines "FUNCTION")

/-- The text of a main program and functions. -/
def write (a : Assembly) : String :=
  String.join (a.lines.map (· ++ "\n"))

end Assembly

/-- The programs of an assembly text. On demand they are checked as a library. -/
def assemble (source defaultName : String) (validate : Bool) : Except Error Assembly := do
  let a ← Assembly.parse source defaultName
  if validate then a.library.validate
  return a

namespace Assembly

/-- The programs of an assembly, each expanded to a degree over the library of all of them. -/
def expand (a : Assembly) (degree : Int) : Except Error Assembly := do
  let expanded (p : Program) := Expansion.program <$> a.library.expand p degree
  let main ← expanded a.main
  return ⟨main, ← a.functions.mapM expanded⟩

/-- The text of the expanded programs, and for each of them whether reading the text gives it
back. -/
def readBack (a : Assembly) (degree : Int) : Except Error (String × List Bool) := do
  let e ← a.expand degree
  let numbers := e.programs.flatMap fun p => p.code.flatMap fun i => i.operation.numbers
  let text ← showing numbers e.write
  let back ← parse text "main"
  return (text, List.zipWith (fun p q => decide (p = q)) e.programs back.programs)

end Assembly

end RegisterMachine
