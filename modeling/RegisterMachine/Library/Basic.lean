import RegisterMachine.Expansion.Basic
import RegisterMachine.Text.Case

/-!
# Libraries

A library holds the programs that can call each other, under distinct names and in the order in
which each name first came in. Putting in a program under a name that is taken replaces the program
there. What was expanded before it came in keeps the ancestry of its lines; calls look at programs
only, and copies are made of lines.

A name finds the program of exactly that name, or else the first one whose name differs only in
letter case.
-/

namespace RegisterMachine

/-- Programs under distinct names. -/
@[ext] structure Library where
  /-- The programs with the ancestry of their lines, in the order in which their names first came
  in. -/
  entries : List Expansion
  /-- No two programs have one name. -/
  nodup_entries : (entries.map Expansion.name).Nodup
  deriving DecidableEq

namespace Library

/-! ### Putting programs in -/

/-- Puts a program in the place of the one with its name, or at the end. -/
def putInto (e : Expansion) : List Expansion → List Expansion
  | [] => [e]
  | e' :: es => if e'.name = e.name then e :: es else e' :: putInto e es

theorem mem_map_name_putInto {e : Expansion} {es : List Expansion} {name : String} :
    name ∈ (putInto e es).map Expansion.name ↔
      name = e.name ∨ name ∈ es.map Expansion.name := by
  induction es with
  | nil => simp [putInto]
  | cons e' es ih =>
    unfold putInto
    split
    · rename_i h
      simp [h]
    · simp only [List.map_cons, List.mem_cons, ih]
      constructor <;> rintro (h | h | h) <;> simp [h]

theorem nodup_map_name_putInto {e : Expansion} {es : List Expansion}
    (h : (es.map Expansion.name).Nodup) : ((putInto e es).map Expansion.name).Nodup := by
  induction es with
  | nil => simp [putInto]
  | cons e' es ih =>
    obtain ⟨he', hes⟩ := List.nodup_cons.1 h
    unfold putInto
    split
    · rename_i hn
      exact List.nodup_cons.2 ⟨hn ▸ he', hes⟩
    · rename_i hn
      exact List.nodup_cons.2
        ⟨fun hm => (mem_map_name_putInto.1 hm).elim hn he', ih hes⟩

/-- The library without programs. -/
def empty : Library :=
  ⟨[], List.nodup_nil⟩

/-- The library with a program put in, which may have been expanded. -/
def put (lib : Library) (e : Expansion) : Library :=
  ⟨putInto e lib.entries, nodup_map_name_putInto lib.nodup_entries⟩

/-- The library of some programs, put in one after another. -/
def ofList (ps : List Program) : Library :=
  ps.foldl (fun lib p => lib.put (.ofProgram p)) empty

/-! ### Finding programs -/

variable (lib : Library)

/-- The programs. -/
def programs : List Program :=
  lib.entries.map Expansion.program

/-- The names of the programs. -/
def names : List String :=
  lib.programs.map Program.name

theorem nodup_names : (lib.programs.map Program.name).Nodup := by
  rw [programs, List.map_map]
  exact lib.nodup_entries

/-- The entry of exactly a name. -/
def findExact? (name : String) : Option Expansion :=
  lib.entries.find? (·.name = name)

/-- The first entry whose name differs at most in letter case. -/
def findFolded? (name : String) : Option Expansion :=
  lib.entries.find? fun e => Text.toLower e.name = Text.toLower name

/-- The entry that a name finds. -/
def findExpansion? (name : String) : Option Expansion :=
  (lib.findExact? name).or (lib.findFolded? name)

/-- The program that a name finds. -/
def find? (name : String) : Option Program :=
  (lib.findExpansion? name).map Expansion.program

/-- The registered spelling of a name that finds a program. -/
def resolve? (name : String) : Option String :=
  (lib.find? name).map Program.name

/-- The name finds a program. -/
def contains (name : String) : Bool :=
  (lib.find? name).isSome

/-- The entry that a name must find; a failure also names the caller. -/
def getExpansion (name caller : String) : Except Error Expansion :=
  match lib.findExpansion? name with
  | some e => .ok e
  | none => .error (.unknownFunction name caller)

/-- The program that a name must find; a failure also names the caller. -/
def get (name caller : String) : Except Error Program :=
  match lib.find? name with
  | some p => .ok p
  | none => .error (.unknownFunction name caller)

end Library

end RegisterMachine
