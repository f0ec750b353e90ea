import RegisterMachine.Machine.Run

/-!
# Palettes

A palette holds the control sequences that switch colours and weights of a terminal on and off; in
the plain palette they are empty. All that a command prints in a special way goes through it, so a
text printed in the plain palette is the text printed in colour without its control sequences.
-/

namespace RegisterMachine.CommandLine

/-- The control sequences of a terminal. -/
structure Palette where
  bold : String
  dim : String
  red : String
  green : String
  yellow : String
  cyan : String
  /-- Ends all that was switched on. -/
  reset : String
  deriving DecidableEq, Repr

namespace Palette

/-- No control sequences. -/
def plain : Palette :=
  ⟨"", "", "", "", "", "", ""⟩

/-- The control sequences of terminals with colours. -/
def bright : Palette :=
  ⟨"\x1b[1m", "\x1b[2m", "\x1b[31m", "\x1b[32m", "\x1b[33m", "\x1b[36m", "\x1b[0m"⟩

variable (ink : Palette)

/-- The width of the lines around a heading. -/
def headingWidth : Nat := 60

/-- The line above and below a heading. -/
def bar : String :=
  ink.bold ++ ink.cyan ++ String.ofList (List.replicate headingWidth '─') ++ ink.reset

/-- A heading, under an empty line. -/
def heading (text : String) : String :=
  s!"\n{ink.bar}\n{ink.bold}  {text}{ink.reset}\n{ink.bar}"

/-- Good news. -/
def success (text : String) : String :=
  s!"  {ink.green}✓{ink.reset} {text}"

/-- News to be careful about. -/
def caution (text : String) : String :=
  s!"  {ink.yellow}⚠{ink.reset} {text}"

/-- Bad news. -/
def failure (text : String) : String :=
  s!"  {ink.red}✗{ink.reset} {text}"

/-- A text in bold type. -/
def strong (text : String) : String :=
  ink.bold ++ text ++ ink.reset

/-- A text of lesser importance. -/
def faint (text : String) : String :=
  ink.dim ++ text ++ ink.reset

/-- The values of variables, side by side. -/
def values (store : Store) : Except Error String := do
  let named ← store.named
  showing store.values <|
    "  ".intercalate (named.map fun (name, n) => s!"{ink.cyan}{name}{ink.reset}={n}")

end Palette

end RegisterMachine.CommandLine
