import RegisterMachine.Error
import RegisterMachine.Instruction.Basic

/-!
# The text of instructions

The statement that an instruction is written as, and the line that also shows its label, in a column
of its own. Assembly text is made of such lines, so a listing can be read back.

* `Operation.text`, `Instruction.line` — the texts, whatever their length;
* `Operation.Writable`, `Operation.write` — the statements whose numbers are not too long.
-/

namespace RegisterMachine

/-- The statement of an operation. -/
def Operation.text : Operation → String
  | neutral v => s!"{v} <- {v}"
  | increase v => s!"{v} <- {v} + 1"
  | decrease v => s!"{v} <- {v} - 1"
  | jumpNotZero v target => s!"IF {v} != 0 GOTO {target}"
  | zeroVariable v => s!"{v} <- 0"
  | gotoLabel target => s!"GOTO {target}"
  | constantAssignment v k => s!"{v} <- {k}"
  | jumpZero v target => s!"IF {v} = 0 GOTO {target}"
  | assignment v source => s!"{v} <- {source}"
  | jumpEqualConstant v k target => s!"IF {v} = {k} GOTO {target}"
  | jumpEqualVariable v source target => s!"IF {v} = {source} GOTO {target}"
  | quotation v call => s!"{v} <- {call.render}"
  | jumpEqualFunction v call target => s!"IF {v} = {call.render} GOTO {target}"

/-- The numbers that a statement is written with: those of its variables and its constant. Labels
and calls are texts before. -/
def Operation.numbers (o : Operation) : List Nat :=
  (o.subject?.toList ++ o.source?.toList).map Variable.number ++ o.constant?.toList

/-- No number of the statement is too long. -/
def Operation.Writable (o : Operation) : Prop :=
  ∀ n ∈ o.numbers, Text.Short n

instance : DecidablePred Operation.Writable := fun o =>
  inferInstanceAs (Decidable (∀ n ∈ o.numbers, Text.Short n))

/-- The statement of an operation in writing. -/
def Operation.write (o : Operation) : Except Error String :=
  showing o.numbers o.text

/-- A text with blanks behind it, up to a width. -/
def padRight (width : Nat) (s : String) : String :=
  s ++ String.ofList (List.replicate (width - s.length) ' ')

/-- A text with blanks in front of it, up to a width. -/
def padLeft (width : Nat) (s : String) : String :=
  String.ofList (List.replicate (width - s.length) ' ') ++ s

/-- A label in brackets, or nothing. -/
def labelTag : Option Label → String
  | none => ""
  | some label => s!"[{label}]"

namespace Instruction

/-- The statement of an instruction. -/
def text (i : Instruction) : String :=
  i.operation.text

/-- The usual width of the label column. -/
def labelWidth : Nat := 5

/-- The line of an instruction: its label in a column of some width, a blank, and its statement. -/
def line (i : Instruction) (width : Nat) : String :=
  padRight width (labelTag i.label) ++ " " ++ i.text

end Instruction

end RegisterMachine
