import RegisterMachine.Argument.Basic
import RegisterMachine.Label
import RegisterMachine.Opcode

/-!
# Instructions

An `Operation` is an opcode with exactly the operands it needs. An `Instruction` is an operation
that may carry a label of its own. It may also hold spare operands, which its opcode does not read:
they are names the instruction mentions all the same, so they count as used, they are renamed with
it, and a spare target has to be declared like any other.
-/

namespace RegisterMachine

/-- An opcode with its operands. -/
inductive Operation where
  /-- Nothing happens to `v`. -/
  | neutral (v : Variable)
  /-- `v` grows by one. -/
  | increase (v : Variable)
  /-- `v` shrinks by one, or stays zero. -/
  | decrease (v : Variable)
  /-- Jumps if `v` is not zero. -/
  | jumpNotZero (v : Variable) (target : Label)
  /-- `v` becomes zero. -/
  | zeroVariable (v : Variable)
  /-- Jumps in any case. -/
  | gotoLabel (target : Label)
  /-- `v` becomes `k`. -/
  | constantAssignment (v : Variable) (k : Nat)
  /-- Jumps if `v` is zero. -/
  | jumpZero (v : Variable) (target : Label)
  /-- `v` becomes what `source` is. -/
  | assignment (v source : Variable)
  /-- Jumps if `v` is `k`. -/
  | jumpEqualConstant (v : Variable) (k : Nat) (target : Label)
  /-- Jumps if `v` and `source` are equal. -/
  | jumpEqualVariable (v source : Variable) (target : Label)
  /-- `v` becomes the value of a call. -/
  | quotation (v : Variable) (call : Call)
  /-- Jumps if `v` is the value of a call. -/
  | jumpEqualFunction (v : Variable) (call : Call) (target : Label)
  deriving DecidableEq, Repr

namespace Operation

/-- The opcode of an operation. -/
def opcode : Operation → Opcode
  | neutral _ => .neutral
  | increase _ => .increase
  | decrease _ => .decrease
  | jumpNotZero _ _ => .jumpNotZero
  | zeroVariable _ => .zeroVariable
  | gotoLabel _ => .gotoLabel
  | constantAssignment _ _ => .constantAssignment
  | jumpZero _ _ => .jumpZero
  | assignment _ _ => .assignment
  | jumpEqualConstant _ _ _ => .jumpEqualConstant
  | jumpEqualVariable _ _ _ => .jumpEqualVariable
  | quotation _ _ => .quotation
  | jumpEqualFunction _ _ _ => .jumpEqualFunction

/-- The variable that an operation is about. -/
def subject? : Operation → Option Variable
  | gotoLabel _ => none
  | neutral v | increase v | decrease v | jumpNotZero v _ | zeroVariable v
  | constantAssignment v _ | jumpZero v _ | assignment v _ | jumpEqualConstant v _ _
  | jumpEqualVariable v _ _ | quotation v _ | jumpEqualFunction v _ _ => some v

/-- The variable that an operation copies or compares with. -/
def source? : Operation → Option Variable
  | assignment _ source | jumpEqualVariable _ source _ => some source
  | _ => none

/-- The label that an operation may jump to. -/
def target? : Operation → Option Label
  | jumpNotZero _ target | gotoLabel target | jumpZero _ target | jumpEqualConstant _ _ target
  | jumpEqualVariable _ _ target | jumpEqualFunction _ _ target => some target
  | _ => none

/-- The constant of an operation. -/
def constant? : Operation → Option Nat
  | constantAssignment _ k | jumpEqualConstant _ k _ => some k
  | _ => none

/-- The call of a quotation. -/
def call? : Operation → Option Call
  | quotation _ call | jumpEqualFunction _ call _ => some call
  | _ => none

/-- Puts other variables and labels in the place of those of an operation. -/
def rename (m : Argument.Renaming) (onLabel : Label → Label) : Operation → Operation
  | neutral v => neutral (onVariable v)
  | increase v => increase (onVariable v)
  | decrease v => decrease (onVariable v)
  | jumpNotZero v target => jumpNotZero (onVariable v) (onLabel target)
  | zeroVariable v => zeroVariable (onVariable v)
  | gotoLabel target => gotoLabel (onLabel target)
  | constantAssignment v k => constantAssignment (onVariable v) k
  | jumpZero v target => jumpZero (onVariable v) (onLabel target)
  | assignment v source => assignment (onVariable v) (onVariable source)
  | jumpEqualConstant v k target => jumpEqualConstant (onVariable v) k (onLabel target)
  | jumpEqualVariable v source target =>
    jumpEqualVariable (onVariable v) (onVariable source) (onLabel target)
  | quotation v call => quotation (onVariable v) (onCall call)
  | jumpEqualFunction v call target =>
    jumpEqualFunction (onVariable v) (onCall call) (onLabel target)
where
  /-- The variable in the place of another one. -/
  onVariable (v : Variable) : Variable := (m v).getD v
  /-- A call with other variables in its arguments. -/
  onCall (call : Call) : Call := ⟨call.function, Argument.renameList m call.arguments⟩

end Operation

/-- An instruction of a program. -/
structure Instruction where
  /-- The label that jumps to this instruction name. -/
  label : Option Label
  /-- What the instruction does. -/
  operation : Operation
  /-- Variables given to the instruction that its opcode does not read. -/
  spareVariables : List Variable
  /-- A target given to the instruction that its opcode does not jump to. -/
  spareTarget : Option Label
  deriving DecidableEq, Repr

namespace Instruction

/-- An instruction without spare operands. -/
def plain (label : Option Label) (operation : Operation) : Instruction :=
  ⟨label, operation, [], none⟩

/-- The opcode of an instruction. -/
def opcode (i : Instruction) : Opcode :=
  i.operation.opcode

/-- An instruction that no expansion replaces. -/
def isBasic (i : Instruction) : Bool :=
  i.opcode.isBasic

/-- The declared cost of an instruction; for a quotation, its base cost. -/
def cycles (i : Instruction) : Nat :=
  i.opcode.cycles

/-- The target of an instruction, spare or not. -/
def target (i : Instruction) : Option Label :=
  i.operation.target?.or i.spareTarget

/-- The arguments of a quotation. -/
def arguments (i : Instruction) : List Argument :=
  match i.operation.call? with
  | some call => call.arguments
  | none => []

/-- The variables among an instruction's operands, arguments of calls apart. -/
def operandVariables (i : Instruction) : List Variable :=
  i.operation.subject?.toList ++ i.operation.source?.toList ++ i.spareVariables

/-- The variables named in the arguments of a quotation, in order. -/
def callVariables (i : Instruction) : List Variable :=
  Argument.vars i.arguments

/-- All variables that an instruction mentions: its operands first, each once. -/
def referencedVariables (i : Instruction) : List Variable :=
  (i.operandVariables ++ i.callVariables).eraseDups

/-- The functions that an instruction calls explicitly, at any depth, in order. -/
def calledFunctions (i : Instruction) : List String :=
  match i.operation.call? with
  | some call => Argument.calledFunctions [call.toArgument]
  | none => []

/-- The bare names in the arguments of a quotation that spell no variable. -/
def bareNames (i : Instruction) : List String :=
  Argument.bareNames i.arguments

/-- An argument spells a variable whose number has too many digits. -/
def hasOverlongName (i : Instruction) : Bool :=
  (Argument.walk i.arguments).any Argument.isOverlong

/-- Puts other variables and labels in the place of those of an instruction, spare ones
included. -/
def rename (m : Argument.Renaming) (onLabel : Label → Label) (i : Instruction) : Instruction where
  label := i.label.map onLabel
  operation := i.operation.rename m onLabel
  spareVariables := i.spareVariables.map fun v => (m v).getD v
  spareTarget := i.spareTarget.map onLabel

end Instruction

end RegisterMachine
