import RegisterMachine.Argument.Parse
import RegisterMachine.Error
import RegisterMachine.Instruction.Basic

/-!
# Drafts of instructions

A draft is an opcode with any operands. `Draft.toInstruction` checks that the opcode has the
operands it needs, in the order of its table, that a constant is not negative, whether or not the
opcode reads it, and that the arguments of a call can be read. What the opcode does not need becomes
a spare operand, or is dropped if it is no name.
-/

namespace RegisterMachine

/-- An opcode with operands that have not been checked. -/
structure Draft where
  /-- The opcode. -/
  opcode : Opcode
  /-- The variable. -/
  subject? : Option Variable
  /-- The label of the instruction itself. -/
  label? : Option Label
  /-- The label to jump to. -/
  target? : Option Label
  /-- The constant. -/
  constant? : Option Int
  /-- The variable to copy or to compare with. -/
  source? : Option Variable
  /-- The function to call. -/
  function? : Option String
  /-- The text of the arguments of the call. -/
  arguments : String
  deriving Repr

namespace Draft

variable (d : Draft)

/-- The function to call, unless it is blank. -/
def calledFunction? : Option String :=
  d.function?.filter fun f => !Text.allBlank f.toList

/-- The draft gives an operand. -/
def has : Operand → Bool
  | .variable => d.subject?.isSome
  | .target => d.target?.isSome
  | .constant => d.constant?.isSome
  | .source => d.source?.isSome
  | .function => d.calledFunction?.isSome

/-- Refuses a draft that lacks an operand. -/
def require (operand : Operand) : Except Error Unit :=
  if d.has operand then .ok () else .error (.missingOperand d.opcode operand)

/-- Refuses a draft with a negative constant. -/
def checkConstant : Except Error Unit :=
  match d.constant? with
  | some value =>
    if value < 0 then .error ((Error.negativeConstant d.opcode value).reporting value.natAbs)
    else .ok ()
  | none => .ok ()

/-- An operand that the opcode needs. -/
def need {α : Type} (operand : Operand) : Option α → Except Error α
  | some a => .ok a
  | none => .error (.missingOperand d.opcode operand)

/-- The operation of a draft. -/
def operation : Except Error Operation := do
  let v := d.need .variable d.subject?
  let target := d.need .target d.target?
  let k := Int.toNat <$> d.need .constant d.constant?
  let source := d.need .source d.source?
  let call := do
    let function ← d.need .function d.calledFunction?
    return (⟨function, ← Argument.parseList d.arguments⟩ : Call)
  match d.opcode with
  | .neutral => return .neutral (← v)
  | .increase => return .increase (← v)
  | .decrease => return .decrease (← v)
  | .jumpNotZero => return .jumpNotZero (← v) (← target)
  | .zeroVariable => return .zeroVariable (← v)
  | .gotoLabel => return .gotoLabel (← target)
  | .constantAssignment => return .constantAssignment (← v) (← k)
  | .jumpZero => return .jumpZero (← v) (← target)
  | .assignment => return .assignment (← v) (← source)
  | .jumpEqualConstant => return .jumpEqualConstant (← v) (← k) (← target)
  | .jumpEqualVariable => return .jumpEqualVariable (← v) (← source) (← target)
  | .quotation => return .quotation (← v) (← call)
  | .jumpEqualFunction => return .jumpEqualFunction (← v) (← call) (← target)

/-- The variables of the draft that its opcode does not need. -/
def spareVariables : List Variable :=
  (if d.opcode.operands.contains .variable then [] else d.subject?.toList)
    ++ if d.opcode.operands.contains .source then [] else d.source?.toList

/-- The target of the draft, if its opcode does not need one. -/
def spareTarget : Option Label :=
  if d.opcode.isJump then none else d.target?

/-- The instruction of a draft. -/
def toInstruction : Except Error Instruction := do
  d.opcode.operands.forM d.require
  d.checkConstant
  return ⟨d.label?, ← d.operation, d.spareVariables, d.spareTarget⟩

end Draft

/-- The call of an instruction, which only quotations have. -/
def Instruction.call (i : Instruction) : Except Error Call :=
  match i.operation.call? with
  | some call => .ok call
  | none => .error (.noCall i.opcode)

end RegisterMachine
