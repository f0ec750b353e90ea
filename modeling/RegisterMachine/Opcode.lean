/-!
# Opcodes

The instruction set. Four opcodes are basic; the others are synthetic and can be expanded into
them. The table gives for each opcode its cost in cycles (for the two quotations the base cost
only), its degree, which is the number of rounds that expand it into basic instructions, and the
operands it needs. The degree of a quotation depends on the program it calls.

| opcode | basic | cycles | degree | statement |
|---|---|---|---|---|
| `NEUTRAL` | yes | 0 | 0 | `v <- v` |
| `INCREASE` | yes | 1 | 0 | `v <- v + 1` |
| `DECREASE` | yes | 1 | 0 | `v <- v - 1`, where `0 - 1` is `0` |
| `JUMP_NOT_ZERO` | yes | 2 | 0 | `IF v != 0 GOTO L` |
| `ZERO_VARIABLE` | no | 1 | 1 | `v <- 0` |
| `GOTO_LABEL` | no | 1 | 1 | `GOTO L` |
| `CONSTANT_ASSIGNMENT` | no | 2 | 2 | `v <- k` |
| `JUMP_ZERO` | no | 2 | 2 | `IF v = 0 GOTO L` |
| `ASSIGNMENT` | no | 4 | 2 | `v <- w` |
| `JUMP_EQUAL_CONSTANT` | no | 2 | 3 | `IF v = k GOTO L` |
| `JUMP_EQUAL_VARIABLE` | no | 2 | 3 | `IF v = w GOTO L` |
| `QUOTATION` | no | 5 | | `v <- (F,args)` |
| `JUMP_EQUAL_FUNCTION` | no | 6 | | `IF v = (F,args) GOTO L` |
-/

namespace RegisterMachine

/-- The kinds of instruction. -/
inductive Opcode where
  | neutral
  | increase
  | decrease
  | jumpNotZero
  | zeroVariable
  | gotoLabel
  | constantAssignment
  | jumpZero
  | assignment
  | jumpEqualConstant
  | jumpEqualVariable
  | quotation
  | jumpEqualFunction
  deriving DecidableEq, Repr

/-- The operands that an opcode may need. -/
inductive Operand where
  | variable
  | target
  | constant
  | source
  | function
  deriving DecidableEq, Repr

/-- The word for an operand. -/
def Operand.name : Operand → String
  | .variable => "variable"
  | .target => "target"
  | .constant => "constant"
  | .source => "source"
  | .function => "function"

namespace Opcode

/-- All opcodes, in the order of the table. -/
def all : List Opcode :=
  [neutral, increase, decrease, jumpNotZero, zeroVariable, gotoLabel, constantAssignment, jumpZero,
   assignment, jumpEqualConstant, jumpEqualVariable, quotation, jumpEqualFunction]

/-- The name of an opcode. -/
def name : Opcode → String
  | neutral => "NEUTRAL"
  | increase => "INCREASE"
  | decrease => "DECREASE"
  | jumpNotZero => "JUMP_NOT_ZERO"
  | zeroVariable => "ZERO_VARIABLE"
  | gotoLabel => "GOTO_LABEL"
  | constantAssignment => "CONSTANT_ASSIGNMENT"
  | jumpZero => "JUMP_ZERO"
  | assignment => "ASSIGNMENT"
  | jumpEqualConstant => "JUMP_EQUAL_CONSTANT"
  | jumpEqualVariable => "JUMP_EQUAL_VARIABLE"
  | quotation => "QUOTATION"
  | jumpEqualFunction => "JUMP_EQUAL_FUNCTION"

/-- The opcode of a name. -/
def ofName? (s : String) : Option Opcode :=
  all.find? (·.name == s)

/-- The opcodes that no expansion replaces. -/
def isBasic : Opcode → Bool
  | neutral | increase | decrease | jumpNotZero => true
  | _ => false

/-- The cost of one execution; for a quotation, without the cost of the call. -/
def cycles : Opcode → Nat
  | neutral => 0
  | increase | decrease | zeroVariable | gotoLabel => 1
  | jumpNotZero | constantAssignment | jumpZero | jumpEqualConstant | jumpEqualVariable => 2
  | assignment => 4
  | quotation => 5
  | jumpEqualFunction => 6

/-- The rounds of expansion an opcode needs, where they do not depend on a call. -/
def degree? : Opcode → Option Nat
  | neutral | increase | decrease | jumpNotZero => some 0
  | zeroVariable | gotoLabel => some 1
  | constantAssignment | jumpZero | assignment => some 2
  | jumpEqualConstant | jumpEqualVariable => some 3
  | quotation | jumpEqualFunction => none

/-- The operands an opcode needs, in the order in which they are checked. -/
def operands : Opcode → List Operand
  | neutral | increase | decrease | zeroVariable => [.variable]
  | jumpNotZero | jumpZero => [.variable, .target]
  | gotoLabel => [.target]
  | constantAssignment => [.variable, .constant]
  | assignment => [.variable, .source]
  | jumpEqualConstant => [.variable, .constant, .target]
  | jumpEqualVariable => [.variable, .source, .target]
  | quotation => [.variable, .function]
  | jumpEqualFunction => [.variable, .function, .target]

/-- The opcodes that can jump. -/
def isJump (opcode : Opcode) : Bool :=
  opcode.operands.contains .target

/-- The opcodes that call a program. -/
def isQuotation (opcode : Opcode) : Bool :=
  opcode.operands.contains .function

end Opcode

end RegisterMachine
