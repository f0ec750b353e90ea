import RegisterMachine.Assembly.Token
import RegisterMachine.InputValue
import RegisterMachine.Sorted
import RegisterMachine.Tier

/-!
# Errors

Every failure has a cause of its own, and its wording follows from the cause.

* Malformed programs and libraries: labels, operands, names, calls and assembly text.
* Unusable inputs of a run.
* Arguments of calls that are malformed or have no value.
* Requests that a tier, a library or a debugging session has to refuse.
* Numbers of too many digits, which are neither read nor written. A failure whose report shows such
  a number is of this kind too.

Decrementing a register that holds zero is no failure.
-/

namespace RegisterMachine

/-- Why a debugging session refuses a request. -/
inductive DebugFault where
  | alreadyStarted
  | notStarted
  | notFinished
  /-- A run cannot go on that has not begun. -/
  | cannotBefore (action : String)
  /-- A run cannot go on after its session was stopped. -/
  | cannotStopped (action : String)
  /-- A run cannot go on after its end. -/
  | cannotFinished (action : String)
  deriving DecidableEq, Repr

/-- A refusal in words. -/
def DebugFault.message : DebugFault → String
  | alreadyStarted => "already started"
  | notStarted => "not started"
  | notFinished => "run has not finished"
  | cannotBefore action => s!"cannot {action}: not started"
  | cannotStopped action => s!"cannot {action}: session stopped"
  | cannotFinished action => s!"cannot {action}: program finished"

/-- The causes of failure. -/
inductive Error where
  /-- Two instructions of a program carry one label. -/
  | duplicateLabel (label : Label) (first second : Nat) (program : String)
  /-- No instruction of a program carries a label. -/
  | unknownLabel (label : Option Label) (program : String) (index : Option Nat)
  /-- No program of a library has a name. -/
  | unknownFunction (name caller : String)
  /-- An instruction lacks an operand. -/
  | missingOperand (opcode : Opcode) (operand : Operand)
  /-- The constant of an instruction is negative. -/
  | negativeConstant (opcode : Opcode) (value : Int)
  /-- An instruction that is no quotation is asked for its call. -/
  | noCall (opcode : Opcode)
  /-- A program is to be expanded a negative number of times. -/
  | negativeDegree (degree : Int)
  /-- A text spells no variable. -/
  | invalidVariable (text : String)
  /-- A text spells no label. -/
  | invalidLabel (text : String)
  /-- Programs call each other in a circle. -/
  | cyclicCall (cycle : List String)
  /-- Assembly text is malformed. -/
  | assembly (fault : Assembly.Fault) (line column : Nat)
  /-- A frozen library is to be extended. -/
  | frozen (name : String)
  /-- A run is given too few inputs. -/
  | insufficientInput (required supplied : Nat) (program : String)
  /-- An input is no non-negative integer. -/
  | invalidInput (value : InputValue) (position : Nat)
  /-- Argument text is malformed. -/
  | argumentSyntax (fault : Argument.Fault) (text : String) (position : Nat)
  /-- A bare name in an argument is neither a variable nor a function. -/
  | unknownVariable (name : String)
  /-- A negative constant is passed to a program. -/
  | negativeArgument (value : Int) (function : String)
  /-- A tier does not support all instructions of a program. -/
  | unsupported (tier : Tier) (opcodes : List Opcode)
  /-- A debugging session refuses a request. -/
  | debugger (fault : DebugFault)
  /-- No tier has a name. -/
  | unknownTier (text : String)
  /-- A numeral has no value. -/
  | numeral (fault : Text.NumeralFault)
  /-- A digit or letter of assembly text starts neither a number nor a word. -/
  | unreadable (c : Char) (line column : Nat)
  /-- The program counter points at no instruction. -/
  | programCounter (pc : Nat) (program : String)
  deriving Repr

/-! ### Numbers in texts -/

/-- What shows some numbers. None of them may be too long to be written. -/
def showing {α : Type} (numbers : List Nat) (a : α) : Except Error α :=
  if ∀ n ∈ numbers, Text.Short n then .ok a else .error (.numeral .tooLong)

theorem showing_eq_ok_iff {α : Type} {numbers : List Nat} {a b : α} :
    showing numbers a = .ok b ↔ (∀ n ∈ numbers, Text.Short n) ∧ a = b := by
  rw [showing]
  split
  · rename_i h
    rw [Except.ok.injEq, and_iff_right h]
  · rename_i h
    exact ⟨nofun, fun hb => absurd hb.1 h⟩

theorem showing_eq_error_iff {α : Type} {numbers : List Nat} {a : α} {cause : Error} :
    showing numbers a = .error cause ↔
      (¬ ∀ n ∈ numbers, Text.Short n) ∧ cause = .numeral .tooLong := by
  rw [showing]
  split
  · rename_i h
    exact ⟨nofun, fun hb => absurd h hb.1⟩
  · rename_i h
    rw [Except.error.injEq, and_iff_right h, eq_comm]

/-- The failure that comes of a cause whose report shows a number. -/
def Error.reporting (n : Nat) (cause : Error) : Error :=
  if Text.Short n then cause else .numeral .tooLong

/-! ### Wording -/

/-- A name after a word, where it is not empty. -/
def naming (word name : String) : String :=
  if name.isEmpty then "" else word ++ "'" ++ name ++ "'"

/-- The complaint about a text that spells no variable. -/
def invalidVariableMessage (text : String) : String :=
  s!"Not a variable name: {Text.quoted text} (expected x<n>, z<n> or y)"

/-- The complaint about a text that spells no label. -/
def invalidLabelMessage (text : String) : String :=
  s!"Not a label: {Text.quoted text} (expected L<n> with n >= 1, or EXIT)"

/-- The complaint about malformed argument text. -/
def argumentSyntaxMessage (fault : Argument.Fault) (text : String) (position : Nat) : String :=
  s!"{fault.message} at position {position} in: {Text.quoted text}"

/-- A fault of assembly text in words. -/
def Assembly.Fault.message : Assembly.Fault → String
  | unexpectedCharacter c => "Unexpected character: " ++ Text.quoted (String.singleton c)
  | unbalancedRight => "Unbalanced ')'"
  | unbalancedLeft => "Unbalanced '(' in function call"
  | expected kind got => s!"Expected {kind.name}, got {got.name}"
  | expectedStatement got => s!"Expected a statement, got {got.name}"
  | expectedComparison => "Expected '=' or '!='"
  | expectedOperand => "Expected a constant, variable or function call"
  | onlyZero => "Only 'IF v != 0' is supported"
  | onlyOne v sign => s!"Only '{v} <- {v} {sign} 1' is supported"
  | notVariable text => invalidVariableMessage text
  | notLabel text => invalidLabelMessage text
  | notInstructionLabel text => s!"'{text}' cannot label an instruction"
  | duplicateLabel label firstLine =>
    s!"Duplicate label '{label}' (first declared on line {firstLine})"
  | malformedCall fault text position => argumentSyntaxMessage fault text position
  | trailing text => s!"Unexpected {Text.quoted text} after statement"
  | noMain => "No main program (add a PROGRAM section)"
  | secondMain => "More than one main program"
  | definedTwice name => s!"'{name}' is defined twice"

/-- The route around a circle of calls, back to its start. -/
def circleRoute (cycle : List String) : String :=
  " -> ".intercalate (cycle ++ cycle.take 1)

/-- A failure in words. -/
def Error.message : Error → String
  | duplicateLabel label first second program =>
    s!"Duplicate label '{label}'" ++ naming " in program " program
      ++ s!" at instructions #{first + 1} and #{second + 1}"
  | unknownLabel label program index =>
    s!"Unknown label '{Label.nameOf label}'" ++ naming " in program " program
      ++ match index with
        | none => ""
        | some i => s!" (referenced by instruction #{i + 1})"
  | unknownFunction name caller =>
    s!"Unknown function '{name}'"
      ++ if caller.isEmpty then "" else s!" (called from '{caller}')"
  | missingOperand opcode operand => s!"{opcode.name} is missing its '{operand.name}' operand"
  | negativeConstant opcode value =>
    s!"{opcode.name} has an invalid 'constant' operand: {value}"
  | noCall opcode => s!"{opcode.name} has an invalid 'function' operand: None"
  | negativeDegree degree => s!"expand has an invalid 'degree' operand: {degree}"
  | invalidVariable text => invalidVariableMessage text
  | invalidLabel text => invalidLabelMessage text
  | cyclicCall cycle => s!"Recursive function calls are not supported: {circleRoute cycle}"
  | assembly fault line column => s!"Line {line}, Col {column}: {fault.message}"
  | frozen name => s!"Cannot register '{name}': the function registry is frozen"
  | insufficientInput required supplied program =>
    "Program" ++ naming " " program
      ++ s!" needs {required} input(s) but {supplied} were supplied"
  | invalidInput value position =>
    s!"Input x{position + 1} must be a non-negative integer, got {value.display}"
  | argumentSyntax fault text position => argumentSyntaxMessage fault text position
  | unknownVariable name => s!"Unknown variable in function arguments: {Text.quoted name}"
  | negativeArgument value function =>
    s!"Argument {value} passed to '{function}' is negative; "
      ++ "registers only hold non-negative values"
  | unsupported tier opcodes =>
    s!"Architecture {tier.name} does not support: "
      ++ ", ".intercalate (sortedSet (opcodes.map Opcode.name))
  | debugger fault => s!"Debug session: {fault.message}"
  | unknownTier text => s!"Unknown architecture '{text}'. Known: ['I', 'II', 'III', 'IV']"
  | numeral .tooLong => s!"A numeral has more than {Text.maxDigits} digits"
  | numeral .notDecimal => "A numeral holds a digit without a decimal value"
  | unreadable c line column =>
    s!"Line {line}, Col {column}: {Text.quoted (String.singleton c)} starts no word"
  | programCounter pc program => s!"No instruction #{pc + 1}" ++ naming " in program " program

end RegisterMachine
