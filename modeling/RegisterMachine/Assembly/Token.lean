import RegisterMachine.Argument.Token
import RegisterMachine.Label

/-!
# Tokens and faults of assembly text

Assembly text is read line by line. A line is a header, a statement or blank, and what a line may be
made of are the tokens of this module. A call, in the form `(F,a)` or `F(a)`, is one token, whose
text is read later as argument text.

The faults are all the ways in which assembly text can be malformed, each with its wording.
-/

namespace RegisterMachine.Assembly

/-- The kinds of token of assembly text, the ends of a line and of the text included. -/
inductive TokenKind where
  | program
  | function
  | ifWord
  | goto
  | leftBracket
  | rightBracket
  | arrow
  | plus
  | minus
  | equal
  | notEqual
  | number
  | identifier
  | call
  | lineEnd
  | atEnd
  deriving DecidableEq, Repr

/-- The word for a kind of token. -/
def TokenKind.name : TokenKind → String
  | program => "PROGRAM"
  | function => "FUNCTION"
  | ifWord => "IF"
  | goto => "GOTO"
  | leftBracket => "LBRACKET"
  | rightBracket => "RBRACKET"
  | arrow => "ARROW"
  | plus => "PLUS"
  | minus => "MINUS"
  | equal => "EQUAL"
  | notEqual => "NOT_EQUAL"
  | number => "NUMBER"
  | identifier => "IDENTIFIER"
  | call => "CALL"
  | lineEnd => "NEWLINE"
  | atEnd => "EOF"

/-- A token of one line. -/
structure Token where
  /-- Its kind. -/
  kind : TokenKind
  /-- Its text. -/
  text : String
  /-- The column of its first character. -/
  column : Nat
  deriving DecidableEq, Repr

/-- What is wrong with assembly text. -/
inductive Fault where
  /-- No token starts with this character. -/
  | unexpectedCharacter (c : Char)
  /-- A closing parenthesis stands outside every call. -/
  | unbalancedRight
  /-- A call has no closing parenthesis on its line. -/
  | unbalancedLeft
  /-- Another kind of token has to stand here. -/
  | expected (kind got : TokenKind)
  /-- No statement starts with this kind of token. -/
  | expectedStatement (got : TokenKind)
  /-- The variable of a condition has to be compared. -/
  | expectedComparison
  /-- The right side is neither a constant nor a variable nor a call. -/
  | expectedOperand
  /-- A variable is compared for inequality with something else than zero. -/
  | onlyZero
  /-- A variable is changed by something else than one of its own. -/
  | onlyOne (v : Variable) (sign : String)
  /-- A word that is no variable. -/
  | notVariable (text : String)
  /-- A word that is no label. -/
  | notLabel (text : String)
  /-- A label that cannot stand on an instruction. -/
  | notInstructionLabel (text : String)
  /-- A label that stands on two instructions of one section. -/
  | duplicateLabel (label : Label) (firstLine : Nat)
  /-- A call whose text is malformed. -/
  | malformedCall (fault : Argument.Fault) (text : String) (position : Nat)
  /-- A statement or header goes on after its end. -/
  | trailing (text : String)
  /-- No section is the main program. -/
  | noMain
  /-- Two sections are the main program. -/
  | secondMain
  /-- Two sections have one name. -/
  | definedTwice (name : String)
  deriving DecidableEq, Repr

end RegisterMachine.Assembly
