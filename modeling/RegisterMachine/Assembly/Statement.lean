import RegisterMachine.Argument.Parse
import RegisterMachine.Assembly.Lexer
import RegisterMachine.Instruction.Basic
import RegisterMachine.Label.Parse
import RegisterMachine.Variable.Parse

/-!
# Statements

A line of assembly text that is not blank is a header or a statement:

    PROGRAM name                     FUNCTION name
    v <- v                           GOTO L
    v <- v + 1                       IF v != 0 GOTO L
    v <- v - 1                       IF v = 0 GOTO L
    v <- 0                           IF v = k GOTO L
    v <- k                           IF v = w GOTO L
    v <- w                           IF v = (F,args) GOTO L
    v <- (F,args)

A statement may carry a label in brackets in front of it. Nothing of a statement is on another line,
so a line is read from its own tokens; all that it needs to know of the lines above are the labels
that were declared there.
-/

namespace RegisterMachine.Assembly

/-- Where a reader stands in a line: the tokens left, and the end of the line. -/
structure LineReader where
  /-- The number of the line. -/
  number : Nat
  /-- The column of the end of the line. -/
  width : Nat
  /-- The tokens that are left. -/
  left : List Token

namespace LineReader

/-- The next token, or the end of the line. -/
def next (r : LineReader) : Token :=
  r.left.headD ⟨.lineEnd, "", r.width⟩

/-- The reader behind the next token. -/
def skip (r : LineReader) : LineReader :=
  { r with left := r.left.tail }

/-- The complaint about a token. -/
def complain {α : Type} (r : LineReader) (t : Token) (fault : Fault) : Except Error α :=
  .error (.assembly fault r.number t.column)

/-- The next token, which has to be of a kind, and the reader behind it. -/
def expect (r : LineReader) (kind : TokenKind) : Except Error (Token × LineReader) :=
  if r.next.kind = kind then .ok (r.next, r.skip)
  else r.complain r.next (.expected kind r.next.kind)

/-- Refuses whatever stands behind the end of a statement. -/
def finish (r : LineReader) : Except Error Unit :=
  if r.next.kind = .lineEnd then .ok () else r.complain r.next (.trailing r.next.text)

/-! ### Operands -/

/-- The variable that a word spells. -/
def variableOf (r : LineReader) (t : Token) : Except Error Variable :=
  match Variable.parse t.text with
  | .error (.invalidVariable text) => r.complain t (.notVariable text)
  | answer => answer

/-- The label that a word spells, if it spells one. -/
def labelOf (r : LineReader) (t : Token) : Except Error (Option Label) :=
  match Label.parse t.text with
  | .error (.invalidLabel text) => r.complain t (.notLabel text)
  | answer => answer

/-- The call that a token spells. -/
def callOf (r : LineReader) (t : Token) : Except Error Call :=
  match Call.parse t.text with
  | .error (.argumentSyntax fault text position) =>
    r.complain t (.malformedCall fault text position)
  | answer => answer

/-- The number that a token spells. -/
def numberOf (t : Token) : Except Error Nat :=
  (Text.numeral t.text.toList).mapError .numeral

/-- Reads the label that a jump leads to. -/
def readTarget (r : LineReader) : Except Error (Label × LineReader) := do
  let (t, r) ← r.expect .identifier
  match ← r.labelOf t with
  | some label => return (label, r)
  | none => r.complain t (.notLabel t.text)

/-- Reads `GOTO L`. -/
def readGoto (r : LineReader) : Except Error (Label × LineReader) := do
  let (_, r) ← r.expect .goto
  r.readTarget

/-! ### Statements -/

/-- Reads the rest of `IF v …`. -/
def readCondition (r : LineReader) : Except Error (Operation × LineReader) := do
  let (t, r) ← r.expect .identifier
  let v ← r.variableOf t
  let comparison := r.next
  let r := r.skip
  match comparison.kind with
  | .notEqual => do
    let (t, r) ← r.expect .number
    if (← numberOf t) ≠ 0 then r.complain t .onlyZero
    let (target, r) ← r.readGoto
    return (.jumpNotZero v target, r)
  | .equal => do
    let operand := r.next
    let r := r.skip
    match operand.kind with
    | .number => do
      let k ← numberOf operand
      let (target, r) ← r.readGoto
      return (if k = 0 then .jumpZero v target else .jumpEqualConstant v k target, r)
    | .identifier => do
      let source ← r.variableOf operand
      let (target, r) ← r.readGoto
      return (.jumpEqualVariable v source target, r)
    | .call => do
      let call ← r.callOf operand
      let (target, r) ← r.readGoto
      return (.jumpEqualFunction v call target, r)
    | _ => r.complain operand .expectedOperand
  | _ => r.complain comparison .expectedComparison

/-- Reads the rest of `v <- source + 1` or `v <- source - 1`, from the sign on. -/
def readCount (r : LineReader) (v source : Variable) : Except Error (Operation × LineReader) := do
  let sign := r.next
  let (t, r) ← r.skip.expect .number
  if source ≠ v then r.complain sign (.onlyOne v sign.text)
  if (← numberOf t) ≠ 1 then r.complain sign (.onlyOne v sign.text)
  return (if sign.kind = .plus then .increase v else .decrease v, r)

/-- Reads `v <- …`. -/
def readAssignment (r : LineReader) : Except Error (Operation × LineReader) := do
  let v ← r.variableOf r.next
  let (_, r) ← r.skip.expect .arrow
  let operand := r.next
  let r := r.skip
  match operand.kind with
  | .number => do
    let k ← numberOf operand
    return (if k = 0 then .zeroVariable v else .constantAssignment v k, r)
  | .call => do
    let call ← r.callOf operand
    return (.quotation v call, r)
  | .identifier => do
    let source ← r.variableOf operand
    if r.next.kind = .plus ∨ r.next.kind = .minus then r.readCount v source
    else return (if source = v then .neutral v else .assignment v source, r)
  | _ => r.complain operand .expectedOperand

/-- Reads what a statement does. -/
def readOperation (r : LineReader) : Except Error (Operation × LineReader) :=
  match r.next.kind with
  | .goto => do
    let (target, r) ← r.skip.readTarget
    return (.gotoLabel target, r)
  | .ifWord => r.skip.readCondition
  | .identifier => r.readAssignment
  | kind => r.complain r.next (.expectedStatement kind)

/-- Reads the label in front of a statement, if there is one; it must not be declared already, on
one of the lines given with the labels. -/
def readLabel (r : LineReader) (declared : List (Label × Nat)) :
    Except Error (Option Label × LineReader) :=
  if r.next.kind = .leftBracket then do
    let (t, r) ← r.skip.expect .identifier
    match (← r.labelOf t).filter Label.isNumbered with
    | none => r.complain t (.notInstructionLabel t.text)
    | some label =>
      match declared.lookup label with
      | some firstLine => r.complain t (.duplicateLabel label firstLine)
      | none => do
        let (_, r) ← r.expect .rightBracket
        return (some label, r)
  else .ok (none, r)

/-- Reads a statement. -/
def readStatement (r : LineReader) (declared : List (Label × Nat)) : Except Error Instruction := do
  let (label, r) ← r.readLabel declared
  let (operation, r) ← r.readOperation
  r.finish
  return .plain label operation

/-- Reads the rest of a header, from the name on. -/
def readHeader (r : LineReader) : Except Error String := do
  let (t, r) ← r.expect .identifier
  r.finish
  return t.text

end LineReader

/-- The reader at the start of a line. -/
def TokenLine.reader (line : TokenLine) : LineReader :=
  ⟨line.number, line.width, line.tokens⟩

end RegisterMachine.Assembly
