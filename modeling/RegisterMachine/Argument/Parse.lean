import RegisterMachine.Argument.Basic
import RegisterMachine.Error

/-!
# Reading argument text

The grammar of argument text, where a list may also be empty at the top:

    arguments := [argument (',' argument)*]
    argument  := NUMBER
               | IDENTIFIER
               | '(' IDENTIFIER (',' argument)* ')'
               | IDENTIFIER '(' arguments ')'

The reader descends into the tokens. Its first number bounds the descent; every step into a list or
an item uses one unit, and twice the number of tokens is enough for all of them.
-/

namespace RegisterMachine

namespace Argument

/-- Where a reader stands: the tokens left, and the end of the text. -/
structure Reader where
  /-- The position of the end of the text. -/
  stop : Nat
  /-- The tokens that are left. -/
  left : List Token

namespace Reader

/-- The next token, or the end. -/
def next (r : Reader) : Token :=
  r.left.headD (Token.atEnd r.stop)

/-- The reader behind the next token. -/
def skip (r : Reader) : Reader :=
  { r with left := r.left.tail }

/-- The refusal of the next token. -/
def refuse {α : Type} (r : Reader) (fault : TokenKind → Fault) : Except Failure α :=
  .error (.misplaced (fault r.next.kind) r.next.position)

/-- The next token, which has to be of a kind, and the reader behind it. -/
def expect (r : Reader) (kind : TokenKind) : Except Failure (Token × Reader) :=
  if r.next.kind = kind then .ok (r.next, r.skip) else r.refuse (.expected kind)

end Reader

/-- The value of an integer with an optional sign. -/
def integer (text : String) : Except Text.NumeralFault Int :=
  match text.toList with
  | '-' :: digits => (fun n : Nat => -(n : Int)) <$> Text.numeral digits
  | '+' :: digits => Int.ofNat <$> Text.numeral digits
  | digits => Int.ofNat <$> Text.numeral digits

mutual

/-- Reads one argument. -/
def readItem : Nat → Reader → Except Failure (Argument × Reader)
  | 0, r => r.refuse .expectedArgument
  | fuel + 1, r =>
    match r.next.kind with
    | .number => do
      let value ← (integer r.next.text).mapError .numeral
      return (.constant value, r.skip)
    | .leftParen => do
      let (head, r) ← r.skip.expect .identifier
      let (arguments, r) ←
        if r.next.kind = .comma then readItems fuel .rightParen r.skip else .ok ([], r)
      let (_, r) ← r.expect .rightParen
      return (.call head.text arguments, r)
    | .identifier =>
      let head := r.next.text
      if r.skip.next.kind = .leftParen then do
        let r := r.skip.skip
        let (arguments, r) ←
          if r.next.kind = .rightParen then .ok ([], r) else readItems fuel .rightParen r
        let (_, r) ← r.expect .rightParen
        return (.call head arguments, r)
      else .ok (.name head, r.skip)
    | _ => r.refuse .expectedArgument

/-- Reads arguments separated by commas, up to the closer. -/
def readItems : Nat → TokenKind → Reader → Except Failure (List Argument × Reader)
  | 0, _, r => r.refuse .expectedArgument
  | fuel + 1, closer, r => do
    let (a, r) ← readItem fuel r
    if r.next.kind = .comma then
      let (as, r) ← readItems fuel closer r.skip
      return (a :: as, r)
    else if r.next.kind = closer then return ([a], r)
    else r.refuse (.expectedSeparator closer)

end

/-- Reads a whole list of tokens as arguments. -/
def ofTokens (stop : Nat) (ts : List Token) : Except Failure (List Argument) :=
  if ts.isEmpty then .ok []
  else do
    let (arguments, _) ← readItems (2 * ts.length + 2) .atEnd ⟨stop, ts⟩
    return arguments

/-- The arguments that a text spells. -/
def ofText (s : String) : Except Failure (List Argument) := do
  ofTokens s.toList.length (← tokens s.toList)

/-- The single call that a text spells. -/
def callOfText (s : String) : Except Failure Call := do
  match ← ofText s with
  | [.call function arguments] => return ⟨function, arguments⟩
  | _ => .error (.misplaced .expectedCall 0)

/-- A failure to read a text as the error that names the text. -/
def Failure.toError (s : String) : Failure → Error
  | .misplaced fault position => .argumentSyntax fault s position
  | .numeral fault => .numeral fault

/-- The arguments that a text spells; a blank text spells none. -/
def parseList (s : String) : Except Error (List Argument) :=
  (ofText s).mapError (Failure.toError s)

/-- Refuses arguments that name a variable by too many digits. Such a name is read as any other, but
its variable cannot be told. -/
def checkNames (as : List Argument) : Except Error Unit :=
  if (walk as).any isOverlong then .error (.numeral .tooLong) else .ok ()

/-- Replaces the variables of an argument list, all at once, where every variable has to be told
from its name and every name has to be one that a variable can be told from. -/
def substitute (m : Renaming) (as : List Argument) : Except Error (List Argument) := do
  checkNames as
  checkNames (renameList m as)
  return renameList m as

end Argument

/-- The single call that a text spells, in either form. -/
def Call.parse (s : String) : Except Error Call :=
  (Argument.callOfText s).mapError (Argument.Failure.toError s)

end RegisterMachine
