import RegisterMachine.Text.Blank
import RegisterMachine.Text.Digit
import RegisterMachine.Text.Letter
import RegisterMachine.Text.Numeral
import RegisterMachine.Text.Quoted

/-!
# Tokens of argument text

Argument text is made of parentheses, commas, integers with an optional sign, and identifiers, with
blanks anywhere between them. Every word is as long as it can be. Parentheses have to balance
already here: a closing one without its opening one is refused where it stands, a missing closing
one at the end of the text.

* `Token`, `TokenKind` — what argument text is made of;
* `Fault`, `Failure` — why a text is refused, and where;
* `tokens` — the tokens of a text.

The end of the text is not a token of the list. Where a reader looks beyond the last token it sees
`Token.atEnd`, so there is no position that it could not look at.
-/

namespace RegisterMachine.Argument

/-- The kinds of token of argument text, its end included. -/
inductive TokenKind where
  | leftParen
  | rightParen
  | comma
  | number
  | identifier
  | atEnd
  deriving DecidableEq, Repr

/-- The word for a kind of token. -/
def TokenKind.name : TokenKind → String
  | leftParen => "LPAREN"
  | rightParen => "RPAREN"
  | comma => "COMMA"
  | number => "NUMBER"
  | identifier => "IDENTIFIER"
  | atEnd => "EOF"

/-- A token of argument text. -/
structure Token where
  /-- Its kind. -/
  kind : TokenKind
  /-- Its text. -/
  text : String
  /-- The position of its first character. -/
  position : Nat
  deriving DecidableEq, Repr

/-- The end of a text, seen as a token. -/
def Token.atEnd (position : Nat) : Token :=
  ⟨.atEnd, "", position⟩

/-- Why argument text is refused. -/
inductive Fault where
  /-- A closing parenthesis has no opening one. -/
  | unbalancedRight
  /-- An opening parenthesis has no closing one. -/
  | unbalancedLeft
  /-- No token starts with this character. -/
  | unexpectedCharacter (c : Char)
  /-- Another kind of token has to stand here. -/
  | expected (kind got : TokenKind)
  /-- After an argument, a list goes on with a comma or ends with its closer. -/
  | expectedSeparator (closer got : TokenKind)
  /-- No argument starts with this kind of token. -/
  | expectedArgument (got : TokenKind)
  /-- The text is not one single call. -/
  | expectedCall
  deriving DecidableEq, Repr

/-- A fault in words. -/
def Fault.message : Fault → String
  | unbalancedRight => "Unbalanced ')'"
  | unbalancedLeft => "Unbalanced '('"
  | unexpectedCharacter c => "Unexpected character " ++ Text.quoted (String.singleton c)
  | expected kind got => "Expected " ++ kind.name ++ ", got " ++ got.name
  | expectedSeparator closer got => "Expected ',' or " ++ closer.name ++ ", got " ++ got.name
  | expectedArgument got => "Expected an argument, got " ++ got.name
  | expectedCall => "Expected a single function call"

/-- A fault with the position that shows it, or an integer without a value. -/
inductive Failure where
  /-- The text is malformed at a position. -/
  | misplaced (fault : Fault) (position : Nat)
  /-- An integer of the text cannot be read. -/
  | numeral (fault : Text.NumeralFault)
  deriving DecidableEq, Repr

/-! ### The lexer -/

/-- The sign of an integer. -/
def isSign (c : Char) : Bool :=
  c == '+' || c == '-'

/-- An integer starts here: a decimal digit, or a sign in front of one. -/
def startsNumber : List Char → Bool
  | [] => false
  | c :: cs =>
    Text.isDecimal c || (isSign c && match cs with
      | [] => false
      | d :: _ => Text.isDecimal d)

private theorem length_dropWhile_lt (p : Char → Bool) (c : Char) (cs : List Char) :
    (cs.dropWhile p).length < (c :: cs).length :=
  Nat.lt_succ_of_le (List.dropWhile_suffix p).sublist.length_le

/-- The tokens of the text from `position` on, inside `depth` open parentheses. -/
def tokensFrom (position depth : Nat) : List Char → Except Failure (List Token)
  | [] => if depth = 0 then .ok [] else .error (.misplaced .unbalancedLeft position)
  | c :: cs =>
    if Text.isBlank c then
      tokensFrom (position + 1) depth cs
    else if c == '(' then
      (⟨.leftParen, "(", position⟩ :: ·) <$> tokensFrom (position + 1) (depth + 1) cs
    else if c == ')' then
      if depth = 0 then .error (.misplaced .unbalancedRight position)
      else (⟨.rightParen, ")", position⟩ :: ·) <$> tokensFrom (position + 1) (depth - 1) cs
    else if c == ',' then
      (⟨.comma, ",", position⟩ :: ·) <$> tokensFrom (position + 1) depth cs
    else if startsNumber (c :: cs) then
      let word := c :: cs.takeWhile Text.isDecimal
      (⟨.number, String.ofList word, position⟩ :: ·) <$>
        tokensFrom (position + word.length) depth (cs.dropWhile Text.isDecimal)
    else if Text.isIdentifierStart c then
      let word := c :: cs.takeWhile Text.isWordChar
      (⟨.identifier, String.ofList word, position⟩ :: ·) <$>
        tokensFrom (position + word.length) depth (cs.dropWhile Text.isWordChar)
    else .error (.misplaced (.unexpectedCharacter c) position)
termination_by cs => cs.length
decreasing_by all_goals first | exact Nat.lt_succ_self _ | exact length_dropWhile_lt _ _ _

/-- The tokens of a text. -/
def tokens (cs : List Char) : Except Failure (List Token) :=
  tokensFrom 0 0 cs

end RegisterMachine.Argument
