import RegisterMachine.Error

/-!
# Tokens of assembly lines

A text is cut into lines at line feeds. On each line a comment, from the first `//` or `#` on, is
cut off, and what is left is cut into tokens; blanks, tabs and carriage returns between tokens count
for nothing. A call runs from its opening parenthesis, or from the name right in front of it, to the
parenthesis that matches, whatever stands between them.

* `stripComment` — a line without its comment;
* `lineTokens` — the tokens of a line;
* `TokenLine`, `tokenLines` — the lines of a text with their tokens.
-/

namespace RegisterMachine.Assembly

/-- A line without its comment. -/
def stripComment : List Char → List Char
  | [] => []
  | '#' :: _ => []
  | '/' :: '/' :: _ => []
  | c :: cs => c :: stripComment cs

/-- The text up to the parenthesis that closes `depth` open ones, and the text behind it. -/
def closeCall : Nat → List Char → Option (List Char × List Char)
  | _, [] => none
  | depth, c :: cs =>
    if c == ')' && depth ≤ 1 then some ([c], cs)
    else
      let depth := if c == '(' then depth + 1 else if c == ')' then depth - 1 else depth
      (closeCall depth cs).map fun (inside, rest) => (c :: inside, rest)

theorem length_closeCall {depth : Nat} {cs inside rest : List Char}
    (h : closeCall depth cs = some (inside, rest)) : rest.length < cs.length := by
  induction cs generalizing depth inside rest with
  | nil => simp [closeCall] at h
  | cons c cs ih =>
    unfold closeCall at h
    split at h
    · simp only [Option.some.injEq, Prod.mk.injEq] at h
      simp [h.2]
    · obtain ⟨⟨a, b⟩, hab, he⟩ := Option.map_eq_some_iff.1 h
      simp only [Prod.mk.injEq] at he
      exact Nat.lt_succ_of_lt (he.2 ▸ ih hab)

/-- The kinds of the tokens of one character. -/
def symbolKind? (c : Char) : Option TokenKind :=
  match c with
  | '[' => some .leftBracket
  | ']' => some .rightBracket
  | '+' => some .plus
  | '-' => some .minus
  | '=' => some .equal
  | '≠' => some .notEqual
  | _ => none

/-- The kind of a word, in either case. -/
def wordKind (word : List Char) : TokenKind :=
  match Text.toKeyword word with
  | "PROGRAM" => .program
  | "FUNCTION" => .function
  | "IF" => .ifWord
  | "GOTO" => .goto
  | _ => .identifier

/-- The characters that separate tokens. -/
def isSpace (c : Char) : Bool :=
  c == ' ' || c == '\t' || c == '\r'

private theorem length_dropWhile_lt_cons (p : Char → Bool) (c : Char) (cs : List Char) :
    (cs.dropWhile p).length < (c :: cs).length :=
  Nat.lt_succ_of_le (List.dropWhile_suffix p).sublist.length_le

/-- The tokens of a line from a column on. -/
def lineTokensFrom (line column : Nat) : List Char → Except Error (List Token)
  | [] => .ok []
  | '<' :: '-' :: cs => (⟨.arrow, "<-", column⟩ :: ·) <$> lineTokensFrom line (column + 2) cs
  | '!' :: '=' :: cs => (⟨.notEqual, "!=", column⟩ :: ·) <$> lineTokensFrom line (column + 2) cs
  | c :: cs =>
    if isSpace c then lineTokensFrom line (column + 1) cs
    else match symbolKind? c with
    | some kind =>
      (⟨kind, String.singleton c, column⟩ :: ·) <$> lineTokensFrom line (column + 1) cs
    | none =>
      if c == '(' then
        match _hclose : closeCall 1 cs with
        | some (inside, rest) =>
          let text := c :: inside
          (⟨.call, String.ofList text, column⟩ :: ·) <$>
            lineTokensFrom line (column + text.length) rest
        | none => .error (.assembly .unbalancedLeft line column)
      else if c == ')' then .error (.assembly .unbalancedRight line column)
      else if Text.isDigit c then
        if Text.isDecimal c then
          let word := c :: cs.takeWhile Text.isDecimal
          (⟨.number, String.ofList word, column⟩ :: ·) <$>
            lineTokensFrom line (column + word.length) (cs.dropWhile Text.isDecimal)
        else .error (.unreadable c line column)
      else if Text.isLetter c || c == '_' then
        if Text.isIdentifierStart c then
          let word := c :: cs.takeWhile Text.isWordChar
          match _hword : cs.dropWhile Text.isWordChar with
          | '(' :: rest =>
            match _hclose : closeCall 1 rest with
            | some (inside, rest) =>
              let text := word ++ '(' :: inside
              (⟨.call, String.ofList text, column⟩ :: ·) <$>
                lineTokensFrom line (column + text.length) rest
            | none => .error (.assembly .unbalancedLeft line (column + word.length))
          | rest =>
            (⟨wordKind word, String.ofList word, column⟩ :: ·) <$>
              lineTokensFrom line (column + word.length) rest
        else .error (.unreadable c line column)
      else .error (.assembly (.unexpectedCharacter c) line column)
termination_by cs => cs.length
decreasing_by
  all_goals simp only [List.length_cons]
  · omega
  · omega
  · omega
  · omega
  · have := length_closeCall _hclose
    omega
  · exact length_dropWhile_lt_cons _ c cs
  · have hd := length_dropWhile_lt_cons Text.isWordChar c cs
    have hc := length_closeCall _hclose
    rw [_hword, List.length_cons, List.length_cons] at hd
    omega
  · have hd := length_dropWhile_lt_cons Text.isWordChar c cs
    rw [_hword] at hd
    exact hd

/-- The tokens of a line without its comment. -/
def lineTokens (line : Nat) (cs : List Char) : Except Error (List Token) :=
  lineTokensFrom line 0 cs

/-! ### Lines -/

/-- A line with its tokens. -/
structure TokenLine where
  /-- The number of the line, from `1`. -/
  number : Nat
  /-- The tokens. -/
  tokens : List Token
  /-- The column of the end, where a comment starts if there is one. -/
  width : Nat
  deriving DecidableEq, Repr

/-- A line of a text as tokens. -/
def TokenLine.ofChars (number : Nat) (cs : List Char) : Except Error TokenLine := do
  let cs := stripComment cs
  return ⟨number, ← lineTokens number cs, cs.length⟩

/-- A text cut at its line feeds. -/
def splitLines : List Char → List (List Char)
  | [] => [[]]
  | '\n' :: cs => [] :: splitLines cs
  | c :: cs =>
    match splitLines cs with
    | [] => [[c]]
    | line :: lines => (c :: line) :: lines

/-- The lines of a text with their tokens. -/
def tokenLines (source : String) : Except Error (List TokenLine) :=
  ((splitLines source.toList).zipIdx 1).mapM fun (cs, number) => TokenLine.ofChars number cs

end RegisterMachine.Assembly
