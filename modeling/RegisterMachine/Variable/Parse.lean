import RegisterMachine.Error

/-!
# Reading variables

`Variable.parse` reads a spelling of a variable; `Variable.ofNumber` makes a variable of a kind and
the number in its name.
-/

namespace RegisterMachine

/-- The three kinds of variable. -/
inductive VariableKind where
  | input
  | result
  | work
  deriving DecidableEq, Repr

namespace VariableKind

/-- The letter that names of a kind start with. -/
def letter : VariableKind → String
  | input => "x"
  | result => "y"
  | work => "z"

/-- The word for a kind. -/
def name : VariableKind → String
  | input => "INPUT"
  | result => "RESULT"
  | work => "WORK"

/-- The kind of a letter. -/
def ofLetter? (s : String) : Option VariableKind :=
  [input, result, work].find? (·.letter == s)

end VariableKind

namespace Variable

/-- The kind of a variable. -/
def kind : Variable → VariableKind
  | input _ => .input
  | result => .result
  | work _ => .work

/-- The variable of a kind with a number in its name: `y` has none, which counts as `0`, and the
others count from `1`. The variable may have any number; its name is written only when it is asked
for. -/
def ofNumber (kind : VariableKind) (n : Int) : Except Error Variable :=
  let refusal := (Error.invalidVariable s!"{kind.letter}{n}").reporting n.natAbs
  match kind with
  | .input => if n < 1 then .error refusal else .ok (input (n - 1).toNat)
  | .result => if n = 0 then .ok result else .error refusal
  | .work => if n < 1 then .error refusal else .ok (work (n - 1).toNat)

/-- The variable that a text spells. -/
def parse (s : String) : Except Error Variable :=
  match ofName? s with
  | none => .error (.invalidVariable s)
  | some v => if isOverlong s then .error (.numeral .tooLong) else .ok v

end Variable

end RegisterMachine
