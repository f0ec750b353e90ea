import RegisterMachine.Text.Blank
import RegisterMachine.Text.Numeral

/-!
# Variables

The registers of a machine: input variables `x1`, `x2`, …, the result variable `y`, and work
variables `z1`, `z2`, …. Positions count from `0` here and from `1` in names, so every value of the
type has a name and `x0` is no variable.

Variables are ordered as listings show them: inputs by number, then `y`, then work variables by
number.

A name may be written with blanks around it and in either case, and every digit but the first may
come from any script.
-/

namespace RegisterMachine

/-- A register of a machine. -/
inductive Variable where
  /-- The input variable at a position, named from `x1` on. -/
  | input (index : Nat)
  /-- The result variable `y`. -/
  | result
  /-- The work variable at a position, named from `z1` on. -/
  | work (index : Nat)
  deriving DecidableEq, Repr, Inhabited

namespace Variable

/-- The place of a variable's kind in listings. -/
def rank : Variable → Nat
  | input _ => 0
  | result => 1
  | work _ => 2

/-- The number in a variable's name; the result variable carries none and counts as `0`. -/
def number : Variable → Nat
  | input index => index + 1
  | result => 0
  | work index => index + 1

/-- The canonical name. -/
def name : Variable → String
  | input index => "x" ++ toString (index + 1)
  | result => "y"
  | work index => "z" ++ toString (index + 1)

instance : ToString Variable := ⟨name⟩

/-- The name of a variable has not too many digits. -/
def Brief (v : Variable) : Prop :=
  Text.Short v.number

instance : DecidablePred Brief := fun v =>
  inferInstanceAs (Decidable (Text.Short v.number))

/-- Inputs come before `y`, `y` before work variables, and smaller numbers first. -/
instance : LT Variable :=
  ⟨fun v w => v.rank < w.rank ∨ (v.rank = w.rank ∧ v.number < w.number)⟩

instance : DecidableLT Variable := fun v w =>
  inferInstanceAs (Decidable (v.rank < w.rank ∨ (v.rank = w.rank ∧ v.number < w.number)))

/-- The position of an input variable. -/
def inputIndex? : Variable → Option Nat
  | input index => some index
  | _ => none

/-- The position of a work variable. -/
def workIndex? : Variable → Option Nat
  | work index => some index
  | _ => none

/-- An input variable. -/
def isInput (v : Variable) : Bool :=
  v.inputIndex?.isSome

/-- A work variable. -/
def isWork (v : Variable) : Bool :=
  v.workIndex?.isSome

/-! ### Spellings -/

/-- The digits of a number in a name: the first one ASCII and not zero, the others of any
script. -/
def isNameNumber : List Char → Bool
  | [] => false
  | c :: cs => '1' ≤ c && c ≤ '9' && cs.all Text.isDecimal

/-- The variable that a trimmed text spells. -/
def ofTrimmed? : List Char → Option Variable
  | [] => none
  | c :: digits =>
    if digits.isEmpty then
      if c == 'y' || c == 'Y' then some result else none
    else if isNameNumber digits then
      let index := Text.decimalValue digits - 1
      if c == 'x' || c == 'X' then some (input index)
      else if c == 'z' || c == 'Z' then some (work index)
      else none
    else none

/-- The variable that a text spells, whatever the length of its number. -/
def ofName? (s : String) : Option Variable :=
  ofTrimmed? (Text.trim s.toList)

/-- The text spells a variable. -/
def isName (s : String) : Bool :=
  (ofName? s).isSome

/-- The text has more characters than a letter and the longest numeral. -/
def isOverlong (s : String) : Bool :=
  (Text.trim s.toList).length > Text.maxDigits + 1

end Variable

end RegisterMachine
