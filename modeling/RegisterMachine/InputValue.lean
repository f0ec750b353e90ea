import RegisterMachine.Text.Numeral
import RegisterMachine.Text.Quoted

/-!
# Input values

A run is asked for with arbitrary values, of which only non-negative integers and texts of digits
are accepted. The others occur in messages, in the notation of `InputValue.display`, unless they
hold an integer with so many digits that it is not written out.
-/

namespace RegisterMachine

/-- A value offered as an input. -/
inductive InputValue where
  /-- An integer. -/
  | integer (value : Int)
  /-- A truth value. -/
  | truth (value : Bool)
  /-- The absent value. -/
  | absent
  /-- A number with a fraction, kept as it was written. -/
  | decimal (written : String)
  /-- A text. -/
  | text (value : String)
  /-- A list of values. -/
  | list (values : List InputValue)
  deriving Repr, Inhabited

namespace InputValue

mutual

/-- A value as messages show it. -/
def display : InputValue → String
  | integer value => toString value
  | truth true => "True"
  | truth false => "False"
  | absent => "None"
  | decimal written => written
  | text value => Text.quoted value
  | list values => "[" ++ displayItems values ++ "]"

/-- The items of a list as messages show them. -/
def displayItems : List InputValue → String
  | [] => ""
  | [value] => value.display
  | value :: values => value.display ++ ", " ++ displayItems values

end

mutual

/-- A value is or holds an integer of too many digits, so it cannot be shown. -/
def isOverlong : InputValue → Bool
  | integer value => !decide (Text.Short value.natAbs)
  | list values => anyOverlong values
  | _ => false

/-- One of the items of a list cannot be shown. -/
def anyOverlong : List InputValue → Bool
  | [] => false
  | value :: values => value.isOverlong || anyOverlong values

end

end InputValue

end RegisterMachine
