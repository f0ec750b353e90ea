import RegisterMachine.Error
import RegisterMachine.Text.Blank

/-!
# Accepting inputs

An input is accepted if it is a non-negative integer, or a text that is, blanks at its ends apart,
made of digits. A truth value is no integer. The first value that is not accepted is refused with
its position.

Some values fail in another way: a text of ornate digits or of too many digits passes the test for
digits and fails as a numeral, and a refusal fails if it cannot show the value.
-/

namespace RegisterMachine

/-- The refusal of a value at a position of a list of inputs. It shows the value. -/
def InputValue.refusal (position : Nat) (value : InputValue) : Error :=
  if value.isOverlong then .numeral .tooLong else .invalidInput value position

/-- The number that a value stands for, at a position of a list of inputs. -/
def InputValue.toNat (position : Nat) (value : InputValue) : Except Error Nat :=
  match value with
  | integer n => if n < 0 then .error (value.refusal position) else .ok n.toNat
  | text s =>
    let digits := Text.trim s.toList
    if !digits.isEmpty && digits.all Text.isDigit then
      (Text.numeral digits).mapError .numeral
    else .error (value.refusal position)
  | _ => .error (value.refusal position)

/-- The numbers that values stand for, where the first value has a position. -/
def acceptInputsFrom (position : Nat) : List InputValue → Except Error (List Nat)
  | [] => .ok []
  | value :: values => do
    let n ← value.toNat position
    return n :: (← acceptInputsFrom (position + 1) values)

/-- The numbers that a list of inputs stands for. -/
def acceptInputs (values : List InputValue) : Except Error (List Nat) :=
  acceptInputsFrom 0 values

end RegisterMachine
