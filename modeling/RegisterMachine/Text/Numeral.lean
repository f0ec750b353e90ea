import RegisterMachine.Text.Digit

/-!
# Numerals

A numeral is a text of decimal digits of any script, also of several at once. Its value is read by
place, leading zeros included in the count of digits, and a numeral of more than `maxDigits` digits
is refused unread. In the same way a number of more than `maxDigits` digits is not written.
-/

namespace RegisterMachine.Text

/-- The most digits a numeral may have. -/
def maxDigits : Nat := 4300

/-- A number of few enough digits. Only such numbers are read and written. -/
def Short (n : Nat) : Prop :=
  (Nat.toDigits 10 n).length ≤ maxDigits

instance : DecidablePred Short := fun n =>
  inferInstanceAs (Decidable ((Nat.toDigits 10 n).length ≤ maxDigits))

/-- Why a text of digits has no value. -/
inductive NumeralFault where
  /-- The text has more than `maxDigits` digits. -/
  | tooLong
  /-- The text holds a digit without a decimal value. -/
  | notDecimal
  deriving DecidableEq, Repr

/-- The value of a row of decimal digits, read by place. -/
def decimalValue (cs : List Char) : Nat :=
  cs.foldl (fun n c => 10 * n + (decimal? c).getD 0) 0

/-- The value of a numeral. -/
def numeral (cs : List Char) : Except NumeralFault Nat :=
  if cs.length > maxDigits then .error .tooLong
  else if cs.all isDecimal then .ok (decimalValue cs)
  else .error .notDecimal

end RegisterMachine.Text
