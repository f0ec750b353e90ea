import RegisterMachine.Text.Blank
import RegisterMachine.Text.Numeral

/-!
# Integers

An integer is a numeral with an optional sign in front of it and blanks at both ends. Its digits may
be grouped by single underscores, which do not count as digits. The four ASCII separators are blanks
everywhere else, but not around an integer.

* `ungroup?` — the digits of a grouped numeral;
* `integer?` — the value of an integer.
-/

namespace RegisterMachine.Text

/-- A blank that may stand around an integer. -/
def isMargin (c : Char) : Bool :=
  isBlank c && !(0x1C ≤ c.toNat && c.toNat ≤ 0x1F)

/-- A text without the margins at its two ends. -/
def trimMargins (cs : List Char) : List Char :=
  ((cs.dropWhile isMargin).reverse.dropWhile isMargin).reverse

/-- The digits of a numeral that may be grouped: it starts and ends with a digit, and an underscore
stands between two digits. -/
def ungroup? : List Char → Option (List Char)
  | [] => none
  | [c] => if isDecimal c then some [c] else none
  | c :: '_' :: cs => if isDecimal c then (c :: ·) <$> ungroup? cs else none
  | c :: cs => if isDecimal c then (c :: ·) <$> ungroup? cs else none

/-- The value of a numeral that may be grouped. -/
def grouped? (cs : List Char) : Option Nat := do
  (numeral (← ungroup? cs)).toOption

/-- The value of an integer. -/
def integer? (cs : List Char) : Option Int :=
  match trimMargins cs with
  | '-' :: ds => (grouped? ds).map fun n => -(n : Int)
  | '+' :: ds => (grouped? ds).map fun n => (n : Int)
  | ds => (grouped? ds).map fun n => (n : Int)

end RegisterMachine.Text
