import RegisterMachine.Error

/-!
# Reading labels

`Label.parse` reads a text that may spell a label or be blank; `Label.ofNumber` makes the label with
a number in its name, and `Label.number` goes back.
-/

namespace RegisterMachine.Label

/-- The numbered label with a number in its name, which is written at once. -/
def ofNumber (n : Int) : Except Error Label :=
  if n < 1 then .error ((Error.invalidLabel s!"L{n}").reporting n.natAbs)
  else showing [n.toNat] (numbered (n - 1).toNat)

/-- The number in the name of a label, which only numbered labels have. -/
def number : Option Label → Except Error Nat
  | some (numbered index) => .ok (index + 1)
  | label => .error (.invalidLabel (nameOf label))

/-- The label that a text spells, or none for a blank text. -/
def parse (s : String) : Except Error (Option Label) :=
  match spellingOfTrimmed (Text.trim s.toList) with
  | .blank => .ok none
  | .label label =>
    if label.isNumbered && Variable.isOverlong s then .error (.numeral .tooLong)
    else .ok (some label)
  | .other => .error (.invalidLabel s)

end RegisterMachine.Label
