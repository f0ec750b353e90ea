import RegisterMachine.Text.Blank
import RegisterMachine.Text.Case
import RegisterMachine.Variable

/-!
# Labels

A label names a point that a jump leads to: the numbered labels `L1`, `L2`, … stand on an
instruction, and `EXIT` is the end of the program. Positions count from `0` here and from `1` in
names. The lack of a label is `none` of `Option Label`; it has the empty name.
-/

namespace RegisterMachine

/-- A point of a program that a jump can lead to. -/
inductive Label where
  /-- The end of the program. -/
  | exit
  /-- The numbered label at a position, named from `L1` on. -/
  | numbered (index : Nat)
  deriving DecidableEq, Repr, Inhabited

namespace Label

/-- The canonical name. -/
def name : Label → String
  | exit => "EXIT"
  | numbered index => "L" ++ toString (index + 1)

instance : ToString Label := ⟨name⟩

/-- The name of a label has not too many digits. -/
def Brief : Label → Prop
  | exit => True
  | numbered index => Text.Short (index + 1)

instance : DecidablePred Brief
  | .exit => inferInstanceAs (Decidable True)
  | .numbered index => inferInstanceAs (Decidable (Text.Short (index + 1)))

/-- The name of a label that may be lacking. -/
def nameOf : Option Label → String
  | none => ""
  | some label => label.name

/-- The position of a numbered label. -/
def index? : Label → Option Nat
  | exit => none
  | numbered index => some index

/-- A label that stands on an instruction. -/
def isNumbered (label : Label) : Bool :=
  label.index?.isSome

/-! ### Spellings -/

/-- What a text says about a label. -/
inductive Spelling where
  /-- The text is blank. -/
  | blank
  /-- The text spells a label. -/
  | label (label : Label)
  /-- The text spells no label. -/
  | other

/-- What a trimmed text says about a label. -/
def spellingOfTrimmed : List Char → Spelling
  | [] => .blank
  | c :: cs =>
    if Text.toKeyword (c :: cs) == "EXIT" then .label exit
    else if (c == 'l' || c == 'L') && Variable.isNameNumber cs then
      .label (numbered (Text.decimalValue cs - 1))
    else .other

end Label

end RegisterMachine
