import RegisterMachine.Error
import RegisterMachine.Instruction.Basic

/-!
# Fresh names

A round of expansion needs names that its list of instructions does not mention. It scans the list
once for the numbers of work variables and of labels in use, in operands and arguments alike, and
from then on hands out the numbers above the greatest of each. So no fresh name is in use, and no
two fresh names are equal. A label is written when it is handed out, so a supply runs out of labels
where the numbers get too long; a variable can have any number, but not every one can be named.

* `NumberPool` — numbers above those in use;
* `workIndices`, `labelIndices` — what a list of instructions mentions;
* `Supply` — the first free work variable and the first free label;
* `Supply.drawLabels` — whether labels can be handed out.
-/

namespace RegisterMachine

/-! ### Numbers -/

/-- A source of numbers above those in use. -/
structure NumberPool (ι : Type) where
  /-- The greatest number in use or handed out. -/
  highWater : ι
  deriving DecidableEq, Repr

namespace NumberPool

variable {ι : Type} [Max ι] [OfNat ι 0] [OfNat ι 1] [Add ι]

/-- The pool above the numbers in use, or above zero if there are none. -/
def ofUsed (used : List ι) : NumberPool ι :=
  ⟨used.max?.getD 0⟩

/-- The next number, and the pool above it. -/
def next (pool : NumberPool ι) : ι × NumberPool ι :=
  (pool.highWater + 1, ⟨pool.highWater + 1⟩)

/-- The next numbers, each with the pool's high-water mark after it. -/
def take (pool : NumberPool ι) : Nat → List (ι × ι)
  | 0 => []
  | n + 1 => (pool.next.1, pool.next.2.highWater) :: take pool.next.2 n

end NumberPool

/-! ### Names in use -/

namespace Instruction

/-- The positions of the work variables that an instruction mentions. -/
def workIndices (i : Instruction) : List Nat :=
  i.referencedVariables.filterMap Variable.workIndex?

/-- The positions of the labels that an instruction mentions. -/
def labelIndices (i : Instruction) : List Nat :=
  (i.label.toList ++ i.target.toList).filterMap Label.index?

end Instruction

/-- The numbers of the work variables in use, in order. -/
def usedWorkNumbers (code : List Instruction) : List Nat :=
  sortedSet ((code.flatMap Instruction.workIndices).map (· + 1))

/-- The numbers of the labels in use, in order. -/
def usedLabelNumbers (code : List Instruction) : List Nat :=
  sortedSet ((code.flatMap Instruction.labelIndices).map (· + 1))

/-! ### Supplies -/

/-- The first free work variable and the first free label; all above them are free too. -/
structure Supply where
  /-- The position of the first free work variable. -/
  firstVariable : Nat
  /-- The position of the first free label. -/
  firstLabel : Nat
  deriving DecidableEq, Repr

namespace Supply

/-- The names that a list of instructions leaves free. A number in use is the position after it. -/
def ofCode (code : List Instruction) : Supply where
  firstVariable := (NumberPool.ofUsed (usedWorkNumbers code)).highWater
  firstLabel := (NumberPool.ofUsed (usedLabelNumbers code)).highWater

variable (s : Supply)

/-- The fresh work variable with a place in the supply. -/
def freshVariable (k : Nat) : Variable :=
  .work (s.firstVariable + k)

/-- The fresh label with a place in the supply. -/
def freshLabel (k : Nat) : Label :=
  .numbered (s.firstLabel + k)

/-- Hands out the first few labels, which have to be written for it. -/
def drawLabels (n : Nat) : Except Error Unit :=
  showing ((List.range n).map fun k => s.firstLabel + k + 1) ()

/-- The supply behind the first few names. -/
def skip (variableCount labelCount : Nat) : Supply :=
  ⟨s.firstVariable + variableCount, s.firstLabel + labelCount⟩

/-- The names handed out for a row of requests, a label for `true` and a variable for `false`. -/
def names (s : Supply) : List Bool → Except Error (List String)
  | [] => .ok []
  | true :: requests => do
    s.drawLabels 1
    return (s.freshLabel 0).name :: (← names (s.skip 0 1) requests)
  | false :: requests => do
    let name ← showing [(s.freshVariable 0).number] (s.freshVariable 0).name
    return name :: (← names (s.skip 1 0) requests)

end Supply

end RegisterMachine
