import RegisterMachine.Error
import RegisterMachine.Expansion.Round
import RegisterMachine.Text.Case

/-!
# Costs and tiers

The static cost of a list of instructions is the sum of their declared cycles; for a quotation that
is an estimate, since the cost of its call depends on the inputs. A run on a tier costs the tier's
credits as well.

A list of instructions needs the highest tier that one of its opcodes needs. The instructions that
a tier does not support are those that need a higher one.
-/

namespace RegisterMachine

/-- The sum of the declared cycles. -/
def staticCycles (code : List Instruction) : Nat :=
  code.foldr (fun i total => i.cycles + total) 0

namespace Tier

/-- The higher of two tiers. -/
def higher (a b : Tier) : Tier :=
  if a.rank < b.rank then b else a

/-- The lowest tier that supports all instructions of a list. -/
def minimum (code : List Instruction) : Tier :=
  code.foldl (fun tier i => tier.higher (ofOpcode i.opcode)) basic

/-- The instructions of a list that a tier does not support, with their indices. -/
def unsupported (tier : Tier) (code : List Instruction) : List (Nat × Instruction) :=
  (code.zipIdx.map fun (i, index) => (index, i)).filter fun (_, i) => !tier.supports i.opcode

/-- The tier of a Roman number, in either case and with blanks around it. -/
def parse (s : String) : Except Error Tier :=
  match all.find? (·.name == Text.toKeyword (Text.trim s.toList)) with
  | some tier => .ok tier
  | none => .error (.unknownTier s)

end Tier

/-- The cost of one run of a list of instructions on a tier, as far as it can be told beforehand. -/
def creditCost (code : List Instruction) (tier : Tier) : Nat :=
  staticCycles code + tier.credits

/-- The static cost of a program expanded to a degree. -/
def Library.cyclesAtDegree (lib : Library) (p : Program) (degree : Int) : Except Error Nat := do
  return staticCycles (← lib.expand p degree).code

end RegisterMachine
