import RegisterMachine.Opcode

/-!
# Architecture tiers

A tier is a machine of some price that supports a part of the instruction set, each tier more than
the one below it. A run on a tier costs its credits on top of the cycles of the program.
-/

namespace RegisterMachine

/-- A tier of instruction support. -/
inductive Tier where
  | basic
  | optimized
  | highPerformance
  | ultimate
  deriving DecidableEq, Repr

namespace Tier

/-- All tiers, from the lowest. -/
def all : List Tier :=
  [basic, optimized, highPerformance, ultimate]

/-- The Roman number of a tier. -/
def name : Tier → String
  | basic => "I"
  | optimized => "II"
  | highPerformance => "III"
  | ultimate => "IV"

/-- The place of a tier, from `1`. -/
def rank : Tier → Nat
  | basic => 1
  | optimized => 2
  | highPerformance => 3
  | ultimate => 4

/-- The price of one run. -/
def credits : Tier → Nat
  | basic => 5
  | optimized => 100
  | highPerformance => 500
  | ultimate => 1000

/-- What a tier is good for. -/
def description : Tier → String
  | basic => "Basic"
  | optimized => "Optimized"
  | highPerformance => "High performance"
  | ultimate => "Ultimate"

/-- The lowest tier that supports an opcode. -/
def ofOpcode : Opcode → Tier
  | .neutral | .increase | .decrease | .jumpNotZero => basic
  | .zeroVariable | .constantAssignment | .gotoLabel => optimized
  | .assignment | .jumpZero | .jumpEqualConstant | .jumpEqualVariable => highPerformance
  | .quotation | .jumpEqualFunction => ultimate

/-- A tier supports the opcodes of its own rank and below. -/
def supports (tier : Tier) (opcode : Opcode) : Bool :=
  (ofOpcode opcode).rank ≤ tier.rank

end Tier

end RegisterMachine
