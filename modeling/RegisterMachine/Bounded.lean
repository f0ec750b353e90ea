import RegisterMachine.Error

/-!
# Bounded computations

Programs may run for ever, and so may the expansion of programs that call each other in a circle. A
computation that could is given fuel, a bound on the steps it takes. It ends with an answer, with an
error, or out of fuel; the last says nothing about what more fuel would give.
-/

namespace RegisterMachine

/-- Why a bounded computation has no answer. -/
inductive Stop where
  /-- It failed. -/
  | error (cause : Error)
  /-- It used up its fuel. -/
  | outOfFuel
  deriving Repr

/-- An answer, a failure, or neither within the bound. -/
abbrev Bounded := Except Stop

/-- Goes on with the answer of a computation that cannot run out of fuel. -/
def orStop {m : Type → Type} [Monad m] [MonadExceptOf Stop m] {α : Type} (e : Except Error α) :
    m α :=
  match e with
  | .ok a => pure a
  | .error cause => throw (.error cause)

instance : MonadLift (Except Error) Bounded := ⟨orStop⟩

end RegisterMachine
