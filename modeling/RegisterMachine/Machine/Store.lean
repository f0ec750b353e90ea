import RegisterMachine.Sorted
import RegisterMachine.Variable

/-!
# Stores

A store holds a natural number for each of its variables, in the order of variables. A variable that
it does not hold reads as zero.
-/

namespace RegisterMachine

/-- The values of variables. -/
structure Store where
  /-- The variables with their values, in the order of variables. -/
  entries : List (Variable × Nat)
  deriving DecidableEq, Repr

namespace Store

/-- The store that gives each of some variables a value, and the result variable zero. -/
def ofVariables (vs : List Variable) (value : Variable → Nat) : Store :=
  ⟨(insertSorted .result vs).map fun v => (v, if v = .result then 0 else value v)⟩

variable (s : Store)

/-- The variables of a store. -/
def vars : List Variable :=
  s.entries.map Prod.fst

/-- The value of a variable that the store holds. -/
def find? (v : Variable) : Option Nat :=
  s.entries.lookup v

/-- The value of a variable. -/
def get (v : Variable) : Nat :=
  (s.find? v).getD 0

/-- Puts the value of a variable into a list of entries, at its place in the order. -/
def putInto (v : Variable) (n : Nat) : List (Variable × Nat) → List (Variable × Nat)
  | [] => [(v, n)]
  | (w, m) :: entries =>
    if v = w then (v, n) :: entries
    else if v < w then (v, n) :: (w, m) :: entries
    else (w, m) :: putInto v n entries

/-- The store with another value for a variable. -/
def set (v : Variable) (n : Nat) : Store :=
  ⟨putInto v n s.entries⟩

end Store

end RegisterMachine
