import RegisterMachine.Expansion.Basic
import RegisterMachine.FreshName

/-!
# Blocks

The expansion of an instruction is a block: a list of lines over fresh names. A block says how many
fresh variables and labels it needs and what it is for any supply of them, so it depends on the
instruction alone, and its place in a program decides nothing but the names, and whether the supply
still has labels for it.

This module has the blocks of all synthetic operations that call no program. In each of them the
label of the instruction goes to the first instruction of the block. Where that one is the target of
a jump inside the block it has a label of its own already, so a neutral instruction comes first.

* `Block.zeroVariable` counts down to zero.
* `Block.gotoLabel` makes a fresh variable positive and jumps if it is not zero.
* `Block.constantAssignment` counts up from zero.
* `Block.jumpZero` jumps over a `GOTO` if the variable is not zero.
* `Block.assignment` moves the source into a fresh variable, and from there both into the target
  and back.
* `Block.jumpEqualConstant` counts a copy down, once for each unit of the constant.
* `Block.jumpEqualVariable` counts two copies down together.
-/

namespace RegisterMachine

/-- Instructions over fresh names. -/
structure Block where
  /-- The number of fresh variables. -/
  variableCount : Nat
  /-- The number of fresh labels. -/
  labelCount : Nat
  /-- The lines, for a supply of names. -/
  lines : Supply → List Line

namespace Block

open Instruction (plain)

/-- The instructions of a block, for a supply of names. -/
def body (block : Block) (s : Supply) : List Instruction :=
  (block.lines s).map Line.instruction

/-- A block of instructions without ancestry. -/
def ofCode (variableCount labelCount : Nat) (code : Supply → List Instruction) : Block :=
  ⟨variableCount, labelCount, fun s => (code s).map Line.initial⟩

@[simp] theorem map_instruction_initial (code : List Instruction) :
    (code.map Line.initial).map Line.instruction = code := by
  rw [List.map_map]
  exact List.map_id' code

@[simp] theorem body_ofCode (m n : Nat) (code : Supply → List Instruction) (s : Supply) :
    (ofCode m n code).body s = code s :=
  map_instruction_initial (code s)

@[simp] theorem variableCount_ofCode (m n : Nat) (code : Supply → List Instruction) :
    (ofCode m n code).variableCount = m := rfl

@[simp] theorem labelCount_ofCode (m n : Nat) (code : Supply → List Instruction) :
    (ofCode m n code).labelCount = n := rfl

/-- The block, once its labels are drawn. -/
def drawn (block : Block) (s : Supply) : Except Error Block := do
  s.drawLabels block.labelCount
  return block

/-- A neutral instruction that carries a label, if there is one to carry. -/
def landing (label : Option Label) (v : Variable) : List Instruction :=
  if label.isSome then [plain label (.neutral v)] else []

/-- `v <- 0`: a loop that decreases `v`. -/
def zeroVariable (label : Option Label) (v : Variable) : Block :=
  .ofCode 0 1 fun s =>
    let loop := s.freshLabel 0
    landing label v ++
      [plain (some loop) (.decrease v),
       plain none (.jumpNotZero v loop)]

/-- `GOTO target`: a jump on a variable that has just been increased. -/
def gotoLabel (label : Option Label) (target : Label) : Block :=
  .ofCode 1 0 fun s =>
    let z := s.freshVariable 0
    [plain label (.increase z),
     plain none (.jumpNotZero z target)]

/-- `v <- k`: zero, increased `k` times. -/
def constantAssignment (label : Option Label) (v : Variable) (k : Nat) : Block :=
  .ofCode 0 0 fun _ => plain label (.zeroVariable v) :: List.replicate k (plain none (.increase v))

/-- `IF v = 0 GOTO target`: a `GOTO` that is skipped if `v` is not zero. -/
def jumpZero (label : Option Label) (v : Variable) (target : Label) : Block :=
  .ofCode 0 1 fun s =>
    let skip := s.freshLabel 0
    [plain label (.jumpNotZero v skip),
     plain none (.gotoLabel target),
     plain (some skip) (.neutral v)]

/-- `v <- v`: nothing but a place for the label. -/
def selfAssignment (label : Option Label) (v : Variable) : Block :=
  .ofCode 0 0 fun _ => landing label v

/-- `v <- source`: `source` is drained into a fresh variable, which is then drained into both. -/
def assignment (label : Option Label) (v source : Variable) : Block :=
  .ofCode 1 3 fun s =>
    let z := s.freshVariable 0
    let drain := s.freshLabel 0
    let restore := s.freshLabel 1
    let done := s.freshLabel 2
    [plain label (.zeroVariable v),
     plain none (.jumpNotZero source drain),
     plain none (.gotoLabel done),
     plain (some drain) (.decrease source),
     plain none (.increase z),
     plain none (.jumpNotZero source drain),
     plain (some restore) (.decrease z),
     plain none (.increase v),
     plain none (.increase source),
     plain none (.jumpNotZero z restore),
     plain (some done) (.neutral v)]

/-- `IF v = k GOTO target`: a copy of `v` has to survive `k` tests and be zero after them. -/
def jumpEqualConstant (label : Option Label) (v : Variable) (k : Nat) (target : Label) :
    Block :=
  .ofCode 1 1 fun s =>
    let z := s.freshVariable 0
    let differ := s.freshLabel 0
    plain label (.assignment z v) ::
      (List.replicate k [plain none (.jumpZero z differ), plain none (.decrease z)]).flatten ++
      [plain none (.jumpNotZero z differ),
       plain none (.gotoLabel target),
       plain (some differ) (.neutral v)]

/-- `IF v = source GOTO target`: copies of both are decreased together until the first is zero. -/
def jumpEqualVariable (label : Option Label) (v source : Variable) (target : Label) : Block :=
  .ofCode 2 3 fun s =>
    let z₁ := s.freshVariable 0
    let z₂ := s.freshVariable 1
    let differ := s.freshLabel 0
    let loop := s.freshLabel 1
    let firstDone := s.freshLabel 2
    [plain label (.assignment z₁ v),
     plain none (.assignment z₂ source),
     plain (some loop) (.jumpZero z₁ firstDone),
     plain none (.jumpZero z₂ differ),
     plain none (.decrease z₁),
     plain none (.decrease z₂),
     plain none (.gotoLabel loop),
     plain (some firstDone) (.jumpZero z₂ target),
     plain (some differ) (.neutral v)]

end Block

end RegisterMachine
