import RegisterMachine.Expansion.Block
import RegisterMachine.Library.Basic

/-!
# Inlining of calls

The block of a quotation is a copy of the program it calls, over fresh names. In front of the copy
stand instructions that give each parameter its argument and all other variables of the copy zero,
so that the copy starts clean however often the block is run. Behind it stands an instruction that
takes over the result or compares with it, under the label that the copy's `EXIT` became.

An argument that the called program needs no input for is ignored, and so is the argument for an
input that it does not mention.

The names in the copy's own calls are texts, so they have to be written; and like all labels, those
of the copy have to be handed out. Where a number is too long for it there is no block.
-/

namespace RegisterMachine

/-! ### Arguments -/

/-- What a parameter is given. -/
inductive Binding where
  /-- A constant. -/
  | constant (k : Nat)
  /-- The value of a variable. -/
  | variable (v : Variable)
  /-- The value of a call. -/
  | call (c : Call)
  deriving DecidableEq, Repr

/-- The operation that gives a variable what a parameter is given. -/
def Binding.operation (v : Variable) : Binding → Operation
  | .constant k => .constantAssignment v k
  | .variable source => .assignment v source
  | .call c => .quotation v c

/-- The call that a bare name stands for, if it names no variable. -/
def Library.bareCall (lib : Library) (name : String) : Except Error Call :=
  if lib.contains name then .ok ⟨name, []⟩ else .error (.unknownVariable name)

/-- What an argument gives to a parameter of a function. -/
def Library.binding (lib : Library) (function : String) : Argument → Except Error Binding
  | .constant value =>
    if value < 0 then .error (.negativeArgument value function) else .ok (.constant value.toNat)
  | .name text =>
    match Variable.ofName? text with
    | some v => .ok (.variable v)
    | none => .call <$> lib.bareCall text
  | .call function arguments => .ok (.call ⟨function, arguments⟩)

/-- The parameters of a program from the input at position `i` on that it mentions, each with what
its argument gives it. -/
def Library.bindings (lib : Library) (callee : Program) (i : Nat) :
    List Argument → Except Error (List (Variable × Binding))
  | [] => .ok []
  | a :: as =>
    if callee.vars.contains (.input i) then do
      let b ← lib.binding callee.name a
      return (.input i, b) :: (← lib.bindings callee (i + 1) as)
    else lib.bindings callee (i + 1) as

/-! ### The copy of a program -/

namespace Program

variable (p : Program)

/-- The variables of a copy: those of the program and its result. -/
def copiedVariables : List Variable :=
  p.vars ++ if p.vars.contains .result then [] else [.result]

/-- The numbered labels that a program declares or jumps to, in the order of its text. -/
def mentionedLabels : List Label :=
  (p.code.flatMap fun i => (i.label.toList ++ i.target.toList).filter Label.isNumbered).eraseDups

/-- The fresh variable in the place of each variable of a copy. -/
def copyVariable (s : Supply) : Argument.Renaming := fun v =>
  (p.copiedVariables.idxOf? v).map s.freshVariable

/-- The label at the end of a copy. -/
def copyEnd (s : Supply) : Label :=
  s.freshLabel 0

/-- The fresh label in the place of each label of a copy; `EXIT` becomes the end of the copy. -/
def copyLabel (s : Supply) : Label → Label
  | .exit => copyEnd s
  | .numbered index =>
    match p.mentionedLabels.idxOf? (.numbered index) with
    | some k => s.freshLabel (k + 1)
    | none => .numbered index

/-- The copy of a program over fresh names. -/
def copy (s : Supply) : List Instruction :=
  p.code.map (Instruction.rename (p.copyVariable s) (p.copyLabel s))

/-- Writes the variables in the calls of a copy. -/
def writeCopy (s : Supply) : Except Error Unit :=
  if (p.copy s).any Instruction.hasOverlongName then .error (.numeral .tooLong) else .ok ()

/-- The fresh variable that holds the result of a copy. -/
def copyResult (s : Supply) : Variable :=
  (p.copyVariable s .result).getD .result

end Program

/-- The lines of a copy, each with the ancestry of the line that was copied. -/
def Expansion.copyLines (e : Expansion) (s : Supply) : List Line :=
  e.lines.map (Line.rename (e.program.copyVariable s) (e.program.copyLabel s))

open Instruction (plain)

/-- The block of a call: the parameters get their arguments and the other variables zero, the copy
runs, and an operation on its result comes last. -/
def Block.inlining (label : Option Label) (v : Variable) (entry : Expansion)
    (bound : List (Variable × Binding)) (finish : Variable → Operation) : Block where
  variableCount := entry.program.copiedVariables.length
  labelCount := entry.program.mentionedLabels.length + 1
  lines s :=
    let callee := entry.program
    let fresh v := ((callee.copyVariable s) v).getD v
    let others := callee.copiedVariables.filter fun v => !(bound.map Prod.fst).contains v
    let prologue := landing label v
      ++ bound.map (fun (parameter, b) => plain none (b.operation (fresh parameter)))
      ++ others.map (fun v => plain none (.zeroVariable (fresh v)))
    prologue.map Line.initial
      ++ entry.copyLines s
      ++ [.initial (plain (some (Program.copyEnd s)) (finish (callee.copyResult s)))]

/-- The block of a quotation of `call` in an instruction on `v`. The labels of the copy are drawn
before the arguments are looked at, and the copy is written last. -/
def Library.inline (lib : Library) (s : Supply) (label : Option Label) (v : Variable) (call : Call)
    (finish : Variable → Operation) : Except Error Block := do
  let entry ← lib.getExpansion call.function ""
  let callee := entry.program
  s.drawLabels (callee.mentionedLabels.length + 1)
  let bound ← lib.bindings callee 0 (call.arguments.take callee.requiredInputs)
  callee.writeCopy s
  return Block.inlining label v entry bound finish

/-! ### The block of any instruction -/

/-- The block that replaces an instruction, where a supply has names for it. A basic one is replaced
by itself. -/
def Library.block (lib : Library) (s : Supply) (i : Instruction) : Except Error Block :=
  match i.operation with
  | .neutral _ | .increase _ | .decrease _ | .jumpNotZero _ _ => .ok (.ofCode 0 0 fun _ => [i])
  | .zeroVariable v => (Block.zeroVariable i.label v).drawn s
  | .gotoLabel target => (Block.gotoLabel i.label target).drawn s
  | .constantAssignment v k => (Block.constantAssignment i.label v k).drawn s
  | .jumpZero v target => (Block.jumpZero i.label v target).drawn s
  | .assignment v source =>
    (if v = source then Block.selfAssignment i.label v
      else Block.assignment i.label v source).drawn s
  | .jumpEqualConstant v k target => (Block.jumpEqualConstant i.label v k target).drawn s
  | .jumpEqualVariable v source target => (Block.jumpEqualVariable i.label v source target).drawn s
  | .quotation v call => lib.inline s i.label v call (.assignment v ·)
  | .jumpEqualFunction v call target =>
    lib.inline s i.label v call (.jumpEqualVariable v · target)

end RegisterMachine
