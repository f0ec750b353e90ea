import RegisterMachine.Sorted
import RegisterMachine.Variable

/-!
# Arguments of calls

A quotation calls a program with a list of arguments. An argument is an integer, a bare name, or a
call with arguments of its own. A bare name that spells a variable stands for its value; any other
stands for a call without arguments.

* `Argument`, `Call` — the trees;
* `Argument.render`, `Call.render` — their text, calls in the form `(F,a,b)`;
* `Argument.walk` — all nodes, each before those below it, and the variables, called functions and
  bare names among them;
* `Argument.rename` — simultaneous substitution of variables for variables.
-/

namespace RegisterMachine

/-- An argument of a call. -/
inductive Argument where
  /-- An integer. -/
  | constant (value : Int)
  /-- A bare name: a variable, or a function without arguments. -/
  | name (text : String)
  /-- The value of a call. -/
  | call (function : String) (arguments : List Argument)
  deriving Repr, Inhabited

/-- A function with the arguments it is called with. -/
structure Call where
  /-- The name of the function, as it was spelled. -/
  function : String
  /-- The arguments, which stand for `x1`, `x2`, … of the function. -/
  arguments : List Argument
  deriving Repr, Inhabited

namespace Argument

/-! ### Equality -/

mutual

/-- Equality of arguments is decided node by node. -/
def decEq : (a b : Argument) → Decidable (a = b)
  | constant m, constant n =>
    if h : m = n then isTrue (congrArg constant h) else isFalse fun e => h (Argument.constant.inj e)
  | name s, name t =>
    if h : s = t then isTrue (congrArg name h) else isFalse fun e => h (Argument.name.inj e)
  | call f as, call g bs =>
    if h : f = g then
      match decEqList as bs with
      | isTrue h' => isTrue (h ▸ h' ▸ rfl)
      | isFalse h' => isFalse fun e => h' (Argument.call.inj e).2
    else isFalse fun e => h (Argument.call.inj e).1
  | constant _, name _ => isFalse nofun
  | constant _, call _ _ => isFalse nofun
  | name _, constant _ => isFalse nofun
  | name _, call _ _ => isFalse nofun
  | call _ _, constant _ => isFalse nofun
  | call _ _, name _ => isFalse nofun

/-- Equality of argument lists is decided item by item. -/
def decEqList : (as bs : List Argument) → Decidable (as = bs)
  | [], [] => isTrue rfl
  | a :: as, b :: bs =>
    match decEq a b with
    | isTrue h =>
      match decEqList as bs with
      | isTrue h' => isTrue (h ▸ h' ▸ rfl)
      | isFalse h' => isFalse fun e => h' (List.cons.inj e).2
    | isFalse h => isFalse fun e => h (List.cons.inj e).1
  | [], _ :: _ => isFalse nofun
  | _ :: _, [] => isFalse nofun

end

instance : DecidableEq Argument := decEq

/-! ### Rendered text -/

mutual

/-- The text of an argument. -/
def render : Argument → String
  | constant value => toString value
  | name text => text
  | call function [] => "(" ++ function ++ ")"
  | call function (a :: as) => "(" ++ function ++ "," ++ renderList (a :: as) ++ ")"

/-- The text of an argument list, its items separated by commas. -/
def renderList : List Argument → String
  | [] => ""
  | [a] => a.render
  | a :: as => a.render ++ "," ++ renderList as

end

/-! ### Traversal -/

mutual

/-- An argument and all arguments below it, each before those below it. -/
def nodes : Argument → List Argument
  | constant value => [constant value]
  | name text => [name text]
  | call function arguments => call function arguments :: walk arguments

/-- All nodes of an argument list, in the order of its text. -/
def walk : List Argument → List Argument
  | [] => []
  | a :: as => a.nodes ++ walk as

end

/-- The variable that a bare name spells. -/
def asVariable? : Argument → Option Variable
  | name text => Variable.ofName? text
  | _ => none

/-- The function that a call names. -/
def function? : Argument → Option String
  | call function _ => some function
  | _ => none

/-- The text of a bare name that spells no variable. -/
def bareName? : Argument → Option String
  | name text => if Variable.isName text then none else some text
  | _ => none

/-- A bare name that spells a variable whose number has too many digits. -/
def isOverlong : Argument → Bool
  | name text => Variable.isName text && Variable.isOverlong text
  | _ => false

/-- The variables of an argument list, in order. -/
def vars (as : List Argument) : List Variable :=
  sortedSet ((walk as).filterMap asVariable?)

/-- The functions called explicitly in an argument list, at any depth. -/
def calledFunctions (as : List Argument) : List String :=
  sortedSet ((walk as).filterMap function?)

/-- The bare names of an argument list that spell no variable. -/
def bareNames (as : List Argument) : List String :=
  sortedSet ((walk as).filterMap bareName?)

/-! ### Renaming -/

/-- What each variable is replaced by; the others stay. -/
abbrev Renaming := Variable → Option Variable

/-- The renaming given by pairs, of which the last one for a variable counts. -/
def Renaming.ofPairs (pairs : List (Variable × Variable)) : Renaming := fun v =>
  pairs.reverse.lookup v

mutual

/-- Replaces the variables of an argument, all at once. A replaced name is written canonically, any
other keeps its spelling. -/
def rename (m : Renaming) : Argument → Argument
  | constant value => constant value
  | name text =>
    match (Variable.ofName? text).bind m with
    | some v => name v.name
    | none => name text
  | call function arguments => call function (renameList m arguments)

/-- Replaces the variables of an argument list, all at once. -/
def renameList (m : Renaming) : List Argument → List Argument
  | [] => []
  | a :: as => a.rename m :: renameList m as

end

end Argument

namespace Call

deriving instance DecidableEq for Call

/-- A call as an argument of another one. -/
def toArgument (c : Call) : Argument :=
  .call c.function c.arguments

/-- The text of a call. -/
def render (c : Call) : String :=
  c.toArgument.render

end Call

end RegisterMachine
