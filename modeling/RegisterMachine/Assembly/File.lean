import RegisterMachine.Assembly.Basic

/-!
# Assembly files

The lines of a file may end in a line feed, a carriage return, or both. A main program without a
header is named after the file: by the last part of its path, without the suffix from the last dot
on, unless the dot is at one of the ends.
-/

namespace RegisterMachine

namespace Assembly

/-- A text with all line ends turned into line feeds. -/
def unifyLineEnds : List Char → List Char
  | [] => []
  | '\r' :: '\n' :: cs => '\n' :: unifyLineEnds cs
  | '\r' :: cs => '\n' :: unifyLineEnds cs
  | c :: cs => c :: unifyLineEnds cs

/-! ### Paths -/

/-- A path cut at its slashes. -/
def splitPath : List Char → List (List Char)
  | [] => [[]]
  | '/' :: cs => [] :: splitPath cs
  | c :: cs =>
    match splitPath cs with
    | [] => [[c]]
    | part :: parts => (c :: part) :: parts

/-- The parts of a path; empty ones and single dots say nothing. -/
def pathParts (path : String) : List String :=
  ((splitPath path.toList).map String.ofList).filter fun part => part != "" && part != "."

/-- The slashes that a path starts at the root with: one, or two if there are exactly two. -/
def pathRoot (path : String) : String :=
  match path.toList with
  | '/' :: '/' :: '/' :: _ => "/"
  | '/' :: '/' :: _ => "//"
  | '/' :: _ => "/"
  | _ => ""

/-- The shortest path that says the same. -/
def normalPath (path : String) : String :=
  let text := pathRoot path ++ "/".intercalate (pathParts path)
  if text.isEmpty then "." else text

/-- The last part of a path. -/
def pathName (path : String) : String :=
  (pathParts path).getLastD ""

/-- The last part of a path without its suffix. -/
def pathStem (path : String) : String :=
  let name := (pathName path).toList
  let suffix := name.reverse.takeWhile (· != '.')
  let stem := name.take (name.length - suffix.length - 1)
  if suffix.isEmpty || stem.isEmpty || suffix.length == name.length then pathName path
  else String.ofList stem

end Assembly

/-- The programs of an assembly file, given its path and its content. -/
def loadAssembly (path content : String) (validate : Bool) : Except Error Assembly :=
  assemble (String.ofList (Assembly.unifyLineEnds content.toList)) (Assembly.pathStem path) validate

end RegisterMachine
