import RegisterMachine.Digraph
import RegisterMachine.Library.Basic

/-!
# Call graphs

The call graph of a library has an edge from each program to every function it calls: explicitly, at
any depth of its arguments, or by a bare name that finds a program. A function that is found counts
under its registered spelling, any other under the spelling in the call.

* `Library.callGraph` — the graph;
* `Library.validate` — every call finds a program, every jump a label, and no program calls itself,
  directly or through others; these are checked in that order;
* `Library.dependencyOrder` — every program behind those it calls.
-/

namespace RegisterMachine.Library

variable (lib : Library)

/-- The functions that a program calls, under their registered spellings, in order. -/
def directCalls (p : Program) : List String :=
  sortedSet ((p.calledFunctions ++ p.bareNames.filter lib.contains).map fun name =>
    (lib.resolve? name).getD name)

/-- The call graph. -/
def callGraph : Digraph String :=
  ⟨lib.programs.map fun p => (p.name, lib.directCalls p)⟩

/-- The first call in a graph that finds no program, with its caller. -/
def unknownCall? (graph : Digraph String) : Option (String × String) :=
  graph.edges.find? fun (_, callee) => !lib.names.contains callee

/-- Every call finds a program, every jump a label, and no calls go in a circle. -/
def validateWith (graph : Digraph String) : Except Error Unit := do
  if let some (caller, callee) := lib.unknownCall? graph then
    throw (.unknownFunction callee caller)
  lib.programs.forM Program.validate
  if let some cycle := graph.findCycle? then
    throw (.cyclicCall cycle)

/-- The library passes all checks against its own call graph. -/
def validate : Except Error Unit :=
  lib.validateWith lib.callGraph

/-- The names of a library that passes its checks, each behind those it calls, by its graph. -/
def dependencyOrderWith (graph : Digraph String) : Except Error (List String) := do
  lib.validateWith graph
  return graph.topologicalOrder.reverse

/-- The names of a library that passes its checks, each behind those it calls. -/
def dependencyOrder : Except Error (List String) :=
  lib.dependencyOrderWith lib.callGraph

/-- The functions that the program of a name calls, by a graph. -/
def calleesWith (graph : Digraph String) (name : String) : Except Error (List String) := do
  return graph.successors (← lib.get name "").name

/-- The functions that the program of a name calls. -/
def callees (name : String) : Except Error (List String) :=
  lib.calleesWith lib.callGraph name

/-- One line for the number of programs, and one for each program with what it calls. -/
def summaryWith (graph : Digraph String) : String :=
  "\n".intercalate <|
    s!"Function registry: {lib.programs.length} programs" :: lib.names.map fun name =>
      let callees := graph.successors name
      if callees.isEmpty then s!"  {name}"
      else s!"  {name} -> [" ++ ", ".intercalate (callees.map Text.quoted) ++ "]"

/-- The programs of a library and what they call, line by line. -/
def summary : String :=
  lib.summaryWith lib.callGraph

end RegisterMachine.Library
