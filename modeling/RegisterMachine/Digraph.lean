/-!
# Directed graphs

A finite directed graph is kept as the list of its sources, each with its successors. A successor
that is no source itself is a node without successors.

* `Digraph.nodes`, `Digraph.edges` — sources first, then the other nodes, as they turn up;
* `Digraph.findCycle?` — the first cycle that a depth-first search meets, searching from the nodes
  in order; it starts at the node that the closing edge leads back to;
* `Digraph.topologicalOrder` — the nodes from which no edge leads into a node behind them. Nodes
  without predecessors come first, and a node follows as soon as its last predecessor is placed.
-/

namespace RegisterMachine

/-- A finite directed graph. -/
structure Digraph (α : Type) where
  /-- The sources of the graph, each with its successors. -/
  adjacency : List (α × List α)
  deriving Repr

namespace Digraph

variable {α : Type} [DecidableEq α] (g : Digraph α)

/-- The sources of the graph. -/
def sources : List α :=
  g.adjacency.map Prod.fst

/-- The successors that are no sources, each once. -/
def sinks : List α :=
  (g.adjacency.flatMap Prod.snd).eraseDups.filter fun a => !g.sources.contains a

/-- All nodes, the sources first. -/
def nodes : List α :=
  g.sources ++ g.sinks

/-- All edges. -/
def edges : List (α × α) :=
  g.adjacency.flatMap fun (a, bs) => bs.map fun b => (a, b)

/-- The successors of a node. -/
def successors (a : α) : List α :=
  (g.adjacency.lookup a).getD []

/-- The predecessors of a node. -/
def predecessors (a : α) : List α :=
  (g.adjacency.filter fun (_, bs) => bs.contains a).map Prod.fst

/-! ### Cycles -/

/-- Explores a node from which the nodes of `path` were left, nearest first. The result is what has
been explored to the end by then, or the cycle that the first edge back into the path closes. The
first number bounds the length of the path. -/
def explore : Nat → List α → List α → α → Except (List α) (List α)
  | 0, _, explored, _ => .ok explored
  | fuel + 1, path, explored, a =>
    if path.contains a then .error (path.takeWhile (· != a) ++ [a]).reverse
    else if explored.contains a then .ok explored
    else (a :: ·) <$> (g.successors a).foldlM (explore fuel (a :: path)) explored

/-- The first cycle that a depth-first search meets. -/
def findCycle? : Option (List α) :=
  match g.nodes.foldlM (g.explore (g.nodes.length + 1) []) [] with
  | .ok _ => none
  | .error cycle => some cycle

/-! ### Topological order -/

/-- The successors of `a` that have all their predecessors in `placed`. -/
def released (placed : List α) (a : α) : List α :=
  (g.successors a).filter fun b => (g.predecessors b).all placed.contains

/-- Places the nodes of a queue one by one; a node that a placed one releases joins the queue at its
end. The nodes placed so far are given, latest first, and the first number bounds how many more are
placed. -/
def place : Nat → List α → List α → List α
  | 0, placed, _ => placed
  | _ + 1, placed, [] => placed
  | fuel + 1, placed, a :: queue =>
    place fuel (a :: placed) (queue ++ g.released (a :: placed) a)

/-- The nodes of an acyclic graph, each before its successors. -/
def topologicalOrder : List α :=
  (g.place g.nodes.length [] (g.nodes.filter fun a => (g.predecessors a).isEmpty)).reverse

end Digraph

end RegisterMachine
