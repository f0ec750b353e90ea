import Mathlib.Logic.Relation
import Mathlib.Data.List.Chain
import Mathlib.Data.List.Nodup
import RegisterMachine.Proofs.Acyclic

/-!
# Cycles of graphs

A cycle is a list of distinct nodes of which each follows the one before it, and the first one the
last one. The depth-first search keeps the path that it came along: when an edge leads back into the
path, the part of the path from there on is a cycle. Together with what the search guarantees if it
meets none, it finds a cycle if and only if there is one.

* `Digraph.IsCycle` — cycles;
* `Digraph.isCycle_of_explore` — what an exploration stops at;
* `Digraph.FindsCycles` — what is asked of a search for cycles;
* `Digraph.findsCycles_findCycle?` — the depth-first search does it.
-/

namespace RegisterMachine.Digraph

variable {α : Type} {g : Digraph α}

/-! ### Lists -/

/-- The ends of a chain are related through the members between them. -/
theorem transGen_of_isChain {α : Type} {r : α → α → Prop} {as : List α} {a b : α}
    (h : (a :: (as ++ [b])).IsChain r) : Relation.TransGen r a b := by
  induction as generalizing a with
  | nil => exact .single (List.isChain_cons_cons.1 h).1
  | cons c as ih =>
    obtain ⟨hac, hchain⟩ := List.isChain_cons_cons.1 h
    exact .head hac (ih hchain)

/-- Each member of a chain but the last one is related to another member. -/
theorem exists_right_of_isChain {α : Type} {r : α → α → Prop} {as : List α} {a b c : α}
    (h : (a :: (as ++ [b])).IsChain r) (hc : c ∈ a :: as) : ∃ d, r c d := by
  induction as generalizing a with
  | nil =>
    obtain rfl := List.mem_singleton.1 hc
    exact ⟨b, (List.isChain_cons_cons.1 h).1⟩
  | cons a' as ih =>
    obtain ⟨haa', hchain⟩ := List.isChain_cons_cons.1 h
    rcases List.mem_cons.1 hc with rfl | hc
    · exact ⟨a', haa'⟩
    · exact ih hchain hc

/-! ### Cycles -/

section Cycles

variable [DecidableEq α]

/-- A list of distinct nodes, each of which follows the one before it, and the first one the last
one. -/
structure IsCycle (g : Digraph α) (cycle : List α) : Prop where
  ne_nil : cycle ≠ []
  nodup : cycle.Nodup
  isChain : (cycle ++ cycle.take 1).IsChain fun a b => g.Follows b a

/-- A node that follows a path through itself is on a cycle, which the path ends with. The path has
its last node first. -/
theorem isCycle_of_mem {path : List α} {a : α} (ha : a ∈ path) (hnodup : path.Nodup)
    (hchain : (a :: path).IsChain g.Follows) :
    g.IsCycle (path.takeWhile (· != a) ++ [a]).reverse := by
  obtain ⟨inner, before, rfl, hinner⟩ := List.eq_append_cons_of_mem ha
  have htake : (inner ++ a :: before).takeWhile (· != a) = inner := by
    rw [List.takeWhile_append_of_pos fun b hb => by
      simpa using fun hba : b = a => hinner (hba ▸ hb), List.takeWhile_cons_of_neg (by simp),
      List.append_nil]
  have hcut : inner ++ a :: before = (inner ++ [a]) ++ before := by
    rw [List.append_assoc]
    rfl
  rw [htake]
  refine ⟨by simp, ?_, ?_⟩
  · rw [hcut] at hnodup
    exact List.nodup_reverse.2 hnodup.of_append_left
  · -- Closed, the cycle is the end of the path from the node back to itself.
    have hclosed : (inner ++ [a]).reverse ++ (inner ++ [a]).reverse.take 1 =
        (a :: (inner ++ [a])).reverse := by
      rw [List.reverse_append, List.reverse_singleton, List.reverse_cons (a := a),
        List.reverse_append, List.reverse_singleton]
      rfl
    rw [hclosed, List.isChain_reverse]
    rw [hcut, ← List.cons_append] at hchain
    exact hchain.left_of_append

/-- What stops an exploration is a cycle. -/
theorem isCycle_of_explore {fuel : Nat} {path explored cycle : List α} {a : α}
    (hnodup : path.Nodup) (hchain : (a :: path).IsChain g.Follows)
    (h : g.explore fuel path explored a = .error cycle) : g.IsCycle cycle := by
  induction fuel generalizing path explored a with
  | zero => cases h
  | succ fuel ih =>
    rw [explore] at h
    by_cases hpath : path.contains a = true
    · rw [if_pos hpath] at h
      obtain rfl := Except.error.inj h
      exact isCycle_of_mem (by simpa using hpath) hnodup hchain
    · rw [if_neg hpath] at h
      by_cases hseen : explored.contains a = true
      · rw [if_pos hseen] at h
        cases h
      · rw [if_neg hseen] at h
        have hfold : (g.successors a).foldlM (g.explore fuel (a :: path)) explored =
            .error cycle := by
          cases hfold : (g.successors a).foldlM (g.explore fuel (a :: path)) explored with
          | error cycle' =>
            rw [hfold] at h
            exact congrArg _ (Except.error.inj h)
          | ok explored' =>
            rw [hfold] at h
            cases h
        obtain ⟨b, hb, explored', hexplore⟩ := Bounded.exists_of_foldlM_eq_error hfold
        have hnot : a ∉ path := by simpa using hpath
        exact ih (List.nodup_cons.2 ⟨hnot, hnodup⟩) (List.isChain_cons_cons.2 ⟨hb, hchain⟩)
          hexplore

/-- What the search finds is a cycle. -/
theorem isCycle_of_findCycle? {cycle : List α} (h : g.findCycle? = some cycle) :
    g.IsCycle cycle := by
  rw [findCycle?] at h
  cases hfold : g.nodes.foldlM (g.explore (g.nodes.length + 1) []) [] with
  | ok explored =>
    rw [hfold] at h
    cases h
  | error cycle' =>
    rw [hfold] at h
    obtain rfl := Option.some.inj h
    obtain ⟨a, -, explored, hexplore⟩ := Bounded.exists_of_foldlM_eq_error hfold
    exact isCycle_of_explore List.nodup_nil (.singleton a) hexplore

/-! ### Searches for cycles -/

/-- Each node of a cycle is followed by another one. -/
theorem IsCycle.exists_next {cycle : List α} {a : α} (h : g.IsCycle cycle) (ha : a ∈ cycle) :
    ∃ b, g.Follows b a := by
  rcases cycle with _ | ⟨c, cycle⟩
  · cases ha
  · have hchain : (c :: (cycle ++ [c])).IsChain fun a b => g.Follows b a := h.isChain
    exact exists_right_of_isChain hchain ha

/-- A node of a cycle follows itself through others. -/
theorem IsCycle.transGen {cycle : List α} {a : α} (h : g.IsCycle (a :: cycle)) :
    Relation.TransGen (fun a b => g.Follows b a) a a := by
  have hchain : (a :: (cycle ++ [a])).IsChain fun a b => g.Follows b a := h.isChain
  exact transGen_of_isChain hchain

/-- So infinite ways lead away from it. -/
theorem IsCycle.not_acc {cycle : List α} {a : α} (h : g.IsCycle (a :: cycle)) :
    ¬ Acc g.Follows a := fun hacc =>
  not_self_of_acc hacc.transGen (Relation.transGen_swap.2 h.transGen)

/-- A search returns a cycle of the graph, or else there is none. -/
structure FindsCycles (find : Digraph α → Option (List α)) : Prop where
  isCycle : ∀ g cycle, find g = some cycle → g.IsCycle cycle
  not_isCycle : ∀ g, find g = none → ∀ cycle, ¬ g.IsCycle cycle

/-- **Depth-first search finds cycles.** -/
theorem findsCycles_findCycle? : FindsCycles (findCycle? (α := α)) where
  isCycle g cycle h := isCycle_of_findCycle? h
  not_isCycle g h cycle hcycle := by
    rcases cycle with _ | ⟨a, cycle⟩
    · exact hcycle.ne_nil rfl
    · -- The node follows one before it, so it is a node of the graph.
      obtain ⟨b, -, hab⟩ := Relation.TransGen.tail'_iff.1 hcycle.transGen
      exact hcycle.not_acc (acc_of_findCycle? h (mem_nodes_of_follows hab))

/-- Every search finds a cycle if some node follows itself through others. -/
theorem FindsCycles.isSome {find : Digraph α → Option (List α)} (hfind : FindsCycles find) {a : α}
    (h : Relation.TransGen (fun a b => g.Follows b a) a a) : ∃ cycle, find g = some cycle := by
  rcases hg : find g with _ | cycle
  · -- Depth-first search would not find a cycle either, and all nodes would be accessible.
    have hnone : g.findCycle? = none := by
      by_contra hsome
      obtain ⟨cycle, hcycle⟩ := Option.ne_none_iff_exists'.1 hsome
      exact hfind.not_isCycle g hg cycle (isCycle_of_findCycle? hcycle)
    obtain ⟨b, -, hab⟩ := Relation.TransGen.tail'_iff.1 h
    have hacc := acc_of_findCycle? hnone (mem_nodes_of_follows hab)
    exact absurd (Relation.transGen_swap.2 h) (not_self_of_acc hacc.transGen)
  · exact ⟨cycle, rfl⟩

end Cycles

end RegisterMachine.Digraph
