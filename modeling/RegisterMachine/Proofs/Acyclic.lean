import Mathlib.Data.List.Perm.Subperm
import RegisterMachine.Digraph
import RegisterMachine.Proofs.Fuel

/-!
# Graphs without cycles

A depth-first search that meets no cycle explores every node to the end. A node that is explored to
the end has no infinite way leading away from it, since all its successors were explored before it.

* `Digraph.Follows` — the successor relation;
* `Digraph.extends_explore` — what is explored is accessible;
* `Digraph.acc_of_findCycle?` — all nodes of a graph in which no cycle is found are.
-/

namespace RegisterMachine.Digraph

variable {α : Type} [DecidableEq α] {g : Digraph α}

/-- The first node is a successor of the second one. -/
def Follows (g : Digraph α) (b a : α) : Prop :=
  b ∈ g.successors a

theorem exists_of_follows {a b : α} (h : g.Follows b a) :
    ∃ bs, (a, bs) ∈ g.adjacency ∧ b ∈ bs := by
  rw [Follows, successors] at h
  cases hl : g.adjacency.lookup a with
  | none =>
    rw [hl] at h
    cases h
  | some bs =>
    rw [hl] at h
    obtain ⟨before, behind, hsplit, -⟩ := List.lookup_eq_some_iff.1 hl
    exact ⟨bs, by simp [hsplit], h⟩

theorem mem_nodes_of_follows {a b : α} (h : g.Follows b a) : b ∈ g.nodes := by
  obtain ⟨bs, hbs, hb⟩ := exists_of_follows h
  rw [nodes, List.mem_append]
  by_cases hs : b ∈ g.sources
  · exact .inl hs
  · refine .inr (List.mem_filter.2 ⟨?_, by simpa using hs⟩)
    exact List.mem_eraseDups.2 (List.mem_flatMap.2 ⟨(a, bs), hbs, hb⟩)

/-- An accessible point is not related to itself. -/
theorem not_self_of_acc {β : Type} {r : β → β → Prop} {b : β} (h : Acc r b) : ¬ r b b := by
  induction h with
  | intro b _ ih => exact fun hbb => ih b hbb hbb

/-- What has been explored is accessible. -/
def Finished (g : Digraph α) (explored : List α) : Prop :=
  ∀ b ∈ explored, Acc g.Follows b

/-- More nodes have been explored, and all of these are accessible. -/
structure Extends (g : Digraph α) (explored more explored' : List α) : Prop where
  /-- Nothing is forgotten. -/
  kept : explored ⊆ explored'
  /-- The nodes have been explored. -/
  added : more ⊆ explored'
  /-- Everything explored is accessible. -/
  finished : g.Finished explored'

/-- Nodes may be explored one after another. -/
theorem extends_foldlM {ε : Type} {f : List α → α → Except ε (List α)} {as : List α}
    (hf : ∀ a ∈ as, ∀ explored explored', g.Finished explored → f explored a = .ok explored' →
      g.Extends explored [a] explored')
    {explored explored' : List α} (hfinished : g.Finished explored)
    (h : as.foldlM f explored = .ok explored') : g.Extends explored as explored' := by
  induction as generalizing explored with
  | nil =>
    obtain rfl := Except.ok.inj h
    exact ⟨List.Subset.refl _, List.nil_subset _, hfinished⟩
  | cons a as ih =>
    rw [List.foldlM_cons] at h
    obtain ⟨between, hfirst, hrest⟩ := Bounded.bind_eq_ok.1 h
    obtain ⟨hkept, hadded, hbetween⟩ :=
      hf a List.mem_cons_self explored between hfinished hfirst
    obtain ⟨hkept', hadded', hend⟩ :=
      ih (fun b hb => hf b (List.mem_cons_of_mem a hb)) hbetween hrest
    refine ⟨fun b hb => hkept' (hkept hb), List.cons_subset.2 ⟨?_, hadded'⟩, hend⟩
    exact hkept' (hadded List.mem_cons_self)

/-- An exploration that meets no cycle explores its node, if there is fuel for a path through all
nodes. -/
theorem extends_explore {fuel : Nat} {path explored explored' : List α} {a : α}
    (hfuel : g.nodes.length < fuel + path.length) (hnodup : path.Nodup) (hpath : path ⊆ g.nodes)
    (ha : a ∈ g.nodes) (hfinished : g.Finished explored)
    (h : g.explore fuel path explored a = .ok explored') : g.Extends explored [a] explored' := by
  induction fuel generalizing path explored explored' a with
  | zero =>
    -- A path without repetitions is no longer than the list of nodes.
    have hle := (hnodup.subperm hpath).length_le
    omega
  | succ fuel ih =>
    rw [explore] at h
    by_cases hcycle : path.contains a = true
    · rw [if_pos hcycle] at h
      cases h
    · rw [if_neg hcycle] at h
      by_cases hseen : explored.contains a = true
      · rw [if_pos hseen] at h
        obtain rfl := Except.ok.inj h
        exact ⟨List.Subset.refl _, by simpa using hseen, hfinished⟩
      · rw [if_neg hseen] at h
        have hnot : a ∉ path := by simpa using hcycle
        obtain ⟨inner, hinner, rfl⟩ : ∃ inner,
            (g.successors a).foldlM (g.explore fuel (a :: path)) explored = .ok inner ∧
              explored' = a :: inner := by
          cases hfold : (g.successors a).foldlM (g.explore fuel (a :: path)) explored with
          | error cycle =>
            rw [hfold] at h
            cases h
          | ok inner =>
            rw [hfold] at h
            exact ⟨inner, rfl, (Except.ok.inj h).symm⟩
        obtain ⟨hkept, hadded, hend⟩ := extends_foldlM (fun b hb seen seen' hs hexplore =>
          ih (by rw [List.length_cons]; omega) (List.nodup_cons.2 ⟨hnot, hnodup⟩)
            (List.cons_subset.2 ⟨ha, hpath⟩) (mem_nodes_of_follows hb) hs hexplore) hfinished hinner
        -- All successors of the node have been explored, so the node is accessible too.
        have hacc : Acc g.Follows a := ⟨a, fun b hb => hend b (hadded hb)⟩
        refine ⟨fun b hb => List.mem_cons_of_mem a (hkept hb), by simp, fun b hb => ?_⟩
        rcases List.mem_cons.1 hb with rfl | hb
        · exact hacc
        · exact hend b hb

/-- Where no cycle is found, no infinite way leads away from any node. -/
theorem acc_of_findCycle? (h : g.findCycle? = none) {a : α} (ha : a ∈ g.nodes) :
    Acc g.Follows a := by
  rw [findCycle?] at h
  cases hfold : g.nodes.foldlM (g.explore (g.nodes.length + 1) []) [] with
  | error cycle =>
    rw [hfold] at h
    cases h
  | ok explored =>
    have hall := extends_foldlM (g := g) (fun b hb seen seen' hs hexplore =>
      extends_explore (Nat.lt_succ_self _) List.nodup_nil (List.nil_subset _) hb hs hexplore)
      (fun b hb => absurd hb List.not_mem_nil) hfold
    exact hall.finished a (hall.added ha)

end RegisterMachine.Digraph
