import RegisterMachine.Proofs.StoreKeys
import RegisterMachine.Proofs.TopologicalOrder
import RegisterMachine.Proofs.Validation

/-!
# Callees before callers

The names of a library that passes its checks can be listed so that every program stands behind the
programs it calls. That is a topological order of the call graph, read backwards: the check rules
out both cycles and callees that are no programs. It does not matter in which order the callees of a
program are listed.

* `Library.isSimple_graphBy`, `Library.nodes_graphBy` — call graphs as graphs;
* `Library.validateWith_graphBy` — the check does not depend on the order of callees;
* `Library.dependencyOrderWith_graphBy` — callees come before callers.
-/

namespace RegisterMachine.Library

section Graphs

variable {lib : Library} {callees : Program → List String}

theorem nodup_directCalls (lib : Library) (p : Program) : (lib.directCalls p).Nodup := by
  have hsorted : (lib.directCalls p).Pairwise (· < ·) := pairwise_sortedSet _
  refine hsorted.imp ?_
  rintro f _ h rfl
  exact String.lt_irrefl f h

theorem sources_graphBy : (lib.graphBy callees).sources = lib.names := by
  rw [Digraph.sources, graphBy, List.map_map]
  rfl

/-- A call graph has no double edges. -/
theorem isSimple_graphBy (hcallees : lib.Enumerates callees) :
    (lib.graphBy callees).IsSimple where
  nodup_sources := sources_graphBy ▸ lib.nodup_names
  nodup_targets source hsource := by
    obtain ⟨p, hp, rfl⟩ := List.mem_map.1 hsource
    exact (hcallees p hp).nodup_iff.2 (lib.nodup_directCalls p)

/-- Without unknown calls, the nodes of a call graph are the names of the programs. -/
theorem nodes_graphBy (hknown : lib.unknownCall? (lib.graphBy callees) = none) :
    (lib.graphBy callees).nodes = lib.names := by
  have hsinks : (lib.graphBy callees).sinks = [] := by
    refine List.filter_eq_nil_iff.2 fun b hb => ?_
    obtain ⟨source, hsource, hb⟩ := List.mem_flatMap.1 (List.mem_eraseDups.1 hb)
    have hedge : (source.1, b) ∈ (lib.graphBy callees).edges :=
      List.mem_flatMap.2 ⟨source, hsource, List.mem_map_of_mem hb⟩
    rw [sources_graphBy]
    exact List.find?_eq_none.1 hknown _ hedge
  rw [Digraph.nodes, hsinks, sources_graphBy, List.append_nil]

/-- A library passes its checks in whatever order the callees of each program are listed. -/
theorem validateWith_graphBy (hlib : lib.validate = .ok ()) (hcallees : lib.Enumerates callees) :
    lib.validateWith (lib.graphBy callees) = .ok () := by
  have hown : lib.Decides lib.validate :=
    decides_validateBy (fun _ _ => .refl _) Digraph.findsCycles_findCycle?
  have hother : lib.Decides (lib.validateWith (lib.graphBy callees)) :=
    decides_validateBy hcallees Digraph.findsCycles_findCycle?
  exact hother.ok_iff.2 (hown.ok_iff.1 hlib)

/-- **In a library that passes its checks, callees come before callers.** -/
theorem dependencyOrderWith_graphBy (hlib : lib.validate = .ok ())
    (hcallees : lib.Enumerates callees) :
    ∃ generations order, (lib.graphBy callees).generations = some generations ∧
      lib.dependencyOrderWith (lib.graphBy callees) = .ok order ∧
      order = generations.flatten.reverse ∧ order.Perm lib.names ∧
      ∀ p ∈ lib.programs, ∀ q, lib.CallsDirectly p q →
        order.idxOf q.name < order.idxOf p.name := by
  have hvalid := validateWith_graphBy hlib hcallees
  obtain ⟨hknown, -, hcycle⟩ := validateWith_iff.1 hvalid
  have hsimple := isSimple_graphBy hcallees
  have hacc : ∀ a ∈ (lib.graphBy callees).nodes, Acc (lib.graphBy callees).Follows a :=
    fun a ha => Digraph.acc_of_findCycle? hcycle ha
  obtain ⟨generations, hgenerations, hflatten⟩ := Digraph.exists_generations hsimple hacc
  have horder := Digraph.isTopologicalOrder_topologicalOrder hsimple hacc
  refine ⟨generations, (lib.graphBy callees).topologicalOrder.reverse, hgenerations, ?_, ?_, ?_,
    fun p hp q hcalls => ?_⟩
  · rw [dependencyOrderWith, hvalid]
    rfl
  · rw [hflatten]
  · exact (List.reverse_perm _).trans (nodes_graphBy hknown ▸ horder.perm)
  · have hfollows : (lib.graphBy callees).Follows q.name p.name := by
      rw [follows_graphBy hp, (hcallees p hp).mem_iff]
      exact mem_directCalls_iff.2 (.inl ⟨q, hcalls, rfl⟩)
    refine horder.idxOf_reverse_lt (fun hself => ?_) hfollows
    rw [hself] at hfollows
    exact Digraph.not_self_of_acc (hacc _ (Digraph.mem_nodes_of_follows hfollows)) hfollows

end Graphs

/-! ### Calls in calls -/

/-- A program that calls a function in other letters, another one in an argument of it, and a third
one by a bare name in an argument of that. -/
def tower : Program where
  name := "TOWER"
  code := [.plain none (.quotation .result ⟨"sum", [.name "x1", .call "NEXT" [.name "nil"]]⟩)]
  nodup_labels := List.nodup_nil

/-- A program that calls one of them itself. -/
def towerSum : Program where
  name := "SUM"
  code := [.plain none (.quotation .result ⟨"next", [.name "x2"]⟩)]
  nodup_labels := List.nodup_nil

/-- A program without calls. -/
def towerNext : Program where
  name := "NEXT"
  code := [.plain none (.increase .result), .plain none (.assignment (.work 0) (.input 0))]
  nodup_labels := List.nodup_nil

/-- A program without instructions. -/
def towerNil : Program where
  name := "NIL"
  code := []
  nodup_labels := List.nodup_nil

/-- The library of these programs. -/
def towerLibrary : Library :=
  ⟨[.ofProgram towerNext, .ofProgram tower, .ofProgram towerNil, .ofProgram towerSum], by decide⟩

theorem towerLibrary_dependencyOrderWith_graphBy :
    towerLibrary.validate = .ok () ∧
    (towerLibrary.graphBy fun p => (towerLibrary.directCalls p).reverse).generations =
      some [["TOWER"], ["SUM", "NIL"], ["NEXT"]] ∧
    ∃ order, towerLibrary.dependencyOrderWith
        (towerLibrary.graphBy fun p => (towerLibrary.directCalls p).reverse) = .ok order ∧
      order = ["NEXT", "NIL", "SUM", "TOWER"] ∧ order.Perm towerLibrary.names ∧
      ∀ p ∈ towerLibrary.programs, ∀ q, towerLibrary.CallsDirectly p q →
        order.idxOf q.name < order.idxOf p.name := by
  have hgenerations : (towerLibrary.graphBy fun p =>
      (towerLibrary.directCalls p).reverse).generations =
        some [["TOWER"], ["SUM", "NIL"], ["NEXT"]] := rfl
  have hlib : towerLibrary.validate = .ok () := rfl
  have hcallees : towerLibrary.Enumerates fun p => (towerLibrary.directCalls p).reverse :=
    fun _ _ => List.reverse_perm _
  obtain ⟨generations, order, heq, horder, hflatten, hperm, hbefore⟩ :=
    dependencyOrderWith_graphBy hlib hcallees
  obtain rfl := Option.some.inj (heq.symm.trans hgenerations)
  exact ⟨hlib, hgenerations, order, horder, hflatten, hperm, hbefore⟩

end RegisterMachine.Library
