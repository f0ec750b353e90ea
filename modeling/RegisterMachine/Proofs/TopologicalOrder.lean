import Mathlib.Data.List.Nodup
import Mathlib.Data.Set.Finite.List
import Mathlib.Logic.Function.Basic
import Mathlib.Logic.Relation
import RegisterMachine.Proofs.Cycle

/-!
# Topological orders

A graph without cycles has all its nodes placed, each once and before its successors. Nodes that are
placed or wait in the queue are the ones whose predecessors are all placed. If the queue runs empty,
a node that is still missing has a predecessor that is missing too, and so on without end, which a
finite graph without cycles does not allow.

The queue can be cut into generations. Instead of looking at all predecessors of a node, it is
enough to count the edges that lead into it, and to take one off whenever a predecessor is placed.

* `Digraph.IsTopologicalOrder` — all nodes, none behind a successor;
* `Digraph.Placing` — what holds while nodes are placed, `Digraph.Placing.step`;
* `Digraph.isTopologicalOrder_topologicalOrder` — the nodes are placed in such an order;
* `Digraph.generations` — generations by counting edges;
* `Digraph.exists_generations` — the generations, one after the other, are that order.
-/

namespace RegisterMachine.Digraph

variable {α : Type} [DecidableEq α] {g : Digraph α}

/-- The nodes of a graph, none of which comes behind a successor. -/
structure IsTopologicalOrder (g : Digraph α) (order : List α) : Prop where
  perm : order.Perm g.nodes
  sorted : order.Pairwise fun a b => ¬ g.Follows a b

/-! ### Graphs without double edges -/

/-- No source is listed twice, and none of its successors is. -/
structure IsSimple (g : Digraph α) : Prop where
  nodup_sources : g.sources.Nodup
  nodup_targets : ∀ source ∈ g.adjacency, source.2.Nodup

section Simple

variable {a b : α}

theorem mem_nodes_of_source (h : g.Follows b a) : a ∈ g.nodes := by
  obtain ⟨bs, hbs, -⟩ := exists_of_follows h
  exact List.mem_append_left _ (List.mem_map_of_mem hbs)

theorem IsSimple.lookup_eq (hg : g.IsSimple) {bs : List α} (h : (a, bs) ∈ g.adjacency) :
    g.adjacency.lookup a = some bs := by
  obtain ⟨before, behind, hsplit⟩ := List.append_of_mem h
  refine List.lookup_eq_some_iff.2 ⟨before, behind, hsplit, fun source hsource => ?_⟩
  have hnodup := hg.nodup_sources
  rw [sources, hsplit, List.map_append, List.map_cons, List.nodup_append] at hnodup
  simpa using (hnodup.2.2 source.1 (List.mem_map_of_mem hsource) a List.mem_cons_self).symm

theorem IsSimple.mem_predecessors (hg : g.IsSimple) : a ∈ g.predecessors b ↔ g.Follows b a := by
  rw [predecessors, List.mem_map]
  constructor
  · rintro ⟨⟨a, bs⟩, hsource, rfl⟩
    obtain ⟨hmem, hb⟩ := List.mem_filter.1 hsource
    rw [Follows, successors, hg.lookup_eq hmem]
    simpa using hb
  · intro h
    obtain ⟨bs, hbs, hb⟩ := exists_of_follows h
    exact ⟨(a, bs), List.mem_filter.2 ⟨hbs, by simpa using hb⟩, rfl⟩

theorem IsSimple.nodup_predecessors (hg : g.IsSimple) (b : α) : (g.predecessors b).Nodup :=
  hg.nodup_sources.sublist (List.filter_sublist.map _)

theorem IsSimple.nodup_successors (hg : g.IsSimple) (a : α) : (g.successors a).Nodup := by
  rw [successors]
  cases h : g.adjacency.lookup a with
  | none => exact List.nodup_nil
  | some bs =>
    obtain ⟨before, behind, hsplit, -⟩ := List.lookup_eq_some_iff.1 h
    exact hg.nodup_targets (a, bs) (by simp [hsplit])

theorem nodup_eraseDups (as : List α) : as.eraseDups.Nodup := by
  induction hn : as.length using Nat.strong_induction_on generalizing as with
  | _ n ih =>
    cases as with
    | nil => exact List.nodup_nil
    | cons a as =>
      rw [List.eraseDups_cons, List.nodup_cons]
      refine ⟨by simp, ih _ ?_ _ rfl⟩
      exact hn ▸ Nat.lt_succ_of_le (List.length_filter_le _ as)

theorem IsSimple.nodup_nodes (hg : g.IsSimple) : g.nodes.Nodup := by
  rw [nodes, sinks, List.nodup_append]
  refine ⟨hg.nodup_sources, (nodup_eraseDups _).filter _, ?_⟩
  rintro a ha _ hb rfl
  simpa [ha] using (List.mem_filter.1 hb).2

end Simple

/-! ### Placing nodes -/

/-- What holds while nodes are placed, latest first, and others wait in a queue. -/
structure Placing (g : Digraph α) (placed queue : List α) : Prop where
  nodup : (placed ++ queue).Nodup
  subset : placed ++ queue ⊆ g.nodes
  /-- Placed or waiting are the nodes whose predecessors are all placed. -/
  mem_iff : ∀ b ∈ g.nodes, b ∈ placed ++ queue ↔ ∀ a, g.Follows b a → a ∈ placed
  /-- No node was placed behind a successor. -/
  sorted : placed.Pairwise fun a b => ¬ g.Follows b a

section Placing

variable {placed queue : List α} {a b : α}

/-- At first, the nodes without predecessors wait. -/
theorem IsSimple.placing (hg : g.IsSimple) :
    g.Placing [] (g.nodes.filter fun a => (g.predecessors a).isEmpty) where
  nodup := hg.nodup_nodes.filter _
  subset := List.filter_sublist.subset
  mem_iff b hb := by
    rw [List.nil_append, List.mem_filter, and_iff_right hb, List.isEmpty_iff,
      List.eq_nil_iff_forall_not_mem]
    exact forall_congr' fun a => by simp [hg.mem_predecessors]
  sorted := .nil

theorem IsSimple.all_predecessors (hg : g.IsSimple) :
    (g.predecessors b).all placed.contains = true ↔ ∀ c, g.Follows b c → c ∈ placed := by
  rw [List.all_eq_true]
  exact forall_congr' fun c => by rw [hg.mem_predecessors, List.contains_iff_mem]

theorem IsSimple.mem_released (hg : g.IsSimple) :
    b ∈ g.released placed a ↔ g.Follows b a ∧ ∀ c, g.Follows b c → c ∈ placed := by
  rw [released, List.mem_filter, hg.all_predecessors, Follows]

/-- A node that is placed was not placed before, and follows no node that is not. -/
theorem Placing.not_follows (h : g.Placing placed (a :: queue)) (hb : b ∈ placed ++ a :: queue) :
    ¬ g.Follows b a := fun hfollows => by
  have ha := (h.mem_iff b (h.subset hb)).1 hb a hfollows
  exact List.disjoint_of_nodup_append h.nodup ha List.mem_cons_self

/-- The first node of the queue is placed. -/
theorem Placing.step (hg : g.IsSimple) (h : g.Placing placed (a :: queue)) :
    g.Placing (a :: placed) (queue ++ g.released (a :: placed) a) := by
  have hperm : (placed ++ a :: queue).Perm (a :: placed ++ queue) := List.perm_middle
  refine ⟨?_, ?_, fun b hb => ?_, ?_⟩
  · rw [← List.append_assoc]
    refine (hperm.nodup_iff.1 h.nodup).append ((hg.nodup_successors a).filter _) ?_
    -- A node that is released follows the node that is placed.
    exact fun b hb hreleased =>
      h.not_follows (hperm.mem_iff.2 hb) (hg.mem_released.1 hreleased).1
  · rw [← List.append_assoc, List.append_subset]
    exact ⟨fun b hb => h.subset (hperm.mem_iff.2 hb),
      fun b hb => mem_nodes_of_follows (hg.mem_released.1 hb).1⟩
  · rw [← List.append_assoc, List.mem_append, ← hperm.mem_iff, h.mem_iff b hb, hg.mem_released]
    constructor
    · rintro (hall | ⟨-, hall⟩) c hc
      · exact List.mem_cons_of_mem a (hall c hc)
      · exact hall c hc
    · intro hall
      by_cases hfollows : g.Follows b a
      · exact .inr ⟨hfollows, hall⟩
      · refine .inl fun c hc => (List.mem_cons.1 (hall c hc)).resolve_left ?_
        rintro rfl
        exact hfollows hc
  · exact List.pairwise_cons.2
      ⟨fun b hb => h.not_follows (List.mem_append_left _ hb), h.sorted⟩

/-- There is no more to place than there are nodes. -/
theorem Placing.length_le (h : g.Placing placed queue) :
    placed.length + queue.length ≤ g.nodes.length := by
  rw [← List.length_append]
  exact (h.nodup.subperm h.subset).length_le

/-- With a bound that no more than the other nodes can reach, the queue runs empty. -/
theorem Placing.place (hg : g.IsSimple) {fuel : Nat} (h : g.Placing placed queue)
    (hfuel : g.nodes.length ≤ placed.length + fuel) : g.Placing (g.place fuel placed queue) [] := by
  induction fuel generalizing placed queue with
  | zero =>
    have hle := h.length_le
    obtain rfl : queue = [] := List.eq_nil_of_length_eq_zero (by omega)
    rwa [Digraph.place]
  | succ fuel ih =>
    cases queue with
    | nil => rwa [Digraph.place]
    | cons a queue =>
      rw [Digraph.place]
      exact ih (h.step hg) (by rw [List.length_cons]; omega)

/-! ### All nodes are placed -/

/-- In a graph from whose nodes no infinite ways lead away, none lead into them either. -/
theorem acc_predecessors (hacc : ∀ a ∈ g.nodes, Acc g.Follows a) :
    ∀ a ∈ g.nodes, Acc (fun a b => g.Follows b a) a := by
  -- On the finitely many nodes, what comes before what is a strict order.
  let before (a b : { a // a ∈ g.nodes }) : Prop := Relation.TransGen (fun a b => g.Follows b a) a b
  have : Finite { a // a ∈ g.nodes } := (List.finite_toSet g.nodes).to_subtype
  have : IsTrans _ before := ⟨fun _ _ _ => Relation.TransGen.trans⟩
  have : Std.Irrefl before := ⟨fun a h =>
    not_self_of_acc (hacc a a.2).transGen (Relation.transGen_swap.2 h)⟩
  have hwf : WellFounded before := Finite.wellFounded_of_trans_of_irrefl before
  intro a ha
  induction hn : (⟨a, ha⟩ : { a // a ∈ g.nodes }) using hwf.induction generalizing a with
  | _ n ih =>
    subst hn
    exact ⟨a, fun b hb =>
      ih ⟨b, mem_nodes_of_source hb⟩ (.single hb) b (mem_nodes_of_source hb) rfl⟩

/-- When nothing waits any more, all nodes are placed. -/
theorem Placing.mem_of_mem_nodes (h : g.Placing placed [])
    (hacc : ∀ a ∈ g.nodes, Acc g.Follows a) (ha : a ∈ g.nodes) : a ∈ placed := by
  induction acc_predecessors hacc a ha with
  | intro a _ ih =>
    have hplaced := (h.mem_iff a ha).2 fun b hb => ih b hb (mem_nodes_of_source hb)
    rwa [List.append_nil] at hplaced

theorem Placing.perm (h : g.Placing placed []) (hg : g.IsSimple)
    (hacc : ∀ a ∈ g.nodes, Acc g.Follows a) : placed.Perm g.nodes := by
  have hnodup := h.nodup
  have hsubset := h.subset
  rw [List.append_nil] at hnodup hsubset
  exact (List.perm_ext_iff_of_nodup hnodup hg.nodup_nodes).2 fun a =>
    ⟨fun ha => hsubset ha, h.mem_of_mem_nodes hacc⟩

end Placing

/-- **The nodes of a graph without cycles are placed in a topological order.** -/
theorem isTopologicalOrder_topologicalOrder (hg : g.IsSimple)
    (hacc : ∀ a ∈ g.nodes, Acc g.Follows a) : g.IsTopologicalOrder g.topologicalOrder := by
  have hlength : g.nodes.length ≤ ([] : List α).length + g.nodes.length := by simp
  have hend := hg.placing.place hg hlength
  exact ⟨(List.reverse_perm _).trans (hend.perm hg hacc), List.pairwise_reverse.2 hend.sorted⟩

/-- Read backwards, successors come before the nodes that they follow. -/
theorem IsTopologicalOrder.idxOf_reverse_lt {order : List α} (h : g.IsTopologicalOrder order)
    {a b : α} (hne : a ≠ b) (hfollows : g.Follows b a) :
    order.reverse.idxOf b < order.reverse.idxOf a := by
  have ha : a ∈ order.reverse :=
    List.mem_reverse.2 (h.perm.mem_iff.2 (mem_nodes_of_source hfollows))
  have hb : b ∈ order.reverse :=
    List.mem_reverse.2 (h.perm.mem_iff.2 (mem_nodes_of_follows hfollows))
  rcases lt_trichotomy (order.reverse.idxOf b) (order.reverse.idxOf a) with hlt | heq | hlt
  · exact hlt
  · exact absurd ((List.idxOf_inj hb).1 heq).symm hne
  · have hnot := List.pairwise_iff_getElem.1 (List.pairwise_reverse.2 h.sorted) _ _
      (List.idxOf_lt_length_iff.2 ha) (List.idxOf_lt_length_iff.2 hb) hlt
    rw [List.getElem_idxOf, List.getElem_idxOf] at hnot
    exact absurd hfollows hnot

/-! ### Generations -/

/-- The number of edges that lead into a node. -/
def indegree (g : Digraph α) (b : α) : Nat :=
  (g.edges.map Prod.snd).count b

/-- Takes off one of the counted edges into a node. Without any left, the node joins those that come
next. There is a failure if none was left before. -/
def takeOff : (α → Nat) × List α → α → Option ((α → Nat) × List α)
  | (count, next), b =>
    match count b with
    | 0 => none
    | k + 1 => some (Function.update count b k, if k = 0 then next ++ [b] else next)

/-- Takes off the edges out of the nodes of a generation, one after the other. -/
def takeOffAll (g : Digraph α) (count : α → Nat) (generation : List α) :
    Option ((α → Nat) × List α) :=
  (generation.flatMap g.successors).foldlM takeOff (count, [])

/-- A generation and those after it, for the counted edges into each node. There is a failure if
some are left when there is no next generation. The first number bounds the generations. -/
def generationsFrom (g : Digraph α) : Nat → (α → Nat) → List α → Option (List (List α))
  | _, count, [] => if g.nodes.all (count · = 0) then some [] else none
  | 0, _, _ :: _ => none
  | fuel + 1, count, a :: generation => do
    let (count, next) ← g.takeOffAll count (a :: generation)
    return (a :: generation) :: (← generationsFrom g fuel count next)

/-- The nodes of a graph in generations. Nodes without predecessors come first, and a node belongs
to the generation after that of its last predecessor. -/
def generations (g : Digraph α) : Option (List (List α)) :=
  g.generationsFrom g.nodes.length g.indegree (g.nodes.filter (g.indegree · = 0))

/-! ### Counting is enough -/

section Generations

variable {placed queue : List α} {a b : α}

/-- The number of predecessors of a node that are not placed. -/
def missing (g : Digraph α) (placed : List α) (b : α) : Nat :=
  (g.predecessors b).countP (· ∉ placed)

theorem missing_eq_zero_iff (hg : g.IsSimple) :
    g.missing placed b = 0 ↔ ∀ a, g.Follows b a → a ∈ placed := by
  rw [missing, List.countP_eq_zero]
  exact forall_congr' fun a => by simp [hg.mem_predecessors]

/-- At first, all predecessors are missing. -/
theorem indegree_eq_missing (hg : g.IsSimple) : g.indegree = g.missing [] := by
  funext b
  have hall : (g.predecessors b).countP (· ∉ []) = (g.predecessors b).length := by simp
  rw [missing, hall, predecessors, indegree, edges, List.length_map]
  have hnodup := hg.nodup_targets
  generalize g.adjacency = adjacency at hnodup
  induction adjacency with
  | nil => rfl
  | cons source adjacency ih =>
    obtain ⟨hsource, hrest⟩ := List.forall_mem_cons.1 hnodup
    rw [List.flatMap_cons, List.map_append, List.count_append, ih hrest, List.filter_cons]
    have htargets : (source.2.map fun c => (source.1, c)).map Prod.snd = source.2 := by
      rw [List.map_map]
      exact List.map_id' _
    rw [htargets, hsource.count]
    by_cases hb : b ∈ source.2 <;> simp [hb, Nat.add_comm]

/-- One predecessor less is missing for each successor of a node that is placed. -/
theorem missing_eq_add (hg : g.IsSimple) (ha : a ∉ placed) (b : α) :
    g.missing placed b = g.missing (a :: placed) b + if b ∈ g.successors a then 1 else 0 := by
  have hcount : (if b ∈ g.successors a then 1 else 0) = (g.predecessors b).count a := by
    rw [(hg.nodup_predecessors b).count]
    exact if_congr hg.mem_predecessors.symm rfl rfl
  rw [hcount, missing, missing]
  induction g.predecessors b with
  | nil => rfl
  | cons c cs ih =>
    rw [List.countP_cons, List.countP_cons, List.count_cons, ih]
    by_cases hc : c = a
    · subst hc
      simp [ha, Nat.add_assoc]
    · by_cases hplaced : c ∈ placed
      · simp [hc, hplaced]
      · simp [hc, hplaced]
        omega

/-- Where one edge into each of some nodes is taken off, those come next that none is left for. -/
theorem foldlM_takeOff {count left : α → Nat} {bs : List α} (hbs : bs.Nodup)
    (hcount : ∀ c, count c = left c + if c ∈ bs then 1 else 0) (next : List α) :
    bs.foldlM takeOff (count, next) = some (left, next ++ bs.filter (left · = 0)) := by
  induction bs generalizing count next with
  | nil =>
    obtain rfl : count = left := funext fun c => by simp [hcount c]
    simp
  | cons b bs ih =>
    obtain ⟨hb, hbs⟩ := List.nodup_cons.1 hbs
    have hfirst : takeOff (count, next) b = some (Function.update count b (left b),
        if left b = 0 then next ++ [b] else next) := by
      have hsucc : count b = left b + 1 := by simp [hcount b]
      rw [takeOff, hsucc]
    have hrest : ∀ c, Function.update count b (left b) c =
        left c + if c ∈ bs then 1 else 0 := fun c => by
      by_cases hc : c = b
      · subst hc
        simp [hb]
      · simp [hcount c, hc]
    rw [List.foldlM_cons, hfirst]
    refine (ih hbs hrest _).trans ?_
    by_cases hzero : left b = 0 <;> simp [hzero]

/-- The nodes that are released when some nodes are placed one after the other. -/
def releasedBy (g : Digraph α) : List α → List α → List α
  | _, [] => []
  | placed, a :: generation =>
    g.released (a :: placed) a ++ g.releasedBy (a :: placed) generation

/-- A whole generation is placed, in front of what waits behind it. -/
theorem Placing.steps (hg : g.IsSimple) {generation : List α}
    (h : g.Placing placed (generation ++ queue)) :
    g.Placing (generation.reverse ++ placed) (queue ++ g.releasedBy placed generation) := by
  induction generation generalizing placed queue with
  | nil => simpa [releasedBy] using h
  | cons a generation ih =>
    rw [List.cons_append] at h
    have hstep := h.step hg
    rw [List.append_assoc] at hstep
    simpa [releasedBy] using ih hstep

theorem place_steps {fuel : Nat} {generation : List α} (hfuel : generation.length ≤ fuel) :
    g.place fuel placed (generation ++ queue) = g.place (fuel - generation.length)
      (generation.reverse ++ placed) (queue ++ g.releasedBy placed generation) := by
  induction generation generalizing fuel placed queue with
  | nil => simp [releasedBy]
  | cons a generation ih =>
    obtain ⟨fuel, rfl⟩ : ∃ k, fuel = k + 1 := Nat.exists_eq_add_of_le' (Nat.one_le_of_lt hfuel)
    rw [List.cons_append, place, List.append_assoc, ih (Nat.le_of_succ_le_succ hfuel)]
    simp [releasedBy]

theorem takeOff_steps (hg : g.IsSimple) {generation : List α}
    (h : g.Placing placed (generation ++ queue)) (next : List α) :
    (generation.flatMap g.successors).foldlM takeOff (g.missing placed, next) =
      some (g.missing (generation.reverse ++ placed), next ++ g.releasedBy placed generation) := by
  induction generation generalizing placed queue next with
  | nil => simp [releasedBy]
  | cons a generation ih =>
    rw [List.cons_append] at h
    have ha : a ∉ placed := fun ha =>
      List.disjoint_of_nodup_append h.nodup ha List.mem_cons_self
    have hstep := h.step hg
    rw [List.append_assoc] at hstep
    have hreleased : (g.successors a).filter (g.missing (a :: placed) · = 0) =
        g.released (a :: placed) a :=
      List.filter_congr fun b _ => Bool.eq_iff_iff.2 <| by
        rw [hg.all_predecessors, decide_eq_true_eq, missing_eq_zero_iff hg]
    have hfirst := foldlM_takeOff (hg.nodup_successors a) (missing_eq_add hg ha) next
    rw [hreleased] at hfirst
    rw [List.flatMap_cons, List.foldlM_append, hfirst]
    refine (ih hstep _).trans ?_
    simp [releasedBy]

/-- Without a next generation, all nodes are placed and no edges are left. -/
theorem exists_generationsFrom_nil (hg : g.IsSimple) (hacc : ∀ a ∈ g.nodes, Acc g.Follows a)
    (h : g.Placing placed []) (fuel bound : Nat) :
    ∃ gens, g.generationsFrom fuel (g.missing placed) [] = some gens ∧
      g.place bound placed [] = gens.flatten.reverse ++ placed := by
  have hnone : g.nodes.all (g.missing placed · = 0) = true := by
    simp only [List.all_eq_true, decide_eq_true_eq, missing_eq_zero_iff hg]
    exact fun b _ a hfollows => h.mem_of_mem_nodes hacc (mem_nodes_of_source hfollows)
  refine ⟨[], ?_, ?_⟩
  · rw [generationsFrom, if_pos hnone]
  · cases bound <;> rfl

/-- Generations are placed one after the other. -/
theorem exists_generationsFrom (hg : g.IsSimple) (hacc : ∀ a ∈ g.nodes, Acc g.Follows a)
    {fuel bound : Nat} (h : g.Placing placed queue) (hfuel : g.nodes.length ≤ placed.length + fuel)
    (hbound : g.nodes.length ≤ placed.length + bound) :
    ∃ gens, g.generationsFrom fuel (g.missing placed) queue = some gens ∧
      g.place bound placed queue = gens.flatten.reverse ++ placed := by
  induction fuel generalizing placed queue bound with
  | zero =>
    have hle := h.length_le
    obtain rfl : queue = [] := List.eq_nil_of_length_eq_zero (by omega)
    exact exists_generationsFrom_nil hg hacc h 0 bound
  | succ fuel ih =>
    cases queue with
    | nil => exact exists_generationsFrom_nil hg hacc h (fuel + 1) bound
    | cons a queue =>
      have hle := h.length_le
      rw [List.length_cons] at hle
      rw [← List.append_nil (a :: queue)] at h
      have hcut := takeOff_steps hg h []
      have hplace : g.place bound placed (a :: queue ++ []) = _ :=
        place_steps (by rw [List.length_cons]; omega)
      rw [List.append_nil, List.nil_append] at hplace
      have hlength :
          ((a :: queue).reverse ++ placed).length = placed.length + queue.length + 1 := by
        simp
        omega
      have hfuel' : g.nodes.length ≤ ((a :: queue).reverse ++ placed).length + fuel := by omega
      have hbound' : g.nodes.length ≤
          ((a :: queue).reverse ++ placed).length + (bound - (a :: queue).length) := by
        rw [List.length_cons]
        omega
      obtain ⟨gens, hgens, hflatten⟩ := ih (h.steps hg) hfuel' hbound'
      refine ⟨(a :: queue) :: gens, ?_, ?_⟩
      · rw [List.nil_append] at hcut hgens
        rw [generationsFrom, takeOffAll, hcut]
        change (g.generationsFrom fuel (g.missing ((a :: queue).reverse ++ placed))
          (g.releasedBy placed (a :: queue)) >>= fun gens => some ((a :: queue) :: gens)) = _
        rw [hgens]
        rfl
      · rw [hplace]
        simpa using hflatten

/-- **Counting edges, generation by generation, gives the same order.** -/
theorem exists_generations (hg : g.IsSimple) (hacc : ∀ a ∈ g.nodes, Acc g.Follows a) :
    ∃ gens, g.generations = some gens ∧ gens.flatten = g.topologicalOrder := by
  have hfirst : (g.nodes.filter (g.indegree · = 0)) =
      g.nodes.filter fun a => (g.predecessors a).isEmpty := by
    refine List.filter_congr fun b _ => Bool.eq_iff_iff.2 ?_
    rw [indegree_eq_missing hg, decide_eq_true_eq, missing_eq_zero_iff hg, ← hg.all_predecessors,
      List.isEmpty_iff, List.all_eq_true, List.eq_nil_iff_forall_not_mem]
    simp
  have hlength : g.nodes.length ≤ ([] : List α).length + g.nodes.length := by simp
  obtain ⟨gens, hgens, hplace⟩ := exists_generationsFrom hg hacc hg.placing hlength hlength
  refine ⟨gens, ?_, ?_⟩
  · rw [generations, hfirst, indegree_eq_missing hg, hgens]
  · rw [topologicalOrder, hplace, List.append_nil, List.reverse_reverse]

end Generations

end RegisterMachine.Digraph
