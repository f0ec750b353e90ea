import RegisterMachine.Proofs.Cycle
import RegisterMachine.Proofs.Resolved

/-!
# What the check of a library decides

The check of a library looks for three faults, one after the other: an explicit call that finds no
program, a target that no instruction declares, and programs that call each other in a circle. It
finds a fault if and only if there is one, and what it reports is one. This holds in whatever order
the callees of a program are listed, and whatever search for cycles is used.

* `Program.Invokes`, `Program.Names` — the functions that a program calls, at any depth;
* `Library.CallsDirectly` — one program calls another one;
* `Library.Decides` — a verdict is right;
* `Library.decides_validateBy` — that of the check is.
-/

namespace RegisterMachine

/-! ### Arguments in arguments -/

namespace Argument

/-- An argument is another one, or stands in the arguments of it at any depth. -/
inductive Within (n : Argument) : Argument → Prop
  | self : Within n n
  | argument {function : String} {as : List Argument} {a : Argument} (mem : a ∈ as)
      (within : Within n a) : Within n (.call function as)

mutual

theorem mem_nodes_iff {n : Argument} : ∀ a : Argument, n ∈ a.nodes ↔ n.Within a
  | .constant value => by
    rw [nodes, List.mem_singleton]
    exact ⟨fun h => h ▸ .self, fun h => by cases h; rfl⟩
  | .name text => by
    rw [nodes, List.mem_singleton]
    exact ⟨fun h => h ▸ .self, fun h => by cases h; rfl⟩
  | .call function as => by
    rw [nodes, List.mem_cons, mem_walk_iff as]
    constructor
    · rintro (rfl | ⟨a, ha, h⟩)
      · exact .self
      · exact .argument ha h
    · rintro (_ | ⟨ha, h⟩)
      · exact .inl rfl
      · exact .inr ⟨_, ha, h⟩

theorem mem_walk_iff {n : Argument} : ∀ as : List Argument, n ∈ walk as ↔ ∃ a ∈ as, n.Within a
  | [] => by simp [walk]
  | a :: as => by
    rw [walk, List.mem_append, mem_nodes_iff a, mem_walk_iff as]
    simp

end

theorem function?_eq_some_iff {n : Argument} {f : String} :
    n.function? = some f ↔ ∃ as, n = .call f as := by
  cases n <;> simp [function?]

theorem bareName?_eq_some_iff {n : Argument} {text : String} :
    n.bareName? = some text ↔ n = .name text ∧ Variable.isName text = false := by
  cases n with
  | name text' =>
    rw [bareName?]
    cases h : Variable.isName text' with
    | true =>
      simp only [if_true, reduceCtorEq, name.injEq, false_iff, not_and]
      rintro rfl
      simp [h]
    | false =>
      simp only [Bool.false_eq_true, if_false, Option.some.injEq, name.injEq]
      exact ⟨fun heq => ⟨heq, heq ▸ h⟩, fun heq => heq.1⟩
  | _ => simp [bareName?]

/-- What stands in a call, the call itself apart, stands in one of its arguments. -/
theorem within_toArgument_iff {n : Argument} {c : Call} :
    n.Within c.toArgument ↔ n = c.toArgument ∨ ∃ a ∈ c.arguments, n.Within a := by
  rw [← mem_nodes_iff, ← mem_walk_iff, Call.toArgument, nodes, List.mem_cons]

end Argument

/-! ### Calls of programs -/

namespace Program

/-- A program calls a function explicitly: in an instruction, or in the arguments of its call, at
any depth. -/
def Invokes (p : Program) (function : String) : Prop :=
  ∃ i ∈ p.code, ∃ call, i.operation.call? = some call ∧
    ∃ as, (Argument.call function as).Within call.toArgument

/-- A program has a bare name that spells no variable in the arguments of a call, at any depth. -/
def Names (p : Program) (text : String) : Prop :=
  ∃ i ∈ p.code, ∃ call, i.operation.call? = some call ∧
    (Argument.name text).Within call.toArgument ∧ Variable.isName text = false

variable {p : Program}

theorem mem_calledFunctions {f : String} : f ∈ p.calledFunctions ↔ p.Invokes f := by
  rw [calledFunctions, mem_sortedSet, List.mem_flatMap]
  refine exists_congr fun i => and_congr_right fun _ => ?_
  rw [Instruction.calledFunctions]
  cases i.operation.call? with
  | none => simp
  | some call =>
    simp only [Argument.mem_calledFunctions, Argument.walk_singleton, Argument.mem_nodes_iff,
      Argument.function?_eq_some_iff, Option.some.injEq, exists_eq_left']
    constructor
    · rintro ⟨_, hn, as, rfl⟩
      exact ⟨as, hn⟩
    · rintro ⟨as, hn⟩
      exact ⟨_, hn, as, rfl⟩

theorem mem_bareNames {text : String} : text ∈ p.bareNames ↔ p.Names text := by
  rw [bareNames, mem_sortedSet, List.mem_flatMap]
  refine exists_congr fun i => and_congr_right fun _ => ?_
  rw [Instruction.bareNames, Instruction.arguments, Argument.mem_bareNames]
  cases i.operation.call? with
  | none => simp [Argument.walk]
  | some call =>
    -- A bare name is no call, so it stands in an argument of the call.
    have hname : (Argument.name text).Within call.toArgument ↔
        ∃ a ∈ call.arguments, (Argument.name text).Within a := by
      rw [Argument.within_toArgument_iff, Call.toArgument]
      simp
    simp only [Argument.mem_walk_iff, Argument.bareName?_eq_some_iff, Option.some.injEq,
      exists_eq_left', hname]
    constructor
    · rintro ⟨_, hn, rfl, hvariable⟩
      exact ⟨hn, hvariable⟩
    · rintro ⟨hn, hvariable⟩
      exact ⟨_, hn, rfl, hvariable⟩

/-- An instruction has a numbered target, spare or not, that the program does not declare. -/
def Dangles (p : Program) (i : Instruction) (label : Label) : Prop :=
  i.target = some label ∧ label.isNumbered = true ∧ label ∉ p.labels

theorem isDangling_iff {label : Label} :
    p.isDangling label = true ↔ label.isNumbered = true ∧ label ∉ p.labels := by
  simp [isDangling]

/-- A program that passes its check has no such instruction. -/
theorem not_dangles_of_validate_eq_ok (h : p.validate = .ok ()) {i : Instruction} (hi : i ∈ p.code)
    {label : Label} : ¬ p.Dangles i label := by
  rintro ⟨htarget, hdangling⟩
  have hfalse := isDangling_eq_false_iff.2 (validate_eq_ok_iff.1 h i hi label htarget)
  rw [isDangling_iff.2 hdangling] at hfalse
  cases hfalse

/-- What the check of a program reports is such an instruction. -/
theorem exists_dangles_of_validate_eq_error {cause : Error} (h : p.validate = .error cause) :
    ∃ label index i, cause = .unknownLabel (some label) p.name (some index) ∧
      p.code[index]? = some i ∧ p.Dangles i label := by
  rw [validate] at h
  split at h
  · rename_i label index hdangling
    obtain ⟨⟨i, k⟩, hmem, htarget⟩ := List.exists_of_findSome?_eq_some hdangling
    obtain ⟨label', hlabel, heq⟩ := Option.map_eq_some_iff.1 htarget
    obtain ⟨rfl, rfl⟩ := Prod.mk.inj heq
    obtain ⟨htarget, hdangles⟩ := Option.filter_eq_some_iff.1 hlabel
    exact ⟨label', k, i, (Except.error.inj h).symm, List.mem_zipIdx_iff_getElem?.1 hmem, htarget,
      isDangling_iff.1 hdangles⟩
  · cases h

end Program

namespace Library

/-- A name finds a program by exact match, or by a match up to letter case. -/
def Resolves (lib : Library) (name : String) : Prop :=
  ∃ p ∈ lib.programs, p.name = name ∨ Text.toLower p.name = Text.toLower name

/-- A program calls another one, explicitly or by a bare name. -/
def CallsDirectly (lib : Library) (p q : Program) : Prop :=
  ∃ name, (p.Invokes name ∨ p.Names name) ∧ lib.find? name = some q

/-! ### Faults -/

/-- Some program calls a function explicitly that finds no program. -/
def HasUnknownCall (lib : Library) : Prop :=
  ∃ p ∈ lib.programs, ∃ f, p.Invokes f ∧ ¬ lib.Resolves f

/-- Some instruction of a program has a numbered target, spare or not, that the program does not
declare. -/
def HasUnknownTarget (lib : Library) : Prop :=
  ∃ p ∈ lib.programs, ∃ i ∈ p.code, ∃ label, p.Dangles i label

/-- Some program calls itself, directly or through others. -/
def HasCyclicCall (lib : Library) : Prop :=
  ∃ p ∈ lib.programs, Relation.TransGen lib.CallsDirectly p p

/-- Programs of the library, each under its own name, of which each calls the next one and the last
one the first one. -/
structure IsCallCycle (lib : Library) (ps : List Program) : Prop where
  ne_nil : ps ≠ []
  mem : ∀ p ∈ ps, p ∈ lib.programs
  nodup : (ps.map Program.name).Nodup
  isChain : (ps ++ ps.take 1).IsChain lib.CallsDirectly

/-- A verdict on a library reports the first of the three faults that it has, or none. -/
structure Decides (lib : Library) (verdict : Except Error Unit) : Prop where
  /-- An unknown function is reported if and only if there is an unknown call. -/
  unknownFunction_iff :
    (∃ f caller, verdict = .error (.unknownFunction f caller)) ↔ lib.HasUnknownCall
  /-- The reported caller makes such a call. -/
  unknownFunction : ∀ f caller, verdict = .error (.unknownFunction f caller) →
    ∃ p ∈ lib.programs, p.name = caller ∧ p.Invokes f ∧ ¬ lib.Resolves f
  /-- Otherwise, an unknown label is reported if and only if there is an unknown target. -/
  unknownLabel_iff :
    (∃ label program index, verdict = .error (.unknownLabel label program index)) ↔
      ¬ lib.HasUnknownCall ∧ lib.HasUnknownTarget
  /-- The reported instruction has such a target. -/
  unknownLabel : ∀ label program index,
    verdict = .error (.unknownLabel label program index) →
      ∃ p ∈ lib.programs, ∃ l k i, p.name = program ∧ label = some l ∧ index = some k ∧
        p.code[k]? = some i ∧ p.Dangles i l
  /-- Otherwise, a cycle is reported if and only if some program calls itself. -/
  cyclicCall_iff :
    (∃ names, verdict = .error (.cyclicCall names)) ↔
      ¬ lib.HasUnknownCall ∧ ¬ lib.HasUnknownTarget ∧ lib.HasCyclicCall
  /-- The reported names are those of programs that call each other in a circle. -/
  cyclicCall : ∀ names, verdict = .error (.cyclicCall names) →
    ∃ ps, lib.IsCallCycle ps ∧ names = ps.map Program.name
  /-- Otherwise, nothing is reported. -/
  ok_iff :
    verdict = .ok () ↔ ¬ lib.HasUnknownCall ∧ ¬ lib.HasUnknownTarget ∧ ¬ lib.HasCyclicCall

/-! ### Calls of a library -/

section Calls

variable {lib : Library} {p q : Program} {f : String}

theorem contains_iff : lib.contains f = true ↔ lib.Resolves f := by
  rw [contains, find?, Option.isSome_map, findExpansion?, Option.isSome_or, Bool.or_eq_true,
    findExact?, findFolded?, List.find?_isSome, List.find?_isSome]
  simp only [decide_eq_true_eq, Resolves, programs, List.mem_map, exists_exists_and_eq_and,
    and_or_left, exists_or, Expansion.program]

theorem find?_eq_none_iff : lib.find? f = none ↔ ¬ lib.Resolves f := by
  rw [← contains_iff, contains, Bool.not_eq_true, Option.isSome_eq_false_iff,
    Option.isNone_iff_eq_none]

theorem not_mem_names_of_not_resolves (h : ¬ lib.Resolves f) : f ∉ lib.names := by
  intro hf
  obtain ⟨q, hq, rfl⟩ := List.mem_map.1 hf
  exact h ⟨q, hq, .inl rfl⟩

/-- What a program calls is listed under the name of the program that is found, or as it is spelled
if none is. -/
theorem mem_directCalls_iff : f ∈ lib.directCalls p ↔
    (∃ q, lib.CallsDirectly p q ∧ f = q.name) ∨ (p.Invokes f ∧ ¬ lib.Resolves f) := by
  rw [directCalls, mem_sortedSet, List.mem_map]
  simp only [List.mem_append, List.mem_filter, Program.mem_calledFunctions, Program.mem_bareNames]
  constructor
  · rintro ⟨name, hname, rfl⟩
    rcases hfind : lib.find? name with _ | q
    · have hunknown := find?_eq_none_iff.1 hfind
      rw [resolve?, hfind]
      rcases hname with hname | ⟨-, hcontains⟩
      · exact .inr ⟨hname, hunknown⟩
      · exact absurd (contains_iff.1 hcontains) hunknown
    · rw [resolve?, hfind]
      exact .inl ⟨q, ⟨name, hname.imp_right And.left, hfind⟩, rfl⟩
  · rintro (⟨q, ⟨name, hname, hfind⟩, rfl⟩ | ⟨hname, hunknown⟩)
    · refine ⟨name, hname.imp_right fun h => ⟨h, ?_⟩, by rw [resolve?, hfind]; rfl⟩
      rw [contains, hfind]
      rfl
    · refine ⟨f, .inl hname, ?_⟩
      rw [resolve?, find?_eq_none_iff.2 hunknown]
      rfl

/-- What is listed without being the name of a program is an unknown call. -/
theorem not_mem_names_iff (hf : f ∈ lib.directCalls p) :
    f ∉ lib.names ↔ p.Invokes f ∧ ¬ lib.Resolves f := by
  refine ⟨fun hnot => ?_, fun h => not_mem_names_of_not_resolves h.2⟩
  rcases mem_directCalls_iff.1 hf with ⟨q, ⟨name, -, hfind⟩, rfl⟩ | hunknown
  · exact absurd (List.mem_map_of_mem (mem_of_find? hfind)) hnot
  · exact hunknown

/-- Programs of a library are told by their names. -/
theorem eq_of_name_eq (hp : p ∈ lib.programs) (hq : q ∈ lib.programs) (h : p.name = q.name) :
    p = q :=
  List.inj_on_of_nodup_map lib.nodup_names hp hq h

end Calls

/-! ### Graphs of a library -/

/-- The callees of each program are given, each once, in any order. -/
def Enumerates (lib : Library) (callees : Program → List String) : Prop :=
  ∀ p ∈ lib.programs, (callees p).Perm (lib.directCalls p)

/-- The graph in which the successors of each program are given. -/
def graphBy (lib : Library) (callees : Program → List String) : Digraph String :=
  ⟨lib.programs.map fun p => (p.name, callees p)⟩

/-- The check of a library against a graph, with any search for cycles. -/
def validateBy (lib : Library) (find : Digraph String → Option (List String))
    (graph : Digraph String) : Except Error Unit := do
  if let some (caller, callee) := lib.unknownCall? graph then
    throw (.unknownFunction callee caller)
  lib.programs.forM Program.validate
  if let some cycle := find graph then
    throw (.cyclicCall cycle)

/-- The check searches depth-first. -/
theorem validateWith_eq (lib : Library) (graph : Digraph String) :
    lib.validateWith graph = lib.validateBy Digraph.findCycle? graph := rfl

section Graphs

variable {lib : Library} {callees : Program → List String} {p q : Program} {f : String}

theorem mem_edges_graphBy {a : String} :
    (a, f) ∈ (lib.graphBy callees).edges ↔ ∃ p ∈ lib.programs, p.name = a ∧ f ∈ callees p := by
  simp only [graphBy, Digraph.edges, List.mem_flatMap, List.mem_map, Prod.mk.injEq]
  constructor
  · rintro ⟨_, ⟨p, hp, rfl⟩, f', hf', rfl, rfl⟩
    exact ⟨p, hp, rfl, hf'⟩
  · rintro ⟨p, hp, rfl, hf⟩
    exact ⟨_, ⟨p, hp, rfl⟩, f, hf, rfl, rfl⟩

theorem follows_graphBy (hp : p ∈ lib.programs) :
    (lib.graphBy callees).Follows f p.name ↔ f ∈ callees p := by
  rw [Digraph.Follows, Digraph.successors, graphBy, lookup_map lib.nodup_names hp]
  rfl

theorem exists_program_of_follows {a b : String} (h : (lib.graphBy callees).Follows b a) :
    ∃ p ∈ lib.programs, p.name = a := by
  obtain ⟨bs, hbs, -⟩ := Digraph.exists_of_follows h
  obtain ⟨p, hp, heq⟩ := List.mem_map.1 hbs
  exact ⟨p, hp, (Prod.mk.inj heq).1⟩

/-! ### Cycles of calls -/

/-- Members that are values of a function are the values at some list. -/
theorem exists_map_eq {α β : Type} {f : α → β} {P : α → Prop} {bs : List β}
    (h : ∀ b ∈ bs, ∃ a, P a ∧ f a = b) : ∃ as : List α, (∀ a ∈ as, P a) ∧ as.map f = bs := by
  induction bs with
  | nil => exact ⟨[], nofun, rfl⟩
  | cons b bs ih =>
    obtain ⟨⟨a, ha, rfl⟩, hbs⟩ := List.forall_mem_cons.1 h
    obtain ⟨as, has, rfl⟩ := ih hbs
    exact ⟨a :: as, List.forall_mem_cons.2 ⟨ha, has⟩, rfl⟩

/-- Without unknown calls, the successors of a program are the programs that it calls. -/
theorem follows_iff_callsDirectly (hcallees : lib.Enumerates callees)
    (hknown : ¬ lib.HasUnknownCall) (hp : p ∈ lib.programs) :
    (lib.graphBy callees).Follows f p.name ↔ ∃ q, lib.CallsDirectly p q ∧ f = q.name := by
  rw [follows_graphBy hp, (hcallees p hp).mem_iff, mem_directCalls_iff]
  exact or_iff_left fun h => hknown ⟨p, hp, f, h⟩

/-- Without unknown calls, a cycle of the graph is one of programs. -/
theorem exists_callCycle (hcallees : lib.Enumerates callees)
    (hknown : ¬ lib.HasUnknownCall) {names : List String}
    (h : (lib.graphBy callees).IsCycle names) :
    ∃ ps, lib.IsCallCycle ps ∧ names = ps.map Program.name := by
  -- Every node of the cycle has a successor, so it is the name of a program.
  have hnames : ∀ a ∈ names, ∃ p ∈ lib.programs, p.name = a := fun a ha => by
    obtain ⟨b, hb⟩ := h.exists_next ha
    exact exists_program_of_follows hb
  obtain ⟨ps, hps, rfl⟩ := exists_map_eq hnames
  refine ⟨ps, ⟨?_, hps, h.nodup, ?_⟩, rfl⟩
  · rintro rfl
    exact h.ne_nil rfl
  · have hchain := h.isChain
    rw [← List.map_take, ← List.map_append, List.isChain_map] at hchain
    have hmem : ∀ p ∈ ps ++ ps.take 1, p ∈ lib.programs := fun p hp =>
      hps p ((List.mem_append.1 hp).elim id List.mem_of_mem_take)
    refine hchain.imp_of_mem_imp fun p q hp hq hfollows => ?_
    obtain ⟨q', hcalls, hname⟩ :=
      (follows_iff_callsDirectly hcallees hknown (hmem p hp)).1 hfollows
    obtain ⟨_, -, hfind⟩ := id hcalls
    rw [eq_of_name_eq (hmem q hq) (mem_of_find? hfind) hname]
    exact hcalls

/-- Programs on a cycle call themselves. -/
theorem IsCallCycle.hasCyclicCall {ps : List Program} (h : lib.IsCallCycle ps) :
    lib.HasCyclicCall := by
  rcases ps with _ | ⟨p, ps⟩
  · exact absurd rfl h.ne_nil
  · have hchain : (p :: (ps ++ [p])).IsChain lib.CallsDirectly := h.isChain
    exact ⟨p, h.mem p List.mem_cons_self, Digraph.transGen_of_isChain hchain⟩

/-- Ways of calls are ways in the graph. -/
theorem transGen_follows (hcallees : lib.Enumerates callees)
    (hp : p ∈ lib.programs) (h : Relation.TransGen lib.CallsDirectly p q) :
    Relation.TransGen (fun a b => (lib.graphBy callees).Follows b a) p.name q.name ∧
      q ∈ lib.programs := by
  have hstep : ∀ {p q : Program}, p ∈ lib.programs → lib.CallsDirectly p q →
      (lib.graphBy callees).Follows q.name p.name ∧ q ∈ lib.programs := fun {p q} hp hcalls => by
    obtain ⟨_, -, hfind⟩ := id hcalls
    refine ⟨?_, mem_of_find? hfind⟩
    rw [follows_graphBy hp, (hcallees p hp).mem_iff]
    exact mem_directCalls_iff.2 (.inl ⟨q, hcalls, rfl⟩)
  induction h with
  | single hcalls =>
    obtain ⟨hfollows, hq⟩ := hstep hp hcalls
    exact ⟨.single hfollows, hq⟩
  | tail _ hcalls ih =>
    obtain ⟨hway, hmem⟩ := ih
    obtain ⟨hfollows, hq⟩ := hstep hmem hcalls
    exact ⟨.tail hway hfollows, hq⟩

/-! ### Verdicts -/

/-- The calls of a graph that find no program are the unknown calls. -/
theorem unknownCall?_eq_some (hcallees : lib.Enumerates callees)
    {caller : String} (h : lib.unknownCall? (lib.graphBy callees) = some (caller, f)) :
    ∃ p ∈ lib.programs, p.name = caller ∧ p.Invokes f ∧ ¬ lib.Resolves f := by
  obtain ⟨p, hp, rfl, hf⟩ := mem_edges_graphBy.1 (List.mem_of_find?_eq_some h)
  have hnot : f ∉ lib.names := by simpa using List.find?_some h
  exact ⟨p, hp, rfl, (not_mem_names_iff ((hcallees p hp).mem_iff.1 hf)).1 hnot⟩

theorem unknownCall?_eq_none (hcallees : lib.Enumerates callees)
    (h : lib.unknownCall? (lib.graphBy callees) = none) : ¬ lib.HasUnknownCall := by
  rintro ⟨p, hp, f, hinvokes, hunknown⟩
  have hf : f ∈ callees p :=
    (hcallees p hp).mem_iff.2 (mem_directCalls_iff.2 (.inr ⟨hinvokes, hunknown⟩))
  have hknown := List.find?_eq_none.1 h (p.name, f) (mem_edges_graphBy.2 ⟨p, hp, rfl, hf⟩)
  exact not_mem_names_of_not_resolves hunknown (by simpa using hknown)

theorem exists_of_forM_eq_error {ps : List Program} {cause : Error}
    (h : ps.forM Program.validate = .error cause) : ∃ p ∈ ps, p.validate = .error cause := by
  induction ps with
  | nil => cases h
  | cons p ps ih =>
    have hseq : (p.validate >>= fun _ => ps.forM Program.validate) = .error cause := h
    rcases hp : p.validate with cause' | u
    · rw [hp] at hseq
      obtain rfl := Except.error.inj hseq
      exact ⟨p, List.mem_cons_self, hp⟩
    · rw [hp] at hseq
      obtain ⟨q, hq, hvalidate⟩ := ih hseq
      exact ⟨q, List.mem_cons_of_mem p hq, hvalidate⟩

theorem decides_unknownFunction {caller : String}
    (h : ∃ p ∈ lib.programs, p.name = caller ∧ p.Invokes f ∧ ¬ lib.Resolves f) :
    lib.Decides (.error (.unknownFunction f caller)) := by
  have hunknown : lib.HasUnknownCall := by
    obtain ⟨p, hp, -, hf⟩ := h
    exact ⟨p, hp, f, hf⟩
  exact
    { unknownFunction_iff := iff_of_true ⟨_, _, rfl⟩ hunknown
      unknownFunction := by
        rintro _ _ ⟨⟩
        exact h
      unknownLabel_iff := iff_of_false nofun fun hnot => hnot.1 hunknown
      unknownLabel := nofun
      cyclicCall_iff := iff_of_false nofun fun hnot => hnot.1 hunknown
      cyclicCall := nofun
      ok_iff := iff_of_false nofun fun hnot => hnot.1 hunknown }

theorem decides_unknownLabel {l : Label} {k : Nat} {i : Instruction} (hknown : ¬ lib.HasUnknownCall)
    (hp : p ∈ lib.programs) (hi : p.code[k]? = some i) (hdangles : p.Dangles i l) :
    lib.Decides (.error (.unknownLabel (some l) p.name (some k))) := by
  have hunknown : lib.HasUnknownTarget := ⟨p, hp, i, List.mem_of_getElem? hi, l, hdangles⟩
  exact
    { unknownFunction_iff := iff_of_false nofun hknown
      unknownFunction := nofun
      unknownLabel_iff := iff_of_true ⟨_, _, _, rfl⟩ ⟨hknown, hunknown⟩
      unknownLabel := by
        rintro _ _ _ ⟨⟩
        exact ⟨p, hp, l, k, i, rfl, rfl, rfl, hi, hdangles⟩
      cyclicCall_iff := iff_of_false nofun fun hnot => hnot.2.1 hunknown
      cyclicCall := nofun
      ok_iff := iff_of_false nofun fun hnot => hnot.2.1 hunknown }

theorem decides_cyclicCall {ps : List Program} (hknown : ¬ lib.HasUnknownCall)
    (hdeclared : ¬ lib.HasUnknownTarget) (hcycle : lib.IsCallCycle ps) :
    lib.Decides (.error (.cyclicCall (ps.map Program.name))) where
  unknownFunction_iff := iff_of_false nofun hknown
  unknownFunction := nofun
  unknownLabel_iff := iff_of_false nofun fun hnot => hdeclared hnot.2
  unknownLabel := nofun
  cyclicCall_iff := iff_of_true ⟨_, rfl⟩ ⟨hknown, hdeclared, hcycle.hasCyclicCall⟩
  cyclicCall := by
    rintro _ ⟨⟩
    exact ⟨ps, hcycle, rfl⟩
  ok_iff := iff_of_false nofun fun hnot => hnot.2.2 hcycle.hasCyclicCall

theorem decides_ok (hknown : ¬ lib.HasUnknownCall) (hdeclared : ¬ lib.HasUnknownTarget)
    (hacyclic : ¬ lib.HasCyclicCall) : lib.Decides (.ok ()) where
  unknownFunction_iff := iff_of_false nofun hknown
  unknownFunction := nofun
  unknownLabel_iff := iff_of_false nofun fun hnot => hdeclared hnot.2
  unknownLabel := nofun
  cyclicCall_iff := iff_of_false nofun fun hnot => hacyclic hnot.2.2
  cyclicCall := nofun
  ok_iff := iff_of_true rfl ⟨hknown, hdeclared, hacyclic⟩

/-- Whatever search for cycles is used, the check is right. -/
theorem decides_validateBy {find : Digraph String → Option (List String)}
    (hcallees : lib.Enumerates callees)
    (hfind : Digraph.FindsCycles find) :
    lib.Decides (lib.validateBy find (lib.graphBy callees)) := by
  rw [validateBy]
  rcases hcall : lib.unknownCall? (lib.graphBy callees) with _ | ⟨caller, f⟩
  · have hknown := unknownCall?_eq_none hcallees hcall
    rcases hforM : lib.programs.forM Program.validate with cause | u
    · obtain ⟨p, hp, hvalidate⟩ := exists_of_forM_eq_error hforM
      obtain ⟨l, k, i, rfl, hi, hdangles⟩ := Program.exists_dangles_of_validate_eq_error hvalidate
      exact decides_unknownLabel hknown hp hi hdangles
    · have hdeclared : ¬ lib.HasUnknownTarget := fun ⟨p, hp, i, hi, l, hdangles⟩ =>
        Program.not_dangles_of_validate_eq_ok (forM_eq_ok hforM p hp) hi hdangles
      rcases hcycle : find (lib.graphBy callees) with _ | names
      · refine decides_ok hknown hdeclared fun ⟨p, hp, hway⟩ => ?_
        obtain ⟨names, hsome⟩ := hfind.isSome (transGen_follows hcallees hp hway).1
        rw [hcycle] at hsome
        cases hsome
      · obtain ⟨ps, hps, rfl⟩ :=
          exists_callCycle hcallees hknown (hfind.isCycle _ names hcycle)
        exact decides_cyclicCall hknown hdeclared hps
  · exact decides_unknownFunction (unknownCall?_eq_some hcallees hcall)

/-- **The check of a library is right**, in whatever order the callees of each program are listed,
and whatever other search for cycles takes the place of its own. -/
theorem decides_validateWith (lib : Library) (callees : Program → List String)
    (hcallees : lib.Enumerates callees) :
    lib.Decides (lib.validateWith (lib.graphBy callees)) ∧
      ∀ find, Digraph.FindsCycles find →
        lib.Decides (lib.validateBy find (lib.graphBy callees)) := by
  refine ⟨?_, fun find hfind => decides_validateBy hcallees hfind⟩
  rw [validateWith_eq]
  exact decides_validateBy hcallees Digraph.findsCycles_findCycle?

end Graphs

/-! ### A circle of calls -/

/-- A program that calls another one, in other letters. -/
def ping : Program where
  name := "PING"
  code := [.plain none (.quotation .result ⟨"pong", []⟩)]
  nodup_labels := List.nodup_nil

/-- A program that calls it back, by a bare name in an argument. -/
def pong : Program where
  name := "PONG"
  code := [.plain none (.quotation .result ⟨"SAME", [.constant 1, .name "PING"]⟩)]
  nodup_labels := List.nodup_nil

/-- A program that gives its input back. -/
def same : Program where
  name := "SAME"
  code := [.plain none (.assignment .result (.input 0))]
  nodup_labels := List.nodup_nil

/-- The library of these programs. -/
def circleLibrary : Library :=
  ⟨[.ofProgram same, .ofProgram ping, .ofProgram pong], by decide⟩

theorem circleLibrary_decides :
    circleLibrary.validateWith
        (circleLibrary.graphBy fun p => (circleLibrary.directCalls p).reverse) =
      .error (.cyclicCall ["PING", "PONG"]) ∧
    circleLibrary.Decides (circleLibrary.validateWith
      (circleLibrary.graphBy fun p => (circleLibrary.directCalls p).reverse)) :=
  ⟨rfl, (decides_validateWith circleLibrary (fun p => (circleLibrary.directCalls p).reverse)
    fun _ _ => List.reverse_perm _).1⟩

/-! ### A target that is not jumped to -/

/-- A program that counts up, with a target that counting up does not use. -/
def spareTarget : Program where
  name := "P"
  code := [⟨none, .increase .result, [], some (.numbered 0)⟩]
  nodup_labels := List.nodup_nil

/-- The library of this program. -/
def spareTargetLibrary : Library :=
  ⟨[.ofProgram spareTarget], by decide⟩

/-- An unknown label is reported although no instruction jumps. -/
theorem spareTargetLibrary_unknownLabel :
    ¬ ((∃ label program index,
        spareTargetLibrary.validate = .error (.unknownLabel label program index)) ↔
      ¬ spareTargetLibrary.HasUnknownCall ∧
        ∃ p ∈ spareTargetLibrary.programs, ∃ i ∈ p.code, ∃ label,
          i.operation.target? = some label ∧ label.isNumbered = true ∧ label ∉ p.labels) := by
  intro h
  obtain ⟨-, p, hp, i, hi, label, htarget, -⟩ := h.1 ⟨_, _, _, rfl⟩
  obtain rfl := List.mem_singleton.1 hp
  obtain rfl := List.mem_singleton.1 hi
  cases htarget

end Library

end RegisterMachine
