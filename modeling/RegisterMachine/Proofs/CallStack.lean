import Mathlib.Data.List.Chain
import RegisterMachine.Proofs.Reach
import RegisterMachine.Proofs.Resolved

/-!
# Nested runs

A run comes to calls, whose evaluation runs other programs, which come to calls of their own. So at
every moment there is a stack of runs. Each of them was started by the evaluation of a call in the
instruction that the run below it is at, be it for the call itself or for a call or a bare name at
some depth of its arguments. Every such start is an edge of the call graph. In a library that passes
its checks there are no circles in the graph, so no program is on the stack twice.

* `Library.ArgumentStarts`, `Library.ArgumentsStart`, `Library.CallStarts` — the runs that
  evaluation starts, argument by argument;
* `Library.callValue_congr`, `Library.step_congr` — it starts no other ones;
* `Library.CallStack` — the machines of the runs that are going on;
* `Library.callStack_acyclic` — a stack is a path in the call graph without repetitions.
-/

namespace RegisterMachine

namespace Library

/-! ### Started runs -/

section Starts

variable (lib : Library) (run : Runner) (caller : String) (store : Store)

mutual

/-- The evaluation of an argument of a function starts a run of a program on some values. -/
inductive ArgumentStarts : (function : String) → Argument → Program → List Nat → Prop
  | name {function text : String} {q : Program} (name_eq : Variable.ofName? text = none)
      (find_eq : lib.find? text = some q) :
      ArgumentStarts function (.name text) q (List.replicate q.requiredInputs 0)
  | call {function name : String} {arguments : List Argument} {q : Program} {values : List Nat}
      (starts : CallStarts ⟨name, arguments⟩ q values) :
      ArgumentStarts function (.call name arguments) q values

/-- The evaluation of the first few arguments of a function starts a run: that of one of them does,
and those before it have values. -/
inductive ArgumentsStart :
    (function : String) → Nat → List Argument → Program → List Nat → Prop
  | here {function : String} {n : Nat} {a : Argument} {as : List Argument} {q : Program}
      {values : List Nat} (starts : ArgumentStarts function a q values) :
      ArgumentsStart function (n + 1) (a :: as) q values
  | later {function : String} {n : Nat} {a : Argument} {as : List Argument} {q : Program}
      {values : List Nat} {r : Nat × Nat}
      (value_eq : lib.argumentValue run caller store function a = .ok r)
      (starts : ArgumentsStart function n as q values) :
      ArgumentsStart function (n + 1) (a :: as) q values

/-- The evaluation of a call starts a run: that of its arguments does, or these have values and the
called program is run on them. -/
inductive CallStarts : Call → Program → List Nat → Prop
  | arguments {call : Call} {callee q : Program} {values : List Nat}
      (find_eq : lib.find? call.function = some callee)
      (starts : ArgumentsStart callee.name callee.requiredInputs call.arguments q values) :
      CallStarts call q values
  | callee {call : Call} {q : Program} {values : List Nat} {spent : Nat}
      (find_eq : lib.find? call.function = some q)
      (values_eq : lib.argumentValues run caller store q.name q.requiredInputs call.arguments =
        .ok (values, spent)) : CallStarts call q values

end

end Starts

section Congruence

variable {lib : Library} {run run' : Runner} {caller : String} {store : Store}

/-- A call has the value of its program on the values of its arguments. -/
private theorem callValue_of_find {call : Call} {q : Program}
    (h : lib.find? call.function = some q) :
    lib.callValue run caller store call =
      lib.argumentValues run caller store q.name q.requiredInputs call.arguments >>= fun r =>
        run q r.1 >>= fun r' => pure (r'.1, r.2 + r'.2) := by
  rw [callValue, get_eq_ok.2 h]
  rfl

/-- An argument that is a call has the value of the call. -/
private theorem argumentValue_call (function name : String) (arguments : List Argument) :
    lib.argumentValue run caller store function (.call name arguments) =
      lib.callValue run caller store ⟨name, arguments⟩ >>= fun r =>
        pure (r.1, Opcode.quotation.cycles + r.2) := by
  simp [argumentValue, callValue]

mutual

/-- The value of an argument depends on the runs that its evaluation starts only. -/
theorem argumentValue_congr {function : String} : ∀ a : Argument,
    (∀ q values, ArgumentStarts lib run caller store function a q values →
      run' q values = run q values) →
    lib.argumentValue run' caller store function a = lib.argumentValue run caller store function a
  | .constant value => fun _ => by rw [argumentValue, argumentValue]
  | .name text => by
    intro h
    rw [argumentValue, argumentValue]
    rcases hname : Variable.ofName? text with _ | v
    · rcases hfind : lib.find? text with _ | q
      · rw [contains, hfind]
        rfl
      · simp only [contains, hfind, get_eq_ok.2 hfind]
        change (run' q _ >>= _) = run q _ >>= _
        rw [h q _ (.name hname hfind)]
    · rfl
  | .call name arguments => by
    intro h
    rw [argumentValue_call, argumentValue_call,
      callValue_congr ⟨name, arguments⟩ fun q values hq => h q values (.call hq)]

/-- The same for the first few arguments. -/
theorem argumentValues_congr {function : String} : ∀ (n : Nat) (as : List Argument),
    (∀ q values, ArgumentsStart lib run caller store function n as q values →
      run' q values = run q values) →
    lib.argumentValues run' caller store function n as =
      lib.argumentValues run caller store function n as
  | 0, _ => fun _ => by rw [argumentValues, argumentValues]
  | n + 1, [] => fun _ => by rw [argumentValues, argumentValues]
  | n + 1, a :: as => by
    intro h
    rw [argumentValues, argumentValues,
      argumentValue_congr a fun q values hq => h q values (.here hq)]
    rcases hvalue : lib.argumentValue run caller store function a with stop | r
    · rfl
    · -- The later arguments are evaluated once this one has a value.
      have hlater := argumentValues_congr n as fun q values hq => h q values (.later hvalue hq)
      change lib.argumentValues run' caller store function n as >>= _ = _
      rw [hlater]
      rfl

/-- The value of a call depends on the runs that its evaluation starts only. -/
theorem callValue_congr : ∀ call : Call,
    (∀ q values, CallStarts lib run caller store call q values → run' q values = run q values) →
    lib.callValue run' caller store call = lib.callValue run caller store call
  | ⟨name, arguments⟩ => by
    intro h
    rcases hfind : lib.find? name with _ | callee
    · rw [callValue, callValue, get, hfind]
      rfl
    · rw [callValue_of_find hfind, callValue_of_find hfind,
        argumentValues_congr callee.requiredInputs arguments fun q values hq =>
          h q values (.arguments hfind hq)]
      rcases hvalues : lib.argumentValues run caller store callee.name callee.requiredInputs
        arguments with stop | r
      · rfl
      · change run' callee r.1 >>= _ = run callee r.1 >>= _
        rw [h callee r.1 (.callee hfind hvalues)]

end

/-- A step starts no runs but those that the evaluation of the next instruction's call starts. -/
theorem step_congr {m : Machine}
    (h : ∀ i call, m.current? = some i → i.operation.call? = some call → ∀ q values,
      CallStarts lib run m.program.name m.store call q values → run' q values = run q values) :
    m.step (lib.callValue run') = m.step (lib.callValue run) := by
  suffices hperform : m.perform (lib.callValue run') = m.perform (lib.callValue run) by
    rw [Machine.step, Machine.step, hperform]
  rw [Machine.perform, Machine.perform]
  rcases hh : m.halted with _ | _
  · rcases hi : m.program.code[m.pc]? with _ | i
    · rfl
    · have hcurrent : m.current? = some i := by
        rw [Machine.current?, hh]
        exact hi
      have hexecute : i.operation.execute (lib.callValue run' m.program.name m.store) m.store =
          i.operation.execute (lib.callValue run m.program.name m.store) m.store := by
        cases ho : i.operation with
        | quotation v call | jumpEqualFunction v call target =>
          rw [Operation.execute, Operation.execute,
            callValue_congr call (h i call hcurrent (by rw [ho]; rfl))]
        | _ => rfl
      simp only [hexecute]
  · rfl

end Congruence

/-! ### Stacks of runs -/

/-- The machines of the runs that are going on while a program is run, innermost first. -/
inductive CallStack (lib : Library) (p : Program) : List Machine → Prop
  | start {values : List InputValue} {traced : Bool} {m m' : Machine}
      (start_eq : Machine.start p values traced = .ok m) (reaches : lib.Reaches m m') :
      CallStack lib p [m']
  | call {m m₀ m' : Machine} {ms : List Machine} {i : Instruction} {call : Call} {q : Program}
      {values : List Nat} {fuel : Nat} (below : CallStack lib p (m :: ms))
      (current_eq : m.current? = some i) (call_eq : i.operation.call? = some call)
      (starts : CallStarts lib (lib.runner fuel) m.program.name m.store call q values)
      (load_eq : Machine.load q values false = .ok m₀) (reaches : lib.Reaches m₀ m') :
      CallStack lib p (m' :: m :: ms)

/-- The names of the programs that are run. -/
def runNames (ms : List Machine) : List String :=
  ms.map fun m => m.program.name

section Edges

variable {lib : Library} {run : Runner} {caller : String} {store : Store}

mutual

theorem calls_of_argumentStarts {function : String} : ∀ {a : Argument} {q : Program}
    {values : List Nat}, ArgumentStarts lib run caller store function a q values → lib.Calls [a] q
  | _, _, _, .name hname hfind => calls_name hname hfind
  | _, _, _, .call hstarts => calls_of_callStarts hstarts

theorem calls_of_argumentsStart {function : String} : ∀ {n : Nat} {as : List Argument}
    {q : Program} {values : List Nat},
    ArgumentsStart lib run caller store function n as q values → lib.Calls as q
  | _, _ :: _, _, _, .here hstarts =>
    (calls_of_argumentStarts hstarts).of_walk_subset
      (Argument.walk_singleton_subset List.mem_cons_self)
  | _, a :: as, _, _, .later _ hstarts =>
    (calls_of_argumentsStart hstarts).of_walk_subset (Argument.walk_tail_subset a as)

/-- The evaluation of a call runs programs that the call names. -/
theorem calls_of_callStarts : ∀ {call : Call} {q : Program} {values : List Nat},
    CallStarts lib run caller store call q values → lib.Calls [call.toArgument] q
  | call, _, _, .arguments _ hstarts =>
    (calls_of_argumentsStart hstarts).of_walk_subset
      (Argument.walk_subset_walk_call call.function call.arguments)
  | _, _, _, .callee hfind _ => calls_function hfind

end

/-- A program that is named somewhere in a call is in the library. -/
theorem Calls.mem {as : List Argument} {q : Program} (h : lib.Calls as q) : q ∈ lib.programs := by
  obtain ⟨name, -, hfind⟩ := h
  exact mem_of_find? hfind

end Edges

section Stacks

variable {lib : Library} {p : Program} {m m' : Machine} {ms : List Machine}

theorem mem_of_current? {i : Instruction} (h : m.current? = some i) : i ∈ m.program.code := by
  rw [Machine.current?] at h
  split at h
  · cases h
  · exact List.mem_of_getElem? h

/-- A started run is one of the program it was started for. -/
private theorem program_of_reaches {inputs : List Nat} {traced : Bool}
    (hload : Machine.load p inputs traced = .ok m) (h : lib.Reaches m m') : m'.program = p := by
  obtain ⟨-, -, rfl⟩ := Machine.load_eq_ok_iff.1 hload
  exact (path_of_reaches h (Machine.initial_sound p inputs traced)).1

/-- Each run on a stack is one of a program of the library, which follows the program below it in
the call graph. -/
theorem CallStack.chain (hp : p ∈ lib.programs) (h : CallStack lib p ms) :
    (∀ m ∈ ms, m.program ∈ lib.programs) ∧ (runNames ms).IsChain lib.callGraph.Follows := by
  induction h with
  | start hstart hreaches =>
    obtain ⟨hvalid, inputs, haccept, hinputs, rfl⟩ := start_eq_ok_iff.1 hstart
    have hprogram := program_of_reaches (Machine.load_eq_ok_iff.2 ⟨hvalid, hinputs, rfl⟩) hreaches
    exact ⟨List.forall_mem_singleton.2 (hprogram ▸ hp), .singleton _⟩
  | call _ hcurrent hcall hstarts hload hreaches ih =>
    obtain ⟨hmem, hchain⟩ := ih
    have hcalls := calls_of_callStarts hstarts
    have hprogram := program_of_reaches hload hreaches
    -- The call stands in the code of the program below, so the start is an edge.
    have hedge := follows_of_calls (hmem _ List.mem_cons_self) (mem_of_current? hcurrent) hcall
      hcalls
    rw [← hprogram] at hedge hcalls
    exact ⟨List.forall_mem_cons.2 ⟨hcalls.mem, hmem⟩, .cons_cons hedge hchain⟩

/-- The programs of the runs that are going on at any time are a path in the call graph, each of
them once. So there are never more runs than programs in the library. -/
theorem callStack_acyclic (hlib : lib.validate = .ok ()) (hp : p ∈ lib.programs)
    (h : CallStack lib p ms) :
    (runNames ms).IsChain lib.callGraph.Follows ∧ (runNames ms).Nodup ∧
      ms.length ≤ lib.programs.length := by
  obtain ⟨hmem, hchain⟩ := h.chain hp
  have hnames : ∀ name ∈ runNames ms, ∃ q ∈ lib.programs, q.name = name := by
    intro name hname
    obtain ⟨m, hm, rfl⟩ := List.mem_map.1 hname
    exact ⟨m.program, hmem m hm, rfl⟩
  -- A name that occurs twice would lead back to itself in the call graph.
  have hpairwise : (runNames ms).Pairwise (Relation.TransGen lib.callGraph.Follows) :=
    List.isChain_iff_pairwise.1 (hchain.imp fun _ _ => .single)
  have hnodup : (runNames ms).Nodup := by
    refine hpairwise.imp_of_mem fun {a b} ha _ hab heq => ?_
    subst heq
    obtain ⟨q, hq, rfl⟩ := hnames a ha
    exact Digraph.not_self_of_acc (acc_of_mem hlib hq).transGen hab
  refine ⟨hchain, hnodup, ?_⟩
  have hsubset : runNames ms ⊆ lib.names := fun name hname => by
    obtain ⟨q, hq, rfl⟩ := hnames name hname
    exact List.mem_map_of_mem hq
  have hle := (hnodup.subperm hsubset).length_le
  rwa [runNames, names, List.length_map, List.length_map] at hle

end Stacks

/-! ### Two nested runs -/

/-- A program that counts up once. -/
def one : Program where
  name := "ONE"
  code := [.plain none (.increase .result)]
  nodup_labels := List.nodup_nil

/-- A program that calls it, in other letters. -/
def viaOne : Program where
  name := "VIA"
  code := [.plain none (.quotation .result ⟨"one", []⟩), .plain none (.increase (.input 0))]
  nodup_labels := List.nodup_nil

/-- A program that calls both, one of them by a bare name in an argument. -/
def viaBoth : Program where
  name := "MAIN"
  code := [.plain none (.quotation .result ⟨"VIA", [.name "ONE"]⟩)]
  nodup_labels := List.nodup_nil

/-- The library of these programs. -/
def nestedLibrary : Library :=
  ⟨[.ofProgram viaBoth, .ofProgram viaOne, .ofProgram one], by decide⟩

theorem nested_callStack_acyclic :
    nestedLibrary.validate = .ok () ∧ viaBoth ∈ nestedLibrary.programs ∧
      ∃ ms, CallStack nestedLibrary viaBoth ms ∧ runNames ms = ["ONE", "VIA", "MAIN"] ∧
        (runNames ms).IsChain nestedLibrary.callGraph.Follows ∧ (runNames ms).Nodup ∧
        ms.length ≤ nestedLibrary.programs.length := by
  have hlib : nestedLibrary.validate = .ok () := rfl
  have hp : viaBoth ∈ nestedLibrary.programs := List.mem_cons_self
  have hmain : CallStack nestedLibrary viaBoth [Machine.initial viaBoth [] false] :=
    .start (rfl : Machine.start viaBoth [] false = _) .refl
  have hvia : CallStarts nestedLibrary (nestedLibrary.runner 2) "MAIN"
      (Machine.initial viaBoth [] false).store ⟨"VIA", [.name "ONE"]⟩ viaOne [1] := .callee rfl rfl
  have hone : CallStarts nestedLibrary (nestedLibrary.runner 2) "VIA"
      (Machine.initial viaOne [1] false).store ⟨"one", []⟩ one [] := .callee rfl rfl
  have hstack : CallStack nestedLibrary viaBoth [Machine.initial one [] false,
      Machine.initial viaOne [1] false, Machine.initial viaBoth [] false] :=
    .call (.call hmain rfl rfl hvia rfl .refl) rfl rfl hone rfl .refl
  exact ⟨hlib, hp, _, hstack, rfl, callStack_acyclic hlib hp hstack⟩

end Library

end RegisterMachine
