import RegisterMachine.Proofs.Binding
import RegisterMachine.Proofs.Copy

/-!
# What an inlined call does

The block of a call gives the parameters their values, sets the other variables of the copy to zero
and runs the copy. So the copy starts from the values that a run of the called program starts from,
whatever the fresh variables held before, and runs as the program runs alone. What the block costs
is known to the cycle.

* `Block.path_prologue` — up to the first instruction of the copy;
* `Block.path_inlining` — up to the last instruction of the block, with the exact cost;
* `Block.parameters_of_path` — where a run of the host ends, the parameters have values.
-/

namespace RegisterMachine

namespace Program

/-- A valuation differs from another one at most in the variables of a copy. -/
def Frames (p : Program) (s : Supply) (env env' : Valuation) : Prop :=
  ∀ w, p.Outside (p.copyVariable s) w → env' w = env w

section Writes

variable {ev : Meaning} {q p : Program} {s : Supply} {env₀ env : Valuation} {base : Nat}

/-- Writing a variable of the copy leaves all others as they are. -/
theorem Frames.update (h : p.Frames s env₀ env) {v : Variable} (hv : v ∈ p.copiedVariables)
    (n : Nat) : p.Frames s env₀ (Function.update env (p.freshFor s v) n) := by
  intro w hw
  have hne : w ≠ p.freshFor s v := (hw v hv).symm
  rw [Function.update_of_ne hne]
  exact h w hw

/-- The operation writes a variable of a copy, whatever the other ones hold. -/
def Writes (ev : Meaning) (p : Program) (s : Supply) (env₀ : Valuation) (value : Variable → Nat)
    (x : Variable × Operation) (cost : Nat) : Prop :=
  x.1 ∈ p.copiedVariables ∧ ∀ env, p.Frames s env₀ env →
    x.2.outcome (ev env) env = .ok ⟨some (p.freshFor s x.1, value x.1), none, cost⟩

/-- Instructions that write variables of a copy one after another. -/
theorem path_writes {value : Variable → Nat} {xs : List (Variable × Operation)} {costs : List Nat}
    (hxs : List.Forall₂ (Writes ev p s env₀ value) xs costs)
    (h : q.Holds base (xs.map fun x => .plain none x.2)) (henv : p.Frames s env₀ env) :
    ∃ env', Path ev q xs.length (totalCost costs) ⟨base, env⟩ ⟨base + xs.length, env'⟩ ∧
      p.Frames s env₀ env' ∧ (∀ v ∈ xs.map Prod.fst, env' (p.freshFor s v) = value v) ∧
      ∀ v ∈ p.copiedVariables, v ∉ xs.map Prod.fst →
        env' (p.freshFor s v) = env (p.freshFor s v) := by
  induction hxs generalizing base env with
  | nil => exact ⟨env, .refl _, henv, by simp, fun _ _ _ => rfl⟩
  | @cons x cost xs costs hx _ ih =>
    obtain ⟨hv, ho⟩ := hx
    have hstep : Step ev q cost ⟨base, env⟩
        ⟨base + 1, Function.update env (p.freshFor s x.1) (value x.1)⟩ :=
      .intro (c := ⟨base, env⟩) h.head (ho env henv) rfl
    obtain ⟨env', hpath, hframe, hwritten, hkept⟩ := ih h.tail (henv.update hv (value x.1))
    refine ⟨env', ?_, hframe, fun v hm => ?_, fun v hcopied hnot => ?_⟩
    · have hplace : base + (x :: xs).length = base + 1 + xs.length := by
        rw [List.length_cons]
        omega
      rw [hplace]
      exact .head hstep hpath
    · -- A variable that is written again later has the same value then.
      by_cases hlater : v ∈ xs.map Prod.fst
      · exact hwritten v hlater
      · obtain rfl : v = x.1 := (List.mem_cons.1 hm).resolve_right hlater
        rw [hkept _ hv hlater, Function.update_self]
    · rw [List.map_cons, List.mem_cons, not_or] at hnot
      rw [hkept v hcopied hnot.2,
        Function.update_of_ne fun he => hnot.1 (freshFor_injective hcopied hv he)]

end Writes

end Program

namespace Block

open Program

/-- The variables of a copy that no argument is given for. -/
def unsupplied (callee : Program) (bound : List (Variable × Binding)) : List Variable :=
  callee.copiedVariables.filter fun v => !(bound.map Prod.fst).contains v

/-- The variables that no argument is given to are those of the copy without those of the
parameters. -/
theorem mem_unsupplied {callee : Program} {bound : List (Variable × Binding)} {v : Variable} :
    v ∈ unsupplied callee bound ↔ v ∈ callee.copiedVariables ∧ v ∉ bound.map Prod.fst := by
  simp [unsupplied]

section Inlining

variable {ev : Meaning} {q callee : Program} {entry : Expansion} {base : Nat} {s : Supply}
  {label : Option Label} {v : Variable} {bound : List (Variable × Binding)}
  {finish : Variable → Operation} {env : Valuation}

/-- The instructions in front of the copy, each with the variable it writes. -/
def writes (callee : Program) (s : Supply) (bound : List (Variable × Binding)) :
    List (Variable × Operation) :=
  bound.map (fun x => (x.1, x.2.operation (callee.freshFor s x.1))) ++
    (unsupplied callee bound).map fun v => (v, .zeroVariable (callee.freshFor s v))

private theorem map_instruction_copyLines :
    (entry.copyLines s).map Line.instruction = entry.program.copy s := by
  change _ = (entry.lines.map Line.instruction).map _
  rw [Expansion.copyLines, List.map_map, List.map_map]
  rfl

/-- The block of a call, part by part: the line for its label, the instructions that give the copy
its variables, the copy, and the last instruction. -/
theorem body_inlining :
    (inlining label v entry bound finish).body s =
      landing label v ++ (writes entry.program s bound).map (fun x => .plain none x.2) ++
        (entry.program.copy s ++
          [.plain (some (copyEnd s)) (finish (entry.program.copyResult s))]) := by
  simp [inlining, body, writes, unsupplied, freshFor, map_instruction_copyLines, Line.initial,
    Function.comp_def]

/-- The place of the copy in the block. -/
def copyPlace (base : Nat) (label : Option Label) (v : Variable) (callee : Program)
    (bound : List (Variable × Binding)) : Nat :=
  base + (landing label v).length + (bound.length + (unsupplied callee bound).length)

/-- The place of the last instruction of the block. -/
def finishPlace (base : Nat) (label : Option Label) (v : Variable) (callee : Program)
    (bound : List (Variable × Binding)) : Nat :=
  copyPlace base label v callee bound + callee.code.length

/-- The last instruction of the block is the one that hands over the result. -/
theorem length_inlining :
    base + ((inlining label v entry bound finish).body s).length =
      finishPlace base label v entry.program bound + 1 := by
  rw [body_inlining, finishPlace, copyPlace]
  simp [writes, copy]
  omega

/-- The line for the label does nothing. -/
theorem path_landing (ev : Meaning) (env : Valuation) (h : q.Holds base (landing label v)) :
    ∃ n, Path ev q n 0 ⟨base, env⟩ ⟨base + (landing label v).length, env⟩ := by
  cases label with
  | none => exact ⟨0, .refl _⟩
  | some l =>
    have hstep : Step ev q 0 ⟨base, env⟩ ⟨base + 1, env⟩ :=
      .intro (c := ⟨base, env⟩) h.head rfl rfl
    exact ⟨1, hstep.path⟩

/-- A host of the block has the line for its label in front. -/
theorem holds_landing (h : q.Holds base ((inlining label v entry bound finish).body s)) :
    q.Holds base (landing label v) := by
  rw [body_inlining] at h
  exact h.left.left

/-- Behind this line, a host has the instructions that hand over arguments. -/
theorem holds_parameters (h : q.Holds base ((inlining label v entry bound finish).body s)) :
    q.Holds (base + (landing label v).length)
      (bound.map fun x => .plain none (x.2.operation (entry.program.freshFor s x.1))) := by
  rw [body_inlining] at h
  have hwrites := h.left.right
  rw [writes, List.map_append, List.map_map] at hwrites
  exact hwrites.left

/-- Behind the instructions that give the copy its variables, a host has the copy itself and the
last instruction. -/
theorem holds_copy (h : q.Holds base ((inlining label v entry bound finish).body s)) :
    q.Holds (copyPlace base label v entry.program bound)
      (entry.program.copy s ++
        [.plain (some (copyEnd s)) (finish (entry.program.copyResult s))]) := by
  rw [body_inlining] at h
  have hcopy := h.right
  simp only [writes, List.length_append, List.length_map, ← Nat.add_assoc] at hcopy
  rwa [copyPlace, ← Nat.add_assoc]

/-- A host has the last instruction of the block at the place that is counted for it. -/
theorem holds_finish (h : q.Holds base ((inlining label v entry bound finish).body s)) :
    q.code[finishPlace base label v entry.program bound]? =
      some (.plain (some (copyEnd s)) (finish (entry.program.copyResult s))) := by
  have hfinish := (holds_copy h).right.head
  rwa [copy, List.length_map] at hfinish

/-- Parameters are written with the values of their inputs. -/
private theorem writes_parameters (hev : ev.Natural)
    {values : List Nat} {rs : List (Nat × Nat)} (hvalues : ParameterValues ev env 0 values bound rs)
    (hparameter : ∀ x ∈ bound, x.1 ∈ callee.vars)
    (hmention : ∀ x ∈ bound, ∀ w, x.2.Mentions w → ¬ s.Fresh w) :
    ∃ costs, List.Forall₂ (Writes ev callee s env (callee.initial values))
        (bound.map fun x => (x.1, x.2.operation (callee.freshFor s x.1))) costs ∧
      totalCost costs = totalCost (bound.map (·.2.cost)) + totalCost (rs.map Prod.snd) := by
  induction hvalues with
  | nil => exact ⟨[], .nil, rfl⟩
  | @cons x r bound rs hx _ ih =>
    obtain ⟨hr, j, hj, hvalue⟩ := hx
    obtain ⟨costs, hcosts, htotal⟩ := ih (fun y hy => hparameter y (List.mem_cons_of_mem x hy))
      fun y hy => hmention y (List.mem_cons_of_mem x hy)
    have hvar := hparameter x List.mem_cons_self
    have hcopied := mem_copiedVariables.2 (.inl hvar)
    have hinitial : callee.initial values x.1 = r.1 := by
      rw [Nat.zero_add] at hj
      rw [hj] at hvar ⊢
      rw [callee.initial_input hvar, hvalue]
      rfl
    refine ⟨(x.2.cost + r.2) :: costs, .cons ⟨hcopied, ?_⟩ hcosts, ?_⟩
    · intro env' hframe
      have hvalue' : x.2.value ev env' = .ok r := by
        rw [← hr]
        exact Binding.value_congr hev fun w hw =>
          hframe w (outside_of_not_fresh (hmention x List.mem_cons_self w hw))
      rw [Binding.outcome_operation, hvalue', hinitial]
      rfl
    · simp only [List.map_cons, totalCost_cons, htotal]
      omega

/-- All other variables are written with zero, which is what they start with. -/
private theorem writes_others {values : List Nat}
    (hzero : ∀ j, .input j ∈ callee.vars → .input j ∉ bound.map Prod.fst →
      values[j]?.getD 0 = 0) :
    List.Forall₂ (Writes ev callee s env (callee.initial values))
      ((unsupplied callee bound).map fun v => (v, .zeroVariable (callee.freshFor s v)))
      ((unsupplied callee bound).map fun _ => 1) := by
  rw [List.forall₂_map_left_iff, List.forall₂_map_right_iff, List.forall₂_same]
  intro w hw
  obtain ⟨hcopied, hnot⟩ := mem_unsupplied.1 hw
  have hinitial : callee.initial values w = 0 := by
    by_cases hvar : w ∈ callee.vars
    · cases w with
      | result => exact callee.initial_result values
      | work k => exact callee.initial_work values k
      | input j => rw [callee.initial_input hvar, hzero j hvar hnot]
    · exact callee.initial_of_not_mem hvar
  refine ⟨hcopied, fun env' _ => ?_⟩
  rw [hinitial]
  rfl

/-- Up to the first instruction of the copy. -/
theorem path_prologue (hev : ev.Natural)
    (h : q.Holds base ((inlining label v entry bound finish).body s))
    (hparameter : ∀ x ∈ bound, x.1 ∈ entry.program.vars)
    (hmention : ∀ x ∈ bound, ∀ w, x.2.Mentions w → ¬ s.Fresh w)
    {values : List Nat} {rs : List (Nat × Nat)} (hvalues : ParameterValues ev env 0 values bound rs)
    (hzero : ∀ j, .input j ∈ entry.program.vars → .input j ∉ bound.map Prod.fst →
      values[j]?.getD 0 = 0) :
    ∃ n env', Path ev q n (totalCost (bound.map (·.2.cost)) + totalCost (rs.map Prod.snd) +
        (unsupplied entry.program bound).length) ⟨base, env⟩
        ⟨copyPlace base label v entry.program bound, env'⟩ ∧
      Copies (copyPlace base label v entry.program bound) entry.program
        (entry.program.copyVariable s) env ⟨0, entry.program.initial values⟩
        ⟨copyPlace base label v entry.program bound, env'⟩ := by
  rw [body_inlining] at h
  obtain ⟨n, hlanding⟩ := path_landing ev env h.left.left
  obtain ⟨costs, hsupplied, htotal⟩ := writes_parameters hev hvalues hparameter hmention
  have hothers : List.Forall₂ (Writes ev entry.program s env (entry.program.initial values)) _ _ :=
    writes_others hzero
  obtain ⟨env', hpath, hframe, hwritten, -⟩ := path_writes (List.rel_append hsupplied hothers)
    h.left.right fun _ _ => rfl
  have hplace : base + (landing label v).length + (writes entry.program s bound).length =
      copyPlace base label v entry.program bound := by
    simp [writes, copyPlace]
  have hones : totalCost ((unsupplied entry.program bound).map fun _ => 1) =
      (unsupplied entry.program bound).length := by
    induction unsupplied entry.program bound with
    | nil => rfl
    | cons w ws ih => rw [List.map_cons, totalCost_cons, ih, List.length_cons, Nat.add_comm]
  have hall := hlanding.trans hpath
  rw [totalCost_append, htotal, hones, Nat.zero_add] at hall
  refine ⟨_, env', hplace ▸ hall, rfl, fun w hw => hwritten w ?_, hframe⟩
  -- Every variable of the copy is written, by an argument or with zero.
  rw [List.map_append, List.mem_append]
  by_cases hsup : w ∈ bound.map Prod.fst
  · refine .inl ?_
    rw [List.map_map]
    exact hsup
  · refine .inr ?_
    rw [List.map_map]
    exact List.mem_map.2 ⟨w, mem_unsupplied.2 ⟨hw, hsup⟩, rfl⟩

/-- Up to the last instruction of the block. The cost is that of giving the parameters their values,
of evaluating them, of setting the other variables to zero and of the run of the program. -/
theorem path_inlining (hev : ev.Natural)
    (h : q.Holds base ((inlining label v entry bound finish).body s))
    (hparameter : ∀ x ∈ bound, x.1 ∈ entry.program.vars)
    (hmention : ∀ x ∈ bound, ∀ w, x.2.Mentions w → ¬ s.Fresh w)
    {values : List Nat} {rs : List (Nat × Nat)} (hvalues : ParameterValues ev env 0 values bound rs)
    (hzero : ∀ j, .input j ∈ entry.program.vars → .input j ∉ bound.map Prod.fst →
      values[j]?.getD 0 = 0)
    {n cost : Nat} {d : Config}
    (hrun : Path ev entry.program n cost ⟨0, entry.program.initial values⟩ d)
    (hend : entry.program.code.length ≤ d.place) :
    ∃ n' env', Path ev q n' (totalCost (bound.map (·.2.cost)) + totalCost (rs.map Prod.snd) +
        (unsupplied entry.program bound).length + cost) ⟨base, env⟩
        ⟨finishPlace base label v entry.program bound, env'⟩ ∧
      env' (entry.program.copyResult s) = d.env .result ∧ entry.program.Frames s env env' := by
  obtain ⟨n', env₁, hprologue, hcopies⟩ := path_prologue hev h hparameter hmention hvalues hzero
  obtain ⟨⟨place, env₂⟩, hcopy, hd⟩ := (hosts_copy (holds_copy h)).path hev hcopies hrun
  -- A path of the program does not lead beyond its end.
  have hdone : d.place = entry.program.code.length := by
    have hle := hrun.le (Nat.zero_le _)
    omega
  obtain rfl : place = finishPlace base label v entry.program bound := by
    rw [finishPlace, ← hdone]
    exact hd.place
  refine ⟨n' + n, env₂, hprologue.trans hcopy, ?_, hd.outside⟩
  have hresult : Variable.result ∈ entry.program.copiedVariables := mem_copiedVariables.2 (.inr rfl)
  exact hd.inside .result hresult

/-! ### Back from the end of the host -/

/-- Where a run of the host ends, the parameters have values. -/
theorem parameters_of_path (hev : ev.Natural)
    (hparameter : ∀ x ∈ bound, x.1 ∈ callee.vars)
    (hmention : ∀ x ∈ bound, ∀ w, x.2.Mentions w → ¬ s.Fresh w) {env' : Valuation}
    (henv : callee.Frames s env env')
    (h : q.Holds base (bound.map fun x => .plain none (x.2.operation (callee.freshFor s x.1))))
    {n cost : Nat} {e : Config} (hpath : Path ev q n cost ⟨base, env'⟩ e)
    (hend : q.code.length ≤ e.place) :
    ∀ x ∈ bound, ∃ r, x.2.value ev env = .ok r := by
  induction bound generalizing base env' n cost with
  | nil => exact fun x hx => nomatch hx
  | cons x bound ih =>
    -- The run gets past the instruction of the first parameter, so this has an outcome.
    have hi := h.head
    obtain ⟨n', cost', cost'', d, -, hstep, hrest⟩ :=
      hpath.exists_step (List.getElem?_eq_some_iff.1 hi).1 hend
    obtain ⟨hi', ho, ha⟩ := hstep
    rename_i i out next
    obtain rfl := Option.some.inj (hi.symm.trans hi')
    -- Only fresh variables have been written so far, and no binding mentions one.
    have hsame : x.2.value ev env' = x.2.value ev env := Binding.value_congr hev fun w hw =>
      henv w (outside_of_not_fresh (hmention x List.mem_cons_self w hw))
    have hwrite : (x.2.operation (callee.freshFor s x.1)).outcome (ev env') env' = .ok out := ho
    rw [Binding.outcome_operation, hsame] at hwrite
    obtain ⟨r, hr, hout⟩ := Bounded.bind_eq_ok.1 hwrite
    obtain rfl := Except.ok.inj hout
    obtain rfl : base + 1 = next := Option.some.inj ha
    have hcopied : x.1 ∈ callee.copiedVariables :=
      mem_copiedVariables.2 (.inl (hparameter x List.mem_cons_self))
    have hlater := ih (fun y hy => hparameter y (List.mem_cons_of_mem x hy))
      (fun y hy => hmention y (List.mem_cons_of_mem x hy)) (henv.update hcopied r.1) h.tail hrest
    intro y hy
    rcases List.mem_cons.1 hy with rfl | hy
    · exact ⟨r, hr⟩
    · exact hlater y hy

end Inlining

end Block

/-! ### Calls of a library -/

namespace Library

variable {skip : Skip} {lib : Library}

/-- A library gives the program that a name finds. -/
theorem get_eq_ok {name caller : String} {p : Program} :
    lib.get name caller = .ok p ↔ lib.find? name = some p := by
  rw [get]
  cases lib.find? name <;> simp

/-- A library gives the program that a name finds, with the lines that it was put in with. -/
theorem getExpansion_eq_ok {name caller : String} {e : Expansion} :
    lib.getExpansion name caller = .ok e ↔ lib.findExpansion? name = some e := by
  rw [getExpansion]
  cases lib.findExpansion? name <;> simp

/-- A name finds the program of the entry that it finds. -/
theorem find?_of_findExpansion? {name : String} {e : Expansion}
    (h : lib.findExpansion? name = some e) : lib.find? name = some e.program :=
  Option.map_eq_some_iff.2 ⟨e, h, rfl⟩

theorem exists_findExpansion? {name : String} {p : Program} (h : lib.find? name = some p) :
    ∃ e, lib.findExpansion? name = some e ∧ e.program = p :=
  Option.map_eq_some_iff.1 h

/-- The value of a call is the result of the called program on the values of the arguments, and its
cost is what these and the run cost. -/
theorem callBy_eq_ok {run : Runner} {caller : String} {env : Valuation} {call : Call}
    {value spent : Nat} :
    callBy skip lib run caller env call = .ok (value, spent) ↔
      ∃ callee values onArguments cycles, lib.find? call.function = some callee ∧
        valuesBy skip lib run caller env callee 0 callee.requiredInputs call.arguments =
          .ok (values, onArguments) ∧
        run callee values = .ok (value, cycles) ∧ spent = onArguments + cycles := by
  rw [callBy, Bounded.bind_eq_ok]
  constructor
  · rintro ⟨callee, hget, h⟩
    obtain ⟨⟨values, onArguments⟩, hvalues, h⟩ := Bounded.bind_eq_ok.1 h
    obtain ⟨⟨value', cycles⟩, hrun, h⟩ := Bounded.bind_eq_ok.1 h
    obtain ⟨rfl, rfl⟩ := Prod.mk.inj (Except.ok.inj h)
    exact ⟨callee, values, onArguments, cycles, get_eq_ok.1 (Bounded.lift_eq_ok.1 hget), hvalues,
      hrun, rfl⟩
  · rintro ⟨callee, values, onArguments, cycles, hfind, hvalues, hrun, rfl⟩
    exact ⟨callee, Bounded.lift_eq_ok.2 (get_eq_ok.2 hfind), Bounded.bind_eq_ok.2
      ⟨(values, onArguments), hvalues, Bounded.bind_eq_ok.2 ⟨(value, cycles), hrun, rfl⟩⟩⟩

end Library

end RegisterMachine
