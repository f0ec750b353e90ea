import RegisterMachine.Proofs.Limit
import RegisterMachine.Proofs.Mention

/-!
# Programs inside programs

A copy of a program over other names runs inside its host as the program runs alone: step by step,
with the same costs, and without touching any variable that is not in the place of one of its own.

* `Meaning.Natural` — the values of calls do not depend on how the variables of the caller are
  named;
* `Operation.outcome_rename` — a renamed operation has the renamed outcome;
* `Program.Hosts`, `Program.Copies` — a program inside another one, and configurations that
  correspond;
* `Program.Hosts.path`, `Program.Hosts.ends` — corresponding paths, from the program to its host and
  back;
* `Program.Path.congr` — a path depends on the variables that the program mentions only.
-/

namespace RegisterMachine

/-! ### Evaluation under other names -/

/-- Two valuations agree on some variables, where the second one has them under other names. -/
def AgreeUnder (m : Argument.Renaming) (env env' : Valuation) (vs : List Variable) : Prop :=
  ∀ v ∈ vs, env' ((m v).getD v) = env v

namespace Library

section Rename

variable (skip : Skip) (lib : Library) (run : Runner) (caller : String) {m : Argument.Renaming}
  {env env' : Valuation}

mutual

theorem valueBy_rename (function : String) : ∀ a : Argument,
    AgreeUnder m env env' (Argument.vars [a]) →
    valueBy skip lib run caller env' function (a.rename m) =
      valueBy skip lib run caller env function a
  | .constant value => by
    intro _
    rw [Argument.rename, valueBy, valueBy]
  | .name text => by
    intro h
    rw [Argument.rename]
    cases ht : Variable.ofName? text with
    | none => simp [valueBy, ht]
    | some v =>
      have hv : env' ((m v).getD v) = env v := h v (Argument.mem_vars_name.2 ht)
      rw [Option.bind_some]
      cases hm : m v with
      | none =>
        rw [hm] at hv
        simpa [valueBy, ht] using hv
      | some w =>
        rw [hm] at hv
        simpa [valueBy, ht] using hv
  | .call function' as => by
    intro h
    rw [Argument.rename, valueBy, valueBy]
    congr 1
    funext callee
    rw [valuesBy_rename callee 0 callee.requiredInputs as fun v hv =>
      h v (Argument.mem_vars_call.2 hv)]

theorem valuesBy_rename (callee : Program) (k : Nat) : ∀ (n : Nat) (as : List Argument),
    AgreeUnder m env env' (Argument.vars as) →
    valuesBy skip lib run caller env' callee k n (Argument.renameList m as) =
      valuesBy skip lib run caller env callee k n as
  | 0, _ => by
    intro _
    rw [valuesBy, valuesBy]
  | n + 1, [] => by
    intro _
    rw [Argument.renameList, valuesBy, valuesBy]
  | n + 1, a :: as => by
    intro h
    have hvalue := valueBy_rename callee.name a fun v hv =>
      h v (Argument.mem_vars_cons.2 (.inl hv))
    have hvalues := valuesBy_rename callee (k + 1) n as fun v hv =>
      h v (Argument.mem_vars_cons.2 (.inr hv))
    rw [Argument.renameList, valuesBy, valuesBy]
    simp only [hvalue, hvalues]

end

theorem callBy_rename {call : Call} (h : AgreeUnder m env env' (Argument.vars call.arguments)) :
    callBy skip lib run caller env' (Operation.rename.onCall m call) =
      callBy skip lib run caller env call := by
  rw [callBy, callBy]
  congr 1
  funext callee
  rw [Operation.rename.onCall, valuesBy_rename skip lib run caller callee 0 _ _ h]

end Rename

end Library

/-- The value of a call depends on the values that its variables have, not on their names. -/
def Meaning.Natural (ev : Meaning) : Prop :=
  ∀ {m : Argument.Renaming} {env env' : Valuation} {call : Call},
    AgreeUnder m env env' (Argument.vars call.arguments) →
    ev env' (Operation.rename.onCall m call) = ev env call

theorem Library.natural_meaning (skip : Skip) (lib : Library) : (meaning skip lib).Natural :=
  fun h => callBy_rename skip lib _ _ h

/-! ### Renamed outcomes -/

/-- An outcome over other names. -/
def Outcome.rename (m : Argument.Renaming) (f : Label → Label) (out : Outcome) : Outcome :=
  ⟨out.write.map fun (v, n) => ((m v).getD v, n), out.jump.map f, out.cycles⟩

/-- A renamed operation has the renamed outcome. -/
theorem Operation.outcome_rename {ev : Meaning} (hev : ev.Natural) {m : Argument.Renaming}
    (f : Label → Label) {env env' : Valuation} (o : Operation)
    (h : ∀ v, o.Mentions v → env' ((m v).getD v) = env v) :
    (o.rename m f).outcome (ev env') env' =
      o.outcome (ev env) env >>= fun out => pure (out.rename m f) := by
  have hv : ∀ v, o.subject? = some v → env' (rename.onVariable m v) = env v := fun v hs =>
    h v (.inl hs)
  have hs : ∀ v, o.source? = some v → env' (rename.onVariable m v) = env v := fun v hs =>
    h v (.inr (.inl hs))
  have hc : ∀ call, o.call? = some call → ev env' (rename.onCall m call) = ev env call :=
    fun call hc => hev fun v hm => h v (.inr (.inr ⟨call, hc, hm⟩))
  cases o with
  | quotation v call =>
    simp only [rename, outcome, hc call rfl]
    cases ev env call <;> rfl
  | jumpEqualFunction v call target =>
    simp only [rename, outcome, hc call rfl, hv v rfl]
    cases ev env call with
    | error stop => rfl
    | ok r => by_cases hr : env v = r.1 <;> simp [hr, Outcome.rename]
  | assignment v source =>
    simp only [rename, outcome, hs source rfl]
    rfl
  | jumpEqualVariable v source target =>
    simp only [rename, outcome, hv v rfl, hs source rfl]
    by_cases hr : env v = env source <;> simp [hr, Outcome.rename]
  | jumpNotZero v target | jumpZero v target =>
    simp only [rename, outcome, hv v rfl]
    by_cases hr : env v = 0 <;> simp [hr, Outcome.rename]
  | jumpEqualConstant v k target =>
    simp only [rename, outcome, hv v rfl]
    by_cases hr : env v = k <;> simp [hr, Outcome.rename]
  | increase v | decrease v =>
    simp only [rename, outcome, hv v rfl]
    rfl
  | _ => rfl

/-- An outcome depends on the values of the variables that the operation mentions. -/
theorem Operation.outcome_congr {ev : Meaning} (hev : ev.Natural) {env env' : Valuation}
    (o : Operation) (h : ∀ v, o.Mentions v → env' v = env v) :
    o.outcome (ev env') env' = o.outcome (ev env) env := by
  have hsame : ∀ out : Outcome, out.rename (fun _ => none) id = out := by
    rintro ⟨_ | ⟨v, n⟩, _ | l, cycles⟩ <;> rfl
  have ho : (o.rename (fun _ => none) id).outcome (ev env') env' =
      o.outcome (ev env) env >>= fun out => pure (out.rename (fun _ => none) id) :=
    outcome_rename hev id o h
  rw [rename_none] at ho
  rw [ho]
  cases o.outcome (ev env) env with
  | error stop => rfl
  | ok out => exact congrArg Except.ok (hsame out)

namespace Program

/-! ### Copies inside a host -/

/-- The host has the program from a place on, with its variables and labels under other names. -/
structure Hosts (q : Program) (base : Nat) (p : Program) (m : Argument.Renaming)
    (f : Label → Label) : Prop where
  /-- The instructions stand there. -/
  holds : q.Holds base (p.code.map (Instruction.rename m f))
  /-- Labels lead to corresponding places. -/
  placeOf : ∀ l k, p.placeOf l = some k → q.placeOf (f l) = some (base + k)
  /-- Distinct variables stay distinct. -/
  injective : ∀ v ∈ p.copiedVariables, ∀ w ∈ p.copiedVariables,
    (m v).getD v = (m w).getD w → v = w

/-- The variable is in the place of none of those of a program. -/
def Outside (p : Program) (m : Argument.Renaming) (w : Variable) : Prop :=
  ∀ v ∈ p.copiedVariables, (m v).getD v ≠ w

/-- The second configuration is that of a host where its copy of the program is at the first one.
The host's own variables have the values of `frame`. -/
structure Copies (base : Nat) (p : Program) (m : Argument.Renaming) (frame : Valuation)
    (c c' : Config) : Prop where
  /-- The places correspond. -/
  place : c'.place = base + c.place
  /-- The variables of the copy have the values of the variables of the program. -/
  inside : AgreeUnder m c.env c'.env p.copiedVariables
  /-- All other variables are as in the frame. -/
  outside : ∀ w, p.Outside m w → c'.env w = frame w

section Copies

variable {ev : Meaning} {q p : Program} {base : Nat} {m : Argument.Renaming} {f : Label → Label}
  {frame : Valuation} {c c' : Config}

theorem mem_copiedVariables_of_mentions {i : Instruction} (hi : i ∈ p.code) {v : Variable}
    (h : i.operation.Mentions v) : v ∈ p.copiedVariables :=
  mem_copiedVariables.2 (.inl (mem_vars.2 ⟨i, hi, Instruction.mem_referencedVariables.2 (.inl h)⟩))

/-- Corresponding configurations correspond after corresponding outcomes. -/
theorem Copies.apply (hq : q.Hosts base p m f) (hc : Copies base p m frame c c') {i : Instruction}
    (hi : i ∈ p.code) {out : Outcome} (ho : i.operation.outcome (ev c.env) c.env = .ok out)
    (next : Nat) :
    Copies base p m frame ⟨next, out.apply c.env⟩
      ⟨base + next, (out.rename m f).apply c'.env⟩ := by
  cases hw : out.write with
  | none =>
    simp only [Outcome.apply, Outcome.rename, hw, Option.map_none]
    exact ⟨rfl, hc.inside, hc.outside⟩
  | some write =>
    obtain ⟨v, n⟩ := write
    have hv : v ∈ p.copiedVariables :=
      mem_copiedVariables_of_mentions hi (.inl (Operation.subject?_eq_of_write ho hw))
    simp only [Outcome.apply, Outcome.rename, hw, Option.map_some]
    refine ⟨rfl, fun w hm => ?_, fun w hm => ?_⟩
    · change Function.update c'.env ((m v).getD v) n ((m w).getD w) = Function.update c.env v n w
      by_cases hwv : w = v
      · subst hwv
        rw [Function.update_self, Function.update_self]
      · rw [Function.update_of_ne hwv,
          Function.update_of_ne fun he => hwv (hq.injective w hm v hv he)]
        exact hc.inside w hm
    · change Function.update c'.env ((m v).getD v) n w = frame w
      rw [Function.update_of_ne (hm v hv).symm]
      exact hc.outside w hm

theorem Hosts.goOn (hq : q.Hosts base p m f) {place next : Nat} {jump : Option Label}
    (h : p.goOn (place + 1) jump = some next) :
    q.goOn (base + place + 1) (jump.map f) = some (base + next) := by
  cases jump with
  | none =>
    obtain rfl := Option.some.inj h
    rfl
  | some l => exact hq.placeOf l next h

/-- A step of a program is a step of its copy. -/
theorem Hosts.step (hev : ev.Natural) (hq : q.Hosts base p m f)
    (hc : Copies base p m frame c c') {cost : Nat} {d : Config} (h : Step ev p cost c d) :
    ∃ d', Step ev q cost c' d' ∧ Copies base p m frame d d' := by
  obtain ⟨hi, ho, ha⟩ := h
  rename_i i out next
  have him := List.mem_of_getElem? hi
  have hi' : q.code[c'.place]? = some (i.rename m f) := by
    rw [hc.place]
    exact hq.holds _ _ (by rw [List.getElem?_map, hi]; rfl)
  have ho' : (i.rename m f).operation.outcome (ev c'.env) c'.env = .ok (out.rename m f) := by
    rw [Instruction.rename, Operation.outcome_rename hev f i.operation fun v hv =>
      hc.inside v (mem_copiedVariables_of_mentions him hv), ho]
    rfl
  have ha' : q.goOn (c'.place + 1) (out.rename m f).jump = some (base + next) := by
    rw [hc.place]
    exact hq.goOn ha
  have hstep : Step ev q out.cycles c' ⟨base + next, (out.rename m f).apply c'.env⟩ :=
    .intro (o := out.rename m f) hi' ho' ha'
  exact ⟨_, hstep, hc.apply hq him ho next⟩

/-- A step of a copy is a step of the program. -/
theorem Hosts.step_back (hev : ev.Natural) (hp : p.validate = .ok ()) (hq : q.Hosts base p m f)
    (hc : Copies base p m frame c c') (hlt : c.place < p.code.length) {cost : Nat} {d' : Config}
    (h : Step ev q cost c' d') :
    ∃ d, Step ev p cost c d ∧ Copies base p m frame d d' := by
  obtain ⟨i, hi⟩ : ∃ i, p.code[c.place]? = some i := ⟨_, List.getElem?_eq_getElem hlt⟩
  have him := List.mem_of_getElem? hi
  obtain ⟨out, ho⟩ : ∃ out, i.operation.outcome (ev c.env) c.env = .ok out := by
    obtain ⟨hi', ho', -⟩ := id h
    rw [hc.place, hq.holds _ _ (by rw [List.getElem?_map, hi]; rfl)] at hi'
    obtain rfl := Option.some.inj hi'
    rw [Instruction.rename, Operation.outcome_rename hev f i.operation fun v hv =>
      hc.inside v (mem_copiedVariables_of_mentions him hv)] at ho'
    obtain ⟨out, ho, -⟩ := Bounded.bind_eq_ok.1 ho'
    exact ⟨out, ho⟩
  obtain ⟨next, ha⟩ := exists_goOn hp him ho (c.place + 1)
  have hstep : Step ev p out.cycles c ⟨next, out.apply c.env⟩ := .intro hi ho ha
  obtain ⟨e', hstep', hcopies⟩ := hq.step hev hc hstep
  obtain ⟨rfl, rfl⟩ := h.det hstep'
  exact ⟨_, hstep, hcopies⟩

/-- A path of a program is a path of its copy. -/
theorem Hosts.path (hev : ev.Natural) (hq : q.Hosts base p m f) (hc : Copies base p m frame c c')
    {n cost : Nat} {d : Config} (h : Path ev p n cost c d) :
    ∃ d', Path ev q n cost c' d' ∧ Copies base p m frame d d' := by
  induction h generalizing c' with
  | refl c => exact ⟨c', .refl c', hc⟩
  | head step _ ih =>
    obtain ⟨d', hstep, hd⟩ := hq.step hev hc step
    obtain ⟨e', hpath, he⟩ := ih hd
    exact ⟨e', .head hstep hpath, he⟩

/-- Where the host ends, the copy in it has ended before. -/
theorem Hosts.ends (hev : ev.Natural) (hp : p.validate = .ok ()) (hq : q.Hosts base p m f)
    (hc : Copies base p m frame c c') {n cost : Nat} {e' : Config} (h : Path ev q n cost c' e')
    (hend : q.code.length ≤ e'.place) :
    ∃ n' cost' d, Path ev p n' cost' c d ∧ p.code.length ≤ d.place := by
  -- The copy is followed along the path of its host until it is at its end.
  induction h generalizing c with
  | refl c' =>
    refine ⟨0, 0, c, .refl c, Nat.le_of_not_lt fun hlt => ?_⟩
    have hi' := hq.holds c.place _ (by rw [List.getElem?_map, List.getElem?_eq_getElem hlt]; rfl)
    have hlt' := (List.getElem?_eq_some_iff.1 hi').1
    rw [hc.place] at hend
    omega
  | head step _ ih =>
    rcases Nat.lt_or_ge c.place p.code.length with hlt | hle
    · obtain ⟨d, hstep, hd⟩ := hq.step_back hev hp hc hlt step
      obtain ⟨n', cost', e, hpath, he⟩ := ih hd hend
      exact ⟨n' + 1, _, e, .head hstep hpath, he⟩
    · exact ⟨0, 0, c, .refl c, hle⟩

end Copies

/-! ### Paths from valuations that agree -/

/-- A program is its own copy. -/
theorem Hosts.self (p : Program) : p.Hosts 0 p (fun _ => none) id where
  holds := by
    intro k i hi
    rw [funext Instruction.rename_none, List.map_id'] at hi
    rw [Nat.zero_add]
    exact hi
  placeOf l k h := by
    rw [Nat.zero_add]
    exact h
  injective v _ w _ h := h

/-- A path depends on the values of the variables that the program mentions, and leaves all others
alone. -/
theorem Path.congr {ev : Meaning} (hev : ev.Natural) {p : Program} {n cost : Nat} {c d : Config}
    (h : Path ev p n cost c d) {env : Valuation} (henv : ∀ v ∈ p.copiedVariables, env v = c.env v) :
    ∃ env', Path ev p n cost ⟨c.place, env⟩ ⟨d.place, env'⟩ ∧
      ∀ v ∈ p.copiedVariables, env' v = d.env v := by
  have hc : Copies 0 p (fun _ => none) env c ⟨c.place, env⟩ :=
    ⟨(Nat.zero_add _).symm, henv, fun _ _ => rfl⟩
  obtain ⟨⟨place, env'⟩, hpath, hd⟩ := (Hosts.self p).path hev hc h
  obtain rfl : place = d.place := hd.place.trans (Nat.zero_add _)
  exact ⟨env', hpath, hd.inside⟩

end Program

end RegisterMachine
