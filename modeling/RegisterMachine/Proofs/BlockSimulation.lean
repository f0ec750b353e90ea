import RegisterMachine.Proofs.BlockRun
import RegisterMachine.Proofs.BlockShape
import RegisterMachine.Proofs.InlinedCall

/-!
# Blocks do what their instructions do

The block of an instruction, wherever it stands in a program, leads to where the instruction leads,
and leaves all variables but its own fresh ones with the values that the instruction leaves them
with. It may be run again, since the only fresh variable it relies on is restored.

* `Instruction.Clean` — what the block of an instruction relies on;
* `Library.path_block` — from an outcome of the instruction to a path through its block;
* `Library.exists_outcome` — from a run of the host that ends back to an outcome.
-/

namespace RegisterMachine

/-- The fresh variable of an assignment's block is zero. -/
def Instruction.Clean (i : Instruction) (s : Supply) (env : Valuation) : Prop :=
  ∀ v source, i.operation = .assignment v source → v ≠ source → env (s.freshVariable 0) = 0

/-- The variable is one of the fresh variables of a block. -/
def Block.Owns (b : Block) (s : Supply) (w : Variable) : Prop :=
  ∃ k < b.variableCount, w = s.freshVariable k

/-- What a block owns comes from the supply. -/
theorem Block.Owns.fresh {b : Block} {s : Supply} {w : Variable} (h : b.Owns s w) : s.Fresh w := by
  obtain ⟨k, -, hk⟩ := h
  exact ⟨k, hk⟩

namespace Library

open Program

variable {skip : Skip} {lib : Library} {q : Program} {base next : Nat} {s : Supply}
  {i : Instruction} {block : Block} {env : Valuation}

/-- A path through the block of an instruction, from an outcome of the instruction on. -/
structure Through (ev : Meaning) (q : Program) (i : Instruction) (s : Supply) (block : Block)
    (base next : Nat) (env : Valuation) (out : Outcome) (env' : Valuation) : Prop where
  /-- The path leads to where the instruction leads. It is empty for an empty block only. -/
  path : ∃ n cost, Path ev q n cost ⟨base, env⟩ ⟨next, env'⟩ ∧ (n = 0 → out.jump = none)
  /-- The block can be run again. -/
  clean : i.Clean s env'
  /-- All other variables have the values that the instruction gives them. -/
  outside : ∀ w, ¬ block.Owns s w → env' w = out.apply env w

section Through

variable {ev : Meaning} {out : Outcome} {env' : Valuation}

/-- A way through a block, with the values that it leaves: the variables of others are as the
outcome says, and what the block relies on is as it was. -/
theorem Through.of_leads (h : Leads ev q ⟨base, env⟩ ⟨next, env'⟩) (hclean : i.Clean s env')
    (houtside : ∀ w, ¬ block.Owns s w → env' w = out.apply env w) :
    Through ev q i s block base next env out env' := by
  obtain ⟨n, cost, hn, hpath⟩ := h
  exact ⟨⟨n, cost, hpath, fun hz => by omega⟩, hclean, houtside⟩

/-- Only the blocks of assignments rely on anything. -/
private theorem clean_of_ne (h : ∀ v source, i.operation ≠ .assignment v source) : i.Clean s env :=
  fun v source ho => absurd ho (h v source)

end Through

/-- A copy that leaves all variables but its own as they are leaves those of other blocks as they
are. -/
private theorem apply_eq_of_frames {entry : Expansion} {label : Option Label} {v : Variable}
    {bound : List (Variable × Binding)} {finish : Variable → Operation} {env' : Valuation}
    (h : entry.program.Frames s env env') {w : Variable}
    (hw : ¬ (Block.inlining label v entry bound finish).Owns s w) : env' w = env w := by
  refine h w fun u hu he => hw ?_
  obtain ⟨k, hk, hfresh⟩ := exists_freshFor (s := s) hu
  exact ⟨k, hk, he.symm.trans hfresh⟩

section Cases

variable {label spare : Option Label} {v : Variable} {spares : List Variable} {out : Outcome}
  {call : Call} {entry : Expansion} {bound : List (Variable × Binding)}

/-- The block of an assignment of a variable to itself has nothing to do. -/
private theorem through_selfAssignment {ev : Meaning}
    (hq : q.Holds base ((Block.selfAssignment label v).body s)) :
    ∃ env', Through ev q ⟨label, .assignment v v, spares, spare⟩ s (.selfAssignment label v) base
      (base + ((Block.selfAssignment label v).body s).length) env ⟨some (v, env v), none, 4⟩
      env' := by
  -- The block holds a place for the label at most, and the variable keeps its value.
  have hbody : (Block.selfAssignment label v).body s = Block.landing label v :=
    Block.body_ofCode _ _ _ s
  rw [hbody] at hq ⊢
  obtain ⟨n, hpath⟩ := Block.path_landing ev env hq
  refine ⟨env, ⟨n, 0, hpath, fun _ => rfl⟩, fun u source ho hne => ?_, fun w _ => ?_⟩
  · cases ho
    exact absurd rfl hne
  · rw [Outcome.apply_some, Function.update_eq_self]

/-- The block of an assignment of one variable to another does what the assignment does. It relies
on its fresh variable being zero, and leaves it so. -/
private theorem through_assignment {ev : Meaning} {source : Variable} (hne : v ≠ source)
    (hq : q.Holds base ((Block.assignment label v source).body s)) (hv : ¬ s.Fresh v)
    (hsource : ¬ s.Fresh source) (hz : env (s.freshVariable 0) = 0) :
    ∃ env', Through ev q ⟨label, .assignment v source, spares, spare⟩ s (.assignment label v source)
      base (base + ((Block.assignment label v source).body s).length) env
      ⟨some (v, env source), none, 4⟩ env' := by
  have hvz : v ≠ s.freshVariable 0 := fun he => hv ⟨0, he⟩
  have hsz : source ≠ s.freshVariable 0 := fun he => hsource ⟨0, he⟩
  refine ⟨_, .of_leads (Block.leads_assignment hne hvz hsz hz hq) ?_ fun _ _ => rfl⟩
  intro _ _ _ _
  rw [Function.update_of_ne hvz.symm, hz]

/-- The block of an assignment of the value of a call does what the assignment does: the copy leaves
the value in its result, from where the last instruction takes it. The value that a call has is the
one that a run of the copy comes to. -/
private theorem through_quotation (hskip : skip.Harmless)
    (hfind : lib.findExpansion? call.function = some entry)
    (hbound : lib.bindings entry.program 0 (call.arguments.take entry.program.requiredInputs) =
      .ok bound)
    (hblock : block = .inlining label v entry bound (.assignment v ·))
    (hq : q.Holds base (block.body s)) (hcall : ∀ w ∈ Argument.vars call.arguments, ¬ s.Fresh w)
    (ho : (Operation.quotation v call).outcome (meaning skip lib env) env = .ok out)
    (hnext : q.goOn (base + (block.body s).length) out.jump = some next) :
    ∃ env', Through (meaning skip lib) q ⟨label, .quotation v call, spares, spare⟩ s block base next
      env out env' := by
  subst hblock
  obtain ⟨⟨value, spent⟩, hvalue, hout⟩ := Bounded.bind_eq_ok.1 ho
  obtain rfl := Except.ok.inj hout
  obtain ⟨n, env', cost, hpath, rfl, hframe, -⟩ := path_call hskip hfind hbound hq hcall hvalue
  rw [Block.length_inlining] at hnext
  have hstep : Step (meaning skip lib) q 4 ⟨_, env'⟩
      ⟨next, Function.update env' v (env' (entry.program.copyResult s))⟩ :=
    .intro (c := ⟨_, env'⟩) (Block.holds_finish hq) rfl hnext
  refine ⟨_, ⟨_, _, hpath.tail hstep, fun hz => nomatch hz⟩, clean_of_ne nofun, fun w hw => ?_⟩
  rw [Outcome.apply_some]
  by_cases hwv : w = v
  · rw [hwv, Function.update_self, Function.update_self]
  · rw [Function.update_of_ne hwv, Function.update_of_ne hwv, apply_eq_of_frames hframe hw]

/-- The block of a comparison with the value of a call does what the comparison does: the copy
leaves the value in its result, which the last instruction compares. -/
private theorem through_jumpEqualFunction (hskip : skip.Harmless) {target : Label}
    (hfind : lib.findExpansion? call.function = some entry)
    (hbound : lib.bindings entry.program 0 (call.arguments.take entry.program.requiredInputs) =
      .ok bound)
    (hblock : block = .inlining label v entry bound (.jumpEqualVariable v · target))
    (hq : q.Holds base (block.body s)) (hv : ¬ s.Fresh v)
    (hcall : ∀ w ∈ Argument.vars call.arguments, ¬ s.Fresh w)
    (ho : (Operation.jumpEqualFunction v call target).outcome (meaning skip lib env) env = .ok out)
    (hnext : q.goOn (base + (block.body s).length) out.jump = some next) :
    ∃ env', Through (meaning skip lib) q ⟨label, .jumpEqualFunction v call target, spares, spare⟩ s
      block base next env out env' := by
  subst hblock
  obtain ⟨⟨value, spent⟩, hvalue, hout⟩ := Bounded.bind_eq_ok.1 ho
  obtain rfl := Except.ok.inj hout
  obtain ⟨n, env', cost, hpath, rfl, hframe, -⟩ := path_call hskip hfind hbound hq hcall hvalue
  -- The last instruction compares the result with the variable of the caller, which is untouched.
  have hsame : env' v = env v := hframe v (outside_of_not_fresh hv)
  rw [Block.length_inlining, ← hsame] at hnext
  have hstep : Step (meaning skip lib) q 2 ⟨_, env'⟩ ⟨next, env'⟩ :=
    .intro (c := ⟨_, env'⟩) (Block.holds_finish hq) rfl hnext
  refine ⟨_, ⟨_, _, hpath.tail hstep, fun hz => nomatch hz⟩, clean_of_ne nofun, fun w hw => ?_⟩
  rw [Outcome.apply_none, apply_eq_of_frames hframe hw]

end Cases

/-- The block of an instruction does what the instruction does. -/
theorem path_block (hskip : skip.Harmless) (hblock : lib.BlockOf i block)
    (hq : q.Holds base (block.body s)) (hfresh : ∀ w ∈ i.referencedVariables, ¬ s.Fresh w)
    (hclean : i.Clean s env) {out : Outcome}
    (ho : i.operation.outcome (meaning skip lib env) env = .ok out)
    (hnext : q.goOn (base + (block.body s).length) out.jump = some next) :
    ∃ env', Through (meaning skip lib) q i s block base next env out env' := by
  have hmentions : ∀ w, i.operation.Mentions w → ¬ s.Fresh w := fun w hw =>
    hfresh w (Instruction.mem_referencedVariables.2 (.inl hw))
  cases hblock with
  | self hbasic =>
    rw [Block.body_ofCode] at hq hnext
    have hstep := (Step.intro (c := ⟨base, env⟩) hq.head ho hnext).leads
    refine ⟨_, .of_leads hstep (clean_of_ne fun v source he => ?_) fun _ _ => rfl⟩
    rw [Instruction.isBasic, Instruction.opcode, he] at hbasic
    cases hbasic
  | zeroVariable v =>
    obtain rfl := Except.ok.inj ho
    obtain rfl := Option.some.inj hnext
    exact ⟨_, .of_leads (Block.leads_zeroVariable hq) (clean_of_ne nofun) fun _ _ => rfl⟩
  | gotoLabel target =>
    obtain rfl := Except.ok.inj ho
    refine ⟨_, .of_leads (Block.leads_gotoLabel hq hnext) (clean_of_ne nofun) fun w hw => ?_⟩
    exact Function.update_of_ne (fun he => hw ⟨0, Nat.one_pos, he⟩) _ _
  | constantAssignment v k =>
    obtain rfl := Except.ok.inj ho
    obtain rfl := Option.some.inj hnext
    exact ⟨_, .of_leads (Block.leads_constantAssignment hq) (clean_of_ne nofun) fun _ _ => rfl⟩
  | jumpZero v target =>
    obtain rfl := Except.ok.inj ho
    exact ⟨_, .of_leads (Block.leads_jumpZero hq hnext) (clean_of_ne nofun) fun _ _ => rfl⟩
  | selfAssignment v =>
    obtain rfl := Except.ok.inj ho
    obtain rfl := Option.some.inj hnext
    exact through_selfAssignment hq
  | @assignment _ _ _ v source hne =>
    obtain rfl := Except.ok.inj ho
    obtain rfl := Option.some.inj hnext
    exact through_assignment hne hq (hmentions v (.inl rfl)) (hmentions source (.inr (.inl rfl)))
      (hclean v source rfl hne)
  | jumpEqualConstant v k target =>
    obtain rfl := Except.ok.inj ho
    obtain ⟨n, hpath⟩ : ∃ n, Leads (meaning skip lib) q ⟨base, env⟩
        ⟨next, Function.update env (s.freshVariable 0) n⟩ :=
      Block.leads_jumpEqualConstant hq hnext
    refine ⟨_, .of_leads hpath (clean_of_ne nofun) fun w hw => ?_⟩
    exact Function.update_of_ne (fun he => hw ⟨0, Nat.one_pos, he⟩) _ _
  | jumpEqualVariable v source target =>
    obtain rfl := Except.ok.inj ho
    have hs : source ≠ s.freshVariable 0 := fun he => hmentions source (.inr (.inl rfl)) ⟨0, he⟩
    obtain ⟨env', hpath, hw⟩ := Block.leads_jumpEqualVariable hs hq hnext
    refine ⟨env', .of_leads hpath (clean_of_ne nofun) fun w hown => hw w ?_ ?_⟩
    · exact fun he => hown ⟨0, Nat.zero_lt_two, he⟩
    · exact fun he => hown ⟨1, Nat.one_lt_two, he⟩
  | @call _ v call _ _ _ hi hfind hbound =>
    obtain ⟨label, operation, spares, spare⟩ := i
    have hcall : ∀ w ∈ Argument.vars call.arguments, ¬ s.Fresh w := fun w hw =>
      hmentions w (.inr (.inr ⟨call, hi.call?_eq, hw⟩))
    cases hi with
    | quotation => exact through_quotation hskip hfind hbound rfl hq hcall ho hnext
    | jumpEqualFunction =>
      exact through_jumpEqualFunction hskip hfind hbound rfl hq (hmentions v (.inl rfl)) hcall ho
        hnext

/-- Where a run of a host ends that has the block of an instruction, the instruction has an outcome,
if arguments for unmentioned inputs are skipped. -/
theorem exists_outcome (hlib : lib.validate = .ok ()) (hblock : lib.BlockOf i block)
    (hq : q.Holds base (block.body s)) (hfresh : ∀ w ∈ i.referencedVariables, ¬ s.Fresh w)
    {n cost : Nat} {e : Config}
    (hpath : Path (meaning Skip.unmentioned lib) q n cost ⟨base, env⟩ e)
    (hend : q.code.length ≤ e.place) :
    ∃ out, i.operation.outcome (meaning Skip.unmentioned lib env) env = .ok out := by
  rcases hcall : i.operation.call? with _ | call
  · exact Operation.outcome_of_call?_eq_none hcall _ _
  · obtain ⟨v, entry, bound, finish, htakes, hfind, hbound, rfl⟩ := hblock.exists_inlining hcall
    have hfresh' : ∀ w ∈ Argument.vars call.arguments, ¬ s.Fresh w := fun w hw =>
      hfresh w (Instruction.mem_referencedVariables.2 (.inl (.inr (.inr ⟨call, hcall, hw⟩))))
    obtain ⟨r, hr⟩ := exists_value_of_path hlib hfind hbound hq hfresh' hpath hend
    obtain ⟨label, operation, spares, spare⟩ := i
    cases htakes <;> exact ⟨_, Bounded.bind_eq_ok.2 ⟨r, hr, rfl⟩⟩

end Library

end RegisterMachine
