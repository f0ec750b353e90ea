import RegisterMachine.Expansion.Degree
import RegisterMachine.Proofs.BlockRounds
import RegisterMachine.Proofs.CallAgreement

/-!
# Expansion comes to an end

In a library that passes its checks no calls go in a circle. So every operation becomes basic within
some number of rounds: the opcodes that a round emits rank below the one that it replaces, arguments
that are calls have fewer calls in them, and a called program comes earlier in the call graph. A
round takes one off that number, and where nothing is left to take off, all instructions are basic.

* `Bounded.Ends` — with enough fuel a computation has an answer or an error;
* `Library.BecomesBasic`, `Library.becomesBasic` — every operation becomes basic;
* `Library.basicWithin_round` — a round takes one off;
* `Library.ends_maxDegree`, `ends_operationDegree` — degrees, by counting rounds and by the formula;
* `Library.expansion_ends` — no rounds go on for ever.
-/

namespace RegisterMachine

/-! ### Computations that come to an end -/

namespace Bounded

variable {α β : Type}

/-- With enough fuel the computation has an answer or an error. -/
def Ends (f : Nat → Bounded α) : Prop :=
  ∃ r : Except Error α, Settles f (liftM r)

theorem Ends.lift (r : Except Error α) : Ends fun _ => (liftM r : Bounded α) :=
  ⟨r, .const _⟩

theorem Ends.ok (a : α) : Ends fun _ => (.ok a : Bounded α) :=
  .lift (.ok a)

/-- What is put together from computations that end ends too. -/
theorem Ends.bind {f : Nat → Bounded α} {g : Nat → α → Bounded β} (hf : Ends f)
    (hg : ∀ a, Ends (g · a)) : Ends fun fuel => f fuel >>= g fuel := by
  obtain ⟨r, hr⟩ := hf
  choose h hh using hg
  refine ⟨r >>= h, ?_⟩
  have hlift : (liftM (r >>= h) : Bounded β) = liftM r >>= fun a => liftM (h a) := by
    cases r <;> rfl
  rw [hlift]
  exact hr.bind hh

/-- A family that only grows ends, if some amount of fuel is enough. -/
theorem Grows.ends {f : Nat → Bounded α} (h : Grows f) {fuel : Nat}
    (hfuel : f fuel ≠ .error .outOfFuel) : Ends f := by
  have hsettles := h.settles_limit
  rw [← (hsettles.below fuel).resolve_left hfuel] at hsettles
  rcases hr : f fuel with (cause | _) | a
  · rw [hr] at hsettles
    exact ⟨.error cause, hsettles⟩
  · exact absurd hr hfuel
  · rw [hr] at hsettles
    exact ⟨.ok a, hsettles⟩

end Bounded

open Bounded (Ends)

/-! ### Operations become basic -/

namespace Library

variable {lib : Library}

/-- Within some number of rounds the operation is basic, and so is everything that comes out of
it. -/
def BecomesBasic (lib : Library) (o : Operation) : Prop :=
  ∃ n, lib.BasicWithin (fun _ => True) n o

/-- The operations of finitely many things become basic together. -/
theorem exists_basicWithin {α : Type} {f : α → Operation} {xs : List α}
    (h : ∀ x ∈ xs, lib.BecomesBasic (f x)) :
    ∃ n, ∀ x ∈ xs, lib.BasicWithin (fun _ => True) n (f x) := by
  induction xs with
  | nil => exact ⟨0, List.forall_mem_nil _⟩
  | cons x xs ih =>
    obtain ⟨hx, hxs⟩ := List.forall_mem_cons.1 h
    obtain ⟨m, hm⟩ := hx
    obtain ⟨n, hn⟩ := ih hxs
    refine ⟨max m n, List.forall_mem_cons.2 ⟨hm.mono (le_max_left m n), fun y hy => ?_⟩⟩
    exact (hn y hy).mono (le_max_right m n)

theorem becomesBasic_of_call?_eq_none {o : Operation} (h : o.call? = none) : lib.BecomesBasic o :=
  ⟨o.ownDegree, (basicWithin_iff_of_call?_eq_none h).2 le_rfl⟩

/-- The quotations of finitely many parameters become basic together. -/
theorem exists_basicWithin_bindings {bound : List (Variable × Binding)}
    (h : ∀ u c, (u, .call c) ∈ bound → lib.BecomesBasic (.quotation u c)) :
    ∃ n, ∀ u c, (u, .call c) ∈ bound → lib.BasicWithin (fun _ => True) n (.quotation u c) := by
  obtain ⟨n, hn⟩ : ∃ n, ∀ x ∈ bound,
      lib.BasicWithin (fun _ => True) n (x.2.operation x.1) := by
    refine exists_basicWithin ?_
    rintro ⟨u, k | source | c⟩ hx
    · exact becomesBasic_of_call?_eq_none rfl
    · exact becomesBasic_of_call?_eq_none rfl
    · exact h u c hx
  exact ⟨n, fun u c hc => hn (u, .call c) hc⟩

/-- Where everything that the inlining of a call takes over becomes basic, it does so together. -/
theorem TakesOver.exists_basicWithin {call : Call} (h : lib.TakesOver call lib.BecomesBasic) :
    ∃ n, lib.TakesOver call (lib.BasicWithin (fun _ => True) n) := by
  rcases hfind : lib.find? call.function with _ | callee
  · refine ⟨0, fun callee hf => ?_, fun callee bound hf => ?_⟩ <;> cases hfind.symm.trans hf
  · obtain ⟨m, hm⟩ := Library.exists_basicWithin (h.body callee hfind)
    rcases hbound : lib.bindings callee 0 (call.arguments.take callee.requiredInputs) with
      cause | bound
    · refine ⟨m, fun callee' hf => ?_, fun callee' bound hf hb => ?_⟩
      · obtain rfl := Option.some.inj (hfind.symm.trans hf)
        exact hm
      · obtain rfl := Option.some.inj (hfind.symm.trans hf)
        cases hbound.symm.trans hb
    · obtain ⟨n, hn⟩ := exists_basicWithin_bindings (h.quotations callee bound hfind hbound)
      exact ⟨max m n, .of_bindings hfind hbound (fun i hi => (hm i hi).mono (le_max_left m n))
        fun u c hc => (hn u c hc).mono (le_max_right m n)⟩

/-- An operation becomes basic if everything does that the inlining of its call takes over. -/
theorem BecomesBasic.of_takesOver {o : Operation}
    (h : ∀ call, o.call? = some call → lib.TakesOver call lib.BecomesBasic) :
    lib.BecomesBasic o := by
  rcases hcall : o.call? with _ | call
  · exact becomesBasic_of_call?_eq_none hcall
  · obtain ⟨n, hn⟩ := (h call hcall).exists_basicWithin
    refine ⟨max o.ownDegree n + 1, Nat.le_succ_of_le (le_max_left _ _), fun call' hcall' => ?_⟩
    obtain rfl := Option.some.inj (hcall.symm.trans hcall')
    exact ⟨trivial, hn.mono fun _ hb => hb.mono (le_max_right _ _)⟩

/-! ### Calls -/

/-- All instructions of the programs that arguments call become basic. -/
def CallsBecomeBasic (lib : Library) (as : List Argument) : Prop :=
  ∀ q, lib.Calls as q → ∀ i ∈ q.code, lib.BecomesBasic i.operation

theorem CallsBecomeBasic.of_walk_subset {as bs : List Argument} (h : lib.CallsBecomeBasic bs)
    (hsubset : Argument.walk as ⊆ Argument.walk bs) : lib.CallsBecomeBasic as := fun q hq =>
  h q (hq.of_walk_subset hsubset)

/-- What the inlining of a call takes over becomes basic, if the instructions of the called program
do, and the quotations of its arguments. -/
theorem takesOver_becomesBasic {call : Call}
    (hbody : ∀ callee, lib.find? call.function = some callee →
      ∀ i ∈ callee.code, lib.BecomesBasic i.operation)
    (harguments : ∀ a ∈ call.arguments, ∀ function c, lib.binding function a = .ok (.call c) →
      ∀ u, lib.BecomesBasic (.quotation u c)) : lib.TakesOver call lib.BecomesBasic where
  body := hbody
  quotations callee bound _ hbound u c hc := by
    obtain ⟨-, a, ha, hbinding⟩ := exists_of_mem_bindings hbound hc
    exact harguments a (List.mem_of_mem_take ha) callee.name c hbinding u

theorem becomesBasic_quotation {u : Variable} {call : Call}
    (h : lib.TakesOver call lib.BecomesBasic) : lib.BecomesBasic (.quotation u call) :=
  .of_takesOver fun call' hcall => by
    obtain rfl := Option.some.inj hcall
    exact h

/-- What the inlining of a call takes over becomes basic, if the programs do that the call names. -/
theorem takesOver_of_calls (call : Call) (h : lib.CallsBecomeBasic [call.toArgument]) :
    lib.TakesOver call lib.BecomesBasic := by
  induction call using lib.call_induction with
  | step call ih =>
    refine takesOver_becomesBasic (fun q hq => h q (calls_function hq)) fun a ha function c hc u =>
      becomesBasic_quotation (ih a ha function c hc fun q hq => ?_)
    exact h.of_walk_subset (Argument.walk_subset_walk_toArgument ha) q (hq.of_binding hc)

/-- An operation becomes basic if the programs that it calls do. -/
theorem becomesBasic_of_calls {o : Operation}
    (h : ∀ call, o.call? = some call → lib.CallsBecomeBasic [call.toArgument]) :
    lib.BecomesBasic o :=
  .of_takesOver fun call hcall => takesOver_of_calls call (h call hcall)

/-- In a library that passes its checks, every operation becomes basic. -/
theorem becomesBasic (hlib : lib.validate = .ok ()) (o : Operation) : lib.BecomesBasic o := by
  -- By induction along the call graph for the programs of the library, and from them for any call.
  have hprograms : ∀ name, Acc lib.callGraph.Follows name → ∀ q ∈ lib.programs, q.name = name →
      ∀ i ∈ q.code, lib.BecomesBasic i.operation := by
    intro name hacc
    induction hacc with
    | intro name _ ih =>
      rintro q hq rfl i hi
      refine becomesBasic_of_calls fun call hcall q' hq' => ?_
      have ⟨name', _, hfind⟩ := hq'
      exact ih q'.name (follows_of_calls hq hi hcall hq') q' (mem_of_find? hfind) rfl
  refine becomesBasic_of_calls fun call _ q hq => ?_
  obtain ⟨name, -, hfind⟩ := hq
  have hmem := mem_of_find? hfind
  exact hprograms q.name (acc_of_mem hlib hmem) q hmem rfl

/-- The instructions of a program become basic together. -/
theorem exists_basicWithin_code (hlib : lib.validate = .ok ()) (code : List Instruction) :
    ∃ n, ∀ i ∈ code, lib.BasicWithin (fun _ => True) n i.operation :=
  exists_basicWithin fun i _ => becomesBasic hlib i.operation

/-! ### Rounds come to an end -/

theorem isFullyBasic_iff {ok : Call → Prop} {p : Program} :
    p.isFullyBasic = true ↔ ∀ i ∈ p.code, lib.BasicWithin ok 0 i.operation := by
  rw [Program.isFullyBasic, List.all_eq_true]
  exact forall₂_congr fun i _ => basicWithin_zero_iff.symm

/-- After as many rounds as the instructions need, all of them are basic. -/
theorem isFullyBasic_of_rounds {es : ℕ → Expansion} (hes : ∀ k, lib.round (es k) = .ok (es (k + 1)))
    {n : Nat} (h : ∀ i ∈ (es 0).code, lib.BasicWithin (fun _ => True) n i.operation) :
    (es n).program.isFullyBasic = true := by
  induction n generalizing es with
  | zero => exact isFullyBasic_iff.2 h
  | succ n ih =>
    exact ih (fun k => hes (k + 1))
      (basicWithin_round (fun _ _ => Iff.rfl) (hes 0) h)

/-- More fuel does not change how many rounds are counted. -/
theorem grows_roundsToBasic (e : Expansion) : Bounded.Grows (lib.roundsToBasic · e) := by
  intro fuel
  induction fuel generalizing e with
  | zero =>
    change Bounded.Below (lib.roundsToBasic 0 e) (lib.roundsToBasic 1 e)
    rw [roundsToBasic, roundsToBasic]
    split
    · exact .refl _
    · exact .inl rfl
  | succ fuel ih =>
    change Bounded.Below (lib.roundsToBasic (fuel + 1) e) (lib.roundsToBasic (fuel + 2) e)
    rw [roundsToBasic, roundsToBasic]
    split
    · exact .refl _
    · exact .bind (.refl _) fun e' => .bind (ih e') fun _ => .refl _

theorem roundsToBasic_ne_outOfFuel {n : Nat} {e : Expansion}
    (h : ∀ i ∈ e.code, lib.BasicWithin (fun _ => True) n i.operation) :
    lib.roundsToBasic n e ≠ .error .outOfFuel := by
  induction n generalizing e with
  | zero =>
    have hbasic : e.program.isFullyBasic = true := isFullyBasic_iff.2 h
    rw [roundsToBasic, if_pos hbasic]
    exact nofun
  | succ n ih =>
    rw [roundsToBasic]
    split
    · exact nofun
    · rcases hround : lib.round e with cause | e'
      · exact nofun
      · have hrest := ih (basicWithin_round (fun _ _ => Iff.rfl) hround h)
        intro hfuel
        exact hrest (Bounded.bind_pure_eq_error.1 hfuel)

/-- The degree of a program is a number of rounds after which all instructions are basic. -/
theorem exists_expandRounds_of_roundsToBasic {fuel n : Nat} {e : Expansion}
    (h : lib.roundsToBasic fuel e = .ok n) :
    ∃ e', lib.expandRounds n e = .ok e' ∧ e'.program.isFullyBasic = true := by
  induction fuel generalizing e n with
  | zero =>
    rw [roundsToBasic] at h
    split at h
    · rename_i hbasic
      obtain rfl := Except.ok.inj h
      exact ⟨e, rfl, hbasic⟩
    · cases h
  | succ fuel ih =>
    rw [roundsToBasic] at h
    split at h
    · rename_i hbasic
      obtain rfl := Except.ok.inj h
      exact ⟨e, rfl, hbasic⟩
    · rename_i hbasic
      obtain ⟨e₁, hround, h⟩ := Bounded.bind_eq_ok.1 h
      obtain ⟨m, hm, h⟩ := Bounded.bind_eq_ok.1 h
      obtain rfl := Except.ok.inj h
      obtain ⟨e', he', hbasic'⟩ := ih hm
      refine ⟨e', expandRounds_succ.2 (.inr ⟨Bool.eq_false_iff.2 hbasic, e₁, ?_, he'⟩), hbasic'⟩
      exact Bounded.lift_eq_ok.1 hround

/-- The degree of a program is found. -/
theorem ends_maxDegree (hlib : lib.validate = .ok ()) (p : Program) :
    Ends (lib.maxDegree · p) := by
  obtain ⟨n, hn⟩ := exists_basicWithin_code hlib (Expansion.ofProgram p).code
  exact (grows_roundsToBasic (.ofProgram p)).ends (roundsToBasic_ne_outOfFuel hn)

end Library

/-! ### The formula comes to an end -/

section Formula

variable {lib : Library} {programDegree : Nat → Program → Bounded Nat}

mutual

private theorem ends_bindingDegree (h : ∀ q, Ends (programDegree · q)) : ∀ a : Argument,
    Ends fun fuel => bindingDegree lib (programDegree fuel) a
  | .constant _ => by
    simp only [bindingDegree]
    exact .ok _
  | .name text => by
    simp only [bindingDegree]
    split
    · exact .ok _
    · exact .bind (.lift _) fun call => .bind (.lift _) fun q => .bind (h q) fun _ => .ok _
  | .call function arguments => by
    simp only [bindingDegree]
    exact .bind (.lift _) fun q => .bind (h q) fun degree =>
      .bind (ends_bindingDegrees h q.requiredInputs degree arguments) fun _ => .ok _

private theorem ends_bindingDegrees (h : ∀ q, Ends (programDegree · q)) :
    ∀ (n degree : Nat) (as : List Argument),
      Ends fun fuel => bindingDegrees lib (programDegree fuel) n degree as
  | 0, degree, _ => by
    simp only [bindingDegrees]
    exact .ok _
  | n + 1, degree, [] => by
    simp only [bindingDegrees]
    exact .ok _
  | n + 1, degree, a :: as => by
    simp only [bindingDegrees]
    exact .bind (ends_bindingDegree h a) fun d => ends_bindingDegrees h n (max degree d) as

end

theorem ends_callDegree (h : ∀ q, Ends (programDegree · q)) (call : Call) :
    Ends fun fuel => callDegree lib (programDegree fuel) call :=
  .bind (.lift _) fun q => .bind (h q) fun degree =>
    ends_bindingDegrees h q.requiredInputs degree call.arguments

/-- The formula ends, if the degrees of programs are found. -/
theorem ends_operationDegree (h : ∀ q, Ends (programDegree · q)) (o : Operation) :
    Ends fun fuel => operationDegree lib (programDegree fuel) o := by
  cases o with
  | quotation v call => exact .bind (ends_callDegree h call) fun _ => .ok _
  | jumpEqualFunction v call target => exact .bind (ends_callDegree h call) fun _ => .ok _
  | _ => exact .ok _

end Formula

/-! ### Expansion ends -/

namespace Library

/-- In a library that passes its checks, rounds do not go on for ever: a sequence of rounds of which
each one succeeds comes to a program whose instructions are all basic, and stays there. So the
rounds of any program are counted to the end, until one fails or all instructions are basic, and the
formula for the degree of any instruction ends as well. -/
theorem expansion_ends {lib : Library} (hlib : lib.validate = .ok ()) :
    (∀ es : Nat → Expansion, (∀ k, lib.round (es k) = .ok (es (k + 1))) →
      ∃ n, ∀ k, n ≤ k → (es k).program.isFullyBasic = true ∧ es k = es n) ∧
    (∀ p, Ends (lib.maxDegree · p) ∧ ∀ fuel n, lib.maxDegree fuel p = .ok n →
      ∃ e, lib.expandRounds n (.ofProgram p) = .ok e ∧ e.program.isFullyBasic = true) ∧
    ∀ i, Ends (lib.instructionDegree · i) := by
  refine ⟨fun es hes => ?_, fun p => ⟨ends_maxDegree hlib p, fun fuel n => ?_⟩, fun i => ?_⟩
  · obtain ⟨n, hn⟩ := exists_basicWithin_code hlib (es 0).code
    refine ⟨n, fun k hk => ?_⟩
    induction k, hk using Nat.le_induction with
    | base => exact ⟨isFullyBasic_of_rounds hes hn, rfl⟩
    | succ k _ ih =>
      have hstays : es (k + 1) = es k :=
        Except.ok.inj ((hes k).symm.trans (round_of_isFullyBasic ih.1))
      rw [hstays]
      exact ih
  · exact exists_expandRounds_of_roundsToBasic
  · exact ends_operationDegree (ends_maxDegree hlib) i.operation

theorem echo_expansion_ends :
    echoLibrary.validate = .ok () ∧
    ∃ es : Nat → Expansion, es 0 = .ofProgram echoCaller ∧
      (∀ k, echoLibrary.round (es k) = .ok (es (k + 1))) ∧
      (∃ n, ∀ k, n ≤ k → (es k).program.isFullyBasic = true ∧ es k = es n) ∧
      Ends (echoLibrary.maxDegree · echoCaller) ∧
      Ends (echoLibrary.instructionDegree · echoThree) := by
  obtain ⟨e₁, h₁, e₂, h₂, e₃, h₃, hbasic⟩ : ∃ e₁,
      echoLibrary.round (.ofProgram echoCaller) = .ok e₁ ∧ ∃ e₂, echoLibrary.round e₁ = .ok e₂ ∧
      ∃ e₃, echoLibrary.round e₂ = .ok e₃ ∧ e₃.program.isFullyBasic = true :=
    ⟨_, rfl, _, rfl, _, rfl, by decide⟩
  let es : Nat → Expansion
    | 0 => .ofProgram echoCaller
    | 1 => e₁
    | 2 => e₂
    | _ + 3 => e₃
  have hes : ∀ k, echoLibrary.round (es k) = .ok (es (k + 1))
    | 0 => h₁
    | 1 => h₂
    | 2 => h₃
    | _ + 3 => round_of_isFullyBasic hbasic
  have hlib : echoLibrary.validate = .ok () := rfl
  obtain ⟨hrounds, hdegree, hformula⟩ := expansion_ends hlib
  exact ⟨hlib, es, rfl, hes, hrounds es hes, (hdegree echoCaller).1, hformula echoThree⟩

end Library

end RegisterMachine
