import Mathlib.Data.Nat.Find
import RegisterMachine.Proofs.DegreeIndependence
import RegisterMachine.Proofs.LowerNames
import RegisterMachine.Proofs.Termination

/-!
# Rounds and the formula for degrees

A program needs as many rounds as the instruction of it that needs most, and the formula tells how
many an instruction needs. There is one exception. The formula takes the degree of a called program
and of every argument that the call has an input for, but inlining leaves out the arguments for
inputs that the called program does not mention; where such an argument is a call, the formula may
give too much.

* `Library.expandsWithin_round_iff` — a round takes exactly one off;
* `Library.maxDegree_eq_ok_iff` — what the number of rounds is;
* `Library.DegreeBounds` — what the formula gives for a call, by induction on its arguments;
* `Library.maxDegree_eq_foldr_max` — rounds and formula compared.
-/

namespace RegisterMachine

open Operation (rename.onCall)

namespace Library

variable {lib : Library}

/-! ### Counting rounds -/

theorem inlinable_onCall (m : Argument.Renaming) (call : Call) :
    lib.Inlinable (rename.onCall m call) ↔ lib.Inlinable call := by
  constructor
  · rintro ⟨callee, bound, hfind, hbound, hexit⟩
    obtain ⟨bound', hbound', -⟩ := (bindings_onCall_eq_ok callee m call).1 hbound
    exact ⟨callee, bound', hfind, hbound', hexit⟩
  · rintro ⟨callee, bound, hfind, hbound, hexit⟩
    exact ⟨callee, _, hfind, (bindings_onCall_eq_ok callee m call).2 ⟨bound, hbound, rfl⟩, hexit⟩

/-- Within some rounds the operation is basic, all calls on the way being inlined. -/
abbrev ExpandsWithin (lib : Library) (n : Nat) (o : Operation) : Prop :=
  lib.BasicWithin lib.Inlinable n o

/-- After a round, everything needs a round less. -/
theorem expandsWithin_round_iff {e e' : Expansion} (hround : lib.round e = .ok e') {n : Nat} :
    (∀ i ∈ e'.code, lib.ExpandsWithin n i.operation) ↔
      ∀ i ∈ e.code, lib.ExpandsWithin (n + 1) i.operation :=
  ⟨basicWithin_of_round inlinable_onCall hround (inlinable_of_round hround),
    basicWithin_round inlinable_onCall hround⟩

/-- The number of rounds after which the instructions of a list are all basic. -/
def Needs (lib : Library) (code : List Instruction) (d : Nat) : Prop :=
  ∀ n, d ≤ n ↔ ∀ i ∈ code, lib.ExpandsWithin n i.operation

/-- Nothing is to be done where all instructions are basic. -/
private theorem needs_zero {e : Expansion} (h : e.program.isFullyBasic = true) :
    lib.Needs e.code 0 := fun n =>
  iff_of_true (Nat.zero_le n) fun i hi => (isFullyBasic_iff.1 h i hi).mono (Nat.zero_le n)

theorem Needs.unique {code : List Instruction} {d d' : Nat} (h : lib.Needs code d)
    (h' : lib.Needs code d') : d = d' :=
  le_antisymm ((h d').2 ((h' d').1 le_rfl)) ((h' d).2 ((h d).1 le_rfl))

/-- Where some number of rounds is enough, there is a least one. -/
theorem exists_needs {code : List Instruction} {n : Nat}
    (h : ∀ i ∈ code, lib.ExpandsWithin n i.operation) : ∃ d ≤ n, lib.Needs code d := by
  classical
  have hex : ∃ n, ∀ i ∈ code, lib.ExpandsWithin n i.operation := ⟨n, h⟩
  exact ⟨Nat.find hex, Nat.find_min' hex h, fun m =>
    ⟨fun hle i hi => (Nat.find_spec hex i hi).mono hle, Nat.find_min' hex⟩⟩

/-- A round takes one off, unless nothing is left to do. -/
private theorem needs_round {e e' : Expansion} (hbasic : e.program.isFullyBasic = false)
    (hround : lib.round e = .ok e') {d : Nat} :
    lib.Needs e.code (d + 1) ↔ lib.Needs e'.code d := by
  have hzero : ¬ ∀ i ∈ e.code, lib.ExpandsWithin 0 i.operation := fun h =>
    Bool.false_ne_true (hbasic.symm.trans (isFullyBasic_iff.2 h))
  constructor
  · intro h n
    rw [expandsWithin_round_iff hround, ← h (n + 1), Nat.succ_le_succ_iff]
  · intro h n
    cases n with
    | zero => exact iff_of_false (Nat.not_succ_le_zero d) hzero
    | succ n => rw [Nat.succ_le_succ_iff, h, expandsWithin_round_iff hround]

/-- The rounds that are counted are those that are needed. -/
theorem needs_of_roundsToBasic {fuel d : Nat} {e : Expansion}
    (h : lib.roundsToBasic fuel e = .ok d) : d ≤ fuel ∧ lib.Needs e.code d := by
  induction fuel generalizing e d with
  | zero =>
    rw [roundsToBasic] at h
    split at h
    · rename_i hbasic
      obtain rfl := Except.ok.inj h
      exact ⟨le_rfl, needs_zero hbasic⟩
    · cases h
  | succ fuel ih =>
    rw [roundsToBasic] at h
    split at h
    · rename_i hbasic
      obtain rfl := Except.ok.inj h
      exact ⟨Nat.zero_le _, needs_zero hbasic⟩
    · rename_i hbasic
      obtain ⟨e', hround, h⟩ := Bounded.bind_eq_ok.1 h
      obtain ⟨d', hd', h⟩ := Bounded.bind_eq_ok.1 h
      obtain rfl := Except.ok.inj h
      obtain ⟨hle, hneeds⟩ := ih hd'
      exact ⟨Nat.succ_le_succ hle,
        (needs_round (Bool.eq_false_iff.2 hbasic) (Bounded.lift_eq_ok.1 hround)).2 hneeds⟩

/-- Where enough rounds may be counted, the count is what is needed, unless names run out. -/
theorem roundsToBasic_of_needs {fuel d : Nat} {e : Expansion} (hd : d ≤ fuel)
    (h : lib.Needs e.code d) :
    lib.roundsToBasic fuel e = .ok d ∨
      lib.roundsToBasic fuel e = .error (.error (.numeral .tooLong)) := by
  induction fuel generalizing e d with
  | zero =>
    obtain rfl := Nat.le_zero.1 hd
    rw [roundsToBasic, if_pos (isFullyBasic_iff.2 ((h 0).1 le_rfl))]
    exact .inl rfl
  | succ fuel ih =>
    rw [roundsToBasic]
    split
    · rename_i hbasic
      rw [h.unique (needs_zero hbasic)]
      exact .inl rfl
    · rename_i hbasic
      obtain ⟨d', rfl⟩ : ∃ d', d = d' + 1 := by
        refine Nat.exists_eq_succ_of_ne_zero fun hzero => hbasic ?_
        exact isFullyBasic_iff.2 ((h 0).1 hzero.le)
      have hall := (h (d' + 1)).1 le_rfl
      rcases round_of_inlinable fun i hi call hcall => ((hall i hi).2 call hcall).1 with
        ⟨e', hround⟩ | hround
      · rw [hround]
        have hneeds := (needs_round (Bool.eq_false_iff.2 hbasic) hround).1 h
        rcases ih (Nat.le_of_succ_le_succ hd) hneeds with hrest | hrest
        · exact .inl (Bounded.bind_eq_ok.2 ⟨e', rfl, Bounded.bind_eq_ok.2 ⟨d', hrest, rfl⟩⟩)
        · exact .inr (Bounded.bind_eq_error.2 (.inr ⟨e', rfl, Bounded.bind_pure_eq_error.2 hrest⟩))
      · rw [hround]
        exact .inr rfl

/-- The degree of a program is the number of rounds that its instructions need. -/
theorem needs_of_maxDegree {fuel d : Nat} {p : Program} (h : lib.maxDegree fuel p = .ok d) :
    d ≤ fuel ∧ lib.Needs p.code d := by
  rw [← code_ofProgram p]
  exact needs_of_roundsToBasic h

/-- The degree of a program is found within enough fuel, unless names run out. -/
theorem maxDegree_of_needs {fuel d : Nat} {p : Program} (hd : d ≤ fuel) (h : lib.Needs p.code d) :
    lib.maxDegree fuel p = .ok d ∨ lib.maxDegree fuel p = .error (.error (.numeral .tooLong)) := by
  rw [← code_ofProgram p] at h
  exact roundsToBasic_of_needs hd h

/-! ### The formula for calls -/

/-- No call among arguments, at any depth, has an argument that is a call and goes to an input that
the called program does not mention. -/
def NoIdleIn (lib : Library) (as : List Argument) : Prop :=
  ∀ call callee, call.toArgument ∈ Argument.walk as → lib.find? call.function = some callee →
    NoIdleCalls callee call

theorem NoIdleIn.of_walk_subset {as bs : List Argument} (h : lib.NoIdleIn bs)
    (hsubset : Argument.walk as ⊆ Argument.walk bs) : lib.NoIdleIn as :=
  fun call callee hcall hfind => h call callee (hsubset hcall) hfind

theorem NoIdleIn.of_binding {function : String} {a : Argument} {c : Call} (h : lib.NoIdleIn [a])
    (hc : lib.binding function a = .ok (.call c)) : lib.NoIdleIn [c.toArgument] := by
  rcases binding_eq_call_iff.1 hc with ⟨text, -, -, -, rfl⟩ | rfl
  · -- A bare name has no arguments.
    intro call callee hcall _ k a _ ha _
    rw [Call.toArgument, Argument.walk_call] at hcall
    have hself : call.toArgument = .call text [] := List.mem_singleton.1 hcall
    obtain ⟨-, harguments⟩ := Argument.call.inj hself
    rw [harguments] at ha
    cases ha
  · exact h

/-- No argument of the call itself that inlining leaves out is a call. -/
theorem NoIdleIn.noIdleCalls {call : Call} {callee : Program} (h : lib.NoIdleIn [call.toArgument])
    (hfind : lib.find? call.function = some callee) : NoIdleCalls callee call :=
  h call callee (Argument.mem_walk_toArgument call) hfind

theorem NoIdleIn.of_mem_bindings {call c : Call} {callee : Program} {k n : Nat} {u : Variable}
    {bound : List (Variable × Binding)} (h : lib.NoIdleIn [call.toArgument])
    (hbound : lib.bindings callee k (call.arguments.take n) = .ok bound)
    (hc : (u, .call c) ∈ bound) : lib.NoIdleIn [c.toArgument] := by
  obtain ⟨-, a, ha, hbinding⟩ := exists_of_mem_bindings hbound hc
  have hargument := h.of_walk_subset
    (Argument.walk_subset_walk_toArgument (List.mem_of_mem_take ha))
  exact hargument.of_binding hbinding

/-- Within some rounds everything is basic that inlining a call takes over. -/
def CallExpandsWithin (lib : Library) (n : Nat) (call : Call) : Prop :=
  lib.Inlinable call ∧ lib.TakesOver call (lib.ExpandsWithin n)

/-- The formula gives a degree, or it fails where names run out in the expansion of some program by
itself whose degree it asks for. -/
def GivesDegree (lib : Library) (fuel : Nat) (x : Bounded Nat) (d : Nat) : Prop :=
  x = .ok d ∨ x = .error (.error (.numeral .tooLong)) ∧
    ∃ q ∈ lib.programs, lib.maxDegree fuel q = .error (.error (.numeral .tooLong))

theorem GivesDegree.bind {fuel d d' : Nat} {x : Bounded Nat} {f : Nat → Bounded Nat}
    (h : lib.GivesDegree fuel x d) (hf : lib.GivesDegree fuel (f d) d') :
    lib.GivesDegree fuel (x >>= f) d' := by
  rcases h with rfl | ⟨rfl, hq⟩
  · exact hf
  · exact .inr ⟨rfl, hq⟩

/-- The formula for a call gives a number of rounds that is enough, and unless arguments are left
out, it gives the least one that is enough for the last instruction of the block too. -/
structure DegreeBounds (lib : Library) (fuel : Nat) (call : Call) : Prop where
  /-- What the formula gives is enough. -/
  enough : ∀ d, callDegree lib (lib.maxDegree fuel) call = .ok d →
    ∀ n, d ≤ n → lib.CallExpandsWithin n call
  /-- The formula gives something, and no more than is enough. -/
  least : lib.NoIdleIn [call.toArgument] → ∃ d,
    lib.GivesDegree fuel (callDegree lib (lib.maxDegree fuel) call) d ∧
      ∀ n, 2 ≤ n → lib.CallExpandsWithin n call → d ≤ n

section Formula

variable {fuel : Nat} {callee : Program}

theorem bindingDegree_of_not_call {m : Type → Type} [Monad m] [MonadExceptOf Stop m]
    (degree : Program → m Nat) {a : Argument} (h : a.isCall = false) :
    bindingDegree lib degree a = pure simpleBindingDegree := by
  cases a with
  | constant value => rw [bindingDegree]
  | name text =>
    have hname : Variable.isName text = true := by
      rw [Variable.isName]
      simpa [Argument.isCall] using h
    rw [bindingDegree, if_pos hname]
  | call function arguments => cases h

theorem isCall_of_binding {function : String} {a : Argument} {b : Binding}
    (h : lib.binding function a = .ok b) (hb : ∀ c, b ≠ .call c) : a.isCall = false := by
  cases a with
  | constant value => rfl
  | name text =>
    rcases htext : Variable.ofName? text with _ | v
    · rw [binding, htext] at h
      rcases hbare : lib.bareCall text with cause | c
      · simp [hbare] at h
      · simp only [hbare, Except.map_ok] at h
        exact absurd (Except.ok.inj h).symm (hb c)
    · rw [Argument.isCall, htext]
      rfl
  | call name arguments => exact absurd (Except.ok.inj h).symm (hb _)

theorem bindingDegrees_nil (degree : Program → Bounded Nat) (n d : Nat) :
    bindingDegrees lib degree n d [] = .ok d := by
  cases n <;> rw [bindingDegrees, Bounded.pure_eq_ok]

/-- The formula for an argument that is a call. -/
theorem bindingDegree_of_call (degree : Program → Bounded Nat) {function : String} {a : Argument}
    {c : Call} (h : lib.binding function a = .ok (.call c)) :
    bindingDegree lib degree a =
      callDegree lib degree c >>= fun d => .ok (callBindingDegree d) := by
  rcases binding_eq_call_iff.1 h with ⟨text, rfl, htext, hcontains, rfl⟩ | rfl
  · have hname : ¬ Variable.isName text = true := by
      rw [Variable.isName, htext]
      exact Bool.false_ne_true
    have hbare : (orStop (lib.bareCall text) : Bounded Call) = .ok ⟨text, []⟩ := by
      rw [bareCall, if_pos hcontains]
      rfl
    simp only [bindingDegree, if_neg hname, hbare, callDegree, bindingDegrees_nil, bind_assoc,
      Bounded.ok_bind, Bounded.pure_eq_ok]
  · simp only [Call.toArgument, bindingDegree, callDegree, bind_assoc, Bounded.pure_eq_ok]

theorem expandsWithin_quotation_iff {n : Nat} {u : Variable} {c : Call} :
    lib.ExpandsWithin (n + 1) (.quotation u c) ↔ 2 ≤ n ∧ lib.CallExpandsWithin n c :=
  basicWithin_quotation

/-- What the formula gives for an argument is enough for the instruction that gives a parameter its
value. -/
theorem DegreeBounds.enough_binding {c : Call} (h : lib.DegreeBounds fuel c) {function : String}
    {a : Argument} (ha : lib.binding function a = .ok (.call c)) {d : Nat}
    (hd : bindingDegree lib (lib.maxDegree fuel) a = .ok d) {n : Nat} (hn : d ≤ n) (u : Variable) :
    lib.ExpandsWithin n (.quotation u c) := by
  rw [bindingDegree_of_call _ ha] at hd
  obtain ⟨d', hd', he⟩ := Bounded.bind_eq_ok.1 hd
  have he : 1 + max 2 d' = d := Except.ok.inj he
  obtain ⟨n', rfl⟩ : ∃ n', n = n' + 1 := ⟨n - 1, by omega⟩
  exact expandsWithin_quotation_iff.2 ⟨by omega, h.enough d' hd' n' (by omega)⟩

/-- The formula gives something for an argument, and no more than is enough. -/
theorem exists_bindingDegree {function : String} {a : Argument} {b : Binding}
    (ha : lib.binding function a = .ok b)
    (h : ∀ c, b = .call c → lib.DegreeBounds fuel c ∧ lib.NoIdleIn [c.toArgument]) :
    ∃ d, lib.GivesDegree fuel (bindingDegree lib (lib.maxDegree fuel) a) d ∧
      ∀ n, 2 ≤ n → (∀ c, b = .call c → ∃ u, lib.ExpandsWithin n (.quotation u c)) → d ≤ n := by
  by_cases hb : ∃ c, b = .call c
  · obtain ⟨c, rfl⟩ := hb
    obtain ⟨hbounds, hidle⟩ := h c rfl
    obtain ⟨d, hd, hleast⟩ := hbounds.least hidle
    refine ⟨callBindingDegree d, ?_, fun n hn hexp => ?_⟩
    · rw [bindingDegree_of_call _ ha]
      exact hd.bind (.inl rfl)
    obtain ⟨u, hu⟩ := hexp c rfl
    obtain ⟨n', rfl⟩ : ∃ n', n = n' + 1 := ⟨n - 1, by omega⟩
    obtain ⟨htwo, hcall⟩ := expandsWithin_quotation_iff.1 hu
    have hle := hleast n' htwo hcall
    rw [callBindingDegree]
    omega
  · have hsimple := isCall_of_binding ha fun c hc => hb ⟨c, hc⟩
    exact ⟨2, .inl (bindingDegree_of_not_call _ hsimple), fun n hn _ => hn⟩

variable {bound : List (Variable × Binding)} {as : List Argument} {n k d : Nat}

/-- What the formula gives for arguments is enough for the instructions that give parameters their
values. -/
theorem enough_bindingDegrees (hbound : lib.bindings callee k (as.take n) = .ok bound)
    (h : ∀ u c, (u, .call c) ∈ bound → lib.DegreeBounds fuel c) {d' : Nat}
    (hd : bindingDegrees lib (lib.maxDegree fuel) n d as = .ok d') :
    d ≤ d' ∧ ∀ m, d' ≤ m → ∀ u c, (u, .call c) ∈ bound → lib.ExpandsWithin m (.quotation u c) := by
  induction n generalizing k as bound d with
  | zero =>
    obtain rfl := Except.ok.inj hbound
    rw [bindingDegrees] at hd
    exact ⟨(Except.ok.inj hd).le, nofun⟩
  | succ n ih =>
    cases as with
    | nil =>
      obtain rfl := Except.ok.inj hbound
      rw [bindingDegrees] at hd
      exact ⟨(Except.ok.inj hd).le, nofun⟩
    | cons a as =>
      rw [bindingDegrees] at hd
      obtain ⟨da, hda, hd⟩ := Bounded.bind_eq_ok.1 hd
      rw [List.take_succ_cons] at hbound
      by_cases hk : .input k ∈ callee.vars
      · obtain ⟨b, rest, hb, hrest, rfl⟩ := (bindings_cons_of_mem hk).1 hbound
        obtain ⟨hle, henough⟩ :=
          ih hrest (fun u c hc => h u c (List.mem_cons_of_mem _ hc)) hd
        refine ⟨(le_max_left d da).trans hle, fun m hm u c hc => ?_⟩
        rcases List.mem_cons.1 hc with hc | hc
        · obtain ⟨-, rfl⟩ := Prod.mk.inj hc
          exact (h u c (hc ▸ List.mem_cons_self)).enough_binding hb hda
            ((le_max_right d da).trans (hle.trans hm)) u
        · exact henough m hm u c hc
      · rw [bindings_cons_of_not_mem hk] at hbound
        obtain ⟨hle, henough⟩ := ih hbound h hd
        exact ⟨(le_max_left d da).trans hle, henough⟩

/-- The formula gives something for arguments, and no more than is enough, if all arguments that are
calls go to inputs that the called program mentions. -/
theorem exists_bindingDegrees (hbound : lib.bindings callee k (as.take n) = .ok bound)
    (h : ∀ u c, (u, .call c) ∈ bound → lib.DegreeBounds fuel c ∧ lib.NoIdleIn [c.toArgument])
    (hidle : ∀ j a, j < n → as[j]? = some a → a.isCall = true → .input (k + j) ∈ callee.vars) :
    ∃ d', lib.GivesDegree fuel (bindingDegrees lib (lib.maxDegree fuel) n d as) d' ∧
      ∀ m, d ≤ m → 2 ≤ m → (∀ u c, (u, .call c) ∈ bound → lib.ExpandsWithin m (.quotation u c)) →
        d' ≤ m := by
  induction n generalizing k as bound d with
  | zero => exact ⟨d, .inl (by rw [bindingDegrees]; rfl), fun m hm _ _ => hm⟩
  | succ n ih =>
    cases as with
    | nil => exact ⟨d, .inl (by rw [bindingDegrees]; rfl), fun m hm _ _ => hm⟩
    | cons a as =>
      rw [List.take_succ_cons] at hbound
      rw [bindingDegrees]
      have hidle' : ∀ j a', j < n → as[j]? = some a' → a'.isCall = true →
          .input (k + 1 + j) ∈ callee.vars := fun j a' hj ha' hcall => by
        rw [Nat.add_right_comm, Nat.add_assoc]
        exact hidle (j + 1) a' (Nat.succ_lt_succ hj) ha' hcall
      by_cases hk : .input k ∈ callee.vars
      · obtain ⟨b, rest, hb, hrest, rfl⟩ := (bindings_cons_of_mem hk).1 hbound
        obtain ⟨da, hda, hleast⟩ := exists_bindingDegree hb fun c hc =>
          h (.input k) c (hc ▸ List.mem_cons_self)
        obtain ⟨d', hd', hleast'⟩ := ih (d := max d da) hrest
          (fun u c hc => h u c (List.mem_cons_of_mem _ hc)) hidle'
        refine ⟨d', hda.bind hd', fun m hm htwo hexp => ?_⟩
        refine hleast' m (max_le hm (hleast m htwo fun c hc => ⟨.input k, ?_⟩)) htwo
          fun u c hc => hexp u c (List.mem_cons_of_mem _ hc)
        exact hexp (.input k) c (hc ▸ List.mem_cons_self)
      · rw [bindings_cons_of_not_mem hk] at hbound
        have hsimple : a.isCall = false := by
          refine Bool.eq_false_iff.2 fun hcall => hk ?_
          exact hidle 0 a (Nat.succ_pos n) rfl hcall
        obtain ⟨d', hd', hleast⟩ := ih (d := max d 2) hbound h hidle'
        refine ⟨d', ?_, fun m hm htwo hexp => hleast m (max_le hm htwo) htwo hexp⟩
        rw [bindingDegree_of_not_call _ hsimple]
        exact hd'

/-- The formula for a call starts with the rounds of the called program. -/
theorem callDegree_eq {call : Call} (hfind : lib.find? call.function = some callee) :
    callDegree lib (lib.maxDegree fuel) call = lib.maxDegree fuel callee >>= fun d =>
      bindingDegrees lib (lib.maxDegree fuel) callee.requiredInputs d call.arguments := by
  have hget : (orStop (lib.get call.function "") : Bounded Program) = .ok callee := by
    rw [get_eq_ok.2 hfind]
    rfl
  rw [callDegree, hget, Bounded.ok_bind]

/-- The formula for a call that expands within the fuel. -/
theorem degreeBounds (call : Call) (h : ∃ n ≤ fuel, lib.CallExpandsWithin n call) :
    lib.DegreeBounds fuel call := by
  induction call using lib.call_induction with
  | step call ih =>
    obtain ⟨n, hn, ⟨callee, bound, hfind, hbound, hexit⟩, htakes⟩ := h
    obtain ⟨d, hdn, hneeds⟩ := exists_needs (htakes.body callee hfind)
    have harguments : ∀ u c, (u, .call c) ∈ bound → lib.DegreeBounds fuel c := by
      intro u c hc
      obtain ⟨-, a, ha, hbinding⟩ := exists_of_mem_bindings hbound hc
      have hquotation := htakes.quotations callee bound hfind hbound u c hc
      have hthree : 3 ≤ n := hquotation.ownDegree_le
      obtain ⟨n', rfl⟩ : ∃ n', n = n' + 1 := ⟨n - 1, by omega⟩
      exact ih a (List.mem_of_mem_take ha) callee.name c hbinding
        ⟨n', by omega, (expandsWithin_quotation_iff.1 hquotation).2⟩
    constructor
    · intro d' hd' m hm
      rw [callDegree_eq hfind] at hd'
      obtain ⟨k, hk, hd'⟩ := Bounded.bind_eq_ok.1 hd'
      obtain rfl := hneeds.unique (needs_of_maxDegree hk).2
      obtain ⟨hle, henough⟩ := enough_bindingDegrees hbound harguments hd'
      exact ⟨⟨callee, bound, hfind, hbound, hexit⟩,
        .of_bindings hfind hbound ((hneeds m).1 (hle.trans hm)) (henough m hm)⟩
    · intro hidle
      have hinputs := hidle.noIdleCalls hfind
      obtain ⟨d', hd', hleast⟩ := exists_bindingDegrees (d := d) hbound
        (fun u c hc => ⟨harguments u c hc, hidle.of_mem_bindings hbound hc⟩)
        fun j a hj ha hcall => by
          rw [Nat.zero_add]
          exact hinputs j a hj ha hcall
      refine ⟨d', ?_, fun m htwo hm => ?_⟩
      · have hcallee : lib.GivesDegree fuel (lib.maxDegree fuel callee) d :=
          (maxDegree_of_needs (hdn.trans hn) hneeds).imp_right fun hlong =>
            ⟨hlong, callee, mem_of_find? hfind, hlong⟩
        rw [callDegree_eq hfind]
        exact hcallee.bind hd'
      · refine hleast m ((hneeds m).2 (hm.2.body callee hfind)) htwo ?_
        exact hm.2.quotations callee bound hfind hbound

end Formula

/-! ### The formula for instructions -/

/-- Nothing that inlining leaves out of the call of an operation is a call. -/
def NoIdle (lib : Library) (o : Operation) : Prop :=
  ∀ call, o.call? = some call → lib.NoIdleIn [call.toArgument]

section Instructions

variable {fuel n : Nat} {i : Instruction}

theorem operationDegree_of_call?_eq_none (degree : Program → Bounded Nat) {o : Operation}
    (h : o.call? = none) : operationDegree lib degree o = .ok o.ownDegree := by
  cases o with
  | quotation v call | jumpEqualFunction v call target => cases h
  | _ => rfl

theorem operationDegree_of_call (degree : Program → Bounded Nat) {o : Operation} {call : Call}
    (h : o.call? = some call) : operationDegree lib degree o =
      callDegree lib degree call >>= fun d => .ok (max o.ownDegree (d + 1)) := by
  cases o with
  | quotation v call' =>
    obtain rfl := Option.some.inj h
    refine congrArg (callDegree lib degree call' >>= ·) (funext fun d => congrArg Except.ok ?_)
    change 1 + max 2 d = max 3 (d + 1)
    omega
  | jumpEqualFunction v call' target =>
    obtain rfl := Option.some.inj h
    refine congrArg (callDegree lib degree call' >>= ·) (funext fun d => congrArg Except.ok ?_)
    change 1 + max 3 d = max 4 (d + 1)
    omega
  | _ => cases h

theorem expandsWithin_succ_iff {m : Nat} {o : Operation} {call : Call}
    (h : o.call? = some call) :
    lib.ExpandsWithin (m + 1) o ↔ o.ownDegree ≤ m + 1 ∧ lib.CallExpandsWithin m call :=
  basicWithin_of_call h

/-- The formula for an instruction never gives less than the rounds that it needs, and it gives them
exactly if nothing that inlining leaves out is a call. -/
theorem instructionDegree_bounds (h : lib.ExpandsWithin n i.operation) (hn : n ≤ fuel) :
    (∀ d, lib.instructionDegree fuel i = .ok d → ∀ m, d ≤ m → lib.ExpandsWithin m i.operation) ∧
      (lib.NoIdle i.operation → ∃ d, lib.GivesDegree fuel (lib.instructionDegree fuel i) d ∧
        ∀ m, lib.ExpandsWithin m i.operation → d ≤ m) := by
  rw [instructionDegree]
  rcases hcall : i.operation.call? with _ | call
  · rw [operationDegree_of_call?_eq_none _ hcall]
    constructor
    · intro d hd m hm
      obtain rfl := Except.ok.inj hd
      exact (basicWithin_iff_of_call?_eq_none hcall).2 hm
    · exact fun _ => ⟨_, .inl rfl, fun m hm => hm.ownDegree_le⟩
  · rw [operationDegree_of_call _ hcall]
    have hthree := Operation.three_le_ownDegree hcall
    obtain ⟨n', rfl⟩ : ∃ n', n = n' + 1 := ⟨n - 1, by have hle := h.ownDegree_le; omega⟩
    have hbounds : lib.DegreeBounds fuel call :=
      degreeBounds call ⟨n', by omega, ((expandsWithin_succ_iff hcall).1 h).2⟩
    constructor
    · intro d hd m hm
      obtain ⟨d', hd', he⟩ := Bounded.bind_eq_ok.1 hd
      obtain rfl := Except.ok.inj he
      obtain ⟨m', rfl⟩ : ∃ m', m = m' + 1 := ⟨m - 1, by omega⟩
      exact (expandsWithin_succ_iff hcall).2 ⟨by omega, hbounds.enough d' hd' m' (by omega)⟩
    · intro hidle
      obtain ⟨d', hd', hleast⟩ := hbounds.least (hidle call hcall)
      refine ⟨_, hd'.bind (.inl rfl), fun m hm => ?_⟩
      obtain ⟨m', rfl⟩ : ∃ m', m = m' + 1 := ⟨m - 1, by have hle := hm.ownDegree_le; omega⟩
      obtain ⟨hown, hexp⟩ := (expandsWithin_succ_iff hcall).1 hm
      have hle := hleast m' (by omega) hexp
      omega

end Instructions

end Library

/-! ### Rounds and formula compared -/

/-- The program of a single instruction. -/
def Program.single (name : String) (i : Instruction) : Program where
  name := name
  code := [i]
  nodup_labels := by
    rw [declaredLabels_cons]
    cases i.declared? with
    | none => exact List.nodup_nil
    | some l => exact List.nodup_singleton l

namespace Library

variable {lib : Library}

/-- Where a program can be fully expanded, its degree is the greatest number of rounds that one of
its instructions needs by itself. The formula never gives less than those rounds, and it gives
exactly them for every instruction in whose call inlining leaves out no argument that is a call. It
fails then only where names run out in the expansion of a program by itself, as its labels may have
greater numbers than those of a copy. -/
theorem maxDegree_eq_foldr_max {fuel : Nat} {p : Program} {e : Expansion}
    (h : lib.expandFully fuel p = .ok e) :
    ∃ rounds : Instruction → Nat,
      lib.maxDegree fuel p = .ok ((p.code.map rounds).foldr max 0) ∧
      ∀ i ∈ p.code, lib.maxDegree fuel (.single p.name i) = .ok (rounds i) ∧
        (∀ d, lib.instructionDegree fuel i = .ok d → rounds i ≤ d) ∧
        (lib.NoIdle i.operation →
          lib.GivesDegree fuel (lib.instructionDegree fuel i) (rounds i)) := by
  obtain ⟨d, hd, -⟩ := Bounded.bind_eq_ok.1 h
  obtain ⟨hfuel, hneeds⟩ := needs_of_maxDegree hd
  have hall := (hneeds d).1 le_rfl
  have hsingle : ∀ i ∈ p.code, ∃ k, lib.maxDegree fuel (.single p.name i) = .ok k ∧
      ∀ n, k ≤ n ↔ lib.ExpandsWithin n i.operation := fun i hi => by
    obtain ⟨k, hk, hiff⟩ := exists_needs (List.forall_mem_singleton.2 (hall i hi))
    -- The program of the instruction is a part of the program, so names do not run out for it.
    have hpart : LinesBelow (Expansion.ofProgram (.single p.name i)).lines
        (Expansion.ofProgram p).lines := .of_mem (List.mem_map_of_mem hi)
    have hsucceeds : lib.maxDegree fuel (.single p.name i) = .ok k :=
      (maxDegree_of_needs (hk.trans hfuel) hiff).resolve_right (roundsToBasic_ne_tooLong hpart hd)
    exact ⟨k, hsucceeds, fun n => (hiff n).trans List.forall_mem_singleton⟩
  choose! rounds hrounds using hsingle
  refine ⟨rounds, ?_, fun i hi => ?_⟩
  · have hmax : lib.Needs p.code ((p.code.map rounds).foldr max 0) := fun n => by
      rw [Program.foldr_max_le_iff, List.forall_mem_map]
      exact forall₂_congr fun i hi => (hrounds i hi).2 n
    rw [hd, hneeds.unique hmax]
  · obtain ⟨hmax, hiff⟩ := hrounds i hi
    obtain ⟨henough, hleast⟩ := instructionDegree_bounds (hall i hi) hfuel
    refine ⟨hmax, fun k hk => (hiff k).2 (henough k hk k le_rfl), fun hidle => ?_⟩
    obtain ⟨k, hk | hlong, hle⟩ := hleast hidle
    · have heq : k = rounds i := le_antisymm (hle _ ((hiff _).1 le_rfl))
        ((hiff k).2 (henough k hk k le_rfl))
      exact .inl (heq ▸ hk)
    · exact .inr hlong

/-- The call of a program on what it gives for a constant. -/
def echoTwice : Instruction :=
  .plain none (.quotation .result ⟨"ECHO", [.call "ECHO" [.constant 3]]⟩)

theorem echoTwice_degree :
    (∃ e, echoLibrary.expandFully 4 (.single "MAIN" echoTwice) = .ok e) ∧
      echoLibrary.maxDegree 4 (.single "MAIN" echoTwice) = .ok 4 ∧
      echoLibrary.instructionDegree 4 echoTwice = .ok 4 := by
  obtain ⟨e, he⟩ : ∃ e, echoLibrary.expandFully 4 (.single "MAIN" echoTwice) = .ok e := ⟨_, rfl⟩
  have hdegree : echoLibrary.maxDegree 4 (.single "MAIN" echoTwice) = .ok 4 := rfl
  -- The only input of any program here is the first one, and that is mentioned.
  have hidle : echoLibrary.NoIdle echoTwice.operation := by
    intro call _ call' callee _ hfind k a hk _ _
    rcases List.mem_pair.1 (mem_of_find? hfind) with rfl | rfl
    · cases hk
    · obtain rfl := Nat.lt_one_iff.1 hk
      decide
  obtain ⟨rounds, -, hrounds⟩ := maxDegree_eq_foldr_max he
  obtain ⟨hsingle, -, hformula⟩ := hrounds echoTwice (List.mem_singleton.2 rfl)
  have hfour : 4 = rounds echoTwice := Except.ok.inj (hdegree.symm.trans hsingle)
  rcases hformula hidle with hgives | ⟨hlong, -⟩
  · exact ⟨⟨e, he⟩, hdegree, hfour ▸ hgives⟩
  · have hgives : echoLibrary.instructionDegree 4 echoTwice = .ok 4 := rfl
    cases hgives.symm.trans hlong

/-- A program without instructions. -/
def zero : Program where
  name := "ZERO"
  code := []
  nodup_labels := List.nodup_nil

/-- A call with a call for an input that the called program does not mention. -/
def idleCall : Instruction :=
  .plain none (.quotation .result ⟨"SECOND", [.call "ZERO" [], .constant 1]⟩)

/-- A library of both programs that are called. -/
def idleLibrary : Library :=
  ⟨[.ofProgram Workbench.second, .ofProgram zero], by decide⟩

/-- The formula does not always give the number of rounds. -/
theorem not_instructionDegree_eq_maxDegree :
    ¬ ∀ (lib : Library) (fuel : Nat) (p : Program) (e : Expansion), lib.validate = .ok () →
      lib.expandFully fuel p = .ok e → ∀ i ∈ p.code,
        lib.instructionDegree fuel i = lib.maxDegree fuel (.single p.name i) := by
  intro h
  obtain ⟨e, he⟩ : ∃ e, idleLibrary.expandFully 4 (.single "MAIN" idleCall) = .ok e := ⟨_, rfl⟩
  have hformula : idleLibrary.instructionDegree 4 idleCall = .ok 4 := rfl
  have hrounds : idleLibrary.maxDegree 4 (.single "MAIN" idleCall) = .ok 3 := rfl
  have heq := h idleLibrary 4 (.single "MAIN" idleCall) e rfl he idleCall (List.mem_singleton.2 rfl)
  cases hformula.symm.trans (heq.trans hrounds)

end Library

end RegisterMachine
