import RegisterMachine.Proofs.Resolved

/-!
# Rounds until an operation is basic

An opcode asks for some rounds. A call asks for one more than anything that its inlining takes over:
the instructions of the called program, and the calls that give parameters their values. How many
rounds that makes does not depend on the names that an operation mentions, so a copy needs as many
as the program that it copies.

* `Operation.ownDegree` — the rounds that an operation needs, its call apart;
* `Library.BasicWithin` — an operation is basic within a number of rounds, where something may be
  asked of every call on the way;
* `Library.basicWithin_rename` — renaming does not change that.
-/

namespace RegisterMachine

/-! ### Operations without their calls -/

namespace Operation

/-- The rounds that an operation needs, what its call needs apart. -/
def ownDegree : Operation → Nat
  | assignment v source => if v = source then 1 else 2
  | quotation _ _ => 3
  | jumpEqualFunction _ _ _ => 4
  | o => o.opcode.degree?.getD 0

variable {o : Operation}

/-- The basic operations are those that need no round. -/
theorem ownDegree_eq_zero_iff : o.ownDegree = 0 ↔ o.opcode.isBasic = true := by
  cases o with
  | assignment v source =>
    rw [ownDegree]
    split <;> simp [opcode, Opcode.isBasic]
  | _ => simp [ownDegree, opcode, Opcode.isBasic, Opcode.degree?]

/-- An operation with a call needs three rounds at least: one for the call, and then two for an
assignment. -/
theorem three_le_ownDegree {call : Call} (h : o.call? = some call) : 3 ≤ o.ownDegree := by
  cases o <;> simp_all [ownDegree, call?]

/-- An assignment needs two rounds, or one if it is to the variable itself. -/
theorem ownDegree_assignment_le (v source : Variable) : (assignment v source).ownDegree ≤ 2 := by
  rw [ownDegree]
  split <;> omega

section Takes

variable {v : Variable} {call : Call} {finish : Variable → Operation}

/-- What is done with the result of a copy needs a round less. -/
theorem Takes.ownDegree_finish_le (h : o.Takes v call finish) (r : Variable) :
    (finish r).ownDegree + 1 ≤ o.ownDegree := by
  cases h with
  | quotation => exact Nat.succ_le_succ (ownDegree_assignment_le v r)
  | jumpEqualFunction => exact le_rfl

/-- The last instruction in the block of a call needs one round less than the call. -/
theorem Takes.ownDegree_finish (h : o.Takes v call finish) {r : Variable} (hr : v ≠ r) :
    (finish r).ownDegree + 1 = o.ownDegree := by
  cases h with
  | quotation => exact congrArg Nat.succ (if_neg hr)
  | jumpEqualFunction => rfl

end Takes

section Rename

variable (m : Argument.Renaming) (f : Label → Label)

/-- The call of a renamed operation is the renamed call. -/
theorem call?_rename : (o.rename m f).call? = o.call?.map (rename.onCall m) := by
  cases o <;> rfl

/-- Renaming may make the two variables of an assignment equal. -/
theorem ownDegree_rename_le : (o.rename m f).ownDegree ≤ o.ownDegree := by
  cases o with
  | assignment v source =>
    by_cases h : v = source
    · subst h
      simp [rename, ownDegree]
    · rw [ownDegree, if_neg h]
      exact ownDegree_assignment_le _ _
  | _ => exact le_rfl

/-- Renaming keeps what an operation needs by itself, as long as it does not make one variable of
two. An assignment to the variable itself needs less than others do. -/
theorem ownDegree_rename (h : ∀ v w, o.Mentions v → o.Mentions w →
      (m v).getD v = (m w).getD w → v = w) : (o.rename m f).ownDegree = o.ownDegree := by
  cases o with
  | assignment v source =>
    have hiff : rename.onVariable m v = rename.onVariable m source ↔ v = source :=
      ⟨h v source (.inl rfl) (.inr (.inl rfl)), fun he => he ▸ rfl⟩
    simp only [rename, ownDegree, hiff]
  | _ => rfl

end Rename

end Operation

/-! ### Renamed calls -/

/-- What a parameter is given, over other names. -/
def Binding.rename (m : Argument.Renaming) : Binding → Binding
  | .constant k => .constant k
  | .variable v => .variable ((m v).getD v)
  | .call c => .call (Operation.rename.onCall m c)

namespace Library

variable {lib : Library}

/-- What a parameter is given for a renamed argument is what it is given for the argument, renamed.
It fails alike. -/
theorem binding_rename (function : String) (m : Argument.Renaming) (a : Argument) :
    lib.binding function (a.rename m) = Binding.rename m <$> lib.binding function a := by
  cases a with
  | constant value =>
    rw [Argument.rename, binding]
    split <;> rfl
  | name text =>
    rw [Argument.rename]
    rcases ht : Variable.ofName? text with _ | v
    · simp only [Option.bind_none, binding, ht, bareCall]
      split <;> rfl
    · rcases hm : m v with _ | w
      · simp [binding, ht, hm, Binding.rename]
      · simp [binding, ht, hm, Binding.rename, Variable.ofName?_name]
  | call function' as => rw [Argument.rename, binding, binding]; rfl

/-- What all parameters are given for renamed arguments is what they are given for the arguments,
renamed. -/
theorem bindings_rename (callee : Program) (k : Nat) (m : Argument.Renaming) (as : List Argument) :
    lib.bindings callee k (Argument.renameList m as) =
      List.map (Prod.map id (Binding.rename m)) <$> lib.bindings callee k as := by
  induction as generalizing k with
  | nil =>
    rw [Argument.renameList, bindings]
    rfl
  | cons a as ih =>
    rw [Argument.renameList]
    by_cases hk : .input k ∈ callee.vars
    · rw [bindings, bindings, if_pos (List.contains_iff_mem.2 hk),
        if_pos (List.contains_iff_mem.2 hk), binding_rename, ih]
      cases lib.binding callee.name a with
      | error cause => rfl
      | ok b => cases lib.bindings callee (k + 1) as <;> rfl
    · rw [bindings_cons_of_not_mem hk, bindings_cons_of_not_mem hk, ih]

/-- The parameters of a call over other names are those of the call, over other names. -/
theorem bindings_onCall_eq_ok (callee : Program) (m : Argument.Renaming) (call : Call)
    {bound : List (Variable × Binding)} :
    lib.bindings callee 0 ((Operation.rename.onCall m call).arguments.take callee.requiredInputs) =
        .ok bound ↔
      ∃ bound', lib.bindings callee 0 (call.arguments.take callee.requiredInputs) = .ok bound' ∧
        bound = bound'.map (Prod.map id (Binding.rename m)) := by
  rw [Operation.rename.onCall, Argument.renameList_eq_map, ← List.map_take,
    ← Argument.renameList_eq_map, bindings_rename]
  cases lib.bindings callee 0 (call.arguments.take callee.requiredInputs) with
  | error cause =>
    constructor
    · intro h
      cases h
    · rintro ⟨_, h, -⟩
      cases h
  | ok bound' =>
    constructor
    · intro h
      exact ⟨bound', rfl, (Except.ok.inj h).symm⟩
    · rintro ⟨_, h, rfl⟩
      obtain rfl := Except.ok.inj h
      rfl

/-! ### What inlining takes over -/

/-- Everything that the inlining of a call takes over has a property: the instructions of the called
program, and the quotations that give parameters their values. -/
structure TakesOver (lib : Library) (call : Call) (P : Operation → Prop) : Prop where
  /-- The instructions of the called program. -/
  body : ∀ callee, lib.find? call.function = some callee → ∀ i ∈ callee.code, P i.operation
  /-- The quotations of arguments. -/
  quotations : ∀ callee bound, lib.find? call.function = some callee →
    lib.bindings callee 0 (call.arguments.take callee.requiredInputs) = .ok bound →
    ∀ u c, (u, .call c) ∈ bound → P (.quotation u c)

/-- What the inlining of a call takes over, once its program and its parameters are found. -/
theorem TakesOver.of_bindings {call : Call} {P : Operation → Prop} {callee : Program}
    {bound : List (Variable × Binding)} (hfind : lib.find? call.function = some callee)
    (hbound : lib.bindings callee 0 (call.arguments.take callee.requiredInputs) = .ok bound)
    (hbody : ∀ i ∈ callee.code, P i.operation)
    (hquotations : ∀ u c, (u, .call c) ∈ bound → P (.quotation u c)) : lib.TakesOver call P where
  body callee' hfind' := by
    obtain rfl := Option.some.inj (hfind.symm.trans hfind')
    exact hbody
  quotations callee' bound' hfind' hbound' := by
    obtain rfl := Option.some.inj (hfind.symm.trans hfind')
    obtain rfl := Except.ok.inj (hbound.symm.trans hbound')
    exact hquotations

theorem TakesOver.mono {call : Call} {P Q : Operation → Prop} (h : lib.TakesOver call P)
    (hPQ : ∀ o, P o → Q o) : lib.TakesOver call Q where
  body callee hfind i hi := hPQ _ (h.body callee hfind i hi)
  quotations callee bound hfind hbound u c hc :=
    hPQ _ (h.quotations callee bound hfind hbound u c hc)

/-- What a call over other names takes over are the same instructions, and the quotations over other
names. -/
theorem takesOver_onCall {m : Argument.Renaming} {call : Call} {P : Operation → Prop}
    (hP : ∀ u c, P (.quotation u (Operation.rename.onCall m c)) ↔ P (.quotation u c)) :
    lib.TakesOver (Operation.rename.onCall m call) P ↔ lib.TakesOver call P := by
  constructor
  · rintro ⟨hbody, hquotations⟩
    refine ⟨hbody, fun callee bound hfind hbound u c hc => (hP u c).1 ?_⟩
    refine hquotations callee _ hfind
      ((bindings_onCall_eq_ok callee m call).2 ⟨bound, hbound, rfl⟩) u _ ?_
    exact List.mem_map_of_mem (f := Prod.map id (Binding.rename m)) hc
  · rintro ⟨hbody, hquotations⟩
    refine ⟨hbody, fun callee bound hfind hbound u c hc => ?_⟩
    obtain ⟨bound', hbound', rfl⟩ := (bindings_onCall_eq_ok callee m call).1 hbound
    obtain ⟨⟨u', b⟩, hx, he⟩ := List.mem_map.1 hc
    obtain ⟨rfl, hb⟩ := Prod.mk.inj he
    rcases b with k | source | c'
    · cases hb
    · cases hb
    · obtain rfl := Binding.call.inj hb
      exact (hP u' c').2 (hquotations callee bound' hfind hbound' u' c' hx)

/-! ### Operations that become basic -/

/-- The operation is basic within a number of rounds, and so is everything that comes out of it; all
calls on the way are `ok`. -/
def BasicWithin (lib : Library) (ok : Call → Prop) : Nat → Operation → Prop
  | 0, o => o.ownDegree = 0
  | n + 1, o => o.ownDegree ≤ n + 1 ∧
      ∀ call, o.call? = some call → ok call ∧ lib.TakesOver call (lib.BasicWithin ok n)

section BasicWithin

variable {ok : Call → Prop} {n : Nat} {o : Operation}

/-- The rounds that an operation takes are at least those that it needs by itself. -/
theorem BasicWithin.ownDegree_le (h : lib.BasicWithin ok n o) : o.ownDegree ≤ n := by
  cases n with
  | zero => exact le_of_eq h
  | succ n => exact h.1

/-- Without a call, the rounds that an operation needs are known from its own degree. -/
theorem basicWithin_iff_of_call?_eq_none (hcall : o.call? = none) :
    lib.BasicWithin ok n o ↔ o.ownDegree ≤ n := by
  refine ⟨BasicWithin.ownDegree_le, fun h => ?_⟩
  cases n with
  | zero => exact Nat.le_zero.1 h
  | succ n => exact ⟨h, fun call hc => nomatch hcall.symm.trans hc⟩

/-- Without any round, only basic operations are basic. -/
theorem basicWithin_zero_iff : lib.BasicWithin ok 0 o ↔ o.opcode.isBasic = true :=
  Operation.ownDegree_eq_zero_iff

theorem BasicWithin.succ (h : lib.BasicWithin ok n o) : lib.BasicWithin ok (n + 1) o := by
  induction n generalizing o with
  | zero =>
    refine ⟨h.ownDegree_le.trans (Nat.le_succ 0), fun call hcall => ?_⟩
    have hthree := Operation.three_le_ownDegree hcall
    have hzero := h.ownDegree_le
    omega
  | succ n ih =>
    refine ⟨h.ownDegree_le.trans (Nat.le_succ _), fun call hcall => ?_⟩
    obtain ⟨hok, htakes⟩ := h.2 call hcall
    exact ⟨hok, htakes.mono fun _ => ih⟩

/-- What is basic after some rounds is basic after more of them. -/
theorem BasicWithin.mono {n' : Nat} (h : lib.BasicWithin ok n o) (hle : n ≤ n') :
    lib.BasicWithin ok n' o := by
  induction n', hle using Nat.le_induction with
  | base => exact h
  | succ n' _ ih => exact ih.succ

/-- One round replaces a call by its block, and the rounds that are left have to do for everything
in there. -/
theorem basicWithin_of_call {call : Call} (hcall : o.call? = some call) :
    lib.BasicWithin ok (n + 1) o ↔
      o.ownDegree ≤ n + 1 ∧ ok call ∧ lib.TakesOver call (lib.BasicWithin ok n) := by
  refine and_congr_right fun _ => ⟨fun h => h call hcall, fun h call' hcall' => ?_⟩
  obtain rfl := Option.some.inj (hcall.symm.trans hcall')
  exact h

theorem basicWithin_quotation {v : Variable} {call : Call} :
    lib.BasicWithin ok (n + 1) (.quotation v call) ↔
      2 ≤ n ∧ ok call ∧ lib.TakesOver call (lib.BasicWithin ok n) :=
  (basicWithin_of_call rfl).trans (and_congr_left' Nat.succ_le_succ_iff)

/-- It does not matter which variable gets the value of a call. -/
theorem basicWithin_quotation_congr (v w : Variable) (call : Call) :
    lib.BasicWithin ok n (.quotation v call) ↔ lib.BasicWithin ok n (.quotation w call) := by
  cases n with
  | zero => exact Iff.rfl
  | succ n => rw [basicWithin_quotation, basicWithin_quotation]

/-! ### Renaming -/

section Rename

variable {m : Argument.Renaming}
  (hok : ∀ call, ok (Operation.rename.onCall m call) ↔ ok call)

include hok

/-- Renaming variables in a call does not change the rounds it needs. -/
theorem basicWithin_quotation_onCall {v : Variable} {call : Call} :
    lib.BasicWithin ok n (.quotation v (Operation.rename.onCall m call)) ↔
      lib.BasicWithin ok n (.quotation v call) := by
  induction n generalizing v call with
  | zero => exact Iff.rfl
  | succ n ih =>
    rw [basicWithin_quotation, basicWithin_quotation, hok,
      takesOver_onCall (P := lib.BasicWithin ok n) fun u c => ih]

theorem takesOver_onCall_basicWithin {call : Call} :
    lib.TakesOver (Operation.rename.onCall m call) (lib.BasicWithin ok n) ↔
      lib.TakesOver call (lib.BasicWithin ok n) :=
  takesOver_onCall fun _ _ => basicWithin_quotation_onCall hok

/-- An operation needs no more rounds over other names, even if some of them become equal. -/
theorem BasicWithin.rename (h : lib.BasicWithin ok n o) (f : Label → Label) :
    lib.BasicWithin ok n (o.rename m f) := by
  cases n with
  | zero => exact Nat.le_zero.1 ((Operation.ownDegree_rename_le m f).trans h.ownDegree_le)
  | succ n =>
    refine ⟨(Operation.ownDegree_rename_le m f).trans h.ownDegree_le, fun call hcall => ?_⟩
    rw [Operation.call?_rename] at hcall
    obtain ⟨call', hcall', rfl⟩ := Option.map_eq_some_iff.1 hcall
    obtain ⟨hcall, htakes⟩ := h.2 call' hcall'
    exact ⟨(hok call').2 hcall, (takesOver_onCall_basicWithin hok).2 htakes⟩

/-- An operation needs as many rounds over other names, if distinct variables stay distinct. -/
theorem basicWithin_rename (f : Label → Label) (hinj : ∀ v w, o.Mentions v → o.Mentions w →
      (m v).getD v = (m w).getD w → v = w) :
    lib.BasicWithin ok n (o.rename m f) ↔ lib.BasicWithin ok n o := by
  refine ⟨fun h => ?_, fun h => h.rename hok f⟩
  have hdegree := Operation.ownDegree_rename m f hinj
  cases n with
  | zero => exact hdegree.symm.trans h
  | succ n =>
    refine ⟨hdegree ▸ h.ownDegree_le, fun call hcall => ?_⟩
    obtain ⟨hrenamed, htakes⟩ := h.2 (Operation.rename.onCall m call) (by
      rw [Operation.call?_rename, hcall]
      rfl)
    exact ⟨(hok call).1 hrenamed, (takesOver_onCall_basicWithin hok).1 htakes⟩

end Rename

end BasicWithin

end Library

end RegisterMachine
