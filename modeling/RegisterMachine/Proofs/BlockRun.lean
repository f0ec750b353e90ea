import RegisterMachine.Expansion.Block
import RegisterMachine.Proofs.Place

/-!
# What blocks do

A block that stands somewhere in a program does what the instruction it replaces does: from its
first place a path leads to where the instruction goes on, and the variables of the instruction have
the values that the instruction gives them. The fresh variables are left with whatever the block
needs them for, but the one of an assignment, which has to be zero before, is zero again.

* `Program.leads_write`, `Program.leads_jump`, … — single instructions;
* `Program.leads_transferLoop` — the loop of an assignment, which counts one variable down to zero
  and others up by what it held;
* `Block.leads_zeroVariable`, …, `Block.leads_jumpEqualVariable` — the blocks of all operations that
  call no program, for a host that has the block from a place on.
-/

namespace RegisterMachine

namespace Program

/-! ### Single instructions -/

section Single

variable {ev : Meaning} {q : Program} {place : Nat} {env : Valuation} {i : Instruction}

/-- An instruction that writes nothing and does not jump leads to the next place, and leaves all
values as they are. -/
theorem leads_next (cost : Nat) (hi : q.code[place]? = some i)
    (ho : i.operation.outcome (ev env) env = .ok ⟨none, none, cost⟩) :
    Leads ev q ⟨place, env⟩ ⟨place + 1, env⟩ :=
  (Step.intro (c := ⟨place, env⟩) hi ho rfl).leads

/-- An instruction that writes one variable and does not jump leads to the next place, with the new
value of this variable. -/
theorem leads_write (cost : Nat) (hi : q.code[place]? = some i) {v : Variable} {n : Nat}
    (ho : i.operation.outcome (ev env) env = .ok ⟨some (v, n), none, cost⟩) :
    Leads ev q ⟨place, env⟩ ⟨place + 1, Function.update env v n⟩ :=
  (Step.intro (c := ⟨place, env⟩) hi ho rfl).leads

/-- An instruction that jumps leads to the place of its target, and leaves all values as they are.
-/
theorem leads_jump (cost : Nat) (hi : q.code[place]? = some i) {target : Label} {next : Nat}
    (ho : i.operation.outcome (ev env) env = .ok ⟨none, some target, cost⟩)
    (ht : q.placeOf target = some next) : Leads ev q ⟨place, env⟩ ⟨next, env⟩ :=
  (Step.intro (c := ⟨place, env⟩) hi ho ht).leads

variable {label : Option Label} {v : Variable} {target : Label} {next : Nat}

theorem leads_neutral (hi : q.code[place]? = some (.plain label (.neutral v))) :
    Leads ev q ⟨place, env⟩ ⟨place + 1, env⟩ :=
  leads_next 0 hi rfl

theorem leads_increase (hi : q.code[place]? = some (.plain label (.increase v))) :
    Leads ev q ⟨place, env⟩ ⟨place + 1, Function.update env v (env v + 1)⟩ :=
  leads_write 1 hi rfl

theorem leads_decrease (hi : q.code[place]? = some (.plain label (.decrease v))) :
    Leads ev q ⟨place, env⟩ ⟨place + 1, Function.update env v (env v - 1)⟩ :=
  leads_write 1 hi rfl

theorem leads_zeroVariable (hi : q.code[place]? = some (.plain label (.zeroVariable v))) :
    Leads ev q ⟨place, env⟩ ⟨place + 1, Function.update env v 0⟩ :=
  leads_write 1 hi rfl

theorem leads_assignment {source : Variable}
    (hi : q.code[place]? = some (.plain label (.assignment v source))) :
    Leads ev q ⟨place, env⟩ ⟨place + 1, Function.update env v (env source)⟩ :=
  leads_write 4 hi rfl

theorem leads_gotoLabel (hi : q.code[place]? = some (.plain label (.gotoLabel target)))
    (ht : q.placeOf target = some next) : Leads ev q ⟨place, env⟩ ⟨next, env⟩ :=
  leads_jump 1 hi rfl ht

/-- A jump for values other than zero is taken if the variable has one of these. -/
theorem leads_jumpNotZero (hi : q.code[place]? = some (.plain label (.jumpNotZero v target)))
    (hv : env v ≠ 0) (ht : q.placeOf target = some next) :
    Leads ev q ⟨place, env⟩ ⟨next, env⟩ :=
  leads_jump 2 hi (by simp [Instruction.plain, Operation.outcome, hv]) ht

/-- A jump for values other than zero is passed over if the variable is zero. -/
theorem leads_jumpNotZero_next (hi : q.code[place]? = some (.plain label (.jumpNotZero v target)))
    (hv : env v = 0) : Leads ev q ⟨place, env⟩ ⟨place + 1, env⟩ :=
  leads_next 2 hi (by simp [Instruction.plain, Operation.outcome, hv])

/-- A jump for zero is taken if the variable is zero. -/
theorem leads_jumpZero (hi : q.code[place]? = some (.plain label (.jumpZero v target)))
    (hv : env v = 0) (ht : q.placeOf target = some next) :
    Leads ev q ⟨place, env⟩ ⟨next, env⟩ :=
  leads_jump 2 hi (by simp [Instruction.plain, Operation.outcome, hv]) ht

/-- A jump for zero is passed over if the variable is not zero. -/
theorem leads_jumpZero_next (hi : q.code[place]? = some (.plain label (.jumpZero v target)))
    (hv : env v ≠ 0) : Leads ev q ⟨place, env⟩ ⟨place + 1, env⟩ :=
  leads_next 2 hi (by simp [Instruction.plain, Operation.outcome, hv])

end Single

/-! ### Loops -/

section Loops

variable {ev : Meaning} {q : Program} {base : Nat} {env : Valuation}

/-- A loop that counts `z` down to zero and, in every turn, each of some variables up. The test
comes last, as in the blocks that use such loops. -/
def transferLoop (loop : Label) (z : Variable) (targets : List Variable) : List Instruction :=
  .plain (some loop) (.decrease z) :: targets.map (fun v => .plain none (.increase v)) ++
    [.plain none (.jumpNotZero z loop)]

/-- The values after such a loop: the value that `z` had has been added to each of the variables,
and `z` is zero. -/
def transferred (env : Valuation) (z : Variable) (targets : List Variable) : Valuation := fun w =>
  if w = z then 0 else if w ∈ targets then env w + env z else env w

/-- If there are no variables to count up, the loop only sets `z` to zero. -/
theorem transferred_nil (env : Valuation) (z : Variable) :
    transferred env z [] = Function.update env z 0 := by
  funext w
  rw [transferred, if_neg List.not_mem_nil, Function.update_apply]

/-- Once `z` is zero there is nothing left to transfer, which is where the induction on turns ends.
-/
theorem transferred_of_eq_zero {z : Variable} (targets : List Variable) (hz : env z = 0) :
    transferred env z targets = env := by
  funext w
  by_cases hwz : w = z
  · rw [transferred, if_pos hwz, hwz, hz]
  · rw [transferred, if_neg hwz, hz, Nat.add_zero, ite_self]

/-- The part of the loop that counts up: a row of increases, one for each of some different
variables, adds one to each of them. -/
private theorem leads_increaseEach {targets : List Variable} (hnodup : targets.Nodup)
    (h : q.Holds base (targets.map fun v => .plain none (.increase v))) {c : Config}
    (hc : Leads ev q c ⟨base, env⟩) :
    Leads ev q c
      ⟨base + targets.length, fun w => if w ∈ targets then env w + 1 else env w⟩ := by
  induction targets generalizing base env with
  | nil => simpa using hc
  | cons v vs ih =>
    obtain ⟨hv, hvs⟩ := List.nodup_cons.1 hnodup
    rw [List.map_cons] at h
    have hrest := ih hvs h.tail (hc.trans (leads_increase h.head))
    have henv : (fun w => if w ∈ vs then Function.update env v (env v + 1) w + 1
        else Function.update env v (env v + 1) w) =
        fun w => if w ∈ v :: vs then env w + 1 else env w := by
      funext w
      by_cases hw : w = v
      · subst hw
        rw [if_neg hv, if_pos List.mem_cons_self, Function.update_self]
      · rw [Function.update_of_ne hw]
        simp only [List.mem_cons, hw, false_or]
    rw [henv] at hrest
    rwa [List.length_cons, show base + (vs.length + 1) = base + 1 + vs.length by omega]

/-- A turn of the loop counts `z` down and leads to the test. What the loop transfers in all, from
before the turn or from behind it, is the same, and this carries the induction on turns. -/
private theorem leads_turn (ev : Meaning) (env : Valuation) {loop : Label} {z : Variable}
    {targets : List Variable} (hz : z ∉ targets) (hnodup : targets.Nodup)
    (h : q.Holds base (transferLoop loop z targets)) (hpos : env z = 0 → targets = []) :
    ∃ env₁, Leads ev q ⟨base, env⟩ ⟨base + targets.length + 1, env₁⟩ ∧ env₁ z = env z - 1 ∧
      transferred env₁ z targets = transferred env z targets := by
  have hdecrease : Leads ev q ⟨base, env⟩ _ := leads_decrease h.left.head
  have heach := leads_increaseEach hnodup h.left.tail hdecrease
  rw [show base + 1 + targets.length = base + targets.length + 1 by omega] at heach
  refine ⟨_, heach, by rw [if_neg hz, Function.update_self], ?_⟩
  funext w
  by_cases hwz : w = z
  · rw [transferred, transferred, if_pos hwz, if_pos hwz]
  · by_cases hw : w ∈ targets
    · have hne : env z ≠ 0 := fun hzero => List.ne_nil_of_mem hw (hpos hzero)
      simp only [transferred, hwz, hw, hz, if_true, if_false, Function.update_of_ne,
        Function.update_self, ne_eq, not_false_eq_true]
      omega
    · simp [transferred, hwz, hw]

/-- The loop moves the value of `z` to the other variables. Its body is run before the first test,
so if there is nothing to count down, there must be nothing to count up. -/
theorem leads_transferLoop (ev : Meaning) (env : Valuation) {loop : Label} {z : Variable}
    {targets : List Variable} (hz : z ∉ targets) (hnodup : targets.Nodup)
    (hloop : q.placeOf loop = some base)
    (h : q.Holds base (transferLoop loop z targets)) (hpos : env z = 0 → targets = []) :
    Leads ev q ⟨base, env⟩ ⟨base + targets.length + 2, transferred env z targets⟩ := by
  have hjump : q.code[base + targets.length + 1]? = some (.plain none (.jumpNotZero z loop)) := by
    have hlast := h.right.head
    rw [List.length_cons, List.length_map] at hlast
    exact hlast
  -- The induction is on the value of `z`, and the other values change from turn to turn.
  generalize hn : env z = n
  induction n using Nat.strongRecOn generalizing env with
  | ind n ih =>
    obtain ⟨env₁, hturn, hz₁, hsame⟩ := leads_turn ev env hz hnodup h hpos
    rw [← hsame]
    by_cases hlast : env₁ z = 0
    · rw [transferred_of_eq_zero targets hlast]
      exact hturn.trans (leads_jumpNotZero_next hjump hlast)
    · have hback : Leads ev q ⟨base + targets.length + 1, env₁⟩ ⟨base, env₁⟩ :=
        leads_jumpNotZero hjump hlast hloop
      have hrest := ih (env₁ z) (by omega) env₁ (fun hzero => absurd hzero hlast) rfl
      exact hturn.trans (hback.trans hrest)

end Loops

end Program

/-! ### Blocks -/

namespace Block

open Program

variable {ev : Meaning} {q : Program} {base next : Nat} {s : Supply} {label : Option Label}
  {v source : Variable} {target : Label} {env : Valuation}

/-- The block of an instruction that clears a variable leads behind itself, with this variable zero.
The label of the instruction stands on a line of its own, in front of the loop, since the loop has a
fresh label. -/
theorem leads_zeroVariable (h : q.Holds base ((zeroVariable label v).body s)) :
    Leads ev q ⟨base, env⟩
      ⟨base + ((zeroVariable label v).body s).length, Function.update env v 0⟩ := by
  rw [zeroVariable, body_ofCode] at h ⊢
  have hloop := h.right
  generalize hbase : base + (landing label v).length = base' at hloop
  have hplace : q.placeOf (s.freshLabel 0) = some base' := placeOf_of_label (hloop 0 _ rfl) rfl
  have hzero : Leads ev q ⟨base', env⟩ ⟨base' + 2, Function.update env v 0⟩ := by
    rw [← transferred_nil]
    exact leads_transferLoop ev env List.not_mem_nil List.nodup_nil hplace hloop fun _ => rfl
  have hend : base + ((landing label v).length + 2) = base' + 2 := by omega
  rw [List.length_append, List.length_cons, List.length_singleton, hend]
  cases label with
  | none =>
    obtain rfl : base = base' := hbase
    exact hzero
  | some l =>
    have hneutral : Leads ev q ⟨base, env⟩ ⟨base + 1, env⟩ := leads_neutral (h 0 _ rfl)
    obtain rfl : base + 1 = base' := hbase
    exact hneutral.trans hzero

/-- The block of a plain jump leads where the jump does. It counts a fresh variable up, whatever
that variable held, and then jumps because the variable is not zero. -/
theorem leads_gotoLabel (h : q.Holds base ((gotoLabel label target).body s))
    (ht : q.placeOf target = some next) :
    Leads ev q ⟨base, env⟩
      ⟨next, Function.update env (s.freshVariable 0) (env (s.freshVariable 0) + 1)⟩ := by
  have hstep : Leads ev q ⟨base, env⟩ ⟨base + 1, _⟩ := leads_increase (h 0 _ rfl)
  refine hstep.trans (leads_jumpNotZero (h 1 _ rfl) ?_ ht)
  rw [Function.update_self]
  exact Nat.succ_ne_zero _

/-- A row of equal increases adds their number. -/
private theorem leads_increases {c : Config} {k : Nat}
    (h : q.Holds base (List.replicate k (.plain none (.increase v))))
    (hc : Leads ev q c ⟨base, env⟩) :
    Leads ev q c ⟨base + k, Function.update env v (env v + k)⟩ := by
  induction k generalizing base env with
  | zero => simpa using hc
  | succ k ih =>
    rw [List.replicate_succ] at h
    have hstep := hc.trans (leads_increase h.head)
    have hrest := ih h.tail hstep
    rw [Function.update_self, Function.update_idem] at hrest
    rw [show base + (k + 1) = base + 1 + k by omega,
      show env v + (k + 1) = env v + 1 + k by omega]
    exact hrest

/-- The block of an assignment of a constant clears the variable and counts it up as often as the
constant says. -/
theorem leads_constantAssignment {k : Nat}
    (h : q.Holds base ((constantAssignment label v k).body s)) :
    Leads ev q ⟨base, env⟩
      ⟨base + ((constantAssignment label v k).body s).length, Function.update env v k⟩ := by
  rw [constantAssignment, body_ofCode] at h ⊢
  have hzero : Leads ev q ⟨base, env⟩ ⟨base + 1, Function.update env v 0⟩ :=
    Program.leads_zeroVariable h.head
  have hrest := leads_increases h.tail hzero
  rw [Function.update_self, Function.update_idem, Nat.zero_add] at hrest
  rw [List.length_cons, List.length_replicate, Nat.add_comm k 1, ← Nat.add_assoc]
  exact hrest

/-- The end of a block for a jump on equality, which is a jump over a jump to the target, leads
where the comparison says. Both ways out leave all values as they are. -/
private theorem leads_jumpOver {z : Variable} {skip : Label}
    (h : q.Holds base [.plain label (.jumpNotZero z skip), .plain none (.gotoLabel target),
      .plain (some skip) (.neutral v)])
    (hskip : q.placeOf skip = some (base + 2))
    (hnext : q.goOn (base + 3) (if env z = 0 then some target else none) = some next) :
    Leads ev q ⟨base, env⟩ ⟨next, env⟩ := by
  by_cases hz : env z = 0
  · rw [if_pos hz] at hnext
    have hstep : Leads ev q ⟨base, env⟩ ⟨base + 1, env⟩ := leads_jumpNotZero_next (h 0 _ rfl) hz
    exact hstep.trans (Program.leads_gotoLabel (h 1 _ rfl) hnext)
  · rw [if_neg hz] at hnext
    obtain rfl := Option.some.inj hnext
    have hstep : Leads ev q ⟨base, env⟩ ⟨base + 2, env⟩ := leads_jumpNotZero (h 0 _ rfl) hz hskip
    exact hstep.trans (leads_neutral (h 2 _ rfl))

/-- The block of a jump for zero goes on as the jump does, and behind the block if the variable is
not zero. -/
theorem leads_jumpZero (h : q.Holds base ((jumpZero label v target).body s))
    (hnext : q.goOn (base + 3) (if env v = 0 then some target else none) = some next) :
    Leads ev q ⟨base, env⟩ ⟨next, env⟩ :=
  leads_jumpOver h (placeOf_of_label (h 2 _ rfl) rfl) hnext

/-- What is moved to a variable that is zero, and from there to two others, is copied to one. -/
private theorem transferred_transferred {z : Variable} (hne : v ≠ source) (hzv : v ≠ z)
    (hzs : source ≠ z) (hz : env z = 0) :
    transferred (transferred (Function.update env v 0) source [z]) z [v, source] =
      Function.update env v (env source) := by
  funext w
  by_cases hwz : w = z
  · simp [transferred, hwz, hzv.symm, hz]
  · by_cases hwv : w = v
    · simp [transferred, hwv, hzv, hzv.symm, hzs.symm, hne, hne.symm, hz]
    · by_cases hws : w = source
      · simp [transferred, hws, hzv.symm, hzs, hzs.symm, hne.symm, hz]
      · simp [transferred, hwz, hwv, hws]

/-- The block of an assignment copies the source. Its fresh variable has to be zero before, and is
zero again behind it: the source is moved there, and from there to both variables. If the source is
zero both loops are jumped over, since they would count in their first turn. -/
theorem leads_assignment (hne : v ≠ source) (hzv : v ≠ s.freshVariable 0)
    (hzs : source ≠ s.freshVariable 0) (hz : env (s.freshVariable 0) = 0)
    (h : q.Holds base ((assignment label v source).body s)) :
    Leads ev q ⟨base, env⟩ ⟨base + 11, Function.update env v (env source)⟩ := by
  have hdrain : q.placeOf (s.freshLabel 0) = some (base + 3) := placeOf_of_label (h 3 _ rfl) rfl
  have hrestore : q.placeOf (s.freshLabel 1) = some (base + 6) := placeOf_of_label (h 6 _ rfl) rfl
  have hdone : q.placeOf (s.freshLabel 2) = some (base + 10) := placeOf_of_label (h 10 _ rfl) rfl
  have hend : ∀ env', Leads ev q ⟨base + 10, env'⟩ ⟨base + 11, env'⟩ := fun env' =>
    leads_neutral (h 10 _ rfl)
  generalize henv : Function.update env v 0 = env₀
  have hzero : Leads ev q ⟨base, env⟩ ⟨base + 1, env₀⟩ := by
    rw [← henv]
    exact Program.leads_zeroVariable (h 0 _ rfl)
  have hsource₀ : env₀ source = env source := by rw [← henv, Function.update_of_ne hne.symm]
  by_cases hs : env source = 0
  · -- There is nothing to move.
    have hempty : Leads ev q ⟨base + 1, env₀⟩ ⟨base + 2, env₀⟩ :=
      leads_jumpNotZero_next (h 1 _ rfl) (hsource₀.trans hs)
    have hskip : Leads ev q ⟨base + 2, env₀⟩ ⟨base + 10, env₀⟩ :=
      Program.leads_gotoLabel (h 2 _ rfl) hdone
    rw [hs, henv]
    exact hzero.trans (hempty.trans (hskip.trans (hend env₀)))
  · have henter : Leads ev q ⟨base + 1, env₀⟩ ⟨base + 3, env₀⟩ :=
      leads_jumpNotZero (h 1 _ rfl) (hsource₀.trans_ne hs) hdrain
    -- The first loop moves the source to the fresh variable.
    have hfirst : q.Holds (base + 3)
        (transferLoop (s.freshLabel 0) source [s.freshVariable 0]) := by
      have hbehind : q.Holds base
          ([_, _, _] ++ (transferLoop _ source [s.freshVariable 0] ++ _)) := h
      exact hbehind.right.left
    have hmove : Leads ev q ⟨base + 3, env₀⟩
        ⟨base + 6, transferred env₀ source [s.freshVariable 0]⟩ :=
      leads_transferLoop ev env₀ (by simpa using hzs) (by simp) hdrain hfirst
        fun hzero => absurd (hsource₀.symm.trans hzero) hs
    generalize henv₁ : transferred env₀ source [s.freshVariable 0] = env₁ at hmove
    have hz₁ : env₁ (s.freshVariable 0) = env source := by
      rw [← henv₁, transferred, if_neg hzs.symm, if_pos (List.mem_singleton.2 rfl), hsource₀,
        ← henv, Function.update_of_ne hzv.symm, hz, Nat.zero_add]
    -- The second loop moves it from there to both variables.
    have hsecond : q.Holds (base + 6)
        (transferLoop (s.freshLabel 1) (s.freshVariable 0) [v, source]) := by
      have hbehind : q.Holds base ([_, _, _, _, _, _] ++
        (transferLoop _ (s.freshVariable 0) [v, source] ++ _)) := h
      exact hbehind.right.left
    have hback : Leads ev q ⟨base + 6, env₁⟩
        ⟨base + 10, transferred env₁ (s.freshVariable 0) [v, source]⟩ :=
      leads_transferLoop ev env₁ (by simp [hzv.symm, hzs.symm]) (by simpa using hne) hrestore
        hsecond fun hzero => absurd (hz₁.symm.trans hzero) hs
    have henv₂ : transferred env₁ (s.freshVariable 0) [v, source] =
        Function.update env v (env source) := by
      rw [← henv₁, ← henv]
      exact transferred_transferred hne hzv hzs hz
    rw [henv₂] at hback
    exact hzero.trans (henter.trans (hmove.trans (hback.trans (hend _))))

/-- The tests of a copy against a constant, from any number of them before the end on, lead where
the comparison says. The copy is counted down once for each test, and what it is left with does not
matter. -/
private theorem leads_tests (ev : Meaning) {z : Variable} {differ : Label} {k place : Nat}
    (h : q.Holds place ((List.replicate k
        [.plain none (.jumpZero z differ), .plain none (.decrease z)]).flatten ++
      [.plain none (.jumpNotZero z differ), .plain none (.gotoLabel target),
       .plain (some differ) (.neutral v)]))
    (hdiffer : q.placeOf differ = some (place + 2 * k + 2))
    (hnext : q.goOn (place + 2 * k + 3) (if env z = k then some target else none) = some next) :
    ∃ n, Leads ev q ⟨place, env⟩ ⟨next, Function.update env z n⟩ := by
  induction k generalizing place env with
  | zero =>
    refine ⟨env z, ?_⟩
    rw [Function.update_eq_self]
    exact leads_jumpOver h hdiffer hnext
  | succ k ih =>
    rw [List.replicate_succ, List.flatten_cons] at h
    have hplaces : place + 2 * (k + 1) = place + 2 + 2 * k := by omega
    rw [hplaces] at hdiffer hnext
    by_cases hz : env z = 0
    · -- The copy is used up too early, and the tests that are left are jumped over.
      rw [if_neg (by omega)] at hnext
      obtain rfl := Option.some.inj hnext
      refine ⟨env z, ?_⟩
      rw [Function.update_eq_self]
      have hstep : Leads ev q ⟨place, env⟩ ⟨place + 2 + 2 * k + 2, env⟩ :=
        Program.leads_jumpZero (h 0 _ rfl) hz hdiffer
      have hlast : q.code[place + 2 + 2 * k + 2]? = some (.plain (some differ) (.neutral v)) := by
        have hrest := h.tail.tail.right 2 _ rfl
        simpa [Nat.mul_comm] using hrest
      exact hstep.trans (leads_neutral hlast)
    · have hstep : Leads ev q ⟨place, env⟩ ⟨place + 1, env⟩ := leads_jumpZero_next (h 0 _ rfl) hz
      generalize henv : Function.update env z (env z - 1) = env₁
      have hcount : Leads ev q ⟨place + 1, env⟩ ⟨place + 2, env₁⟩ := by
        rw [← henv]
        exact leads_decrease (h 1 _ rfl)
      have hz₁ : env₁ z = env z - 1 := by rw [← henv, Function.update_self]
      have hiff : (env₁ z = k) = (env z = k + 1) := propext (by omega)
      have hnext₁ : q.goOn (place + 2 + 2 * k + 3) (if env₁ z = k then some target else none) =
          some next := by simpa only [hiff] using hnext
      obtain ⟨n, hrest⟩ := ih h.tail.tail hdiffer hnext₁
      rw [← henv, Function.update_idem] at hrest
      rw [← henv] at hcount
      exact ⟨n, hstep.trans (hcount.trans hrest)⟩

/-- The block of a comparison with a constant goes on as the comparison does. It compares a copy in
a fresh variable, so only this one is changed. -/
theorem leads_jumpEqualConstant {k : Nat}
    (h : q.Holds base ((jumpEqualConstant label v k target).body s))
    (hnext : q.goOn (base + ((jumpEqualConstant label v k target).body s).length)
      (if env v = k then some target else none) = some next) :
    ∃ n, Leads ev q ⟨base, env⟩ ⟨next, Function.update env (s.freshVariable 0) n⟩ := by
  have hlength : base + ((jumpEqualConstant label v k target).body s).length =
      base + 1 + 2 * k + 3 := by
    simp only [jumpEqualConstant, body_ofCode, List.cons_append, List.length_cons,
      List.length_append, List.length_flatten, List.map_replicate, List.sum_replicate_nat,
      List.length_nil]
    omega
  rw [jumpEqualConstant, body_ofCode] at h
  have htests := h.tail
  have hdiffer : q.placeOf (s.freshLabel 0) = some (base + 1 + 2 * k + 2) := by
    refine placeOf_of_label (i := .plain (some (s.freshLabel 0)) (.neutral v)) ?_ rfl
    have hlast := htests.right 2 _ rfl
    simpa [Nat.mul_comm] using hlast
  generalize henv : Function.update env (s.freshVariable 0) (env v) = env₁
  have hcopy : Leads ev q ⟨base, env⟩ ⟨base + 1, env₁⟩ := by
    rw [← henv]
    exact Program.leads_assignment h.head
  have hz : env₁ (s.freshVariable 0) = env v := by rw [← henv, Function.update_self]
  rw [hlength, ← hz] at hnext
  obtain ⟨n, hrest⟩ := leads_tests ev htests hdiffer hnext
  rw [← henv, Function.update_idem] at hrest
  rw [← henv] at hcopy
  exact ⟨n, hcopy.trans hrest⟩

/-- One round of the comparison of two copies, if both are positive: both are counted down, and
nothing else is changed. -/
private theorem leads_comparisonRound (ev : Meaning)
    (h : q.Holds base ((jumpEqualVariable label v source target).body s))
    (hfirst : env (s.freshVariable 0) ≠ 0) (hsecond : env (s.freshVariable 1) ≠ 0) :
    ∃ env', Leads ev q ⟨base + 2, env⟩ ⟨base + 2, env'⟩ ∧
      env' (s.freshVariable 0) = env (s.freshVariable 0) - 1 ∧
      env' (s.freshVariable 1) = env (s.freshVariable 1) - 1 ∧
      ∀ w, w ≠ s.freshVariable 0 → w ≠ s.freshVariable 1 → env' w = env w := by
  have hne : s.freshVariable 0 ≠ s.freshVariable 1 := by simp [Supply.freshVariable]
  have hloop : q.placeOf (s.freshLabel 1) = some (base + 2) := placeOf_of_label (h 2 _ rfl) rfl
  have h₂ : Leads ev q ⟨base + 2, env⟩ ⟨base + 3, env⟩ := leads_jumpZero_next (h 2 _ rfl) hfirst
  have h₃ : Leads ev q ⟨base + 3, env⟩ ⟨base + 4, env⟩ := leads_jumpZero_next (h 3 _ rfl) hsecond
  have h₄ : Leads ev q ⟨base + 4, env⟩ ⟨base + 5, _⟩ := leads_decrease (h 4 _ rfl)
  have h₅ := h₄.trans (leads_decrease (h 5 _ rfl))
  have h₆ := h₅.trans (Program.leads_gotoLabel (h 6 _ rfl) hloop)
  refine ⟨_, h₂.trans (h₃.trans h₆), ?_, ?_, fun w h₀ h₁ => ?_⟩
  · rw [Function.update_of_ne hne, Function.update_self]
  · rw [Function.update_self, Function.update_of_ne hne.symm]
  · rw [Function.update_of_ne h₁, Function.update_of_ne h₀]

/-- The comparison of two copies, from the first test on, leads where the copies say. Both are
counted down together, and they were equal if they come to zero in the same round. -/
private theorem leads_comparison (ev : Meaning)
    (h : q.Holds base ((jumpEqualVariable label v source target).body s))
    (hnext : q.goOn (base + 9)
      (if env (s.freshVariable 0) = env (s.freshVariable 1) then some target else none) =
        some next) :
    ∃ env', Leads ev q ⟨base + 2, env⟩ ⟨next, env'⟩ ∧
      ∀ w, w ≠ s.freshVariable 0 → w ≠ s.freshVariable 1 → env' w = env w := by
  have hdiffer : q.placeOf (s.freshLabel 0) = some (base + 8) := placeOf_of_label (h 8 _ rfl) rfl
  have hdone : q.placeOf (s.freshLabel 2) = some (base + 7) := placeOf_of_label (h 7 _ rfl) rfl
  have hneutral : Leads ev q ⟨base + 8, env⟩ ⟨base + 9, env⟩ := leads_neutral (h 8 _ rfl)
  -- The induction is on the first copy, which each round decreases.
  generalize hn : env (s.freshVariable 0) = n
  induction n generalizing env with
  | zero =>
    rw [hn] at hnext
    have hfirst : Leads ev q ⟨base + 2, env⟩ ⟨base + 7, env⟩ :=
      Program.leads_jumpZero (h 2 _ rfl) hn hdone
    by_cases hsecond : env (s.freshVariable 1) = 0
    · rw [if_pos hsecond.symm] at hnext
      exact ⟨env, hfirst.trans (Program.leads_jumpZero (h 7 _ rfl) hsecond hnext), fun _ _ _ => rfl⟩
    · rw [if_neg fun he => hsecond he.symm] at hnext
      obtain rfl := Option.some.inj hnext
      have hskip : Leads ev q ⟨base + 7, env⟩ ⟨base + 8, env⟩ :=
        leads_jumpZero_next (h 7 _ rfl) hsecond
      exact ⟨env, hfirst.trans (hskip.trans hneutral), fun _ _ _ => rfl⟩
  | succ n ih =>
    have hpos : env (s.freshVariable 0) ≠ 0 := by omega
    by_cases hsecond : env (s.freshVariable 1) = 0
    · -- The second copy is used up first, so they differ.
      rw [if_neg (by omega)] at hnext
      obtain rfl := Option.some.inj hnext
      have hfirst : Leads ev q ⟨base + 2, env⟩ ⟨base + 3, env⟩ :=
        leads_jumpZero_next (h 2 _ rfl) hpos
      have hskip : Leads ev q ⟨base + 3, env⟩ ⟨base + 8, env⟩ :=
        Program.leads_jumpZero (h 3 _ rfl) hsecond hdiffer
      exact ⟨env, hfirst.trans (hskip.trans hneutral), fun _ _ _ => rfl⟩
    · obtain ⟨env₁, hround, hfirst₁, hsecond₁, hw₁⟩ := leads_comparisonRound ev h hpos hsecond
      have hiff : (env₁ (s.freshVariable 0) = env₁ (s.freshVariable 1)) =
          (env (s.freshVariable 0) = env (s.freshVariable 1)) := propext (by omega)
      have hnext₁ : q.goOn (base + 9) (if env₁ (s.freshVariable 0) = env₁ (s.freshVariable 1)
          then some target else none) = some next := by simpa only [hiff] using hnext
      obtain ⟨env', hrest, hw⟩ := ih hnext₁ (leads_neutral (h 8 _ rfl)) (by omega)
      exact ⟨env', hround.trans hrest, fun w h₀ h₁ => (hw w h₀ h₁).trans (hw₁ w h₀ h₁)⟩

/-- The block of a comparison of two variables goes on as the comparison does. It compares copies in
two fresh variables, so only these are changed. -/
theorem leads_jumpEqualVariable (hs : source ≠ s.freshVariable 0)
    (h : q.Holds base ((jumpEqualVariable label v source target).body s))
    (hnext : q.goOn (base + 9) (if env v = env source then some target else none) = some next) :
    ∃ env', Leads ev q ⟨base, env⟩ ⟨next, env'⟩ ∧
      ∀ w, w ≠ s.freshVariable 0 → w ≠ s.freshVariable 1 → env' w = env w := by
  have hne : s.freshVariable 0 ≠ s.freshVariable 1 := by simp [Supply.freshVariable]
  generalize henv : Function.update (Function.update env (s.freshVariable 0) (env v))
    (s.freshVariable 1) (env source) = env₂
  have hcopies : Leads ev q ⟨base, env⟩ ⟨base + 2, env₂⟩ := by
    have h₀ : Leads ev q ⟨base, env⟩ ⟨base + 1, _⟩ := Program.leads_assignment (h 0 _ rfl)
    have h₁ : Leads ev q ⟨base + 1, Function.update env (s.freshVariable 0) (env v)⟩
        ⟨base + 2, _⟩ := Program.leads_assignment (h 1 _ rfl)
    rw [Function.update_of_ne hs, henv] at h₁
    exact h₀.trans h₁
  have hfirst : env₂ (s.freshVariable 0) = env v := by
    rw [← henv, Function.update_of_ne hne, Function.update_self]
  have hsecond : env₂ (s.freshVariable 1) = env source := by rw [← henv, Function.update_self]
  rw [← hfirst, ← hsecond] at hnext
  obtain ⟨env', hrest, hw⟩ := leads_comparison ev h hnext
  refine ⟨env', hcopies.trans hrest, fun w h₀ h₁ => ?_⟩
  rw [hw w h₀ h₁, ← henv, Function.update_of_ne h₁, Function.update_of_ne h₀]

end Block

end RegisterMachine
