import RegisterMachine.Proofs.DeclaredLabels
import RegisterMachine.Proofs.Recording
import RegisterMachine.Proofs.Round

/-!
# Expansion preserves runs

Any number of rounds leaves the result of a program alone, and the values of the variables that it
goes on mentioning. A work variable that drops out of the program counts as free from then on, so a
later round may hand it out again; what it holds in the end is then the business of a block.

* `Library.exists_round` — a round of expansion is a round in the sense of `Round`;
* `Library.Survives` — the variable is mentioned after each of some rounds;
* `Library.expandRounds_path`, `Library.expandRounds_ends` — where a program ends, it ends after any
  number of rounds, and the other way round;
* `Library.exists_run_of_run` — the same for whole runs;
* `Library.expand_preserves_run` — the run of a program expanded to a degree.
-/

namespace RegisterMachine.Library

open Program

variable {lib : Library} {skip : Skip}

/-! ### Rounds -/

/-- A round of expansion is a round. -/
theorem exists_round (hlib : lib.validate = .ok ()) {e e' : Expansion} (h : lib.round e = .ok e') :
    ∃ xs, Round lib e.program e'.program xs := by
  obtain ⟨xs, hxs⟩ := exists_pieces_of_round h
  exact ⟨xs, hlib, hxs⟩

/-- One more round comes first, unless all instructions are basic. -/
theorem expandRounds_succ {e e' : Expansion} {n : Nat} :
    lib.expandRounds (n + 1) e = .ok e' ↔
      (e.program.isFullyBasic = true ∧ e' = e) ∨
        (e.program.isFullyBasic = false ∧
          ∃ e₁, lib.round e = .ok e₁ ∧ lib.expandRounds n e₁ = .ok e') := by
  rw [expandRounds]
  cases e.program.isFullyBasic with
  | true => simp [eq_comm]
  | false => simp [Bounded.bind_eq_ok]

/-- Rounds change nothing once all instructions are basic. -/
theorem expandRounds_of_isFullyBasic {e : Expansion} (h : e.program.isFullyBasic = true) (n : Nat) :
    lib.expandRounds n e = .ok e := by
  cases n with
  | zero => rfl
  | succ n => exact if_pos h

/-- Some rounds after others are as many rounds as both together. -/
theorem expandRounds_add (k n : Nat) (e : Expansion) :
    lib.expandRounds (k + n) e = lib.expandRounds k e >>= lib.expandRounds n := by
  induction k generalizing e with
  | zero =>
    rw [Nat.zero_add]
    rfl
  | succ k ih =>
    rw [Nat.succ_add, expandRounds, expandRounds]
    split
    · rename_i hbasic
      exact (expandRounds_of_isFullyBasic hbasic n).symm
    · rw [bind_assoc]
      exact bind_congr ih

/-- What every round keeps is kept by any number of rounds. -/
theorem expandRounds_induction {P : Expansion → Prop}
    (step : ∀ e e', lib.round e = .ok e' → P e → P e') {n : Nat} {e e' : Expansion}
    (h : lib.expandRounds n e = .ok e') (he : P e) : P e' := by
  induction n generalizing e with
  | zero =>
    obtain rfl := Except.ok.inj h
    exact he
  | succ n ih =>
    rcases expandRounds_succ.1 h with ⟨-, rfl⟩ | ⟨-, e₁, hround, h⟩
    · exact he
    · exact ih h (step e e₁ hround he)

theorem name_expandRounds {n : Nat} {e e' : Expansion} (h : lib.expandRounds n e = .ok e') :
    e'.name = e.name :=
  expandRounds_induction (P := fun e₁ => e₁.name = e.name)
    (fun _ _ hround he => (round_eq_ok_iff.1 hround).1.trans he) h rfl

/-- The variable is the result, or the program mentions it before the first round and after each of
`n` rounds. -/
def Survives (lib : Library) (n : Nat) (e : Expansion) (v : Variable) : Prop :=
  ∀ k ≤ n, ∀ e', lib.expandRounds k e = .ok e' → v ∈ e'.program.copiedVariables

theorem Survives.now {n : Nat} {e : Expansion} {v : Variable} (h : lib.Survives n e v) :
    v ∈ e.program.copiedVariables :=
  h 0 (Nat.zero_le n) e rfl

theorem Survives.later {n : Nat} {e e₁ : Expansion} {v : Variable} (h : lib.Survives (n + 1) e v)
    (hbasic : e.program.isFullyBasic = false) (hround : lib.round e = .ok e₁) :
    lib.Survives n e₁ v := fun k hk e' he' =>
  h (k + 1) (Nat.succ_le_succ hk) e' (expandRounds_succ.2 (.inr ⟨hbasic, e₁, hround, he'⟩))

/-- Rounds keep a program passing its check. -/
theorem validate_expandRounds (hlib : lib.validate = .ok ()) {n : Nat} {e e' : Expansion}
    (h : lib.expandRounds n e = .ok e') (he : e.program.validate = .ok ()) :
    e'.program.validate = .ok () := by
  refine expandRounds_induction (P := fun e₁ => e₁.program.validate = .ok ())
    (fun e₁ e₂ hround he => ?_) h he
  obtain ⟨xs, hxs⟩ := exists_round hlib hround
  exact hxs.validate he

/-- Rounds do not make a program need more inputs. -/
theorem requiredInputs_expandRounds (hlib : lib.validate = .ok ()) {n : Nat} {e e' : Expansion}
    (h : lib.expandRounds n e = .ok e') :
    e'.program.requiredInputs ≤ e.program.requiredInputs := by
  refine expandRounds_induction
    (P := fun e₁ => e₁.program.requiredInputs ≤ e.program.requiredInputs)
    (fun e₁ e₂ hround he => ?_) h le_rfl
  obtain ⟨xs, hxs⟩ := exists_round hlib hround
  exact hxs.requiredInputs_le.trans he

/-- A variable that no round can hand out was there before the rounds. -/
theorem mem_copiedVariables_of_expandRounds (hlib : lib.validate = .ok ()) {n : Nat}
    {e e' : Expansion} (h : lib.expandRounds n e = .ok e') {v : Variable}
    (hv : v ∈ e'.program.copiedVariables) (hwork : v.isWork = false) :
    v ∈ e.program.copiedVariables := by
  refine expandRounds_induction
    (P := fun e₁ => v ∈ e₁.program.copiedVariables → v ∈ e.program.copiedVariables)
    (fun e₁ e₂ hround he hv => ?_) h id hv
  obtain ⟨xs, hxs⟩ := exists_round hlib hround
  rcases mem_copiedVariables.1 hv with hv | rfl
  · refine he (mem_copiedVariables.2 (.inl ((hxs.mem_vars_or_fresh hv).resolve_right ?_)))
    rintro ⟨k, rfl⟩
    cases hwork
  · exact mem_copiedVariables.2 (.inr rfl)

/-- Rounds can be split. -/
theorem expandRounds_split {k m : Nat} (hk : k ≤ m) {e e' e'' : Expansion}
    (h : lib.expandRounds m e = .ok e') (h'' : lib.expandRounds k e = .ok e'') :
    ∃ j, lib.expandRounds j e'' = .ok e' := by
  obtain ⟨j, rfl⟩ := Nat.exists_eq_add_of_le hk
  rw [expandRounds_add, h''] at h
  exact ⟨j, h⟩

/-- What stands after fewer rounds can go through another one. -/
theorem exists_round_of_expandRounds {k m : Nat} (hk : k < m) {e e' e'' : Expansion}
    (h : lib.expandRounds m e = .ok e') (h'' : lib.expandRounds k e = .ok e'') :
    ∃ e₁, lib.round e'' = .ok e₁ := by
  obtain ⟨j, rfl⟩ := Nat.exists_eq_add_of_lt hk
  rw [Nat.add_assoc, expandRounds_add, h''] at h
  rcases expandRounds_succ.1 h with ⟨hbasic, -⟩ | ⟨-, e₁, hround, -⟩
  · exact ⟨e'', round_of_isFullyBasic hbasic⟩
  · exact ⟨e₁, hround⟩

/-- A variable that no round can hand out survives if it is there in the end. -/
theorem Survives.of_not_work (hlib : lib.validate = .ok ()) {n : Nat} {e e' : Expansion}
    (h : lib.expandRounds n e = .ok e') {v : Variable} (hv : v ∈ e'.program.copiedVariables)
    (hwork : v.isWork = false) : lib.Survives n e v := by
  intro k hk e'' he''
  obtain ⟨j, hj⟩ := expandRounds_split hk h he''
  exact mem_copiedVariables_of_expandRounds hlib hj hv hwork

/-! ### Runs -/

/-- Where a program ends, it ends after any number of rounds, with the same values of all variables
that survive them. -/
theorem expandRounds_path (hlib : lib.validate = .ok ()) (hskip : skip.Harmless) {inputs : List Nat}
    {m : Nat} {e e' : Expansion} (h : lib.expandRounds m e = .ok e') {n cost : Nat} {d : Config}
    (hpath : Path (meaning skip lib) e.program n cost ⟨0, e.program.initial inputs⟩ d)
    (hend : e.program.code.length ≤ d.place) :
    ∃ n' cost' d', Path (meaning skip lib) e'.program n' cost' ⟨0, e'.program.initial inputs⟩ d' ∧
      e'.program.code.length ≤ d'.place ∧ ∀ v, lib.Survives m e v → d'.env v = d.env v := by
  induction m generalizing e n cost d with
  | zero =>
    obtain rfl := Except.ok.inj h
    exact ⟨n, cost, d, hpath, hend, fun v _ => rfl⟩
  | succ m ih =>
    rcases expandRounds_succ.1 h with ⟨-, rfl⟩ | ⟨hbasic, e₁, hround, h⟩
    · exact ⟨n, cost, d, hpath, hend, fun v _ => rfl⟩
    · obtain ⟨xs, hxs⟩ := exists_round hlib hround
      obtain ⟨n₁, cost₁, d₁, hpath₁, hend₁, henv₁⟩ := hxs.path hskip hpath hend
      obtain ⟨n', cost', d', hpath', hend', henv'⟩ := ih h hpath₁ hend₁
      refine ⟨n', cost', d', hpath', hend', fun v hv => ?_⟩
      have hlater := hv.later hbasic hround
      refine (henv' v hlater).trans (henv₁ v hlater.now ?_)
      rcases mem_copiedVariables.1 hv.now with hv | rfl
      · exact Supply.not_fresh_of_mem_vars hv
      · rintro ⟨k, hk⟩
        cases hk

theorem program_ofProgram (p : Program) : (Expansion.ofProgram p).program = p := by
  have hcode : (p.code.map Line.initial).map Line.instruction = p.code := by
    rw [List.map_map]
    exact List.map_id' _
  exact Program.ext rfl hcode

theorem code_ofProgram (p : Program) : (Expansion.ofProgram p).code = p.code :=
  congrArg Program.code (program_ofProgram p)

theorem expand_eq_ok_iff {p : Program} {degree : Int} {e : Expansion} :
    lib.expand p degree = .ok e ↔
      0 ≤ degree ∧ lib.expandRounds degree.toNat (.ofProgram p) = .ok e := by
  rw [expand, expandFrom]
  split
  · rename_i hneg
    simp [Int.not_le.2 hneg]
  · rename_i hneg
    simp [Int.not_lt.1 hneg]

/-- Where the run of a program ends, the run after any number of rounds ends with the same result,
and with the same values of all variables that survive the rounds. -/
theorem exists_run_of_run (hlib : lib.validate = .ok ()) {p : Program} {n : Nat} {e : Expansion}
    (he : lib.expandRounds n (.ofProgram p) = .ok e) {fuel : Nat} {values : List InputValue}
    {traced : Bool} {r : RunResult} (h : lib.run fuel p values traced = .ok r) :
    ∃ fuel' r', lib.run fuel' e.program values false = .ok r' ∧ r'.result = r.result ∧
      ∀ v, lib.Survives n (.ofProgram p) v → r'.store.get v = r.store.get v := by
  obtain ⟨hvalid, inputs, haccept, hinputs, m, d, hpath, hend, hstore, hresult⟩ := path_of_run h
  rw [← program_ofProgram p] at hvalid hinputs hpath hend
  obtain ⟨m', cost', d', hpath', hend', henv⟩ :=
    expandRounds_path hlib Skip.harmless_nothing he hpath hend
  obtain ⟨fuel', r', hrun, hstore', hresult', -⟩ :=
    run_of_path (validate_expandRounds hlib he hvalid) haccept
      ((requiredInputs_expandRounds hlib he).trans hinputs) hpath' hend'
  have hy : lib.Survives n (.ofProgram p) .result :=
    fun k _ e' _ => mem_copiedVariables.2 (.inr rfl)
  refine ⟨fuel', r', hrun, ?_, fun v hv => ?_⟩
  · rw [hresult', hresult, henv .result hy]
  · rw [hstore', hstore, henv v hv]

/-- Where the run of a program ends, the run of the expanded program ends with the same result. It
leaves the same values in the variables that the program and the expanded one mention, work
variables apart that drop out and are handed out again between. If the steps of the expanded program
are to be recorded, it still ends so, unless it comes to a statement that is too long to be
written. -/
theorem expand_preserves_run (hlib : lib.validate = .ok ()) {p : Program} {degree : Int}
    {e : Expansion} (he : lib.expand p degree = .ok e) {fuel : Nat} {values : List InputValue}
    {traced : Bool} {r : RunResult} (h : lib.run fuel p values traced = .ok r) :
    ∃ fuel' r', lib.run fuel' e.program values false = .ok r' ∧ r'.result = r.result ∧
      (∀ v ∈ p.vars, v ∈ e.program.vars →
        (v.isWork = true → ∀ (k : Nat) (e' : Expansion), k ≤ degree → lib.expand p k = .ok e' →
          v ∈ e'.program.vars) →
        r'.store.get v = r.store.get v) ∧
      ((∃ fuel'' r'', lib.run fuel'' e.program values true = .ok r'' ∧ r''.untraced = r') ∨
        ∃ fuel'', lib.run fuel'' e.program values true = .error (.error (.numeral .tooLong))) := by
  obtain ⟨hdegree, hrounds⟩ := expand_eq_ok_iff.1 he
  obtain ⟨fuel', r', hrun, hresult, hvalues⟩ := exists_run_of_run hlib hrounds h
  refine ⟨fuel', r', hrun, hresult, fun v _ hv hwork => hvalues v ?_, exists_traced_run hrun⟩
  rcases hkind : v.isWork with _ | _
  · exact .of_not_work hlib hrounds (mem_copiedVariables.2 (.inl hv)) hkind
  · intro k hk e' he'
    have hdegree' : (k : Int) ≤ degree := by omega
    have hexpand : lib.expand p k = .ok e' := expand_eq_ok_iff.2 ⟨Int.natCast_nonneg k, he'⟩
    exact mem_copiedVariables.2 (.inl (hwork hkind k e' hdegree' hexpand))

/-! ### A variable that is handed out again -/

/-- After one round the first instruction is gone, and with it the work variable. The second
instruction takes that variable for its jump in the next round. -/
def forgetful : Program where
  name := "P"
  code := [.plain none (.assignment (.work 0) (.work 0)), .plain none (.jumpZero (.input 0) .exit)]
  nodup_labels := by decide

/-- A library of one program. -/
def forgetfulLibrary : Library :=
  ⟨[.ofProgram forgetful], by decide⟩

theorem forgetful_expand_preserves_run :
    forgetfulLibrary.validate = .ok () ∧
    ∃ e r, forgetfulLibrary.expand forgetful 2 = .ok e ∧
      forgetfulLibrary.run 3 forgetful [.integer 0] false = .ok r ∧
      ∃ fuel' r', forgetfulLibrary.run fuel' e.program [.integer 0] false = .ok r' ∧
        r'.result = r.result ∧ r'.store.get (.input 0) = r.store.get (.input 0) := by
  obtain ⟨e, he, hmem⟩ : ∃ e, forgetfulLibrary.expand forgetful 2 = .ok e ∧
      .input 0 ∈ e.program.vars := ⟨_, rfl, by decide⟩
  obtain ⟨r, hr⟩ : ∃ r, forgetfulLibrary.run 3 forgetful [.integer 0] false = .ok r := ⟨_, rfl⟩
  obtain ⟨fuel', r', hr', hresult, hvalues, -⟩ := expand_preserves_run rfl he hr
  exact ⟨rfl, e, r, he, hr, fuel', r', hr', hresult,
    hvalues (.input 0) (by decide) hmem nofun⟩

/-- Not all variables that a program and the expanded one mention end with the same values. -/
theorem not_expand_preserves_values :
    ¬ ∀ (lib : Library) (p : Program) (degree : Int) (e : Expansion) (fuel : Nat)
      (values : List InputValue) (r : RunResult), lib.validate = .ok () → p ∈ lib.programs →
      lib.expand p degree = .ok e → lib.run fuel p values false = .ok r →
      ∃ fuel' r', lib.run fuel' e.program values false = .ok r' ∧ r'.result = r.result ∧
        ∀ v ∈ p.vars, v ∈ e.program.vars → r'.store.get v = r.store.get v := by
  intro h
  obtain ⟨r, hr, hz⟩ : ∃ r, forgetfulLibrary.run 3 forgetful [.integer 0] false = .ok r ∧
      r.store.get (.work 0) = 0 := ⟨_, rfl, rfl⟩
  obtain ⟨e, he, hmem, r₂, hr₂, hz₂⟩ : ∃ e, forgetfulLibrary.expand forgetful 2 = .ok e ∧
      .work 0 ∈ e.program.vars ∧
      ∃ r₂, forgetfulLibrary.run 10 e.program [.integer 0] false = .ok r₂ ∧
      r₂.store.get (.work 0) = 1 := ⟨_, rfl, by decide, _, rfl, rfl⟩
  obtain ⟨fuel', r', hr', -, hvalues⟩ := h forgetfulLibrary forgetful 2 e 3 [.integer 0] r rfl
    (List.mem_singleton.2 rfl) he hr
  have heq := hvalues (.work 0) (by decide) hmem
  rw [(run_unique hr' hr₂).1, hz₂, hz] at heq
  cases heq

end RegisterMachine.Library
