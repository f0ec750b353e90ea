import RegisterMachine.Proofs.DegreeFormula
import RegisterMachine.Proofs.SessionMemory
import RegisterMachine.Proofs.WrittenOutExpansion

/-!
# Degrees compose

Expanding a program to some degree and the outcome to another one is expanding it to the sum of
both, line by line and with the same ancestry. Every round scans the names in use anew and from the
instructions alone, so it cannot tell where they came from. It takes one from the degree of a
program, until the degree is zero and all instructions are basic.

A session that is asked for the degree of an outcome gives its own, although the outcome has the
name of the program that it came from and the degree of this one may be remembered by that name.

* `Library.roundsToBasic_eq_maxDegree` — rounds are counted in the instructions alone;
* `Library.exists_stage` — the degree after some rounds;
* `Session.ExpandsFully` — a program expanded to its own degree;
* `Session.degrees_compose` — the law, for every session and every program with a degree.
-/

namespace RegisterMachine

namespace Library

variable {lib : Library} {e e' : Expansion} {p : Program} {n : Nat}

/-! ### Rounds and degrees -/

/-- What the lines of a program went through has no say in how many rounds they take. -/
theorem roundsToBasic_eq_maxDegree (fuel : Nat) (e : Expansion) :
    lib.roundsToBasic fuel e = lib.maxDegree fuel e.program := by
  -- A program without its ancestries is the same program, so all its names are written out as well.
  have hsame : e.WrittenOut lib (.ofProgram e.program) := by
    refine ⟨rfl, ?_⟩
    exact List.forall₂_map_right_iff.2 (List.forall₂_map_right_iff.2
      (List.forall₂_same.2 fun line _ => .refl line.instruction))
  exact ((WrittenOut.refl lib).roundsToBasic_eq fuel hsame).symm

theorem degree_eq_ok_iff :
    lib.degree e.program = .ok n ↔ ∃ fuel, lib.roundsToBasic fuel e = .ok n := by
  simp only [roundsToBasic_eq_maxDegree]
  exact (lib.settles_maxDegree e.program).eq_ok_iff

theorem isFullyBasic_iff_of_degree (h : lib.degree e.program = .ok n) :
    e.program.isFullyBasic = true ↔ n = 0 := by
  obtain ⟨fuel, h⟩ := degree_eq_ok_iff.1 h
  have hneeds : lib.Needs e.code n := (needs_of_roundsToBasic h).2
  rw [isFullyBasic_iff, ← Nat.le_zero]
  exact (hneeds 0).symm

/-- A round succeeds and takes one from the degree. -/
theorem exists_round_of_degree (h : lib.degree e.program = .ok n) :
    ∃ e', lib.round e = .ok e' ∧ lib.degree e'.program = .ok (n - 1) := by
  cases hbasic : e.program.isFullyBasic with
  | true =>
    refine ⟨e, round_of_isFullyBasic hbasic, ?_⟩
    obtain rfl := (isFullyBasic_iff_of_degree h).1 hbasic
    exact h
  | false =>
    obtain ⟨fuel, h⟩ := degree_eq_ok_iff.1 h
    cases fuel with
    | zero =>
      rw [roundsToBasic, hbasic] at h
      cases h
    | succ fuel =>
      rw [roundsToBasic, hbasic, if_neg Bool.false_ne_true] at h
      obtain ⟨e', hround, h⟩ := Bounded.bind_eq_ok.1 h
      obtain ⟨n', hn', h⟩ := Bounded.bind_eq_ok.1 h
      obtain rfl := Except.ok.inj h
      exact ⟨e', Bounded.lift_eq_ok.1 hround, degree_eq_ok_iff.2 ⟨fuel, hn'⟩⟩

/-- One round more, also if all instructions are basic. -/
theorem expandRounds_concat {d : Nat} {e₁ : Expansion} (h : lib.expandRounds d e = .ok e₁)
    (hround : lib.round e₁ = .ok e') : lib.expandRounds (d + 1) e = .ok e' := by
  rw [expandRounds_add, h, Bounded.ok_bind, expandRounds_succ]
  cases hbasic : e₁.program.isFullyBasic with
  | true => exact .inl ⟨rfl, Except.ok.inj (hround.symm.trans (round_of_isFullyBasic hbasic))⟩
  | false => exact .inr ⟨rfl, e', hround, rfl⟩

/-- Rounds succeed, and each takes one from the degree as long as there is one. -/
theorem exists_stage (h : lib.degree e.program = .ok n) (d : Nat) :
    ∃ e', lib.expandRounds d e = .ok e' ∧ lib.degree e'.program = .ok (n - d) := by
  induction d with
  | zero => exact ⟨e, rfl, h⟩
  | succ d ih =>
    obtain ⟨e₁, he₁, hdegree⟩ := ih
    obtain ⟨e₂, hround, hdegree₂⟩ := exists_round_of_degree hdegree
    exact ⟨e₂, expandRounds_concat he₁ hround, hdegree₂⟩

theorem expandFrom_natCast (e : Expansion) (d : Nat) :
    lib.expandFrom e d = lib.expandRounds d e := by
  rw [expandFrom, if_neg (Int.not_lt.2 (Int.natCast_nonneg d)), Int.toNat_natCast]

end Library

namespace Session

variable {s : Session} {e full : Expansion} {p : Program} {n : Nat}

/-! ### Full expansion -/

/-- A program that rounds may have touched, expanded to its own degree. -/
def expandFullyFrom (fuel : Nat) (e : Expansion) : SessionM Expansion := do
  let degree ← maxDegree fuel e.program
  orStop ((← get).library.expandFrom e degree)

/-- The full expansion of a program succeeds. -/
def ExpandsFully (s : Session) (e full : Expansion) : Prop :=
  ∃ fuel, (answered (expandFullyFrom fuel e) s).1 = .ok full

theorem gives_ok_iff {r : Request} {a : Answer} :
    s.Gives r (.ok a) ↔ ∃ fuel, (s.answer fuel r).1 = .ok a := by
  simp [Gives]

/-- For a program that no round has touched, this is a request. -/
theorem expandsFully_ofProgram :
    s.ExpandsFully (.ofProgram p) full ↔ s.Gives (.expandFully p) (.ok (.expansion full)) := by
  have hsame : ∀ fuel, expandFullyFrom fuel (.ofProgram p) = expandFully fuel p := by
    intro fuel
    rw [expandFullyFrom, Library.program_ofProgram]
    rfl
  have hanswer : ∀ fuel, (s.answer fuel (.expandFully p)).1 =
      Answer.expansion <$> (answered (expandFully fuel p) s).1 := fun fuel =>
    congrArg Prod.fst (answered_map Answer.expansion (expandFully fuel p) s)
  rw [ExpandsFully, gives_ok_iff]
  simp only [hsame, hanswer, Bounded.map_eq_ok]
  constructor
  · rintro ⟨fuel, h⟩
    exact ⟨fuel, full, h, rfl⟩
  · rintro ⟨fuel, e, h, heq⟩
    obtain rfl := Answer.expansion.inj heq
    exact ⟨fuel, h⟩

theorem Sound.expandsFully_iff (hs : s.Sound) :
    s.ExpandsFully e full ↔
      ∃ n, s.library.degree e.program = .ok n ∧ s.library.expandRounds n e = .ok full := by
  have hrecalls := (recalls_maxDegree s.outside e.program).bind fun degree =>
    recalls_library s.outside fun lib => lib.expandFrom e degree
  have hsettles : Bounded.Settles (fun fuel => (answered (expandFullyFrom fuel e) s).1) _ :=
    hrecalls.settles hs rfl
  rw [ExpandsFully, ← hsettles.eq_ok_iff, Bounded.bind_eq_ok]
  refine exists_congr fun n => and_congr_right fun _ => ?_
  rw [Bounded.lift_eq_ok, Library.expandFrom_natCast]
  rfl

theorem Sound.gives_maxDegree_iff (hs : s.Sound) :
    s.Gives (.maxDegree p) (.ok (.degree n)) ↔ s.library.degree p = .ok n := by
  have hsettles := settles_answer hs (.maxDegree p)
  rw [gives_ok_iff, ← hsettles.eq_ok_iff, Outside.answer, Bounded.map_eq_ok]
  constructor
  · rintro ⟨m, h, heq⟩
    obtain rfl := Answer.degree.inj heq
    exact h
  · exact fun h => ⟨n, h, rfl⟩

/-- Any program that can be expanded fully, with its ancestry, can be expanded to all degrees. These
expansions compose, they are basic from the degree of the program on and then stay as the full
expansion, and the session gives each of them its own degree, which is what is left of the degree of
the program, although it has the name of the program. If no round has touched the program yet, the
full expansion is what the session answers to the request for it. -/
theorem degrees_compose (past : List (Nat × Request)) {e full : Expansion}
    (hfull : (empty.after past).ExpandsFully e full) :
    ∃ (n : Nat) (stages : Nat → Expansion),
      (empty.after past).Gives (.maxDegree e.program) (.ok (.degree n)) ∧
      (∀ d : Nat, (empty.after past).library.expandFrom e d = .ok (stages d)) ∧
      (∀ a b : Nat, (empty.after past).library.expandFrom (stages a) b = .ok (stages (a + b))) ∧
      (∀ d, (stages d).program.isFullyBasic = true ↔ n ≤ d) ∧
      (∀ d, n ≤ d → stages d = full) ∧
      (∀ p, e = .ofProgram p →
        (empty.after past).Gives (.expandFully p) (.ok (.expansion full))) ∧
      ∀ d, (stages d).program.name = e.program.name ∧
        (empty.after past).Gives (.maxDegree (stages d).program) (.ok (.degree (n - d))) := by
  have hs := sound_empty.after past
  generalize empty.after past = s at hs hfull
  obtain ⟨n, hdegree, hn⟩ := hs.expandsFully_iff.1 hfull
  choose stages hstages hdegrees using Library.exists_stage hdegree
  have hcompose : ∀ a b, s.library.expandRounds b (stages a) = .ok (stages (a + b)) := by
    intro a b
    rw [← hstages (a + b), Library.expandRounds_add, hstages a, Bounded.ok_bind]
  have hbasic : ∀ d, (stages d).program.isFullyBasic = true ↔ n ≤ d := fun d =>
    (Library.isFullyBasic_iff_of_degree (hdegrees d)).trans Nat.sub_eq_zero_iff_le
  refine ⟨n, stages, hs.gives_maxDegree_iff.2 hdegree, fun d => ?_, fun a b => ?_, hbasic,
    fun d hd => ?_, fun p hp => expandsFully_ofProgram.1 (hp ▸ hfull), fun d =>
      ⟨?_, hs.gives_maxDegree_iff.2 (hdegrees d)⟩⟩
  · rw [Library.expandFrom_natCast, hstages]
  · rw [Library.expandFrom_natCast, hcompose]
  · obtain rfl := Except.ok.inj (hn.symm.trans (hstages n))
    obtain ⟨k, rfl⟩ := Nat.exists_eq_add_of_le hd
    have hstay : s.library.expandRounds k (stages n) = .ok (stages n) :=
      Library.expandRounds_of_isFullyBasic ((hbasic n).2 le_rfl) k
    exact Except.ok.inj ((hcompose n k).symm.trans hstay)
  · exact Library.name_expandRounds (hstages d)

/-- A history in which the degree of a program was asked for. -/
def echoPast : List (Nat × Request) :=
  [(9, .register (.ofProgram Library.echo)), (9, .register (.ofProgram Library.echoCaller)),
    (9, .maxDegree Library.echoCaller)]

/-- The degree of the program is remembered; after one round there is another one. -/
theorem echo_degrees_compose :
    (empty.after echoPast).degrees = [("MAIN", 3)] ∧
    ∃ full, (empty.after echoPast).ExpandsFully (.ofProgram Library.echoCaller) full ∧
      ∃ e, (empty.after echoPast).library.expandFrom (.ofProgram Library.echoCaller) 1 = .ok e ∧
        e.program.name = "MAIN" ∧
        (empty.after echoPast).Gives (.maxDegree e.program) (.ok (.degree 2)) ∧
        (empty.after echoPast).library.expandFrom e 2 = .ok full := by
  have hdegrees : (empty.after echoPast).degrees = [("MAIN", 3)] := by rfl
  have hs := sound_empty.after echoPast
  obtain ⟨full, hfull⟩ : ∃ full,
      (empty.after echoPast).ExpandsFully (.ofProgram Library.echoCaller) full := ⟨_, 9, rfl⟩
  obtain ⟨n, stages, hn, hstages, hcompose, -, hstay, -, hdegree⟩ := degrees_compose echoPast hfull
  have hthree : (empty.after echoPast).Gives
      (.maxDegree (Expansion.ofProgram Library.echoCaller).program) (.ok (.degree 3)) :=
    gives_ok_iff.2 ⟨9, rfl⟩
  obtain rfl : n = 3 := Except.ok.inj
    ((hs.gives_maxDegree_iff.1 hn).symm.trans (hs.gives_maxDegree_iff.1 hthree))
  refine ⟨hdegrees, full, hfull, stages 1, hstages 1, (hdegree 1).1, (hdegree 1).2, ?_⟩
  rw [← hstay 3 le_rfl]
  exact hcompose 1 2

end Session

end RegisterMachine
