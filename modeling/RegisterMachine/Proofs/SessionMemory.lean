import RegisterMachine.Proofs.Answered
import RegisterMachine.Proofs.CountedSteps
import RegisterMachine.Proofs.Termination
import RegisterMachine.Session

/-!
# What sessions remember

A session remembers the call graph and degrees. What it remembers can never be told from its
answers: they are those of a session that remembers nothing.

* `Session.Sound` — what a session remembers, and may still use, is right. `Session.Sound.answer`:
  so it is after any request;
* `Session.Recalls` — a request settles on an answer whatever is remembered, and keeps memories
  right. This holds of every request that changes nothing, `Session.recalls_perform`;
* `Session.Sound.gives_iff` — what a session answers, in terms of its library alone;
* `Session.answers_after_changes` — a session answers as a new one does in which the same changes
  were made.
-/

namespace RegisterMachine

/-- The degree of a program, with as much fuel as it takes. -/
noncomputable def Library.degree (lib : Library) (p : Program) : Bounded Nat :=
  Bounded.limit (lib.maxDegree · p)

theorem Library.settles_maxDegree (lib : Library) (p : Program) :
    Bounded.Settles (lib.maxDegree · p) (lib.degree p) :=
  (grows_roundsToBasic (.ofProgram p)).settles_limit

namespace Session

/-! ### Sound memories -/

/-- What can be seen of a session. -/
structure Outside where
  /-- The library. -/
  library : Library
  /-- No program can be registered any more. -/
  frozen : Bool
  /-- The number of registrations. -/
  version : Nat

/-- What can be seen of a session. -/
def outside (s : Session) : Outside :=
  ⟨s.library, s.frozen, s.version⟩

/-- All that a session remembers and may still use is right. -/
structure Sound (s : Session) : Prop where
  /-- The call graph is that of the library, unless the session is dirty. -/
  callGraph_eq : s.dirty = false → s.callGraph = s.library.callGraph
  /-- Degrees were remembered at some time before. -/
  degreesVersion_le : s.degreesVersion ≤ s.version
  /-- If nothing was registered since, they are those of the registered programs. -/
  degree_eq : s.degreesVersion = s.version → ∀ p n, s.isRegistered p = true →
    s.degrees.lookup p.name = some n → s.library.degree p = .ok n

theorem sound_empty : empty.Sound where
  callGraph_eq _ := rfl
  degreesVersion_le := Nat.le_refl 0
  degree_eq _ p n _ h := by cases h

/-! ### Requests that remember -/

section Recalls

variable {α β : Type} {o : Outside} {s : Session}

/-- A request settles on an answer, whatever is remembered by the session, and what can be seen of
the session stays. -/
structure Recalls (o : Outside) (f : Nat → SessionM α) (x : Bounded α) : Prop where
  /-- Any amount of fuel gives the answer or runs out. -/
  below : ∀ fuel s, s.Sound → s.outside = o → Bounded.Below (answered (f fuel) s).1 x
  /-- If there is an answer, some amount of fuel gives it, and so does any greater one. -/
  attained : x = .error .outOfFuel ∨ ∃ bound, ∀ fuel, bound ≤ fuel →
    ∀ s : Session, s.Sound → s.outside = o → (answered (f fuel) s).1 = x
  /-- What is remembered stays right, and what can be seen stays as it is. -/
  kept : ∀ fuel s, s.Sound → s.outside = o →
    (answered (f fuel) s).2.Sound ∧ (answered (f fuel) s).2.outside = o

/-- A request that neither looks at the memory nor changes it. -/
theorem Recalls.of_settles {f : Nat → SessionM α} {g : Nat → Bounded α} {x : Bounded α}
    (hg : Bounded.Settles g x)
    (hf : ∀ fuel s, s.outside = o → answered (f fuel) s = (g fuel, s)) : Recalls o f x where
  below fuel s _ ho := by
    rw [hf fuel s ho]
    exact hg.below fuel
  attained := by
    refine hg.attained.imp_right fun ⟨bound, hbound⟩ => ⟨bound, fun fuel hle s _ ho => ?_⟩
    rw [hf fuel s ho]
    exact hbound fuel hle
  kept fuel s hs ho := by
    rw [hf fuel s ho]
    exact ⟨hs, ho⟩

theorem Recalls.of_eq {f : Nat → SessionM α} {x : Bounded α}
    (hf : ∀ fuel s, s.outside = o → answered (f fuel) s = (x, s)) : Recalls o f x :=
  .of_settles (.const x) hf

theorem recalls_pure (a : α) : Recalls o (fun _ => pure a) (.ok a) :=
  .of_eq fun _ _ _ => rfl

theorem recalls_orStop (e : Except Error α) : Recalls o (fun _ => orStop e) (liftM e) :=
  .of_eq fun _ s _ => answered_orStop e s

/-- One request after another. -/
theorem Recalls.bind {f : Nat → SessionM α} {x : Bounded α} {g : Nat → α → SessionM β}
    {y : α → Bounded β} (hf : Recalls o f x) (hg : ∀ a, Recalls o (g · a) (y a)) :
    Recalls o (fun fuel => f fuel >>= g fuel) (x >>= y) where
  below fuel s hs ho := by
    have hfirst := hf.below fuel s hs ho
    obtain ⟨hs', ho'⟩ := hf.kept fuel s hs ho
    rw [answered_bind]
    rcases hanswer : answered (f fuel) s with ⟨stop | a, s'⟩
    · rw [hanswer] at hfirst
      rcases hfirst with hstop | rfl
      · obtain rfl := Except.error.inj hstop
        exact .inl rfl
      · exact .refl _
    · rw [hanswer] at hfirst hs' ho'
      rw [hfirst.eq_ok rfl, Bounded.ok_bind]
      exact (hg a).below fuel s' hs' ho'
  attained := by
    rcases hf.attained with rfl | ⟨bound, hbound⟩
    · exact .inl rfl
    · rcases x with stop | a
      · refine .inr ⟨bound, fun fuel hle s hs ho => ?_⟩
        have hfirst := hbound fuel hle s hs ho
        rw [answered_bind]
        rcases hanswer : answered (f fuel) s with ⟨a, s'⟩
        rw [hanswer] at hfirst
        subst hfirst
        rfl
      · refine (hg a).attained.imp_right fun ⟨bound', hbound'⟩ =>
          ⟨max bound bound', fun fuel hle s hs ho => ?_⟩
        have hfirst := hbound fuel (le_of_max_le_left hle) s hs ho
        obtain ⟨hs', ho'⟩ := hf.kept fuel s hs ho
        rw [answered_bind]
        rcases hanswer : answered (f fuel) s with ⟨a', s'⟩
        rw [hanswer] at hfirst hs' ho'
        subst hfirst
        exact hbound' fuel (le_of_max_le_right hle) s' hs' ho'
  kept fuel s hs ho := by
    obtain ⟨hs', ho'⟩ := hf.kept fuel s hs ho
    rw [answered_bind]
    rcases hanswer : answered (f fuel) s with ⟨stop | a, s'⟩
    · rw [hanswer] at hs' ho'
      exact ⟨hs', ho'⟩
    · rw [hanswer] at hs' ho'
      exact (hg a).kept fuel s' hs' ho'

/-- A request that looks at what can be seen of the session. -/
theorem Recalls.look {f : Nat → Session → SessionM α} {g : Nat → SessionM α} {x : Bounded α}
    (hg : Recalls o g x) (hf : ∀ fuel s, s.outside = o → f fuel s = g fuel) :
    Recalls o (fun fuel => get >>= f fuel) x := by
  have heq : ∀ fuel s, s.outside = o → answered (get >>= f fuel) s = answered (g fuel) s :=
    fun fuel s ho => by rw [answered_bind_of_ok (answered_get s), hf fuel s ho]
  refine ⟨fun fuel s hs ho => ?_, ?_, fun fuel s hs ho => ?_⟩
  · rw [heq fuel s ho]
    exact hg.below fuel s hs ho
  · refine hg.attained.imp_right fun ⟨bound, hbound⟩ => ⟨bound, fun fuel hle s hs ho => ?_⟩
    rw [heq fuel s ho]
    exact hbound fuel hle s hs ho
  · rw [heq fuel s ho]
    exact hg.kept fuel s hs ho

/-! ### The call graph -/

theorem answered_graph (s : Session) : answered graph s = if s.dirty then
    (.ok s.library.callGraph, { s with callGraph := s.library.callGraph, dirty := false })
    else (.ok s.callGraph, s) := by
  rw [graph, answered_bind_of_ok (answered_get s)]
  cases s.dirty <;> rfl

theorem recalls_graph (o : Outside) : Recalls o (fun _ => graph) (.ok o.library.callGraph) := by
  have hanswer : ∀ s : Session, s.Sound → s.outside = o →
      (answered graph s).1 = .ok o.library.callGraph ∧
        (answered graph s).2.Sound ∧ (answered graph s).2.outside = o := by
    rintro s hs rfl
    rw [answered_graph]
    cases hdirty : s.dirty with
    | true => exact ⟨rfl, ⟨fun _ => rfl, hs.degreesVersion_le, hs.degree_eq⟩, rfl⟩
    | false => exact ⟨congrArg Except.ok (hs.callGraph_eq hdirty), hs, rfl⟩
  exact
    { below := fun _ s hs ho => .inr (hanswer s hs ho).1
      attained := .inr ⟨0, fun _ _ s hs ho => (hanswer s hs ho).1⟩
      kept := fun _ s hs ho => (hanswer s hs ho).2 }

/-! ### Degrees -/

/-- Forgetting what is outdated leaves degrees of registered programs only. -/
theorem Sound.forgetOutdated (hs : s.Sound) : s.forgetOutdated.Sound ∧
    s.forgetOutdated.outside = s.outside ∧
      s.forgetOutdated.degreesVersion = s.forgetOutdated.version := by
  rw [Session.forgetOutdated]
  split
  · rename_i hversion
    exact ⟨hs, rfl, hversion⟩
  · exact ⟨⟨hs.callGraph_eq, Nat.le_refl _, fun _ p n _ h => by cases h⟩, rfl, rfl⟩

/-- A degree that was computed may be remembered. -/
theorem Sound.remember (hs : s.Sound) {p : Program} {n : Nat} (hp : s.isRegistered p = true)
    (hn : s.library.degree p = .ok n) :
    Sound { s with degrees := (p.name, n) :: s.degrees } where
  callGraph_eq := hs.callGraph_eq
  degreesVersion_le := hs.degreesVersion_le
  degree_eq hversion q n' hq hn' := by
    rw [List.lookup_cons] at hn'
    cases hname : q.name == p.name with
    | true =>
      -- There is one registered program of a name.
      rw [hname] at hn'
      obtain rfl := Option.some.inj hn'
      have hfindp : s.library.find? p.name = some p := by simpa [isRegistered] using hp
      have hfindq : s.library.find? q.name = some q := by simpa [isRegistered] using hq
      rw [eq_of_beq hname, hfindp] at hfindq
      obtain rfl := Option.some.inj hfindq
      exact hn
    | false =>
      rw [hname] at hn'
      exact hs.degree_eq hversion q n' hq hn'

/-- The degree of a program comes from memory or is computed; either way it is right. -/
theorem answered_maxDegree (hs : s.Sound) (fuel : Nat) (p : Program) :
    ((answered (maxDegree fuel p) s).1 = s.library.degree p ∨
      (answered (maxDegree fuel p) s).1 = s.library.maxDegree fuel p) ∧
    (answered (maxDegree fuel p) s).2.Sound ∧
      (answered (maxDegree fuel p) s).2.outside = s.outside := by
  obtain ⟨hs', ho, hversion⟩ := hs.forgetOutdated
  have hlibrary : s.forgetOutdated.library = s.library := congrArg Outside.library ho
  rw [maxDegree, answered_bind_of_ok (answered_modify forgetOutdated s),
    answered_bind_of_ok (answered_get s.forgetOutdated)]
  rw [← hlibrary, ← ho]
  generalize s.forgetOutdated = t at hs' hversion
  cases hregistered : t.isRegistered p with
  | false =>
    simp only [Bool.false_eq_true, if_false]
    exact ⟨.inr rfl, hs', rfl⟩
  | true =>
    simp only [if_true]
    cases hlookup : t.degrees.lookup p.name with
    | some n => exact ⟨.inl (hs'.degree_eq hversion p n hregistered hlookup).symm, hs', rfl⟩
    | none =>
      simp only
      rcases hdegree : t.library.maxDegree fuel p with stop | n
      · exact ⟨.inr rfl, hs', rfl⟩
      · have hn := ((t.library.settles_maxDegree p).below fuel).eq_ok hdegree
        exact ⟨.inr rfl, hs'.remember hregistered hn, rfl⟩

theorem recalls_maxDegree (o : Outside) (p : Program) :
    Recalls o (fun fuel => maxDegree fuel p) (o.library.degree p) where
  below := by
    rintro fuel s hs rfl
    rcases (answered_maxDegree hs fuel p).1 with hanswer | hanswer
    · exact .inr hanswer
    · rw [hanswer]
      exact (s.library.settles_maxDegree p).below fuel
  attained := by
    refine (o.library.settles_maxDegree p).attained.imp_right fun ⟨bound, hbound⟩ =>
      ⟨bound, fun fuel hle s hs ho => ?_⟩
    subst ho
    rcases (answered_maxDegree hs fuel p).1 with hanswer | hanswer
    · exact hanswer
    · exact hanswer.trans (hbound fuel hle)
  kept := by
    rintro fuel s hs rfl
    exact (answered_maxDegree hs fuel p).2

/-! ### The formula for degrees -/

section Formula

variable (lib : Library) {programDegree : Nat → Program → SessionM Nat}
  {limit : Program → Bounded Nat}

mutual

theorem recalls_bindingDegree (h : ∀ p, Recalls o (programDegree · p) (limit p)) :
    ∀ a : Argument, Recalls o (fun fuel => bindingDegree lib (programDegree fuel) a)
      (bindingDegree lib limit a)
  | .constant _ => by
    simp only [bindingDegree]
    exact recalls_pure _
  | .name text => by
    simp only [bindingDegree]
    split
    · exact recalls_pure _
    · exact .bind (recalls_orStop _) fun call => .bind (recalls_orStop _) fun callee =>
        .bind (h callee) fun _ => recalls_pure _
  | .call function arguments => by
    simp only [bindingDegree]
    exact .bind (recalls_orStop _) fun callee => .bind (h callee) fun degree =>
      .bind (recalls_bindingDegrees h _ degree arguments) fun _ => recalls_pure _

theorem recalls_bindingDegrees (h : ∀ p, Recalls o (programDegree · p) (limit p)) :
    ∀ (n degree : Nat) (as : List Argument),
      Recalls o (fun fuel => bindingDegrees lib (programDegree fuel) n degree as)
        (bindingDegrees lib limit n degree as)
  | 0, degree, as => by
    simp only [bindingDegrees]
    exact recalls_pure _
  | n + 1, degree, [] => by
    simp only [bindingDegrees]
    exact recalls_pure _
  | n + 1, degree, a :: as => by
    simp only [bindingDegrees]
    exact .bind (recalls_bindingDegree h a) fun d => recalls_bindingDegrees h n _ as

end

theorem recalls_callDegree (h : ∀ p, Recalls o (programDegree · p) (limit p)) (call : Call) :
    Recalls o (fun fuel => callDegree lib (programDegree fuel) call) (callDegree lib limit call) :=
  .bind (recalls_orStop _) fun callee => .bind (h callee) fun degree =>
    recalls_bindingDegrees lib h _ degree call.arguments

theorem recalls_operationDegree (h : ∀ p, Recalls o (programDegree · p) (limit p))
    (operation : Operation) :
    Recalls o (fun fuel => operationDegree lib (programDegree fuel) operation)
      (operationDegree lib limit operation) := by
  cases operation with
  | quotation v call =>
    exact .bind (recalls_callDegree lib h call) fun _ => recalls_pure _
  | jumpEqualFunction v call target =>
    exact .bind (recalls_callDegree lib h call) fun _ => recalls_pure _
  | _ => exact recalls_pure _

end Formula

/-! ### Listings -/

theorem Recalls.mapM {f : Nat → α → SessionM β} {x : α → Bounded β}
    (h : ∀ a, Recalls o (f · a) (x a)) (as : List α) :
    Recalls o (fun fuel => as.mapM (f fuel)) (as.mapM x) := by
  induction as with
  | nil =>
    simp only [List.mapM_nil]
    exact recalls_pure _
  | cons a as ih =>
    simp only [List.mapM_cons]
    exact .bind (h a) fun b => .bind ih fun bs => recalls_pure _

theorem Recalls.map {f : Nat → SessionM α} {x : Bounded α} (h : Recalls o f x) (g : α → β) :
    Recalls o (fun fuel => g <$> f fuel) (g <$> x) := by
  simp only [map_eq_pure_bind]
  exact .bind h fun a => recalls_pure _

theorem recalls_ofLine (lib : Library) {programDegree : Nat → Program → SessionM Nat}
    {limit : Program → Bounded Nat} (h : ∀ p, Recalls o (programDegree · p) (limit p)) (line : Line)
    (index : Nat) :
    Recalls o (fun fuel => ListingRow.ofLine line index
        (operationDegree lib (programDegree fuel) line.instruction.operation))
      (ListingRow.ofLine line index (operationDegree lib limit line.instruction.operation)) :=
  .bind (recalls_orStop _) fun _ => .bind (recalls_operationDegree lib h _) fun _ =>
    .bind (recalls_orStop _) fun _ => recalls_pure _

theorem recalls_build (lib : Library) {programDegree : Nat → Program → SessionM Nat}
    {limit : Program → Bounded Nat} (h : ∀ p, Recalls o (programDegree · p) (limit p)) (p : Program)
    (degree : Int) : Recalls o (fun fuel => Listing.build lib (programDegree fuel) p degree)
      (Listing.build lib limit p degree) := by
  simp only [Listing.build]
  exact .bind (recalls_orStop _) fun e =>
    .bind (.mapM (fun entry => recalls_ofLine lib h _ _) _) fun rows =>
      .bind (h p) fun _ => .bind (recalls_orStop _) fun _ => recalls_pure _

end Recalls

/-! ### Requests -/

/-- What a session can be asked for. -/
inductive Request where
  | register (e : Expansion)
  | freeze
  | program (name caller : String)
  | callees (name : String)
  | graph
  | validate
  | dependencyOrder
  | summary
  | display
  | maxDegree (p : Program)
  | instructionDegree (i : Instruction)
  | expand (p : Program) (degree : Int)
  | expandFully (p : Program)
  | expandOnce (code : List Instruction)
  | view (p : Program) (degree : Int)
  | run (p : Program) (degree : Int) (values : List InputValue) (traced : Bool)

/-- What a session answers. -/
inductive Answer where
  | done
  | program (p : Program)
  | names (names : List String)
  | graph (g : Digraph String)
  | text (s : String)
  | degree (n : Nat)
  | expansion (e : Expansion)
  | lines (lines : List Line)
  | listing (l : Listing)
  | outcome (r : RunResult)

/-- Does what is asked for, with some fuel for each request. -/
def perform (fuel : Nat) : Request → SessionM Answer
  | .register e => (fun _ => .done) <$> register e
  | .freeze => (fun _ => .done) <$> freeze
  | .program name caller => .program <$> program name caller
  | .callees name => .names <$> callees name
  | .graph => .graph <$> graph
  | .validate => (fun _ => .done) <$> validate
  | .dependencyOrder => .names <$> dependencyOrder
  | .summary => .text <$> summary
  | .display => (fun s => .text s.display) <$> get
  | .maxDegree p => .degree <$> maxDegree fuel p
  | .instructionDegree i => .degree <$> instructionDegree fuel i
  | .expand p degree => .expansion <$> expand p degree
  | .expandFully p => .expansion <$> expandFully fuel p
  | .expandOnce code => .lines <$> expandOnce code
  | .view p degree => .listing <$> view fuel p degree
  | .run p degree values traced => .outcome <$> run fuel p degree values traced

/-- What a session answers to a request, and the session afterwards. -/
def answer (fuel : Nat) (s : Session) (r : Request) : Bounded Answer × Session :=
  answered (perform fuel r) s

/-- The requests that change what can be seen of a session if they succeed. -/
def Request.isChange : Request → Bool
  | .register _ | .freeze => true
  | _ => false

/-- The answer to a request that needs no memory, for what can be seen of a session. -/
noncomputable def Outside.answer (o : Outside) : Request → Bounded Answer
  | .register e => if o.frozen then .error (.error (.frozen e.name)) else .ok .done
  | .freeze => (fun _ => .done) <$> (o.library.validate : Bounded Unit)
  | .program name caller => .program <$> (o.library.get name caller : Bounded Program)
  | .callees name => .names <$> (o.library.callees name : Bounded (List String))
  | .graph => .ok (.graph o.library.callGraph)
  | .validate => (fun _ => .done) <$> (o.library.validate : Bounded Unit)
  | .dependencyOrder => .names <$> (o.library.dependencyOrder : Bounded (List String))
  | .summary => .ok (.text o.library.summary)
  | .display => .ok (.text (display { empty with library := o.library, frozen := o.frozen }))
  | .maxDegree p => .degree <$> o.library.degree p
  | .instructionDegree i => .degree <$> operationDegree o.library o.library.degree i.operation
  | .expand p degree => .expansion <$> (o.library.expand p degree : Bounded Expansion)
  | .expandFully p => .expansion <$> do
    let degree ← o.library.degree p
    (o.library.expand p degree : Bounded Expansion)
  | .expandOnce code => .lines <$> (o.library.expandOnce code : Bounded (List Line))
  | .view p degree => .listing <$> Listing.build o.library o.library.degree p degree
  | .run p degree values traced => .outcome <$> do
    let e ← (o.library.expand p degree : Bounded Expansion)
    Bounded.limit (o.library.run · e.program values traced)

/-- What can be seen of a session after a change that succeeded. -/
def Outside.after (o : Outside) : Request → Outside
  | .register e => { o with library := o.library.put e, version := o.version + 1 }
  | .freeze => { o with frozen := true }
  | _ => o

section Answers

variable {α : Type} {o : Outside} {s s' : Session} {fuel : Nat} {r : Request}

/-- A request that only reads the library. -/
theorem recalls_library (o : Outside) (f : Library → Except Error α) :
    Recalls o (fun _ => do orStop (f (← get).library)) (liftM (f o.library)) :=
  .look (recalls_orStop _) fun _ s ho => by rw [← ho]; rfl

/-- A request that reads the library and the call graph. -/
theorem recalls_libraryWith (o : Outside) (f : Library → Digraph String → Except Error α) :
    Recalls o (fun _ => do
      let graph ← graph
      orStop (f (← get).library graph)) (liftM (f o.library o.library.callGraph)) :=
  .bind (recalls_graph o) fun g => recalls_library o fun lib => f lib g

theorem recalls_callees (o : Outside) (name : String) :
    Recalls o (fun _ => callees name) (liftM (o.library.callees name)) := by
  have h : Recalls o (fun _ => callees name)
      ((liftM (o.library.get name "") : Bounded Program) >>= fun p =>
        (.ok o.library.callGraph : Bounded (Digraph String)) >>= fun g =>
          .ok (g.successors p.name)) :=
    .bind (recalls_library o fun lib => lib.get name "") fun p =>
      .bind (recalls_graph o) fun g => recalls_pure _
  rw [Library.callees, Library.calleesWith]
  cases hget : o.library.get name "" with
  | error cause =>
    rw [hget] at h
    exact h
  | ok p =>
    rw [hget] at h
    exact h

theorem recalls_run (o : Outside) (p : Program) (degree : Int) (values : List InputValue)
    (traced : Bool) :
    Recalls o (fun fuel => run fuel p degree values traced)
      ((liftM (o.library.expand p degree) : Bounded Expansion) >>= fun e =>
        Bounded.limit (o.library.run · e.program values traced)) := by
  refine .bind (recalls_library o fun lib => lib.expand p degree) fun e => ?_
  have hgrows : Bounded.Grows (o.library.run · e.program values traced) := fun fuel =>
    Library.below_run (Nat.le_succ fuel) e.program values traced
  refine .of_settles hgrows.settles_limit ?_
  rintro fuel s rfl
  rfl

/-- Every request that changes nothing settles on its answer. -/
theorem recalls_perform (o : Outside) (h : r.isChange = false) :
    Recalls o (perform · r) (o.answer r) := by
  cases r with
  | register e => cases h
  | freeze => cases h
  | program name caller => exact .map (recalls_library o fun lib => lib.get name caller) _
  | callees name => exact .map (recalls_callees o name) _
  | graph => exact .map (recalls_graph o) _
  | validate => exact .map (recalls_libraryWith o Library.validateWith) _
  | dependencyOrder => exact .map (recalls_libraryWith o Library.dependencyOrderWith) _
  | summary =>
    exact .map (.bind (recalls_graph o) fun g =>
      recalls_library o fun lib => .ok (lib.summaryWith g)) _
  | display =>
    refine .of_eq ?_
    rintro fuel s rfl
    rfl
  | maxDegree p => exact .map (recalls_maxDegree o p) _
  | instructionDegree i =>
    refine .map (.look (recalls_operationDegree o.library (recalls_maxDegree o) i.operation) ?_) _
    rintro fuel s rfl
    rfl
  | expand p degree => exact .map (recalls_library o fun lib => lib.expand p degree) _
  | expandFully p =>
    exact .map (.bind (recalls_maxDegree o p) fun degree =>
      recalls_library o fun lib => lib.expand p degree) _
  | expandOnce code => exact .map (recalls_library o fun lib => lib.expandOnce code) _
  | view p degree =>
    refine .map (.look (recalls_build o.library (recalls_maxDegree o) p degree) ?_) _
    rintro fuel s rfl
    rfl
  | run p degree values traced => exact .map (recalls_run o p degree values traced) _

/-- A session settles on the answer that needs no memory. -/
theorem Recalls.settles {f : Nat → SessionM α} {x : Bounded α} (h : Recalls o f x) (hs : s.Sound)
    (ho : s.outside = o) : Bounded.Settles (fun fuel => (answered (f fuel) s).1) x :=
  ⟨fun fuel => h.below fuel s hs ho,
    h.attained.imp_right fun ⟨bound, hbound⟩ => ⟨bound, fun fuel hle => hbound fuel hle s hs ho⟩⟩

/-! ### Changes -/

theorem answer_register (e : Expansion) : s.answer fuel (.register e) =
    if s.frozen then (.error (.error (.frozen e.name)), s)
    else (.ok .done,
      { s with library := s.library.put e, version := s.version + 1, dirty := true }) := by
  rw [answer, perform, answered_map, register, answered_bind_of_ok (answered_get s)]
  cases s.frozen <;> rfl

/-- A session in which a program was registered has outdated memories only. -/
theorem Sound.register (hs : s.Sound) (e : Expansion) :
    Sound { s with library := s.library.put e, version := s.version + 1, dirty := true } where
  callGraph_eq h := by cases h
  degreesVersion_le := Nat.le_succ_of_le hs.degreesVersion_le
  degree_eq hversion := by
    have hle := hs.degreesVersion_le
    have heq : s.degreesVersion = s.version + 1 := hversion
    omega

theorem answered_validate (hs : s.Sound) :
    (answered validate s).1 = (liftM s.library.validate : Bounded Unit) ∧
      (answered validate s).2.Sound ∧ (answered validate s).2.outside = s.outside := by
  have hrecalls := recalls_libraryWith s.outside Library.validateWith
  refine ⟨?_, hrecalls.kept 0 s hs rfl⟩
  rcases (hrecalls.settles hs rfl).attained with hstop | ⟨bound, hbound⟩
  · cases hvalidate : s.library.validate <;> rw [Library.validate] at hvalidate <;>
      simp [outside, hvalidate] at hstop
  · exact hbound bound le_rfl

theorem answer_freeze (s : Session) : s.answer fuel .freeze = match answered validate s with
    | (.ok _, s') => (.ok .done, { s' with frozen := true })
    | (.error stop, s') => (.error stop, s') := by
  rw [answer, perform, answered_map, freeze, answered_bind]
  rcases answered validate s with ⟨stop | _, s'⟩ <;> rfl

/-- A change is made or refused as if nothing was remembered. -/
theorem answer_change (hs : s.Sound) (h : r.isChange = true) :
    (s.answer fuel r).1 = s.outside.answer r ∧ (s.answer fuel r).2.Sound ∧
      (s.answer fuel r).2.outside =
        if (s.answer fuel r).1.isOk then s.outside.after r else s.outside := by
  cases r with
  | register e =>
    rw [answer_register, Outside.answer]
    have hs' := hs.register e
    cases hfrozen : s.frozen with
    | true => exact ⟨by simp [outside, hfrozen], hs, rfl⟩
    | false =>
      rw [hfrozen] at hs'
      exact ⟨by simp [outside, hfrozen], hs',
        by simp [Outside.after, outside, Except.isOk, Except.toBool, hfrozen]⟩
  | freeze =>
    obtain ⟨hvalidate, hs', ho⟩ := answered_validate hs
    rw [answer_freeze, Outside.answer, show s.outside.library = s.library from rfl, ← hvalidate]
    generalize answered validate s = t at hs' ho
    rcases t with ⟨stop | _, s'⟩
    · exact ⟨rfl, hs', ho⟩
    · exact ⟨rfl, ⟨hs'.callGraph_eq, hs'.degreesVersion_le, hs'.degree_eq⟩,
        congrArg (fun o : Outside => { o with frozen := true }) ho⟩
  | _ => cases h

/-! ### Any request -/

/-- A session settles on the answer that needs no memory. -/
theorem settles_answer (hs : s.Sound) (r : Request) :
    Bounded.Settles (fun fuel => (s.answer fuel r).1) (s.outside.answer r) := by
  cases h : r.isChange with
  | true =>
    have hconst : (fun fuel => (s.answer fuel r).1) = fun _ => s.outside.answer r :=
      funext fun fuel => (answer_change hs h).1
    rw [hconst]
    exact .const _
  | false => exact (recalls_perform s.outside h).settles hs rfl

theorem Sound.answer (hs : s.Sound) (fuel : Nat) (r : Request) : (s.answer fuel r).2.Sound := by
  cases h : r.isChange with
  | true => exact (answer_change hs h).2.1
  | false => exact ((recalls_perform s.outside h).kept fuel s hs rfl).1

/-- Changes that succeed change what can be seen of a session, and nothing else does. -/
theorem outside_answer (hs : s.Sound) (fuel : Nat) (r : Request) :
    (s.answer fuel r).2.outside =
      if r.isChange && (s.answer fuel r).1.isOk then s.outside.after r else s.outside := by
  cases h : r.isChange with
  | true => exact (answer_change hs h).2.2
  | false => exact ((recalls_perform s.outside h).kept fuel s hs rfl).2

/-- A request that terminates has this answer. -/
def Gives (s : Session) (r : Request) (x : Bounded Answer) : Prop :=
  x ≠ .error .outOfFuel ∧ ∃ fuel, (s.answer fuel r).1 = x

theorem Sound.gives_iff (hs : s.Sound) {x : Bounded Answer} :
    s.Gives r x ↔ x ≠ .error .outOfFuel ∧ s.outside.answer r = x := by
  refine and_congr_right fun hx => ?_
  match x with
  | .ok a => exact (settles_answer hs r).eq_ok_iff.symm
  | .error (.error cause) => exact (settles_answer hs r).eq_error_iff.symm
  | .error .outOfFuel => exact absurd rfl hx

end Answers

/-! ### Histories -/

/-- The session after requests, each with its fuel. -/
def after (s : Session) : List (Nat × Request) → Session
  | [] => s
  | (fuel, r) :: past => (s.answer fuel r).2.after past

/-- The changes among requests that succeed. -/
def changes (s : Session) : List (Nat × Request) → List (Nat × Request)
  | [] => []
  | (fuel, r) :: past =>
    let later := (s.answer fuel r).2.changes past
    if r.isChange && (s.answer fuel r).1.isOk then (fuel, r) :: later else later

theorem Sound.after {s : Session} (hs : s.Sound) (past : List (Nat × Request)) :
    (s.after past).Sound := by
  induction past generalizing s with
  | nil => exact hs
  | cons request past ih => exact ih (hs.answer request.1 request.2)

/-- What can be seen of a session depends on its changes only, and they succeed again. -/
theorem outside_after_changes {s t : Session} (hs : s.Sound) (ht : t.Sound)
    (ho : t.outside = s.outside) (past : List (Nat × Request)) :
    (t.after (s.changes past)).outside = (s.after past).outside ∧
      t.changes (s.changes past) = s.changes past := by
  induction past generalizing s t with
  | nil => exact ⟨ho, rfl⟩
  | cons request past ih =>
    obtain ⟨fuel, r⟩ := request
    have houtside := outside_answer hs fuel r
    rw [Session.after, Session.changes]
    cases hchange : r.isChange && (s.answer fuel r).1.isOk with
    | false =>
      rw [hchange] at houtside
      simp only [Bool.false_eq_true, if_false]
      exact ih (hs.answer fuel r) ht (ho.trans houtside.symm)
    | true =>
      -- The change has the same effect on both sessions.
      obtain ⟨hr, hok⟩ := Bool.and_eq_true_iff.mp hchange
      have hanswer : (t.answer fuel r).1 = (s.answer fuel r).1 := by
        rw [(answer_change ht hr).1, (answer_change hs hr).1, ho]
      have hagain : (r.isChange && (t.answer fuel r).1.isOk) = true := by rw [hanswer, hchange]
      have houtside' := outside_answer ht fuel r
      rw [hagain, ho] at houtside'
      rw [hchange] at houtside
      obtain ⟨hlater, hchanges⟩ :=
        ih (hs.answer fuel r) (ht.answer fuel r) (houtside'.trans houtside.symm)
      simp only [if_true]
      refine ⟨hlater, ?_⟩
      rw [Session.changes, hagain, if_pos rfl, hchanges]

/-- Whatever was requested of a session, it answers as a new session in which only the changes that
succeeded were made: they succeed there too, and what can be seen of both sessions is the same; a
request terminates in both or in neither, and there is one answer to it. -/
theorem answers_after_changes (past : List (Nat × Request)) :
    empty.changes (empty.changes past) = empty.changes past ∧
      (empty.after (empty.changes past)).outside = (empty.after past).outside ∧
      ∀ r, (∀ x, (empty.after past).Gives r x ↔ (empty.after (empty.changes past)).Gives r x) ∧
        ∀ x y, (empty.after past).Gives r x → (empty.after past).Gives r y → x = y := by
  obtain ⟨ho, hchanges⟩ := outside_after_changes sound_empty sound_empty rfl past
  have hold := sound_empty.after past
  have hnew := sound_empty.after (empty.changes past)
  refine ⟨hchanges, ho, fun r => ⟨fun x => ?_, fun x y hx hy => ?_⟩⟩
  · rw [hold.gives_iff, hnew.gives_iff, ho]
  · exact (hold.gives_iff.mp hx).2.symm.trans (hold.gives_iff.mp hy).2

-- A degree is forgotten with the program it was for, and a program that is no longer registered has
-- its own.
example :
    let one : Program := ⟨"ONE", [.plain none (.increase .result)], List.nodup_nil⟩
    let other : Program := ⟨"ONE", [.plain none (.constantAssignment .result 1)], List.nodup_nil⟩
    (answered (do
      register (.ofProgram one)
      let before ← maxDegree 9 one
      register (.ofProgram other)
      return (before, ← maxDegree 9 other, ← maxDegree 9 one)) empty).1 = .ok (0, 2, 0) := by
  cbv

end Session

end RegisterMachine
