import Mathlib.Algebra.Order.Group.Nat
import Mathlib.Data.List.Forall2
import RegisterMachine.Bounded

/-!
# Growing fuel

A bounded computation that ran out of fuel says nothing, so more fuel may replace its result by any
other, and by none once it has an answer or an error. A family of bounded computations, one for each
amount of fuel, *settles on* what it gives for all large amounts.

* `Bounded.Below x y` — `y` is what `x` becomes with more fuel;
* `Bounded.Settles f x` — the family `f` settles on `x`, and if it never stops, `x` is `outOfFuel`;
* `Bounded.limit` — what a family settles on, provided that it only grows.

Both relations are kept by sequencing, so what is put together from settling pieces settles.
-/

namespace RegisterMachine.Bounded

variable {ε α β : Type}

/-! ### Sequencing -/

@[simp] theorem pure_eq_ok (a : α) : (pure a : Except ε α) = .ok a := rfl

@[simp] theorem throw_eq_error (e : ε) : (throw e : Except ε α) = .error e := rfl

@[simp] theorem ok_bind (a : α) (f : α → Except ε β) : ((.ok a : Except ε α) >>= f) = f a := rfl

@[simp] theorem error_bind (e : ε) (f : α → Except ε β) :
    ((.error e : Except ε α) >>= f) = .error e := rfl

/-- A computation in two parts succeeds if both parts do. Nearly every proof about a definition in
steps takes it apart with this. -/
theorem bind_eq_ok {x : Except ε α} {f : α → Except ε β} {b : β} :
    (x >>= f) = .ok b ↔ ∃ a, x = .ok a ∧ f a = .ok b := by
  cases x <;> simp

/-- A computation in two parts fails in the first part, or in the second one behind what the first
one gives. -/
theorem bind_eq_error {x : Except ε α} {f : α → Except ε β} {e : ε} :
    (x >>= f) = .error e ↔ x = .error e ∨ ∃ a, x = .ok a ∧ f a = .error e := by
  cases x <;> simp

theorem map_eq_ok {x : Except ε α} {f : α → β} {b : β} :
    f <$> x = .ok b ↔ ∃ a, x = .ok a ∧ f a = b := by
  cases x <;> simp [Functor.map, Except.map]

theorem map_eq_error {x : Except ε α} {f : α → β} {e : ε} :
    f <$> x = .error e ↔ x = .error e := by
  cases x <;> simp [Functor.map, Except.map]

/-- Wording a failure otherwise does not change a success. -/
theorem mapError_eq_ok {δ : Type} {x : Except ε α} {f : ε → δ} {a : α} :
    x.mapError f = .ok a ↔ x = .ok a := by
  cases x <;> simp [Except.mapError]

/-- A failure that is worded otherwise comes from a failure of the computation. -/
theorem mapError_eq_error {δ : Type} {x : Except ε α} {f : ε → δ} {e : δ} :
    x.mapError f = .error e ↔ ∃ cause, x = .error cause ∧ f cause = e := by
  cases x <;> simp [Except.mapError]

/-- Members of a list that are taken over one by one. -/
theorem forall₂_of_mapM {f : α → Except ε β} {as : List α} {bs : List β}
    (h : as.mapM f = .ok bs) : List.Forall₂ (fun a b => f a = .ok b) as bs := by
  induction as generalizing bs with
  | nil =>
    obtain rfl := Except.ok.inj h
    exact .nil
  | cons a as ih =>
    rw [List.mapM_cons] at h
    obtain ⟨b, hb, h⟩ := bind_eq_ok.1 h
    obtain ⟨bs', hbs', h⟩ := bind_eq_ok.1 h
    obtain rfl := Except.ok.inj h
    exact .cons hb (ih hbs')

/-- A second part that always succeeds has no failures of its own. -/
theorem bind_pure_eq_error {x : Except ε α} {f : α → β} {e : ε} :
    (x >>= fun a => pure (f a)) = .error e ↔ x = .error e := by
  cases x <;> simp

/-- Each member of the right list belongs to one of the left list. -/
theorem exists_left_of_forall₂ {R : α → β → Prop} {as : List α} {bs : List β}
    (h : List.Forall₂ R as bs) {b : β} (hb : b ∈ bs) : ∃ a ∈ as, R a b := by
  induction h with
  | nil => cases hb
  | cons hab _ ih =>
    rcases List.mem_cons.1 hb with rfl | hb
    · exact ⟨_, List.mem_cons_self, hab⟩
    · obtain ⟨a, ha, hR⟩ := ih hb
      exact ⟨a, List.mem_cons_of_mem _ ha, hR⟩

/-- What is refused is the first member that is not taken over. -/
theorem mapM_eq_error_iff {f : α → Except ε β} {as : List α} {e : ε} :
    as.mapM f = .error e ↔
      ∃ front a rest, as = front ++ a :: rest ∧ (∀ a' ∈ front, ∃ b, f a' = .ok b) ∧
        f a = .error e := by
  induction as with
  | nil =>
    refine ⟨nofun, ?_⟩
    rintro ⟨front, a, rest, happend, -⟩
    cases front <;> cases happend
  | cons a as ih =>
    rw [List.mapM_cons]
    cases ha : f a with
    | error cause =>
      rw [error_bind]
      constructor
      · intro h
        exact ⟨[], a, as, rfl, nofun, ha.trans (congrArg _ (Except.error.inj h))⟩
      · rintro ⟨_ | ⟨a', front⟩, a'', rest, happend, hfront, herror⟩
        · obtain ⟨rfl, -⟩ := List.cons.inj happend
          rw [Except.error.inj (ha.symm.trans herror)]
        · obtain ⟨rfl, -⟩ := List.cons.inj happend
          obtain ⟨b, hb⟩ := hfront a List.mem_cons_self
          cases ha.symm.trans hb
    | ok b =>
      rw [ok_bind, bind_pure_eq_error, ih]
      constructor
      · rintro ⟨front, a', rest, rfl, hfront, herror⟩
        exact ⟨a :: front, a', rest, rfl, List.forall_mem_cons.2 ⟨⟨b, ha⟩, hfront⟩, herror⟩
      · rintro ⟨_ | ⟨a', front⟩, a'', rest, happend, hfront, herror⟩
        · obtain ⟨rfl, -⟩ := List.cons.inj happend
          cases ha.symm.trans herror
        · obtain ⟨-, rfl⟩ := List.cons.inj happend
          exact ⟨front, a'', rest, rfl, (List.forall_mem_cons.1 hfront).2, herror⟩

/-- A fold that fails does so at a member. -/
theorem exists_of_foldlM_eq_error {f : β → α → Except ε β} {as : List α} {b : β}
    {e : ε} (h : as.foldlM f b = .error e) : ∃ a ∈ as, ∃ b', f b' a = .error e := by
  induction as generalizing b with
  | nil => cases h
  | cons a as ih =>
    rw [List.foldlM_cons] at h
    rcases hfirst : f b a with e' | b'
    · rw [hfirst] at h
      obtain rfl := Except.error.inj h
      exact ⟨a, List.mem_cons_self, b, hfirst⟩
    · rw [hfirst] at h
      obtain ⟨a', ha', hf⟩ := ih h
      exact ⟨a', List.mem_cons_of_mem a ha', hf⟩

@[simp] theorem lift_ok (a : α) : (liftM (.ok a : Except Error α) : Bounded α) = .ok a := rfl

@[simp] theorem lift_error (cause : Error) :
    (liftM (.error cause : Except Error α) : Bounded α) = .error (.error cause) := rfl

/-- A computation without fuel succeeds alike where fuel is counted. -/
theorem lift_eq_ok {x : Except Error α} {a : α} : (liftM x : Bounded α) = .ok a ↔ x = .ok a := by
  cases x <;> simp

/-- What two parts give one after another, if failures are all taken as one. -/
theorem toOption_bind (x : Bounded α) (f : α → Bounded β) :
    (x >>= f).toOption = x.toOption.bind fun a => (f a).toOption := by
  cases x <;> rfl

theorem toOption_eq_some {x : Bounded α} {a : α} : x.toOption = some a ↔ x = .ok a := by
  cases x <;> simp [Except.toOption]

/-! ### Causes of failure -/

/-- If a computation fails, its cause has the property. -/
def FailsAs (P : ε → Prop) (x : Except ε α) : Prop :=
  ∀ e, x = .error e → P e

theorem failsAs_ok {P : ε → Prop} (a : α) : FailsAs P (.ok a) :=
  fun _ h => nomatch h

theorem failsAs_error {P : ε → Prop} {e : ε} (h : P e) : FailsAs P (.error e : Except ε α) :=
  fun _ he => Except.error.inj he ▸ h

/-- If all failures of both parts are of one kind, so are those of the whole. -/
theorem FailsAs.bind {P : ε → Prop} {x : Except ε α} {f : α → Except ε β} (hx : FailsAs P x)
    (hf : ∀ a, x = .ok a → FailsAs P (f a)) : FailsAs P (x >>= f) := by
  cases x with
  | error e => exact failsAs_error (hx e rfl)
  | ok a => exact hf a rfl

/-! ### Growth and settling -/

/-- The first computation ran out of fuel, or both give the same. -/
def Below (x y : Bounded α) : Prop :=
  x = .error .outOfFuel ∨ x = y

/-- The family ends up with `x` for all large amounts of fuel, and before that it is out of fuel. -/
structure Settles (f : Nat → Bounded α) (x : Bounded α) : Prop where
  /-- Any amount of fuel gives `x` or runs out. -/
  below : ∀ fuel, Below (f fuel) x
  /-- If `x` is a result, some amount of fuel gives it, and so does any greater one. -/
  attained : x = .error .outOfFuel ∨ ∃ bound, ∀ fuel, bound ≤ fuel → f fuel = x

/-! ### Growth -/

theorem Below.refl (x : Bounded α) : Below x x :=
  .inr rfl

/-- Answers that more and more fuel gives stay the same from the first one on. -/
theorem Below.trans {x y z : Bounded α} (hxy : Below x y) (hyz : Below y z) : Below x z := by
  rcases hxy with hx | rfl
  · exact .inl hx
  · exact hyz

/-- More fuel does not change a result. -/
theorem Below.eq_of_eq {x y r : Bounded α} (h : Below x y) (hr : r ≠ .error .outOfFuel)
    (hx : x = r) : y = r :=
  (h.resolve_left fun hout => hr (hx.symm.trans hout)).symm.trans hx

theorem Below.eq_ok {x y : Bounded α} {a : α} (h : Below x y) (hx : x = .ok a) : y = .ok a :=
  h.eq_of_eq nofun hx

theorem Below.eq_error {x y : Bounded α} {cause : Error} (h : Below x y)
    (hx : x = .error (.error cause)) : y = .error (.error cause) :=
  h.eq_of_eq nofun hx

/-- Fuel is passed on to both parts of a computation. An answer of the first part is the same with
more fuel, so the second part goes on from there alike. -/
theorem Below.bind {x y : Bounded α} {f g : α → Bounded β} (hxy : Below x y)
    (hfg : ∀ a, Below (f a) (g a)) : Below (x >>= f) (y >>= g) := by
  rcases hxy with rfl | rfl
  · exact .inl rfl
  · cases x with
    | error stop => exact .refl _
    | ok a => exact hfg a

/-- A family in which each amount of fuel gives what the amount before gave, or more. -/
def Grows (f : Nat → Bounded α) : Prop :=
  ∀ fuel, Below (f fuel) (f (fuel + 1))

/-- What one more unit of fuel does not change, any more of it does not change. -/
theorem Grows.below {f : Nat → Bounded α} (h : Grows f) {small large : Nat} (hle : small ≤ large) :
    Below (f small) (f large) := by
  induction large, hle using Nat.le_induction with
  | base => exact .refl _
  | succ large _ ih => exact ih.trans (h large)

/-! ### Settling -/

/-- What needs no fuel has settled from the start. -/
theorem Settles.const (x : Bounded α) : Settles (fun _ => x) x :=
  ⟨fun _ => .refl x, .inr ⟨0, fun _ _ => rfl⟩⟩

/-- Where both parts of a computation settle, so does the whole: with enough fuel for the first part
and then for the second one. -/
theorem Settles.bind {f : Nat → Bounded α} {x : Bounded α} {g : Nat → α → Bounded β}
    {h : α → Bounded β} (hf : Settles f x) (hg : ∀ a, Settles (g · a) (h a)) :
    Settles (fun fuel => f fuel >>= g fuel) (x >>= h) := by
  refine ⟨fun fuel => (hf.below fuel).bind fun a => (hg a).below fuel, ?_⟩
  rcases hf.attained with rfl | ⟨bound, hbound⟩
  · exact .inl rfl
  · cases x with
    | error stop => exact .inr ⟨bound, fun fuel hle => by rw [hbound fuel hle]; rfl⟩
    | ok a =>
      rcases (hg a).attained with ha | ⟨bound', hbound'⟩
      · exact .inl ha
      · refine .inr ⟨max bound bound', fun fuel hle => ?_⟩
        rw [hbound fuel (by omega)]
        exact hbound' fuel (by omega)

/-- A family settles on a result if and only if some amount of fuel gives it. -/
theorem Settles.eq_iff {f : Nat → Bounded α} {x r : Bounded α} (h : Settles f x)
    (hr : r ≠ .error .outOfFuel) : x = r ↔ ∃ fuel, f fuel = r := by
  constructor
  · rintro rfl
    obtain ⟨bound, hbound⟩ := h.attained.resolve_left hr
    exact ⟨bound, hbound bound le_rfl⟩
  · rintro ⟨fuel, hfuel⟩
    exact (h.below fuel).eq_of_eq hr hfuel

/-- A computation that settles has the answers that some amount of fuel gives. -/
theorem Settles.eq_ok_iff {f : Nat → Bounded α} {x : Bounded α} (h : Settles f x) {a : α} :
    x = .ok a ↔ ∃ fuel, f fuel = .ok a :=
  h.eq_iff nofun

/-- A computation that settles has the failures that some amount of fuel gives. -/
theorem Settles.eq_error_iff {f : Nat → Bounded α} {x : Bounded α} (h : Settles f x)
    {cause : Error} :
    x = .error (.error cause) ↔ ∃ fuel, f fuel = .error (.error cause) :=
  h.eq_iff nofun

/-- Two stages of a computation, taken as a family that changes once. -/
theorem Below.settles {x y : Bounded α} (h : Below x y) :
    Settles (fun fuel => if fuel = 0 then x else y) y := by
  refine ⟨fun fuel => ?_, .inr ⟨1, fun fuel hle => if_neg (by omega)⟩⟩
  by_cases hzero : fuel = 0
  · subst hzero
    exact h
  · simpa only [if_neg hzero] using Below.refl y

/-! ### Limits -/

open Classical in
/-- What a family gives with enough fuel. -/
noncomputable def limit (f : Nat → Bounded α) : Bounded α :=
  if h : ∃ fuel, f fuel ≠ .error .outOfFuel then f h.choose else .error .outOfFuel

/-- A family that only grows settles on its limit. -/
theorem Grows.settles_limit {f : Nat → Bounded α} (h : Grows f) : Settles f (limit f) := by
  by_cases hstop : ∃ fuel, f fuel ≠ .error .outOfFuel
  · have hlimit : limit f = f hstop.choose := dif_pos hstop
    have hlater : ∀ fuel, hstop.choose ≤ fuel → f fuel = limit f := fun fuel hle =>
      (((h.below hle).resolve_left hstop.choose_spec).symm.trans hlimit.symm)
    refine ⟨fun fuel => ?_, .inr ⟨_, hlater⟩⟩
    rcases Nat.le_total hstop.choose fuel with hle | hle
    · exact .inr (hlater fuel hle)
    · exact (h.below hle).trans (.inr hlimit.symm)
  · have hnever : ∀ fuel, f fuel = .error .outOfFuel := fun fuel =>
      by_contra fun hne => hstop ⟨fuel, hne⟩
    have hlimit : limit f = .error .outOfFuel := dif_neg hstop
    exact ⟨fun fuel => .inl (hnever fuel), .inl hlimit⟩

end RegisterMachine.Bounded
