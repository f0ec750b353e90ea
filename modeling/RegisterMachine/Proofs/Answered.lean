import RegisterMachine.Proofs.Fuel

/-!
# Requests that change a state

A request to a session reads and changes the state of the session, and has an answer or fails. A
failure keeps the changes that were made before it.

* `answered` — what a request answers in a state, and the state that it leaves;
* `answered_bind` — one request after another.
-/

namespace RegisterMachine

variable {σ α β : Type}

/-- What a request answers in a state, and the state that it leaves. -/
def answered (x : ExceptT Stop (StateM σ) α) (s : σ) : Bounded α × σ :=
  x.run.run s

@[simp] theorem answered_pure (a : α) (s : σ) :
    answered (pure a : ExceptT Stop (StateM σ) α) s = (.ok a, s) := rfl

@[simp] theorem answered_get (s : σ) :
    answered (get : ExceptT Stop (StateM σ) σ) s = (.ok s, s) := rfl

@[simp] theorem answered_modify (f : σ → σ) (s : σ) :
    answered (modify f : ExceptT Stop (StateM σ) PUnit) s = (.ok ⟨⟩, f s) := rfl

/-- One request after another: the second one is made in the state that the first one leaves, and it
is not made if the first one fails. Either way the changes stay. -/
theorem answered_bind (x : ExceptT Stop (StateM σ) α) (f : α → ExceptT Stop (StateM σ) β) (s : σ) :
    answered (x >>= f) s = match answered x s with
      | (.ok a, s') => answered (f a) s'
      | (.error stop, s') => (.error stop, s') := by
  rw [answered, answered, ExceptT.run_bind, StateT.run_bind]
  rcases x.run.run s with ⟨_ | a, s'⟩ <;> rfl

/-- Behind a request with an answer, what is asked next decides. -/
theorem answered_bind_of_ok {x : ExceptT Stop (StateM σ) α} {f : α → ExceptT Stop (StateM σ) β}
    {s s' : σ} {a : α} (h : answered x s = (.ok a, s')) :
    answered (x >>= f) s = answered (f a) s' := by
  rw [answered_bind, h]

/-- A request that fails leaves what is asked next undone. -/
theorem answered_bind_of_error {x : ExceptT Stop (StateM σ) α}
    {f : α → ExceptT Stop (StateM σ) β} {s s' : σ} {stop : Stop}
    (h : answered x s = (.error stop, s')) : answered (x >>= f) s = (.error stop, s') := by
  rw [answered_bind, h]

/-- A request whose answer is worded otherwise. -/
theorem answered_map (f : α → β) (x : ExceptT Stop (StateM σ) α) (s : σ) :
    answered (f <$> x) s = ((answered x s).1.map f, (answered x s).2) := by
  rw [map_eq_pure_bind, answered_bind]
  rcases answered x s with ⟨_ | a, s'⟩ <;> rfl

/-- What is found out without the state leaves the state as it is, also if it fails. -/
@[simp] theorem answered_orStop (e : Except Error α) (s : σ) :
    answered (orStop e : ExceptT Stop (StateM σ) α) s = ((liftM e : Bounded α), s) := by
  cases e <;> rfl

end RegisterMachine
