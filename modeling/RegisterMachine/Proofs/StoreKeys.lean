import RegisterMachine.Proofs.Store

/-!
# Keys of stores

The sets of variables that programs mention are strictly increasing lists, and so are the variables
of a store. A store starts with the variables of its program and the result variable; setting one of
them changes its value in place, so the variables of a store never change.

* `pairwise_insertSorted`, `pairwise_sortedSet` — sorted sets are strictly increasing;
* `sortedSet_eq` — they are told by their members;
* `Store.vars_ofVariables`, `Store.vars_set` — the variables of a store;
* `Store.find?_set` — setting a variable changes its entry and no other.
-/

namespace RegisterMachine

/-! ### Sorted sets -/

section Sorted

variable {α : Type} [LT α] [DecidableLT α] [DecidableEq α]
  [Trans (α := α) (· < ·) (· < ·) (· < ·)] [Std.Trichotomous (α := α) (· < ·)]

theorem pairwise_insertSorted {a : α} {bs : List α} (h : bs.Pairwise (· < ·)) :
    (insertSorted a bs).Pairwise (· < ·) := by
  induction bs with
  | nil => exact List.pairwise_singleton _ _
  | cons b bs ih =>
    obtain ⟨hb, hbs⟩ := List.pairwise_cons.1 h
    rw [insertSorted]
    split
    · rename_i hab
      refine List.pairwise_cons.2 ⟨List.forall_mem_cons.2 ⟨hab, fun c hc => ?_⟩, h⟩
      exact Trans.trans hab (hb c hc)
    · rename_i hab
      split
      · exact h
      · rename_i hne
        have hba : b < a := by
          by_contra hba
          exact hne (Std.Trichotomous.trichotomous a b hab hba)
        refine List.pairwise_cons.2 ⟨fun c hc => ?_, ih hbs⟩
        rcases mem_insertSorted.1 hc with rfl | hc
        · exact hba
        · exact hb c hc

/-- A sorted set is strictly increasing. -/
theorem pairwise_sortedSet (as : List α) : (sortedSet as).Pairwise (· < ·) := by
  induction as with
  | nil => exact .nil
  | cons a as ih => exact pairwise_insertSorted ih

/-- Sorted sets with the same members are equal. -/
theorem sortedSet_eq [Std.Irrefl (α := α) (· < ·)] {as bs : List α} (h : ∀ a, a ∈ as ↔ a ∈ bs) :
    sortedSet as = sortedSet bs := by
  have hirrefl : ∀ a : α, ¬ a < a := Std.Irrefl.irrefl
  have hnodup : ∀ cs : List α, (sortedSet cs).Nodup := fun cs =>
    (pairwise_sortedSet cs).imp fun hlt heq => absurd (heq ▸ hlt) (hirrefl _)
  have hperm : (sortedSet as).Perm (sortedSet bs) :=
    (List.perm_ext_iff_of_nodup (hnodup as) (hnodup bs)).2 fun a => by
      rw [mem_sortedSet, mem_sortedSet, h]
  exact List.Perm.eq_of_pairwise
    (fun a b _ _ hab hba => absurd (Trans.trans hab hba) (hirrefl a))
    (pairwise_sortedSet as) (pairwise_sortedSet bs) hperm

end Sorted

/-! ### Variables -/

namespace Variable

theorem lt_iff {v w : Variable} :
    v < w ↔ v.rank < w.rank ∨ (v.rank = w.rank ∧ v.number < w.number) :=
  Iff.rfl

theorem lt_irrefl (v : Variable) : ¬ v < v := by
  rw [lt_iff]
  omega

instance : Std.Irrefl (α := Variable) (· < ·) where
  irrefl := lt_irrefl

instance : Trans (α := Variable) (· < ·) (· < ·) (· < ·) where
  trans {u v w} huv hvw := by
    rw [lt_iff] at huv hvw ⊢
    omega

/-- A variable is told by its kind and its number. -/
theorem eq_of_rank_eq_of_number_eq {v w : Variable} (hrank : v.rank = w.rank)
    (hnumber : v.number = w.number) : v = w := by
  cases v <;> cases w <;> simp_all [rank, number]

instance : Std.Trichotomous (α := Variable) (· < ·) where
  trichotomous v w hvw hwv := by
    rw [lt_iff] at hvw hwv
    exact eq_of_rank_eq_of_number_eq (by omega) (by omega)

end Variable

/-- The variables that a program mentions are listed in order, each once. -/
theorem Program.pairwise_vars (p : Program) : p.vars.Pairwise (· < ·) :=
  pairwise_sortedSet _

/-! ### Stores -/

namespace Store

/-- The variables of a store are in order, each once. -/
def Ordered (s : Store) : Prop :=
  s.vars.Pairwise (· < ·)

theorem vars_ofVariables (vs : List Variable) (value : Variable → Nat) :
    (ofVariables vs value).vars = insertSorted .result vs := by
  rw [vars, ofVariables, List.map_map]
  exact List.map_id _

private theorem map_fst_putInto {v : Variable} {n : Nat} {entries : List (Variable × Nat)}
    (h : (entries.map Prod.fst).Pairwise (· < ·)) (hv : v ∈ entries.map Prod.fst) :
    (putInto v n entries).map Prod.fst = entries.map Prod.fst := by
  induction entries with
  | nil => cases hv
  | cons entry entries ih =>
    obtain ⟨w, m⟩ := entry
    obtain ⟨hw, hentries⟩ := List.pairwise_cons.1 h
    rw [putInto]
    by_cases hvw : v = w
    · rw [if_pos hvw, hvw]
      rfl
    · have hmem : v ∈ entries.map Prod.fst := (List.mem_cons.1 hv).resolve_left hvw
      -- The variable comes later in the list, so it is not below the first one.
      have hlt : ¬ v < w := fun hlt => Variable.lt_irrefl v (Trans.trans hlt (hw v hmem))
      rw [if_neg hvw, if_neg hlt, List.map_cons, ih hentries hmem]
      rfl

/-- Setting a variable of a store leaves the variables as they are. -/
theorem vars_set {s : Store} {v : Variable} (h : s.Ordered) (hv : v ∈ s.vars) (n : Nat) :
    (s.set v n).vars = s.vars :=
  map_fst_putInto h hv

/-- Setting a variable changes its entry and no other. -/
theorem find?_set (s : Store) (v w : Variable) (n : Nat) :
    (s.set v n).find? w = if w = v then some n else s.find? w :=
  lookup_putInto v w n s.entries

/-- A store holds values for its variables, and for no others. -/
theorem isSome_find?_iff {s : Store} {v : Variable} : (s.find? v).isSome ↔ v ∈ s.vars := by
  rw [find?, vars, List.mem_map]
  induction s.entries with
  | nil => simp
  | cons entry entries ih =>
    obtain ⟨w, m⟩ := entry
    rw [List.lookup_cons]
    cases h : v == w with
    | true => simp [eq_of_beq h]
    | false =>
      have hne : w ≠ v := fun hwv => ne_of_beq_false h hwv.symm
      simp [hne, ih]

end Store

end RegisterMachine
