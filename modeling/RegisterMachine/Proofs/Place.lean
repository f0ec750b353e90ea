import RegisterMachine.Proofs.Path

/-!
# Where labels lead

A program declares no numbered label twice, so an instruction that carries one is where the label
leads to. A program that passes its check has a place for every target.

* `Program.placeOf_numbered_iff` — a numbered label leads to the instruction that carries it;
* `Program.validate_eq_ok_iff` — the check is that every target has a place;
* `Program.Holds` — a program has a list of instructions from a place on.
-/

namespace RegisterMachine

namespace Program

variable {p : Program}

/-! ### Declarations -/

/-- An instruction declares its label if the label is numbered. An `EXIT` in front of a statement is
not a place to jump to. -/
theorem declared?_eq_some {i : Instruction} {l : Label} :
    i.declared? = some l ↔ i.label = some l ∧ l.isNumbered = true := by
  simp [Instruction.declared?, Option.filter_eq_some_iff]

/-- No numbered label is carried twice. -/
theorem index_unique {j k : Nat} {i i' : Instruction} {l : Label} (hi : p.code[j]? = some i)
    (hi' : p.code[k]? = some i') (hd : i.declared? = some l) (hd' : i'.declared? = some l) :
    j = k := by
  have hpair := p.nodup_labels
  rw [declaredLabels, List.Nodup, List.pairwise_filterMap, List.pairwise_iff_getElem] at hpair
  obtain ⟨hj, rfl⟩ := List.getElem?_eq_some_iff.1 hi
  obtain ⟨hk, rfl⟩ := List.getElem?_eq_some_iff.1 hi'
  rcases Nat.lt_trichotomy j k with hlt | rfl | hlt
  · exact absurd rfl (hpair j k hj hk hlt l hd l hd')
  · rfl
  · exact absurd rfl (hpair k j hk hj hlt l hd' l hd)

/-- A numbered label leads to the instruction that carries it. -/
theorem placeOf_numbered_iff {n k : Nat} :
    p.placeOf (.numbered n) = some k ↔
      ∃ i, p.code[k]? = some i ∧ i.label = some (.numbered n) := by
  rw [placeOf, indexOf?]
  constructor
  · intro h
    obtain ⟨hk, hd, -⟩ := List.findIdx?_eq_some_iff_getElem.1 h
    exact ⟨p.code[k], List.getElem?_eq_getElem hk,
      (declared?_eq_some.1 (of_decide_eq_true hd)).1⟩
  · rintro ⟨i, hi, hl⟩
    have hd : i.declared? = some (.numbered n) := declared?_eq_some.2 ⟨hl, rfl⟩
    obtain ⟨hk, rfl⟩ := List.getElem?_eq_some_iff.1 hi
    refine List.findIdx?_eq_some_iff_getElem.2 ⟨hk, decide_eq_true hd, fun j hj hdj => ?_⟩
    have := index_unique (List.getElem?_eq_getElem (hj.trans hk)) hi (of_decide_eq_true hdj) hd
    omega

/-- In a program each label is declared once, so an instruction with a label is found under it. -/
theorem placeOf_of_label {n k : Nat} {i : Instruction} (hi : p.code[k]? = some i)
    (hl : i.label = some (.numbered n)) : p.placeOf (.numbered n) = some k :=
  placeOf_numbered_iff.2 ⟨i, hi, hl⟩

/-- All places to jump to are in the program or right behind it. -/
theorem placeOf_le {l : Label} {k : Nat} (h : p.placeOf l = some k) : k ≤ p.code.length := by
  cases l with
  | exit => exact (Option.some.inj h).symm.le
  | numbered n =>
    obtain ⟨i, hi, -⟩ := placeOf_numbered_iff.1 h
    exact (List.getElem?_eq_some_iff.1 hi).1.le

/-- An instruction leads to a place in the program or right behind it. -/
theorem goOn_le {place k : Nat} {jump : Option Label} (hp : place < p.code.length)
    (h : p.goOn (place + 1) jump = some k) : k ≤ p.code.length := by
  cases jump with
  | none =>
    obtain rfl := Option.some.inj h
    exact hp
  | some l => exact placeOf_le h

/-- A step leads to a place in the program or to its end. -/
theorem Step.le {ev : Meaning} {cost : Nat} {c d : Config} (h : Step ev p cost c d) :
    d.place ≤ p.code.length := by
  have hlt := h.lt
  obtain ⟨-, -, ha⟩ := h
  exact goOn_le hlt ha

/-- A path that starts in a program stays there until it ends right behind it. -/
theorem Path.le {ev : Meaning} {n cost : Nat} {c d : Config} (h : Path ev p n cost c d)
    (hc : c.place ≤ p.code.length) : d.place ≤ p.code.length := by
  induction h with
  | refl => exact hc
  | head step _ ih => exact ih step.le

/-! ### The check of targets -/

/-- A label does not dangle if it has a place. -/
theorem isDangling_eq_false_iff {l : Label} :
    p.isDangling l = false ↔ ∃ k, p.placeOf l = some k := by
  cases l with
  | exit => simp [isDangling, Label.isNumbered, Label.index?, placeOf]
  | numbered n =>
    simp only [isDangling, Label.isNumbered, Label.index?, Option.isSome_some, Bool.true_and,
      Bool.not_eq_false', List.contains_iff_mem, labels, declaredLabels, List.mem_filterMap,
      placeOf_numbered_iff, declared?_eq_some, and_true]
    constructor
    · rintro ⟨i, hi, hl⟩
      obtain ⟨k, hk⟩ := List.getElem?_of_mem hi
      exact ⟨k, i, hk, hl⟩
    · rintro ⟨k, i, hi, hl⟩
      exact ⟨i, List.mem_of_getElem? hi, hl⟩

/-- A program passes its check if and only if every target has a place. -/
theorem validate_eq_ok_iff :
    p.validate = .ok () ↔ ∀ i ∈ p.code, ∀ l, i.target = some l → ∃ k, p.placeOf l = some k := by
  have hnone : p.validate = .ok () ↔ p.danglingTarget? = none := by
    rw [validate]
    cases p.danglingTarget? <;> simp
  rw [hnone, danglingTarget?, List.findSome?_eq_none_iff]
  simp only [Option.map_eq_none_iff, Option.filter_eq_none_iff, Prod.forall, ← Bool.not_eq_true,
    ← isDangling_eq_false_iff]
  constructor
  · intro h i hi l hl
    obtain ⟨k, hk⟩ := List.getElem?_of_mem hi
    simpa using h i k (List.mem_zipIdx_iff_getElem?.2 hk) l hl
  · intro h i k hi l hl
    simpa using h i (List.mem_of_getElem? (List.mem_zipIdx_iff_getElem?.1 hi)) l hl

/-- In a program that passes its check, every jump has a place to lead to. -/
theorem exists_placeOf (h : p.validate = .ok ()) {i : Instruction} (hi : i ∈ p.code) {l : Label}
    (hl : i.operation.target? = some l) : ∃ k, p.placeOf l = some k :=
  validate_eq_ok_iff.1 h i hi l (by simp [Instruction.target, hl])

/-- In a program that passes its check, every outcome says where to go on. -/
theorem exists_goOn (h : p.validate = .ok ()) {i : Instruction} (hi : i ∈ p.code)
    {value : Call → Bounded (Nat × Nat)} {env : Valuation} {out : Outcome}
    (ho : i.operation.outcome value env = .ok out) (place : Nat) :
    ∃ next, p.goOn place out.jump = some next := by
  cases hj : out.jump with
  | none => exact ⟨place, rfl⟩
  | some l => exact exists_placeOf h hi (Operation.target?_eq_of_jump ho hj)

/-! ### Fragments -/

/-- The program has a list of instructions from a place on. -/
def Holds (p : Program) (base : Nat) (fragment : List Instruction) : Prop :=
  ∀ k i, fragment[k]? = some i → p.code[base + k]? = some i

/-- A part of a program stands where the part before it ends. -/
theorem holds_of_eq {before fragment behind : List Instruction}
    (h : p.code = before ++ fragment ++ behind) : p.Holds before.length fragment := by
  intro k i hi
  obtain ⟨hk, -⟩ := List.getElem?_eq_some_iff.1 hi
  rw [h, List.append_assoc, List.getElem?_append_right (by omega), Nat.add_sub_cancel_left,
    List.getElem?_append_left hk, hi]

/-- A list that stands in a program has its first part at the same place. -/
theorem Holds.left {base : Nat} {as bs : List Instruction} (h : p.Holds base (as ++ bs)) :
    p.Holds base as := by
  intro k i hi
  obtain ⟨hk, -⟩ := List.getElem?_eq_some_iff.1 hi
  exact h k i (by rw [List.getElem?_append_left hk, hi])

/-- A list that stands in a program has its second part behind the first one. -/
theorem Holds.right {base : Nat} {as bs : List Instruction} (h : p.Holds base (as ++ bs)) :
    p.Holds (base + as.length) bs := by
  intro k i hi
  rw [Nat.add_assoc]
  exact h (as.length + k) i (by
    rw [List.getElem?_append_right (by omega), Nat.add_sub_cancel_left, hi])

theorem Holds.head {base : Nat} {i : Instruction} {is : List Instruction}
    (h : p.Holds base (i :: is)) : p.code[base]? = some i :=
  h 0 i rfl

theorem Holds.tail {base : Nat} {i : Instruction} {is : List Instruction}
    (h : p.Holds base (i :: is)) : p.Holds (base + 1) is := by
  rw [← List.singleton_append] at h
  exact h.right

end Program

end RegisterMachine
