import Mathlib.Data.List.Basic
import RegisterMachine.Proofs.Renaming

/-!
# Copies over fresh names

The copy of a program has a fresh variable in the place of each variable and a fresh label in the
place of each label. Put in front of an instruction under the label of its end, it is hosted by
whatever program it stands in.

* `Program.freshFor` — the fresh variable in the place of a variable;
* `Program.hosts_copy` — a program that has the copy, and behind it an instruction under the label
  of its end, hosts the copied program.
-/

namespace RegisterMachine

namespace Supply

/-- The variable is one of those that the supply hands out. -/
def Fresh (s : Supply) (v : Variable) : Prop :=
  ∃ k, v = s.freshVariable k

/-- The supply hands out each variable once. -/
theorem freshVariable_injective {s : Supply} {j k : Nat}
    (h : s.freshVariable j = s.freshVariable k) : j = k := by
  have hwork := Variable.work.inj h
  omega

end Supply

namespace Program

variable {p q : Program} {s : Supply}

/-! ### Variables of a copy -/

/-- The fresh variable in the place of a variable of a copy. -/
def freshFor (p : Program) (s : Supply) (v : Variable) : Variable :=
  (p.copyVariable s v).getD v

/-- The variable in the place of a variable of the copy is the fresh one of the same index in the
list of all of them. -/
theorem copyVariable_of_mem {v : Variable} (h : v ∈ p.copiedVariables) :
    ∃ k, p.copiedVariables[k]? = some v ∧ p.copyVariable s v = some (s.freshVariable k) := by
  obtain ⟨k, hk⟩ : ∃ k, p.copiedVariables.idxOf? v = some k :=
    Option.isSome_iff_exists.1 (List.isSome_idxOf?.2 h)
  obtain ⟨hlt, he, -⟩ := List.idxOf?_eq_some_iff.1 hk
  refine ⟨k, ?_, ?_⟩
  · rw [List.getElem?_eq_getElem hlt, he]
  · rw [copyVariable, hk]
    rfl

/-- Each variable of the copy has one of as many fresh variables as there are variables. -/
theorem exists_freshFor {v : Variable} (h : v ∈ p.copiedVariables) :
    ∃ k < p.copiedVariables.length, p.freshFor s v = s.freshVariable k := by
  obtain ⟨k, hk, hv⟩ := copyVariable_of_mem (s := s) h
  exact ⟨k, (List.getElem?_eq_some_iff.1 hk).1, by rw [freshFor, hv]; rfl⟩

/-- Different variables of the copy have different fresh ones. -/
theorem freshFor_injective {v w : Variable} (hv : v ∈ p.copiedVariables)
    (hw : w ∈ p.copiedVariables) (h : p.freshFor s v = p.freshFor s w) : v = w := by
  obtain ⟨j, hj, hv'⟩ := copyVariable_of_mem (s := s) hv
  obtain ⟨k, hk, hw'⟩ := copyVariable_of_mem (s := s) hw
  rw [freshFor, freshFor, hv', hw'] at h
  obtain rfl := Supply.freshVariable_injective h
  exact Option.some.inj (hj.symm.trans hk)

/-- Variables that are not fresh are outside of a copy. -/
theorem outside_of_not_fresh {w : Variable} (h : ¬ s.Fresh w) : p.Outside (p.copyVariable s) w := by
  intro v hv he
  obtain ⟨k, -, hk⟩ := exists_freshFor (s := s) hv
  exact h ⟨k, he.symm.trans hk⟩

/-! ### Labels of a copy -/

/-- The labels to be replaced in a copy are the numbered ones that an instruction carries or jumps
to. `EXIT` stands for the end of the copy and is not among them. -/
theorem mem_mentionedLabels {l : Label} :
    l ∈ p.mentionedLabels ↔
      l.isNumbered = true ∧ ∃ i ∈ p.code, i.label = some l ∨ i.target = some l := by
  simp only [mentionedLabels, List.mem_eraseDups, List.mem_flatMap, List.mem_filter,
    List.mem_append, Option.mem_toList]
  constructor
  · rintro ⟨i, hi, hl, hn⟩
    exact ⟨hn, i, hi, hl⟩
  · rintro ⟨hn, i, hi, hl⟩
    exact ⟨i, hi, hl, hn⟩

/-- The label in the place of a label is the fresh one of the same index, counted behind the first
one, which is the end of the copy. -/
theorem copyLabel_of_mem {n : Nat} (h : .numbered n ∈ p.mentionedLabels) :
    p.copyLabel s (.numbered n) =
      s.freshLabel (p.mentionedLabels.idxOf (.numbered n) + 1) := by
  obtain ⟨k, hk⟩ : ∃ k, p.mentionedLabels.idxOf? (.numbered n) = some k :=
    Option.isSome_iff_exists.1 (List.isSome_idxOf?.2 h)
  rw [copyLabel, List.idxOf_eq_getD_idxOf?, hk]
  rfl

/-! ### Hosts of a copy -/

/-- A copy in front of an instruction under its end label is hosted by the program around it. -/
theorem hosts_copy {base : Nat} {o : Operation}
    (h : q.Holds base (p.copy s ++ [.plain (some (copyEnd s)) o])) :
    q.Hosts base p (p.copyVariable s) (p.copyLabel s) where
  holds := h.left
  placeOf l k hl := by
    cases l with
    | exit =>
      obtain rfl := Option.some.inj hl
      have hend := h.right.head
      rw [copy, List.length_map] at hend
      exact placeOf_of_label hend rfl
    | numbered n =>
      obtain ⟨i, hi, hlabel⟩ := placeOf_numbered_iff.1 hl
      have hcopy := copyLabel_of_mem (s := s)
        (mem_mentionedLabels.2 ⟨rfl, i, List.mem_of_getElem? hi, .inl hlabel⟩)
      rw [hcopy]
      refine placeOf_of_label (h.left k _ (by rw [copy, List.getElem?_map, hi]; rfl)) ?_
      rw [Instruction.rename, hlabel, Option.map_some, hcopy]
      rfl
  injective v hv w hw he := freshFor_injective hv hw he

end Program

end RegisterMachine
