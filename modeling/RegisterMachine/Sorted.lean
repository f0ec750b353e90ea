/-!
# Sorted sets

A finite set of ordered values is kept as a strictly increasing list, so that two sets with the
same members are the same list.

* `insertSorted` — one more member;
* `sortedSet` — the set of the members of a list.
-/

namespace RegisterMachine

variable {α : Type} [LT α] [DecidableLT α] [DecidableEq α]

/-- The set with `a` put in its place. -/
def insertSorted (a : α) : List α → List α
  | [] => [a]
  | b :: bs => if a < b then a :: b :: bs else if a = b then b :: bs else b :: insertSorted a bs

/-- The members of a list, each once, in increasing order. -/
def sortedSet (as : List α) : List α :=
  as.foldr insertSorted []

@[simp] theorem mem_insertSorted {a b : α} {bs : List α} :
    b ∈ insertSorted a bs ↔ b = a ∨ b ∈ bs := by
  induction bs with
  | nil => simp [insertSorted]
  | cons c cs ih =>
    unfold insertSorted
    split
    · simp
    · split
      · rename_i h
        subst h
        simp
      · simp only [List.mem_cons, ih]
        constructor <;> rintro (h | h | h) <;> simp [h]

@[simp] theorem mem_sortedSet {b : α} {as : List α} : b ∈ sortedSet as ↔ b ∈ as := by
  induction as with
  | nil => simp [sortedSet]
  | cons a as ih =>
    rw [sortedSet, List.foldr_cons, mem_insertSorted, ← sortedSet, ih, List.mem_cons]

end RegisterMachine
