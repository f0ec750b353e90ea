import RegisterMachine.Proofs.DeclaredLabels
import RegisterMachine.Proofs.Sections
import RegisterMachine.Proofs.StoreKeys

/-!
# Label tables

A program knows where each of its labels is declared. A list of instructions in which a label is
declared again is no program: what is reported is the first instruction that declares a label again,
with the index of the declaration before it. The instructions are taken one after another, so a name
with too many digits that comes earlier is reported instead.

* `DeclaresAt`, `RepeatsAt`, `DanglesAt` — what the instruction at an index does to the labels;
* `duplicateLabel?_eq_some_iff` — the label that is declared again first;
* `Program.ofCode?_eq_duplicateLabel_iff`, `Program.eq_of_ofCode?_eq_error` — why a list is refused;
* `Program.Tabulated`, `Program.tabulated` — the labels and the variables of a program;
* `Program.ofCode?_labelTable` — all of it, for any list of instructions.
-/

namespace RegisterMachine

/-! ### Declarations -/

/-- The instruction at an index declares a label: it carries the label, which is numbered. -/
def DeclaresAt (code : List Instruction) (k : Nat) (l : Label) : Prop :=
  ∃ i, code[k]? = some i ∧ i.label = some l ∧ l.isNumbered = true

/-- The instruction at `second` is the first one that declares a label again, and the one at `first`
has declared it before. -/
structure RepeatsAt (code : List Instruction) (l : Label) (first second : Nat) : Prop where
  lt : first < second
  before : DeclaresAt code first l
  again : DeclaresAt code second l
  earliest : ∀ k < second, ∀ j < k, ∀ l', DeclaresAt code j l' → ¬ DeclaresAt code k l'

/-- The instruction at an index has a target that is numbered, but that nothing declares. -/
def DanglesAt (code : List Instruction) (k : Nat) (l : Label) : Prop :=
  ∃ i, code[k]? = some i ∧ i.target = some l ∧ l.isNumbered = true ∧ ∀ j, ¬ DeclaresAt code j l

variable {code code' : List Instruction} {l : Label} {j k n first second : Nat}

theorem declaresAt_iff : DeclaresAt code k l ↔ ∃ i, code[k]? = some i ∧ i.declared? = some l := by
  simp only [DeclaresAt, Program.declared?_eq_some]

theorem DeclaresAt.lt (h : DeclaresAt code k l) : k < code.length := by
  obtain ⟨i, hi, -⟩ := h
  exact (List.getElem?_eq_some_iff.1 hi).1

theorem declaresAt_append_left (h : k < code.length) :
    DeclaresAt (code ++ code') k l ↔ DeclaresAt code k l := by
  rw [DeclaresAt, DeclaresAt, List.getElem?_append_left h]

theorem declaresAt_length {i : Instruction} :
    DeclaresAt (code ++ i :: code') code.length l ↔ i.declared? = some l := by
  rw [declaresAt_iff, List.getElem?_append_right (Nat.le_refl _), Nat.sub_self]
  simp

theorem declaresAt_concat {i : Instruction} :
    DeclaresAt (code ++ [i]) k l ↔
      DeclaresAt code k l ∨ k = code.length ∧ i.declared? = some l := by
  rcases Nat.lt_trichotomy k code.length with hk | rfl | hk
  · rw [declaresAt_append_left hk]
    exact ⟨.inl, fun h => h.resolve_right fun ⟨he, _⟩ => by omega⟩
  · rw [declaresAt_length]
    exact ⟨fun h => .inr ⟨rfl, h⟩,
      fun h => h.elim (fun h => absurd h.lt (Nat.lt_irrefl _)) And.right⟩
  · refine ⟨fun h => ?_, fun h => ?_⟩
    · have hlt := h.lt
      rw [List.length_append, List.length_singleton] at hlt
      omega
    · rcases h with h | ⟨he, -⟩
      · exact absurd h.lt (by omega)
      · omega

theorem declaresAt_take : DeclaresAt (code.take n) k l ↔ DeclaresAt code k l ∧ k < n := by
  rw [DeclaresAt, DeclaresAt, List.getElem?_take]
  split
  · rename_i hlt
    simp [hlt]
  · rename_i hlt
    simp [hlt]

theorem repeatsAt_take :
    RepeatsAt (code.take n) l first second ↔ RepeatsAt code l first second ∧ second < n := by
  constructor
  · rintro ⟨hlt, hfirst, hsecond, hearliest⟩
    obtain ⟨hsecond, hn⟩ := declaresAt_take.1 hsecond
    refine ⟨⟨hlt, (declaresAt_take.1 hfirst).1, hsecond, fun k hk j hj l' hl' hl => ?_⟩, hn⟩
    exact hearliest k hk j hj l' (declaresAt_take.2 ⟨hl', by omega⟩)
      (declaresAt_take.2 ⟨hl, by omega⟩)
  · rintro ⟨⟨hlt, hfirst, hsecond, hearliest⟩, hn⟩
    refine ⟨hlt, declaresAt_take.2 ⟨hfirst, by omega⟩, declaresAt_take.2 ⟨hsecond, hn⟩,
      fun k hk j hj l' hl' hl => ?_⟩
    exact hearliest k hk j hj l' (declaresAt_take.1 hl').1 (declaresAt_take.1 hl).1

/-! ### Labels declared twice -/

/-- The labels seen so far, with the indices at which they are declared. -/
def Records (seen : List (Label × Nat)) (before : List Instruction) : Prop :=
  ∀ l k, seen.lookup l = some k ↔ DeclaresAt before k l

/-- Labels that have been recorded are declared once. -/
theorem Records.unique {seen : List (Label × Nat)} {before rest : List Instruction}
    (h : Records seen before) (hj : j < before.length) (hk : k < before.length)
    (hlj : DeclaresAt (before ++ rest) j l) (hlk : DeclaresAt (before ++ rest) k l) : j = k := by
  have hj' := (h l j).2 ((declaresAt_append_left hj).1 hlj)
  have hk' := (h l k).2 ((declaresAt_append_left hk).1 hlk)
  exact Option.some.inj (hj'.symm.trans hk')

theorem Records.concat_none {seen : List (Label × Nat)} {before : List Instruction}
    {i : Instruction} (h : Records seen before) (hi : i.declared? = none) :
    Records seen (before ++ [i]) := by
  intro l k
  rw [h l k, declaresAt_concat, hi]
  simp

theorem Records.concat_some {seen : List (Label × Nat)} {before : List Instruction}
    {i : Instruction} (h : Records seen before) (hi : i.declared? = some l)
    (hl : seen.lookup l = none) : Records ((l, before.length) :: seen) (before ++ [i]) := by
  intro l' k
  rw [declaresAt_concat, hi, ← h l' k, List.lookup_cons]
  rcases eq_or_ne l' l with rfl | hne
  · rw [beq_self_eq_true, hl]
    simp [eq_comm]
  · rw [beq_eq_false_iff_ne.2 hne]
    simp [hne.symm]

/-- What is found behind some instructions that declare no label again, if these have been
recorded. -/
theorem duplicateFrom_eq_some_iff {seen : List (Label × Nat)} {before : List Instruction}
    (h : Records seen before) (code : List Instruction) :
    duplicateFrom seen before.length code = some (l, first, second) ↔
      RepeatsAt (before ++ code) l first second := by
  induction code generalizing seen before with
  | nil =>
    rw [duplicateFrom]
    refine iff_of_false (Option.some_ne_none _).symm fun hrepeats => ?_
    have hlt : second < before.length := by simpa using hrepeats.again.lt
    have heq := h.unique (hrepeats.lt.trans hlt) hlt hrepeats.before hrepeats.again
    exact hrepeats.lt.ne heq
  | cons i code ih =>
    have hassoc : before ++ i :: code = (before ++ [i]) ++ code := by
      rw [List.append_assoc, List.singleton_append]
    have hlength : (before ++ [i]).length = before.length + 1 := by
      rw [List.length_append, List.length_singleton]
    rw [duplicateFrom]
    rcases hi : i.declared? with _ | l₀
    · rw [hassoc, ← ih (h.concat_none hi), hlength]
    rcases hl₀ : seen.lookup l₀ with _ | first₀
    · simp only [hl₀]
      rw [hassoc, ← ih (h.concat_some hi hl₀), hlength]
    simp only [hl₀, Option.some.injEq, Prod.mk.injEq]
    have hdeclared : DeclaresAt before first₀ l₀ := (h l₀ first₀).1 hl₀
    have hbefore : DeclaresAt (before ++ i :: code) first₀ l₀ :=
      (declaresAt_append_left hdeclared.lt).2 hdeclared
    have hagain : DeclaresAt (before ++ i :: code) before.length l₀ := declaresAt_length.2 hi
    constructor
    · rintro ⟨rfl, rfl, rfl⟩
      refine ⟨hdeclared.lt, hbefore, hagain, fun k hk j hj l' hl' hl => ?_⟩
      exact hj.ne (h.unique (hj.trans hk) hk hl' hl)
    · intro hrepeats
      -- The second declaration is neither before this instruction nor behind it.
      have hge : ¬ second < before.length := fun hlt =>
        hrepeats.lt.ne (h.unique (hrepeats.lt.trans hlt) hlt hrepeats.before hrepeats.again)
      have hle : ¬ before.length < second := fun hlt =>
        hrepeats.earliest _ hlt _ hdeclared.lt _ hbefore hagain
      obtain rfl : second = before.length := by omega
      obtain rfl : l₀ = l := Option.some.inj (hi.symm.trans (declaresAt_length.1 hrepeats.again))
      exact ⟨rfl, h.unique hdeclared.lt hrepeats.lt hbefore hrepeats.before, rfl⟩

/-- The label that is declared again first, with its first two declarations. -/
theorem duplicateLabel?_eq_some_iff :
    duplicateLabel? code = some (l, first, second) ↔ RepeatsAt code l first second := by
  have hrecords : Records [] [] := fun l k => ⟨nofun, fun h => absurd h.lt (Nat.not_lt_zero _)⟩
  exact duplicateFrom_eq_some_iff hrecords code

theorem nodup_declaredLabels_iff :
    (declaredLabels code).Nodup ↔
      ∀ l j k, DeclaresAt code j l → DeclaresAt code k l → j = k := by
  rw [declaredLabels, List.Nodup, List.pairwise_filterMap, List.pairwise_iff_getElem]
  constructor
  · intro h l j k hj hk
    obtain ⟨i, hi, hli⟩ := declaresAt_iff.1 hj
    obtain ⟨i', hi', hli'⟩ := declaresAt_iff.1 hk
    obtain ⟨hjlt, rfl⟩ := List.getElem?_eq_some_iff.1 hi
    obtain ⟨hklt, rfl⟩ := List.getElem?_eq_some_iff.1 hi'
    rcases Nat.lt_trichotomy j k with hlt | rfl | hlt
    · exact absurd rfl (h j k hjlt hklt hlt l hli l hli')
    · rfl
    · exact absurd rfl (h k j hklt hjlt hlt l hli' l hli)
  · intro h j k hj hk hlt l hl l' hl' he
    subst he
    have hdeclares : ∀ {k} (hk : k < code.length),
        code[k].declared? = some l → DeclaresAt code k l :=
      fun hk hl => declaresAt_iff.2 ⟨_, List.getElem?_eq_getElem hk, hl⟩
    exact hlt.ne (h l j k (hdeclares hj hl) (hdeclares hk hl'))

/-- Some label is declared again if and only if two instructions declare the same one. -/
theorem exists_repeatsAt_iff :
    (∃ l first second, RepeatsAt code l first second) ↔
      ∃ l j k, j ≠ k ∧ DeclaresAt code j l ∧ DeclaresAt code k l := by
  constructor
  · rintro ⟨l, first, second, h⟩
    exact ⟨l, first, second, h.lt.ne, h.before, h.again⟩
  · rintro ⟨l, j, k, hne, hj, hk⟩
    rcases hduplicate : duplicateLabel? code with _ | ⟨l', first, second⟩
    · exact absurd (nodup_declaredLabels_iff.1 (nodup_declaredLabels hduplicate) l j k hj hk) hne
    · exact ⟨l', first, second, duplicateLabel?_eq_some_iff.1 hduplicate⟩

/-! ### The first item of some kind -/

section FirstItem

variable {α β : Type} {f : α → Option β}

private theorem findSome?_zipIdx_from (as : List α) (start : Nat) {b : β} :
    (as.zipIdx start).findSome? (fun (a, i) => (f a).map (·, i)) = some (b, n) ↔
      ∃ k, n = start + k ∧ (∃ a, as[k]? = some a ∧ f a = some b) ∧
        ∀ j < k, ∀ a, as[j]? = some a → f a = none := by
  induction as generalizing start with
  | nil => simp
  | cons a as ih =>
    rw [List.zipIdx_cons, List.findSome?_cons]
    rcases ha : f a with _ | b'
    · simp only [ha, Option.map_none]
      refine (ih (start + 1)).trans ⟨?_, ?_⟩
      · rintro ⟨k, rfl, hk, hbefore⟩
        refine ⟨k + 1, by omega, hk, fun j hj a' ha' => ?_⟩
        rcases j with _ | j
        · exact Option.some.inj ha' ▸ ha
        · exact hbefore j (by omega) a' ha'
      · rintro ⟨_ | k, rfl, ⟨a', hk, hb⟩, hbefore⟩
        · cases ha.symm.trans (Option.some.inj hk ▸ hb)
        · exact ⟨k, by omega, ⟨a', hk, hb⟩, fun j hj a' ha' => hbefore (j + 1) (by omega) a' ha'⟩
    · simp only [ha, Option.map_some]
      constructor
      · intro h
        obtain ⟨rfl, rfl⟩ := Prod.mk.inj (Option.some.inj h)
        exact ⟨0, rfl, ⟨a, rfl, ha⟩, fun j hj => absurd hj (Nat.not_lt_zero j)⟩
      · rintro ⟨_ | k, rfl, ⟨a', hk, hb⟩, hbefore⟩
        · obtain rfl := Option.some.inj hk
          obtain rfl := Option.some.inj (ha.symm.trans hb)
          rfl
        · cases ha.symm.trans (hbefore 0 (Nat.succ_pos k) a rfl)

/-- The first item of a list for which there is a result, with its index. -/
theorem findSome?_zipIdx_eq_some_iff {as : List α} {b : β} :
    as.zipIdx.findSome? (fun (a, i) => (f a).map (·, i)) = some (b, k) ↔
      (∃ a, as[k]? = some a ∧ f a = some b) ∧ ∀ j < k, ∀ a, as[j]? = some a → f a = none := by
  simpa using findSome?_zipIdx_from as 0

end FirstItem

/-! ### Programs of lists -/

namespace Program

variable {name : String} {e : Error}

theorem ofDistinct?_eq_error_iff :
    ofDistinct? name code = .error e ↔
      ∃ l first second,
        RepeatsAt code l first second ∧ e = .duplicateLabel l first second name := by
  rw [ofDistinct?]
  split
  · rename_i l first second hduplicate
    have hrepeats := duplicateLabel?_eq_some_iff.1 hduplicate
    constructor
    · intro h
      exact ⟨l, first, second, hrepeats, (Except.error.inj h).symm⟩
    · rintro ⟨l', first', second', h, rfl⟩
      obtain ⟨rfl, rfl, rfl⟩ : l = l' ∧ first = first' ∧ second = second' := by
        simpa using hduplicate.symm.trans (duplicateLabel?_eq_some_iff.2 h)
      rfl
  · rename_i hduplicate
    refine iff_of_false (by simp) ?_
    rintro ⟨l, first, second, h, -⟩
    cases hduplicate.symm.trans (duplicateLabel?_eq_some_iff.2 h)

/-- Whether the first few instructions of a list hold no name with too many digits. -/
theorem forall_take_hasOverlongName_iff (hk : code.findIdx? Instruction.hasOverlongName = some k) :
    (∀ i ∈ code.take n, i.hasOverlongName = false) ↔ n < k + 1 := by
  obtain ⟨hlt, hname, hbefore⟩ := List.findIdx?_eq_some_iff_getElem.1 hk
  constructor
  · intro h
    by_contra hn
    have hmem : code[k] ∈ code.take n :=
      List.mem_take_iff_getElem.2 ⟨k, by omega, rfl⟩
    rw [h _ hmem] at hname
    cases hname
  · intro hn i hi
    obtain ⟨j, hj, rfl⟩ := List.mem_take_iff_getElem.1 hi
    simpa using hbefore j (by omega)

/-- A list is refused for a label if the label is declared again before any name with too many
digits. -/
theorem ofCode?_eq_duplicateLabel_iff :
    ofCode? name code = .error (.duplicateLabel l first second name) ↔
      RepeatsAt code l first second ∧ ∀ i ∈ code.take second, i.hasOverlongName = false := by
  have hdistinct : ∀ {code}, ofDistinct? name code = .error (.duplicateLabel l first second name) ↔
      RepeatsAt code l first second := by
    intro code
    rw [ofDistinct?_eq_error_iff]
    constructor
    · rintro ⟨l', first', second', h, he⟩
      obtain ⟨rfl, rfl, rfl, -⟩ := Error.duplicateLabel.inj he
      exact h
    · exact fun h => ⟨l, first, second, h, rfl⟩
  rw [ofCode?]
  split
  · rename_i hnames
    rw [hdistinct]
    have hall := List.findIdx?_eq_none_iff.1 hnames
    exact ⟨fun h => ⟨h, fun i hi => hall i (List.mem_of_mem_take hi)⟩, And.left⟩
  · rename_i k hk
    rw [forall_take_hasOverlongName_iff hk, ← repeatsAt_take, ← hdistinct]
    rcases ofDistinct? name (code.take (k + 1)) with e | p
    · rfl
    · exact iff_of_false (by simp) (by simp)

/-- Else a list is refused only for a name with too many digits. -/
theorem eq_of_ofCode?_eq_error (h : ofCode? name code = .error e) :
    (∃ l first second, e = .duplicateLabel l first second name) ∨
      e = .numeral .tooLong ∧ ∃ i ∈ code, i.hasOverlongName = true := by
  rw [ofCode?] at h
  split at h
  · obtain ⟨l, first, second, -, he⟩ := ofDistinct?_eq_error_iff.1 h
    exact .inl ⟨l, first, second, he⟩
  · rename_i k hk
    rcases hdistinct : ofDistinct? name (code.take (k + 1)) with e' | p
    · rw [hdistinct] at h
      obtain rfl := Except.error.inj h
      obtain ⟨l, first, second, -, he⟩ := ofDistinct?_eq_error_iff.1 hdistinct
      exact .inl ⟨l, first, second, he⟩
    · rw [hdistinct] at h
      obtain ⟨hlt, hname, -⟩ := List.findIdx?_eq_some_iff_getElem.1 hk
      exact .inr ⟨(Except.error.inj h).symm, _, List.getElem_mem hlt, hname⟩

/-! ### The labels of a program -/

variable (p : Program)

theorem declaresAt_unique (hj : DeclaresAt p.code j l) (hk : DeclaresAt p.code k l) : j = k :=
  nodup_declaredLabels_iff.1 p.nodup_labels l j k hj hk

theorem indexOf?_eq_some_iff : p.indexOf? l = some k ↔ DeclaresAt p.code k l := by
  rw [indexOf?, List.findIdx?_eq_some_iff_getElem]
  constructor
  · rintro ⟨hk, hd, -⟩
    exact declaresAt_iff.2 ⟨_, List.getElem?_eq_getElem hk, of_decide_eq_true hd⟩
  · intro h
    obtain ⟨i, hi, hd⟩ := declaresAt_iff.1 h
    obtain ⟨hk, rfl⟩ := List.getElem?_eq_some_iff.1 hi
    refine ⟨hk, decide_eq_true hd, fun j hj hdj => ?_⟩
    have hjdeclares : DeclaresAt p.code j l :=
      declaresAt_iff.2 ⟨_, List.getElem?_eq_getElem (hj.trans hk), of_decide_eq_true hdj⟩
    exact absurd (p.declaresAt_unique hjdeclares h) hj.ne

theorem indexOf_eq_ok_iff : p.indexOf (some l) = .ok k ↔ DeclaresAt p.code k l := by
  rw [indexOf, Option.bind_some, ← indexOf?_eq_some_iff]
  rcases p.indexOf? l with _ | k'
  · exact iff_of_false (by simp) (Option.some_ne_none _).symm
  · exact ⟨fun h => congrArg some (Except.ok.inj h),
      fun h => congrArg Except.ok (Option.some.inj h)⟩

theorem indexOf_eq_error {label : Option Label}
    (h : ∀ l k, label = some l → ¬ DeclaresAt p.code k l) :
    p.indexOf label = .error (.unknownLabel label p.name none) := by
  have hnone : label.bind p.indexOf? = none := by
    rcases label with _ | l
    · rfl
    · rw [Option.bind_some, Option.eq_none_iff_forall_ne_some]
      exact fun k hk => h l k rfl (p.indexOf?_eq_some_iff.1 hk)
  rw [indexOf, hnone]

theorem mem_labels : l ∈ p.labels ↔ ∃ k, DeclaresAt p.code k l := by
  rw [labels, declaredLabels, List.mem_filterMap]
  constructor
  · rintro ⟨i, hi, hd⟩
    obtain ⟨k, hk⟩ := List.getElem?_of_mem hi
    exact ⟨k, declaresAt_iff.2 ⟨i, hk, hd⟩⟩
  · rintro ⟨k, h⟩
    obtain ⟨i, hi, hd⟩ := declaresAt_iff.1 h
    exact ⟨i, List.mem_of_getElem? hi, hd⟩

/-- The labels are listed in the order of their declarations. -/
theorem pairwise_labels :
    p.labels.Pairwise fun l l' =>
      ∀ j k, DeclaresAt p.code j l → DeclaresAt p.code k l' → j < k := by
  rw [labels, declaredLabels, List.pairwise_filterMap, List.pairwise_iff_getElem]
  intro j k hj hk hlt l hl l' hl' j' k' hj' hk'
  have hdeclares : ∀ {k} {l : Label} (hk : k < p.code.length), p.code[k].declared? = some l →
      DeclaresAt p.code k l :=
    fun hk hl => declaresAt_iff.2 ⟨_, List.getElem?_eq_getElem hk, hl⟩
  rwa [p.declaresAt_unique hj' (hdeclares hj hl), p.declaresAt_unique hk' (hdeclares hk hl')]

theorem filter_isDangling_iff {i : Instruction} (hi : p.code[k]? = some i) :
    i.target.filter p.isDangling = some l ↔ DanglesAt p.code k l := by
  have hdangling : p.isDangling l = true ↔ l.isNumbered = true ∧ ∀ j, ¬ DeclaresAt p.code j l := by
    rw [isDangling, Bool.and_eq_true, Bool.not_eq_true', ← Bool.not_eq_true,
      List.contains_iff_mem, p.mem_labels, not_exists]
  rw [Option.filter_eq_some_iff, hdangling]
  constructor
  · rintro ⟨htarget, hnumbered, hnone⟩
    exact ⟨i, hi, htarget, hnumbered, hnone⟩
  · rintro ⟨i', hi', htarget, hnumbered, hnone⟩
    obtain rfl := Option.some.inj (hi.symm.trans hi')
    exact ⟨htarget, hnumbered, hnone⟩

/-- The first target that is not declared. -/
theorem danglingTarget?_eq_some_iff :
    p.danglingTarget? = some (l, k) ↔
      DanglesAt p.code k l ∧ ∀ j < k, ∀ l', ¬ DanglesAt p.code j l' := by
  refine (findSome?_zipIdx_eq_some_iff
    (f := fun i : Instruction => i.target.filter p.isDangling)).trans
    (and_congr ⟨?_, ?_⟩ (forall₂_congr fun j _ => ⟨?_, ?_⟩))
  · rintro ⟨i, hi, hl⟩
    exact (p.filter_isDangling_iff hi).1 hl
  · intro h
    obtain ⟨i, hi, -⟩ := id h
    exact ⟨i, hi, (p.filter_isDangling_iff hi).2 h⟩
  · intro hnone l' h
    obtain ⟨i, hi, -⟩ := id h
    cases (hnone i hi).symm.trans ((p.filter_isDangling_iff hi).2 h)
  · intro h i hi
    rw [Option.eq_none_iff_forall_ne_some]
    exact fun l' hl' => h l' ((p.filter_isDangling_iff hi).1 hl')

theorem validate_eq_error_iff {e : Error} :
    p.validate = .error e ↔ ∃ l k, e = .unknownLabel (some l) p.name (some k) ∧
      DanglesAt p.code k l ∧ ∀ j < k, ∀ l', ¬ DanglesAt p.code j l' := by
  rw [validate]
  rcases hd : p.danglingTarget? with _ | ⟨l, k⟩
  · refine iff_of_false (by simp) ?_
    rintro ⟨l, k, -, h⟩
    cases hd.symm.trans (p.danglingTarget?_eq_some_iff.2 h)
  · constructor
    · intro h
      exact ⟨l, k, (Except.error.inj h).symm, p.danglingTarget?_eq_some_iff.1 hd⟩
    · rintro ⟨l', k', rfl, h⟩
      obtain ⟨rfl, rfl⟩ : l = l' ∧ k = k' := by
        simpa using hd.symm.trans (p.danglingTarget?_eq_some_iff.2 h)
      rfl

theorem validate_eq_ok_iff_forall_not_danglesAt :
    p.validate = .ok () ↔ ∀ l k, ¬ DanglesAt p.code k l := by
  constructor
  · rintro h (_ | index) k ⟨i, hi, htarget, hnumbered, hnone⟩
    · cases hnumbered
    · obtain ⟨j, hj⟩ := validate_eq_ok_iff.1 h i (List.mem_of_getElem? hi) _ htarget
      obtain ⟨i', hi', hl⟩ := placeOf_numbered_iff.1 hj
      exact hnone j ⟨i', hi', hl, rfl⟩
  · refine fun h => validate_eq_ok_iff.2 fun i hi l htarget => ?_
    rcases l with _ | index
    · exact ⟨_, rfl⟩
    · by_contra hnone
      obtain ⟨k, hk⟩ := List.getElem?_of_mem hi
      refine h _ k ⟨i, hk, htarget, rfl, fun j hj => hnone ⟨j, ?_⟩⟩
      obtain ⟨i', hi', hl, -⟩ := hj
      exact placeOf_numbered_iff.2 ⟨i', hi', hl⟩

/-- What a program knows of its labels and its variables. -/
structure Tabulated : Prop where
  /-- A label is found at the instruction that declares it. -/
  indexOf_eq_ok_iff : ∀ l k, p.indexOf (some l) = .ok k ↔ DeclaresAt p.code k l
  /-- No other label is found, be it numbered, `EXIT` or lacking. -/
  indexOf_eq_error : ∀ label : Option Label, (∀ l k, label = some l → ¬ DeclaresAt p.code k l) →
    p.indexOf label = .error (.unknownLabel label p.name none)
  /-- The declared labels are listed. -/
  mem_labels : ∀ l, l ∈ p.labels ↔ ∃ k, DeclaresAt p.code k l
  /-- Each of them is listed once. -/
  nodup_labels : p.labels.Nodup
  /-- They are listed in the order of their declarations. -/
  pairwise_labels : p.labels.Pairwise fun l l' =>
    ∀ j k, DeclaresAt p.code j l → DeclaresAt p.code k l' → j < k
  /-- The variables are listed in order, each once. -/
  pairwise_vars : p.vars.Pairwise (· < ·)
  /-- They are those of the operations, in the arguments of calls as well, and spare ones. -/
  mem_vars : ∀ v, v ∈ p.vars ↔ ∃ i ∈ p.code, i.operation.Mentions v ∨ v ∈ i.spareVariables
  /-- The first numbered target that is not declared is reported. -/
  validate_eq_error_iff : ∀ e, p.validate = .error e ↔
    ∃ l k, e = .unknownLabel (some l) p.name (some k) ∧ DanglesAt p.code k l ∧
      ∀ j < k, ∀ l', ¬ DanglesAt p.code j l'
  /-- If there is none, there is nothing to report. -/
  validate_eq_ok_iff : p.validate = .ok () ↔ ∀ l k, ¬ DanglesAt p.code k l

theorem tabulated : p.Tabulated where
  indexOf_eq_ok_iff _ _ := p.indexOf_eq_ok_iff
  indexOf_eq_error _ := p.indexOf_eq_error
  mem_labels _ := p.mem_labels
  nodup_labels := p.nodup_labels
  pairwise_labels := p.pairwise_labels
  pairwise_vars := p.pairwise_vars
  mem_vars v := by
    rw [Program.mem_vars]
    simp only [Instruction.mem_referencedVariables]
  validate_eq_error_iff _ := p.validate_eq_error_iff
  validate_eq_ok_iff := p.validate_eq_ok_iff_forall_not_danglesAt

/-- A list of instructions is refused for a label that is declared again if it holds no name with
too many digits before that, and what is reported is the first instruction that declares a label
again, with the index of the first declaration. Else it is refused only for such a name. If it is
not refused, the program has its labels and its variables in tables. -/
theorem ofCode?_labelTable (name : String) (code : List Instruction) :
    (∀ l first second, ofCode? name code = .error (.duplicateLabel l first second name) ↔
      RepeatsAt code l first second ∧ ∀ i ∈ code.take second, i.hasOverlongName = false) ∧
    ((∃ l first second, RepeatsAt code l first second) ↔
      ∃ l j k, j ≠ k ∧ DeclaresAt code j l ∧ DeclaresAt code k l) ∧
    (∀ e, ofCode? name code = .error e →
      (∃ l first second, e = .duplicateLabel l first second name) ∨
      e = .numeral .tooLong ∧ ∃ i ∈ code, i.hasOverlongName = true) ∧
    ((∃ p, ofCode? name code = .ok p) ↔
      (∀ l j k, DeclaresAt code j l → DeclaresAt code k l → j = k) ∧
        ∀ i ∈ code, i.hasOverlongName = false) ∧
    ∀ p, ofCode? name code = .ok p → p.name = name ∧ p.code = code ∧ p.Tabulated := by
  refine ⟨fun _ _ _ => ofCode?_eq_duplicateLabel_iff, exists_repeatsAt_iff,
    fun _ => eq_of_ofCode?_eq_error, ?_, fun p h => ?_⟩
  · rw [← nodup_declaredLabels_iff]
    constructor
    · rintro ⟨p, h⟩
      obtain ⟨hp, hnames⟩ := ofCode?_eq_ok_iff.1 h
      obtain ⟨rfl, rfl⟩ := Prod.mk.inj hp
      exact ⟨p.nodup_labels, hnames⟩
    · rintro ⟨hnodup, hnames⟩
      exact ⟨⟨name, code, hnodup⟩, ofCode?_eq_ok_iff.2 ⟨rfl, hnames⟩⟩
  · obtain ⟨hname, hcode⟩ := Prod.mk.inj (ofCode?_eq_ok_iff.1 h).1
    exact ⟨hname, hcode, p.tabulated⟩

/-- Labels that are declared out of order, `EXIT` as a label, and targets that are not declared. -/
def detour : List Instruction :=
  [.plain (some (.numbered 1)) (.increase (.work 2)),
   .plain (some .exit) (.quotation .result ⟨"F", [.name "X3"]⟩),
   .plain (some (.numbered 0)) (.jumpNotZero (.work 2) (.numbered 4)),
   .plain none (.gotoLabel (.numbered 6))]

theorem detour_labelTable :
    RepeatsAt (detour ++ detour) (.numbered 1) 0 4 ∧
    ∃ p, ofCode? "DETOUR" detour = .ok p ∧ p.labels = [.numbered 1, .numbered 0] ∧
      p.vars = [.input 2, .result, .work 2] ∧ p.indexOf (some (.numbered 0)) = .ok 2 ∧
      p.indexOf (some .exit) = .error (.unknownLabel (some .exit) "DETOUR" none) ∧
      p.validate = .error (.unknownLabel (some (.numbered 4)) "DETOUR" (some 2)) ∧
      p.Tabulated := by
  obtain ⟨hduplicate, -⟩ := ofCode?_labelTable "DETOUR" (detour ++ detour)
  obtain ⟨-, -, -, -, htable⟩ := ofCode?_labelTable "DETOUR" detour
  have hrefused : ofCode? "DETOUR" (detour ++ detour) =
      .error (.duplicateLabel (.numbered 1) 0 4 "DETOUR") := rfl
  obtain ⟨p, hp, hfacts⟩ : ∃ p, ofCode? "DETOUR" detour = .ok p ∧
      p.labels = [.numbered 1, .numbered 0] ∧ p.vars = [.input 2, .result, .work 2] ∧
      p.indexOf (some (.numbered 0)) = .ok 2 ∧
      p.indexOf (some .exit) = .error (.unknownLabel (some .exit) "DETOUR" none) ∧
      p.validate = .error (.unknownLabel (some (.numbered 4)) "DETOUR" (some 2)) :=
    ⟨_, rfl, rfl, rfl, rfl, rfl, rfl⟩
  obtain ⟨hlabels, hvars, hindex, hexit, hvalidate⟩ := hfacts
  exact ⟨((hduplicate _ _ _).1 hrefused).1, p, hp, hlabels, hvars, hindex, hexit, hvalidate,
    (htable p hp).2.2⟩

/-- A label that is declared twice, behind a name with too many digits. -/
def shadowed : List Instruction :=
  [.plain none (.quotation .result ⟨"F", [.name Variable.longName]⟩),
   .plain (some (.numbered 0)) (.increase .result),
   .plain (some (.numbered 0)) (.increase .result)]

/-- It is the name that is reported, not the label. -/
theorem shadowed_not_duplicateLabel :
    (∃ l j k, j ≠ k ∧ DeclaresAt shadowed j l ∧ DeclaresAt shadowed k l) ∧
      ofCode? "P" shadowed = .error (.numeral .tooLong) := by
  have hname : (Instruction.plain none (.quotation .result
      ⟨"F", [.name Variable.longName]⟩)).hasOverlongName = true := by
    rw [Instruction.hasOverlongName]
    refine List.any_eq_true.2 ⟨.name Variable.longName, by simp [Instruction.arguments,
      Instruction.plain, Operation.call?, Argument.walk, Argument.nodes], ?_⟩
    rw [Argument.isOverlong, Variable.isName_longName, Variable.isOverlong_longName]
    rfl
  have hfirst : shadowed.findIdx? Instruction.hasOverlongName = some 0 := by
    rw [shadowed, List.findIdx?_cons, hname]
    rfl
  refine ⟨⟨.numbered 0, 1, 2, by decide, ⟨_, rfl, rfl, rfl⟩, ⟨_, rfl, rfl, rfl⟩⟩, ?_⟩
  rw [ofCode?, hfirst]
  rfl

end Program

end RegisterMachine
