import Mathlib.Data.List.Forall2
import RegisterMachine.Proofs.Hygiene
import RegisterMachine.Proofs.RoundsNeeded
import RegisterMachine.Proofs.Word

/-!
# Relocation of blocks

What an instruction is replaced by does not depend on where the instruction stands. Two supplies
over lists that contain it, whatever they have handed out before, give the same error or blocks that
take equally many fresh names and differ in nothing but these: put the names of the one supply in
the place of those of the other, name by name and in the arguments of calls as well, and one block
becomes the other.

The one thing that does depend on the list is whether there are such names at all. They are numbered
above everything in the list, and where that leaves numbers that are too long to be written the
instruction has no block over this list.

* `Argument.Renaming.after` — one renaming after another;
* `Instruction.Renamed` — an instruction with other names;
* `Supply.variableTo`, `Supply.labelTo` — the names of one supply in the place of those of another;
* `Block.Renamed`, `Library.BlockOf.exists_renamed` — the blocks of instructions that differ in
  names, over two supplies;
* `Library.expandLine` — what a line is replaced by, and the supply that is left;
* `Library.LacksNames` — there are no names for the block of a line;
* `Library.expandLine_relocated` — the same line with two supplies.
-/

namespace RegisterMachine

open Instruction (plain)

/-! ### Renamings one after another -/

namespace Argument

/-- One renaming after another. -/
def Renaming.after (m m₀ : Renaming) : Renaming := fun v =>
  match m₀ v with
  | some w => some ((m w).getD w)
  | none => m v

variable {m m' m₀ : Renaming}

theorem Renaming.getD_after (v : Variable) :
    ((m.after m₀) v).getD v = (m ((m₀ v).getD v)).getD ((m₀ v).getD v) := by
  rw [after]
  rcases m₀ v with _ | w <;> rfl

mutual

/-- A name that has been put in is replaced again. -/
theorem rename_rename : ∀ a : Argument, (a.rename m₀).rename m = a.rename (m.after m₀)
  | .constant value => by rw [rename, rename, rename]
  | .name text => by
    rw [rename, rename]
    rcases ht : Variable.ofName? text with _ | v
    · simp [rename, ht]
    · rcases hv : m₀ v with _ | w
      · simp [rename, ht, hv, Renaming.after]
      · rcases hw : m w with _ | w' <;> simp [rename, hv, hw, Renaming.after]
  | .call function as => by rw [rename, rename, rename, renameList_renameList as]

theorem renameList_renameList : ∀ as : List Argument,
    renameList m (renameList m₀ as) = renameList (m.after m₀) as
  | [] => by rw [renameList, renameList, renameList]
  | a :: as => by
    rw [renameList, renameList, renameList, rename_rename a, renameList_renameList as]

end

mutual

/-- Only what happens to the variables of an argument matters. -/
theorem rename_congr : ∀ a : Argument, (∀ v ∈ vars [a], m v = m' v) → a.rename m = a.rename m'
  | .constant value, _ => by rw [rename, rename]
  | .name text, h => by
    rw [rename, rename]
    rcases ht : Variable.ofName? text with _ | v
    · rfl
    · rw [Option.bind_some, Option.bind_some, h v (mem_vars_name.2 ht)]
  | .call function as, h => by
    rw [rename, rename, renameList_congr as fun v hv => h v (mem_vars_call.2 hv)]

theorem renameList_congr : ∀ as : List Argument, (∀ v ∈ vars as, m v = m' v) →
    renameList m as = renameList m' as
  | [], _ => by rw [renameList, renameList]
  | a :: as, h => by
    rw [renameList, renameList, rename_congr a fun v hv => h v (mem_vars_cons.2 (.inl hv)),
      renameList_congr as fun v hv => h v (mem_vars_cons.2 (.inr hv))]

end

end Argument

namespace Operation

variable {m m' m₀ : Argument.Renaming} {f f' f₀ : Label → Label}

theorem rename_rename (o : Operation) :
    (o.rename m₀ f₀).rename m f = o.rename (m.after m₀) (f ∘ f₀) := by
  cases o <;> simp [rename, rename.onVariable, rename.onCall, Argument.Renaming.getD_after,
    Argument.renameList_renameList]

/-- Only what happens to the names of an operation matters. -/
theorem rename_congr {o : Operation} (hm : ∀ v, o.Mentions v → m v = m' v)
    (hf : ∀ l, o.target? = some l → f l = f' l) : o.rename m f = o.rename m' f' := by
  have hsubject : ∀ v, o.subject? = some v → rename.onVariable m v = rename.onVariable m' v :=
    fun v hv => by rw [rename.onVariable, rename.onVariable, hm v (.inl hv)]
  have hsource : ∀ v, o.source? = some v → rename.onVariable m v = rename.onVariable m' v :=
    fun v hv => by rw [rename.onVariable, rename.onVariable, hm v (.inr (.inl hv))]
  have hcall : ∀ c, o.call? = some c → rename.onCall m c = rename.onCall m' c := fun c hc => by
    rw [rename.onCall, rename.onCall,
      Argument.renameList_congr _ fun v hv => hm v (.inr (.inr ⟨c, hc, hv⟩))]
  cases o <;> simp_all [rename, subject?, source?, call?, target?]

theorem opcode_rename (o : Operation) : (o.rename m f).opcode = o.opcode := by
  cases o <;> rfl

/-- An operation none of whose names is replaced stays as it is. -/
theorem rename_eq_self {o : Operation} (hm : ∀ v, o.Mentions v → m v = none)
    (hf : ∀ l, o.target? = some l → f l = l) : o.rename m f = o :=
  (rename_congr hm hf).trans (rename_none o)

end Operation

namespace Instruction

variable {m m' m₀ : Argument.Renaming} {f f' f₀ : Label → Label}

/-- The second instruction is the first one with other names. -/
structure Renamed (m : Argument.Renaming) (f : Label → Label) (i i' : Instruction) : Prop where
  label : i'.label = i.label.map f
  operation : i'.operation = i.operation.rename m f
  spareVariables : i'.spareVariables = i.spareVariables.map fun v => (m v).getD v
  target : i'.target = i.target.map f

theorem renamed_rename (m : Argument.Renaming) (f : Label → Label) (i : Instruction) :
    Renamed m f i (i.rename m f) :=
  ⟨rfl, rfl, rfl, target_rename m f i⟩

theorem renamed_map (m : Argument.Renaming) (f : Label → Label) (code : List Instruction) :
    List.Forall₂ (Renamed m f) code (code.map (rename m f)) :=
  List.forall₂_map_right_iff.2 (List.forall₂_same.2 fun i _ => renamed_rename m f i)

/-- Instructions that have been renamed in two ways are renamed from one to the other, if their
names are. -/
theorem Renamed.of_rename {m₁ : Argument.Renaming} {f₁ : Label → Label} {i : Instruction}
    (hm : ∀ v ∈ i.referencedVariables, m₁ v = (m.after m₀) v)
    (hf : ∀ l, i.MentionsLabel l → f₁ l = f (f₀ l)) :
    Renamed m f (i.rename m₀ f₀) (i.rename m₁ f₁) where
  label := by
    rw [rename, rename, Option.map_map]
    exact Option.map_congr fun l hl => hf l (.inl hl)
  operation := by
    rw [rename, rename, Operation.rename_rename]
    refine Operation.rename_congr (fun v hv => hm v (mem_referencedVariables.2 (.inl hv)))
      fun l hl => hf l (.inr ?_)
    rw [Instruction.target, hl, Option.some_or]
  spareVariables := by
    rw [rename, rename, List.map_map]
    refine List.map_congr_left fun v hv => ?_
    rw [hm v (mem_referencedVariables.2 (.inr hv)), Argument.Renaming.getD_after]
    rfl
  target := by
    rw [target_rename, target_rename, Option.map_map]
    exact Option.map_congr fun l hl => hf l (.inr hl)

/-- A renaming leaves all names of an instruction alone. -/
structure Untouched (m : Argument.Renaming) (f : Label → Label) (i : Instruction) : Prop where
  mentions : ∀ v ∈ i.referencedVariables, m v = none
  mentionsLabel : ∀ l, i.MentionsLabel l → f l = l

theorem Untouched.of_mentions {i : Instruction} (h : i.Untouched m f) {v : Variable}
    (hv : i.operation.Mentions v) : m v = none :=
  h.mentions v (mem_referencedVariables.2 (.inl hv))

theorem Untouched.of_target {i : Instruction} (h : i.Untouched m f) {l : Label}
    (hl : i.operation.target? = some l) : f l = l :=
  h.mentionsLabel l (.inr (by rw [target, hl, Option.some_or]))

theorem Untouched.map_label {i : Instruction} (h : i.Untouched m f) : i.label.map f = i.label :=
  (Option.map_congr fun l hl => h.mentionsLabel l (.inl hl)).trans Option.map_id_apply

/-- An instruction that is left alone stays as it is. -/
theorem Untouched.renamed {i : Instruction} (h : i.Untouched m f) : Renamed m f i i where
  label := h.map_label.symm
  operation := (Operation.rename_eq_self (fun _ => h.of_mentions) fun _ => h.of_target).symm
  spareVariables := by
    have hspare : ∀ v ∈ i.spareVariables, (m v).getD v = v := fun v hv => by
      rw [h.mentions v (mem_referencedVariables.2 (.inr hv)), Option.getD_none]
    exact ((List.map_congr_left hspare).trans (List.map_id' _)).symm
  target :=
    ((Option.map_congr fun l hl => h.mentionsLabel l (.inr hl)).trans Option.map_id_apply).symm

end Instruction

/-! ### The names of two supplies -/

namespace Supply

/-- A renaming puts the first few names of the second supply in the place of those of the first
one. -/
structure Relocates (s s' : Supply) (n k : Nat) (m : Argument.Renaming) (f : Label → Label) :
    Prop where
  work : ∀ j < n, m (s.freshVariable j) = some (s'.freshVariable j)
  numbered : ∀ j < k, f (s.freshLabel j) = s'.freshLabel j

/-- The first `n` variables of a supply become those of another one. -/
def variableTo (s s' : Supply) (n : Nat) : Argument.Renaming := fun v =>
  ((List.range n).find? fun j => s.freshVariable j = v).map s'.freshVariable

/-- The first `k` labels of a supply become those of another one. -/
def labelTo (s s' : Supply) (k : Nat) (l : Label) : Label :=
  (((List.range k).find? fun j => s.freshLabel j = l).map s'.freshLabel).getD l

variable {s s' : Supply} {n k : Nat}

theorem find?_range {p : Nat → Bool} {j : Nat} (hj : j < n) (hp : ∀ i, p i = true ↔ i = j) :
    (List.range n).find? p = some j := by
  have hsome : ((List.range n).find? p).isSome = true :=
    List.find?_isSome.2 ⟨j, List.mem_range.2 hj, (hp j).2 rfl⟩
  obtain ⟨i, hi⟩ := Option.isSome_iff_exists.1 hsome
  rw [hi, (hp i).1 (List.find?_some hi)]

theorem relocates (s s' : Supply) (n k : Nat) :
    s.Relocates s' n k (s.variableTo s' n) (s.labelTo s' k) where
  work j hj := by
    rw [variableTo, find?_range hj fun i => ?_, Option.map_some]
    rw [decide_eq_true_eq]
    exact ⟨freshVariable_injective, fun h => h ▸ rfl⟩
  numbered j hj := by
    rw [labelTo, find?_range hj fun i => ?_, Option.map_some, Option.getD_some]
    rw [decide_eq_true_eq]
    exact ⟨freshLabel_injective, fun h => h ▸ rfl⟩

theorem variableTo_eq_none {v : Variable} (h : ¬ s.Fresh v) : s.variableTo s' n v = none := by
  rw [variableTo, Option.map_eq_none_iff, List.find?_eq_none]
  intro j _ hj
  exact h ⟨j, (of_decide_eq_true hj).symm⟩

theorem labelTo_eq_self {l : Label} (h : ∀ j, l ≠ s.freshLabel j) : s.labelTo s' k l = l := by
  have hnone : (List.range k).find? (fun j => s.freshLabel j = l) = none :=
    List.find?_eq_none.2 fun j _ hj => h j (of_decide_eq_true hj).symm
  rw [labelTo, hnone]
  rfl

/-- What is left of the supply over a list of instructions after some names have been handed
out. -/
def Over (s : Supply) (code : List Instruction) : Prop :=
  ∃ variableCount labelCount, s = (ofCode code).skip variableCount labelCount

theorem Over.not_fresh {code : List Instruction} {i : Instruction} (hs : s.Over code)
    (hi : i ∈ code) {v : Variable} (hv : v ∈ i.referencedVariables) : ¬ s.Fresh v := by
  obtain ⟨a, b, rfl⟩ := hs
  exact fun hfresh => not_fresh_ofCode hi hv (Piece.fresh_of_fresh_skip hfresh)

theorem Over.ne_freshLabel {code : List Instruction} {i : Instruction} (hs : s.Over code)
    (hi : i ∈ code) {l : Label} (hl : i.MentionsLabel l) (j : Nat) : l ≠ s.freshLabel j := by
  obtain ⟨a, b, rfl⟩ := hs
  rintro rfl
  have hlt : (ofCode code).firstLabel + b + j < (ofCode code).firstLabel :=
    lt_firstLabel_of_mentionsLabel hi hl
  omega

theorem Over.skip {code : List Instruction} (hs : s.Over code) (n k : Nat) :
    (s.skip n k).Over code := by
  obtain ⟨a, b, rfl⟩ := hs
  exact ⟨a + n, b + k, by simp [Supply.skip, Nat.add_assoc]⟩

/-- The names of the instructions of a list are no names of a supply over it. -/
theorem Over.untouched {code : List Instruction} {i : Instruction} (hs : s.Over code)
    (hi : i ∈ code) (s' : Supply) (n k : Nat) :
    i.Untouched (s.variableTo s' n) (s.labelTo s' k) :=
  ⟨fun _ hv => variableTo_eq_none (hs.not_fresh hi hv),
    fun _ hl => labelTo_eq_self (hs.ne_freshLabel hi hl)⟩

end Supply

/-! ### Blocks -/

namespace Block

variable {m : Argument.Renaming} {f : Label → Label}

/-- The second block is the first one with other names: over any two supplies whose names become
each other it has the same instructions, names apart. -/
structure Renamed (m : Argument.Renaming) (f : Label → Label) (b b' : Block) : Prop where
  variableCount : b'.variableCount = b.variableCount
  labelCount : b'.labelCount = b.labelCount
  body : ∀ s s' : Supply, s.Relocates s' b.variableCount b.labelCount m f →
    List.Forall₂ (Instruction.Renamed m f) (b.body s) (b'.body s')

section Plain

open Operation (rename.onVariable)

theorem renamed_of_eq {code code' : List Instruction}
    (h : code.map (Instruction.rename m f) = code') :
    List.Forall₂ (Instruction.Renamed m f) code code' :=
  h ▸ Instruction.renamed_map m f code

attribute [local simp] plain Instruction.rename Operation.rename rename.onVariable

theorem map_rename_landing (label : Option Label) (v : Variable) :
    (landing label v).map (Instruction.rename m f) =
      landing (label.map f) (rename.onVariable m v) := by
  cases label <;> simp [landing]

variable (label : Option Label) (v source : Variable) (k : Nat) (target : Label)

theorem renamed_zeroVariable : (zeroVariable label v).Renamed m f
    (zeroVariable (label.map f) (rename.onVariable m v)) where
  variableCount := rfl
  labelCount := rfl
  body s s' (hs : s.Relocates s' 0 1 m f) := by
    have hloop := hs.numbered 0 (by decide)
    refine renamed_of_eq ?_
    simp [zeroVariable, map_rename_landing, hloop]

theorem renamed_gotoLabel : (gotoLabel label target).Renamed m f
    (gotoLabel (label.map f) (f target)) where
  variableCount := rfl
  labelCount := rfl
  body s s' (hs : s.Relocates s' 1 0 m f) := by
    have hz := hs.work 0 (by decide)
    refine renamed_of_eq ?_
    simp [gotoLabel, hz]

theorem renamed_constantAssignment : (constantAssignment label v k).Renamed m f
    (constantAssignment (label.map f) (rename.onVariable m v) k) where
  variableCount := rfl
  labelCount := rfl
  body s s' _ := by
    refine renamed_of_eq ?_
    simp [constantAssignment]

theorem renamed_jumpZero : (jumpZero label v target).Renamed m f
    (jumpZero (label.map f) (rename.onVariable m v) (f target)) where
  variableCount := rfl
  labelCount := rfl
  body s s' (hs : s.Relocates s' 0 1 m f) := by
    have hskip := hs.numbered 0 (by decide)
    refine renamed_of_eq ?_
    simp [jumpZero, hskip]

theorem renamed_selfAssignment : (selfAssignment label v).Renamed m f
    (selfAssignment (label.map f) (rename.onVariable m v)) where
  variableCount := rfl
  labelCount := rfl
  body s s' _ := by
    rw [selfAssignment, selfAssignment, body_ofCode, body_ofCode]
    exact renamed_of_eq (map_rename_landing label v)

theorem renamed_assignment : (assignment label v source).Renamed m f
    (assignment (label.map f) (rename.onVariable m v) (rename.onVariable m source)) where
  variableCount := rfl
  labelCount := rfl
  body s s' (hs : s.Relocates s' 1 3 m f) := by
    have hz := hs.work 0 (by decide)
    have hdrain := hs.numbered 0 (by decide)
    have hrestore := hs.numbered 1 (by decide)
    have hdone := hs.numbered 2 (by decide)
    refine renamed_of_eq ?_
    simp [assignment, hz, hdrain, hrestore, hdone]

theorem renamed_jumpEqualConstant : (jumpEqualConstant label v k target).Renamed m f
    (jumpEqualConstant (label.map f) (rename.onVariable m v) k (f target)) where
  variableCount := rfl
  labelCount := rfl
  body s s' (hs : s.Relocates s' 1 1 m f) := by
    have hz := hs.work 0 (by decide)
    have hdiffer := hs.numbered 0 (by decide)
    refine renamed_of_eq ?_
    simp [jumpEqualConstant, hz, hdiffer]

theorem renamed_jumpEqualVariable : (jumpEqualVariable label v source target).Renamed m f
    (jumpEqualVariable (label.map f) (rename.onVariable m v) (rename.onVariable m source)
      (f target)) where
  variableCount := rfl
  labelCount := rfl
  body s s' (hs : s.Relocates s' 2 3 m f) := by
    have hz₁ := hs.work 0 (by decide)
    have hz₂ := hs.work 1 (by decide)
    have hdiffer := hs.numbered 0 (by decide)
    have hloop := hs.numbered 1 (by decide)
    have hdone := hs.numbered 2 (by decide)
    refine renamed_of_eq ?_
    simp [jumpEqualVariable, hz₁, hz₂, hdiffer, hloop, hdone]

end Plain

theorem renamed_self {i i' : Instruction} (h : i.Renamed m f i') :
    (ofCode 0 0 fun _ => [i]).Renamed m f (ofCode 0 0 fun _ => [i']) where
  variableCount := rfl
  labelCount := rfl
  body s s' _ := by
    rw [body_ofCode, body_ofCode]
    exact .cons h .nil

section Inlining

open Program

variable {call : Call} {callee : Program} {entry : Expansion} {v : Variable}
  {bound : List (Variable × Binding)} {finish : Variable → Operation} {s s' : Supply}

/-- The variables of a copy. -/
theorem copyVariable_relocated {k : Nat}
    (hs : s.Relocates s' callee.copiedVariables.length k m f) {u : Variable}
    (hu : u ∈ callee.copiedVariables) :
    m (callee.freshFor s u) = some (callee.freshFor s' u) ∧
      callee.copyVariable s' u = (m.after (callee.copyVariable s)) u := by
  obtain ⟨j, hj⟩ : ∃ j, callee.copiedVariables.idxOf? u = some j :=
    Option.isSome_iff_exists.1 (List.isSome_idxOf?.2 hu)
  have hcopy : ∀ t : Supply, callee.copyVariable t u = some (t.freshVariable j) := fun t => by
    rw [copyVariable, hj, Option.map_some]
  have hwork := hs.work j (List.idxOf?_eq_some_iff.1 hj).1
  refine ⟨?_, ?_⟩
  · rw [freshFor, freshFor, hcopy, hcopy, Option.getD_some, Option.getD_some, hwork]
  · simp only [Argument.Renaming.after, hcopy, hwork, Option.getD_some]

/-- The labels of a copy. -/
theorem copyLabel_relocated {n : Nat}
    (hs : s.Relocates s' n (callee.mentionedLabels.length + 1) m f) {j : Instruction}
    (hj : j ∈ callee.code) {l : Label} (hl : j.MentionsLabel l) :
    callee.copyLabel s' l = f (callee.copyLabel s l) := by
  rcases l with _ | index
  · exact (hs.numbered 0 (Nat.succ_pos _)).symm
  · have hmem : .numbered index ∈ callee.mentionedLabels := mem_mentionedLabels.2 ⟨rfl, j, hj, hl⟩
    rw [copyLabel_of_mem hmem, copyLabel_of_mem hmem]
    exact (hs.numbered _ (Nat.succ_lt_succ (List.idxOf_lt_length_of_mem hmem))).symm

theorem renamed_plain {l l' : Option Label} {o o' : Operation} (hl : l' = l.map f)
    (ho : o' = o.rename m f) : Instruction.Renamed m f (plain l o) (plain l' o') where
  label := hl
  operation := ho
  spareVariables := rfl
  target := by
    subst ho
    exact Instruction.target_rename m f (plain l o)

theorem renamed_map_map {α : Type} {xs : List α} {g g' : α → Instruction}
    (h : ∀ x ∈ xs, Instruction.Renamed m f (g x) (g' x)) :
    List.Forall₂ (Instruction.Renamed m f) (xs.map g) (xs.map g') :=
  List.forall₂_map_left_iff.2 (List.forall₂_map_right_iff.2 (List.forall₂_same.2 h))

/-- What gives a parameter its value, over other names. -/
theorem operation_rename {u u' : Variable} (hu : m u = some u') (b : Binding) :
    (b.rename m).operation u' = (b.operation u).rename m f := by
  cases b <;> simp [Binding.operation, Binding.rename, Operation.rename,
    Operation.rename.onVariable, hu]

/-- An operation with a call does the same with the result over other names. -/
theorem exists_takes_rename {o : Operation} (h : o.Takes v call finish) :
    ∃ finish', (o.rename m f).Takes (Operation.rename.onVariable m v)
        (Operation.rename.onCall m call) finish' ∧
      ∀ r r', m r = some r' → finish' r' = (finish r).rename m f := by
  cases h with
  | quotation =>
    refine ⟨_, .quotation _ _, fun r r' hr => ?_⟩
    simp [Operation.rename, Operation.rename.onVariable, hr]
  | jumpEqualFunction =>
    refine ⟨_, .jumpEqualFunction _ _ _, fun r r' hr => ?_⟩
    simp [Operation.rename, Operation.rename.onVariable, hr]

/-- The block of a call. -/
theorem renamed_inlining {lib : Library} (label : Option Label)
    (hbound : lib.bindings entry.program 0
      (call.arguments.take entry.program.requiredInputs) = .ok bound)
    {finish' : Variable → Operation}
    (hfinish : ∀ r r', m r = some r' → finish' r' = (finish r).rename m f) :
    (inlining label v entry bound finish).Renamed m f
      (inlining (label.map f) (Operation.rename.onVariable m v) entry
        (bound.map (Prod.map id (Binding.rename m))) finish') where
  variableCount := rfl
  labelCount := rfl
  body s s' hs := by
    let callee := entry.program
    have hfresh : ∀ u ∈ callee.copiedVariables,
        m (callee.freshFor s u) = some (callee.freshFor s' u) :=
      fun u hu => (copyVariable_relocated hs hu).1
    -- The parameters are the same, so those that no argument is given for are, too.
    have hothers : unsupplied callee (bound.map (Prod.map id (Binding.rename m))) =
        unsupplied callee bound := by
      rw [unsupplied, unsupplied, List.map_map]
      rfl
    have hwrites : List.Forall₂ (Instruction.Renamed m f)
        ((writes callee s bound).map fun x => plain none x.2)
        ((writes callee s' (bound.map (Prod.map id (Binding.rename m)))).map
          fun x => plain none x.2) := by
      simp only [writes, hothers, List.map_append, List.map_map]
      refine List.rel_append (renamed_map_map fun x hx => renamed_plain rfl ?_)
        (renamed_map_map fun u hu => renamed_plain rfl ?_)
      · have hparameter := (Library.exists_of_mem_bindings hbound hx).1
        exact operation_rename (hfresh _ (mem_copiedVariables.2 (.inl hparameter))) x.2
      · rw [Operation.rename, Operation.rename.onVariable, hfresh u (mem_unsupplied.1 hu).1]
        rfl
    have hcopy : List.Forall₂ (Instruction.Renamed m f) (callee.copy s) (callee.copy s') := by
      refine renamed_map_map fun j hj => .of_rename (fun u hu => ?_) fun l hl => ?_
      · exact (copyVariable_relocated hs (mem_copiedVariables.2 (.inl (mem_vars.2 ⟨j, hj, hu⟩)))).2
      · exact copyLabel_relocated hs hj hl
    have hend : List.Forall₂ (Instruction.Renamed m f)
        [plain (some (copyEnd s)) (finish (callee.copyResult s))]
        [plain (some (copyEnd s')) (finish' (callee.copyResult s'))] := by
      refine .cons (renamed_plain ?_ (hfinish _ _ (hfresh .result ?_))) .nil
      · exact congrArg some (hs.numbered 0 (Nat.succ_pos _)).symm
      · exact mem_copiedVariables.2 (.inr rfl)
    rw [body_inlining, body_inlining]
    exact List.rel_append (List.rel_append (renamed_of_eq (map_rename_landing label v)) hwrites)
      (List.rel_append hcopy hend)

end Inlining

end Block

namespace Library

variable {lib : Library} {i i' : Instruction} {block : Block} {m : Argument.Renaming}
  {f : Label → Label}

/-- The block of an instruction with other names is the block of the instruction with other names. A
variable that is copied to itself has a block of its own, so distinct variables must stay distinct
where one is copied to another. -/
theorem BlockOf.exists_renamed (h : lib.BlockOf i block) (hi : i.Renamed m f i')
    (hcopy : ∀ v source, i.operation = .assignment v source →
      (m v).getD v = (m source).getD source → v = source) :
    ∃ block', lib.BlockOf i' block' ∧ block.Renamed m f block' := by
  obtain ⟨label', operation', spares', spare'⟩ := i'
  have hlabel : label' = i.label.map f := hi.label
  have hoperation : operation' = i.operation.rename m f := hi.operation
  cases h with
  | self hbasic =>
    subst hlabel hoperation
    have hopcode := Operation.opcode_rename (m := m) (f := f) i.operation
    exact ⟨_, .self ((congrArg Opcode.isBasic hopcode).trans hbasic), Block.renamed_self hi⟩
  | call htakes hfind hbound =>
    subst hlabel hoperation
    obtain ⟨finish', htakes', hfinish⟩ := Block.exists_takes_rename (m := m) (f := f) htakes
    have hbound' := (bindings_onCall_eq_ok _ m _).2 ⟨_, hbound, rfl⟩
    exact ⟨_, .call htakes' hfind hbound', Block.renamed_inlining _ hbound hfinish⟩
  | assignment hne =>
    subst hlabel hoperation
    exact ⟨_, .assignment fun he => hne (hcopy _ _ rfl he), Block.renamed_assignment _ _ _⟩
  | zeroVariable v =>
    subst hlabel hoperation
    exact ⟨_, .zeroVariable _, Block.renamed_zeroVariable _ v⟩
  | gotoLabel target =>
    subst hlabel hoperation
    exact ⟨_, .gotoLabel _, Block.renamed_gotoLabel _ target⟩
  | constantAssignment v k =>
    subst hlabel hoperation
    exact ⟨_, .constantAssignment _ k, Block.renamed_constantAssignment _ v k⟩
  | jumpZero v target =>
    subst hlabel hoperation
    exact ⟨_, .jumpZero _ _, Block.renamed_jumpZero _ v target⟩
  | selfAssignment v =>
    subst hlabel hoperation
    exact ⟨_, .selfAssignment _, Block.renamed_selfAssignment _ v⟩
  | jumpEqualConstant v k target =>
    subst hlabel hoperation
    exact ⟨_, .jumpEqualConstant _ k _, Block.renamed_jumpEqualConstant _ v k target⟩
  | jumpEqualVariable v source target =>
    subst hlabel hoperation
    exact ⟨_, .jumpEqualVariable _ _ _, Block.renamed_jumpEqualVariable _ v source target⟩

/-- Over other names than those of the instruction, the block is the same. -/
theorem BlockOf.renamed (h : lib.BlockOf i block) (hi : i.Untouched m f) :
    block.Renamed m f block := by
  obtain ⟨block', hblock', hrenamed⟩ := h.exists_renamed hi.renamed fun v source ho he => by
    have hv : m v = none := hi.of_mentions (.inl (by rw [ho]; rfl))
    have hsource : m source = none := hi.of_mentions (.inr (.inl (by rw [ho]; rfl)))
    rwa [hv, hsource] at he
  rwa [hblock'.unique h] at hrenamed

end Library

/-! ### Lines -/

/-- The second line is the first one with other names, and it comes from the same
instructions. -/
structure Line.Renamed (m : Argument.Renaming) (f : Label → Label) (line line' : Line) : Prop where
  instruction : line.instruction.Renamed m f line'.instruction
  ancestry : line'.ancestry = line.ancestry

namespace Library

variable {lib : Library}

/-- The lines in the place of a line, and the supply that is left. -/
def expandLine (lib : Library) (s : Supply) (line : Line) : Except Error (List Line × Supply) :=
  if line.instruction.isBasic then .ok ([line], s)
  else do
    let block ← lib.block s line.instruction
    return ((block.lines s).map line.derive, s.skip block.variableCount block.labelCount)

/-- A round takes the lines one after another. -/
theorem expandLines_cons (s : Supply) (line : Line) (lines : List Line) :
    lib.expandLines s (line :: lines) =
      lib.expandLine s line >>= fun x => (x.1 ++ ·) <$> lib.expandLines x.2 lines := by
  rw [expandLines, expandLine]
  split
  · exact (map_eq_pure_bind (m := Except Error) _ _).symm
  · rcases lib.block s line.instruction with e | block
    · rfl
    · exact (map_eq_pure_bind (m := Except Error) _ _).symm

/-- A line has no block over a supply, since names that it takes are too long to be written. -/
def LacksNames (lib : Library) (s : Supply) (line : Line) : Prop :=
  lib.Lacks s line.instruction ∧ lib.expandLine s line = .error (.numeral .tooLong)

/-- The lines over one supply, with the names of another one. -/
theorem renamed_derive {line : Line} {block : Block} {code : List Instruction} {s : Supply}
    (hblock : lib.BlockOf line.instruction block) (hs : s.Over code)
    (hline : line.instruction ∈ code) (s' : Supply) :
    List.Forall₂
      (Line.Renamed (s.variableTo s' block.variableCount) (s.labelTo s' block.labelCount))
      ((block.lines s).map line.derive) ((block.lines s').map line.derive) := by
  have hbody := (hblock.renamed (hs.untouched hline s' _ _)).body s s' (s.relocates s' _ _)
  rw [Block.body, Block.body, List.forall₂_map_left_iff, List.forall₂_map_right_iff] at hbody
  rw [List.forall₂_map_left_iff, List.forall₂_map_right_iff]
  exact hbody.imp fun made made' hmade => ⟨hmade, rfl⟩

/-- A line that is not basic has no names, or fails, or has the block of its instruction. -/
theorem expandLine_of_synthetic {line : Line} (hsynthetic : line.instruction.isBasic = false)
    (s : Supply) :
    lib.LacksNames s line ∨
      (∃ cause, lib.CallFails line.instruction cause ∧ lib.expandLine s line = .error cause) ∨
      ∃ block, lib.BlockOf line.instruction block ∧ lib.expandLine s line =
        .ok ((block.lines s).map line.derive, s.skip block.variableCount block.labelCount) := by
  rw [LacksNames, expandLine, if_neg (Bool.eq_false_iff.1 hsynthetic)]
  rcases hblock : lib.block s line.instruction with cause | block
  · rcases block_eq_error hblock with ⟨rfl, hlacks⟩ | hfails
    · exact .inl ⟨hlacks, rfl⟩
    · exact .inr (.inl ⟨cause, hfails, rfl⟩)
  · exact .inr (.inr ⟨block, (block_eq_ok_iff.1 hblock).1, rfl⟩)

/-- What a line is replaced by does not depend on where it stands, as long as there are names for
it. Over any two lists that contain its instruction, and whatever has been handed out before, there
is the same error, or equally many fresh names are taken, and the lines become each other if the
names of one supply are put in the place of those of the other, name by name. There are no names
where a label to hand out, or a variable to name in the arguments of a copied call, has too many
digits. -/
theorem expandLine_relocated {line : Line} {code code' : List Instruction} {s s' : Supply}
    (hs : s.Over code) (hs' : s'.Over code') (hline : line.instruction ∈ code)
    (hline' : line.instruction ∈ code') :
    (lib.LacksNames s line ∨ lib.LacksNames s' line) ∨
      (∃ e, lib.expandLine s line = .error e ∧ lib.expandLine s' line = .error e) ∨
      ∃ lines lines' variableCount labelCount,
        lib.expandLine s line = .ok (lines, s.skip variableCount labelCount) ∧
        lib.expandLine s' line = .ok (lines', s'.skip variableCount labelCount) ∧
        List.Forall₂ (Line.Renamed (s.variableTo s' variableCount) (s.labelTo s' labelCount))
          lines lines' ∧
        List.Forall₂ (Line.Renamed (s'.variableTo s variableCount) (s'.labelTo s labelCount))
          lines' lines := by
  cases hbasic : line.instruction.isBasic with
  | true =>
    have hself := (hs.untouched hline s' 0 0).renamed
    have hself' := (hs'.untouched hline' s 0 0).renamed
    rw [expandLine, expandLine, if_pos hbasic, if_pos hbasic]
    exact .inr (.inr ⟨_, _, 0, 0, rfl, rfl, .cons ⟨hself, rfl⟩ .nil, .cons ⟨hself', rfl⟩ .nil⟩)
  | false =>
    rcases expandLine_of_synthetic hbasic s with hlacks | ⟨e, hfails, he⟩ | ⟨block, hblock, hlines⟩
    · exact .inl (.inl hlacks)
    · rcases expandLine_of_synthetic hbasic s' with hlacks | ⟨e', hfails', he'⟩ | ⟨_, hblock, -⟩
      · exact .inl (.inr hlacks)
      · obtain rfl := hfails.unique hfails'
        exact .inr (.inl ⟨e, he, he'⟩)
      · exact absurd hblock hfails.not_blockOf
    · rcases expandLine_of_synthetic hbasic s' with hlacks | ⟨_, hfails, -⟩ | ⟨_, hblock', hlines'⟩
      · exact .inl (.inr hlacks)
      · exact absurd hblock hfails.not_blockOf
      · obtain rfl := hblock.unique hblock'
        exact .inr (.inr ⟨_, _, _, _, hlines, hlines', renamed_derive hblock hs hline s',
          renamed_derive hblock hs' hline' s⟩)

/-- The instruction that clears the result. -/
def clearResult : Instruction :=
  .plain none (.zeroVariable .result)

/-- The instruction in front of one with the last label that can be written. -/
def clearUnderLastLabel : List Instruction :=
  [clearResult, .plain (some (.numbered (10 ^ Text.maxDigits - 2))) (.neutral .result)]

/-- The same instruction has a block over one list and none over another one, since no label that
can be written is above all labels of that list. -/
theorem clearResult_not_relocated :
    (Supply.ofCode [clearResult]).Over [clearResult] ∧
      (Supply.ofCode clearUnderLastLabel).Over clearUnderLastLabel ∧
      clearResult ∈ clearUnderLastLabel ∧
      (∃ x, empty.expandLine (.ofCode [clearResult]) (.initial clearResult) = .ok x) ∧
      empty.expandLine (.ofCode clearUnderLastLabel) (.initial clearResult) =
        .error (.numeral .tooLong) := by
  refine ⟨⟨0, 0, rfl⟩, ⟨0, 0, rfl⟩, List.mem_cons_self, ⟨_, rfl⟩, ?_⟩
  have hfirst : (Supply.ofCode clearUnderLastLabel).freshLabel 0 =
      .numbered (10 ^ Text.maxDigits - 1) := by decide +kernel
  have hblock : empty.block (Supply.ofCode clearUnderLastLabel) clearResult =
      .error (.numeral .tooLong) :=
    Block.drawn_eq_tooLong (.zeroVariable none .result) Nat.one_pos
      (hfirst ▸ Text.not_short_succ)
  exact Bounded.bind_eq_error.2 (.inl hblock)

/-- The first call of `relayCode`. -/
def relayCall : Instruction :=
  .plain (some (.numbered 0)) (.quotation (.work 0) ⟨"RELAY", [.call "ID" [.name "z8"]]⟩)

/-- Another list with the same call, behind an instruction on a later variable. -/
def relayElsewhere : List Instruction :=
  [.plain none (.increase (.work 16)), relayCall]

/-- Two fresh variables and a fresh label have been handed out over the first list, one variable
over the second one. The name of a fresh variable ends up in the arguments of a call. -/
theorem relayCall_relocated :
    Supply.Over ⟨10, 6⟩ relayCode ∧ Supply.Over ⟨18, 1⟩ relayElsewhere ∧
    relayCall ∈ relayCode ∧ relayCall ∈ relayElsewhere ∧
    ∃ lines lines',
      relayLibrary.expandLine ⟨10, 6⟩ (.initial relayCall) = .ok (lines, ⟨13, 8⟩) ∧
      relayLibrary.expandLine ⟨18, 1⟩ (.initial relayCall) = .ok (lines', ⟨21, 3⟩) ∧
      (lines[4]?.map fun line => Argument.renderList line.instruction.arguments) =
        some "(ID,z12)" ∧
      (lines'[4]?.map fun line => Argument.renderList line.instruction.arguments) =
        some "(ID,z20)" ∧
      List.Forall₂ (Line.Renamed (Supply.variableTo ⟨10, 6⟩ ⟨18, 1⟩ 3)
        (Supply.labelTo ⟨10, 6⟩ ⟨18, 1⟩ 2)) lines lines' ∧
      List.Forall₂ (Line.Renamed (Supply.variableTo ⟨18, 1⟩ ⟨10, 6⟩ 3)
        (Supply.labelTo ⟨18, 1⟩ ⟨10, 6⟩ 2)) lines' lines := by
  have hs : Supply.Over ⟨10, 6⟩ relayCode := ⟨2, 1, rfl⟩
  have hs' : Supply.Over ⟨18, 1⟩ relayElsewhere := ⟨1, 0, rfl⟩
  have hline : relayCall ∈ relayCode := List.mem_cons_self
  have hline' : relayCall ∈ relayElsewhere := List.mem_cons_of_mem _ List.mem_cons_self
  obtain ⟨lines, hlines, htext⟩ : ∃ lines,
      relayLibrary.expandLine ⟨10, 6⟩ (.initial relayCall) = .ok (lines, ⟨13, 8⟩) ∧
      (lines[4]?.map fun line => Argument.renderList line.instruction.arguments) =
        some "(ID,z12)" := ⟨_, rfl, by decide +kernel⟩
  obtain ⟨lines', hlines', htext'⟩ : ∃ lines,
      relayLibrary.expandLine ⟨18, 1⟩ (.initial relayCall) = .ok (lines, ⟨21, 3⟩) ∧
      (lines[4]?.map fun line => Argument.renderList line.instruction.arguments) =
        some "(ID,z20)" := ⟨_, rfl, by decide +kernel⟩
  have hrelocated :=
    @expandLine_relocated relayLibrary (.initial relayCall) _ _ _ _ hs hs' hline hline'
  rcases hrelocated with (⟨-, he⟩ | ⟨-, he⟩) | ⟨e, he, -⟩ | ⟨_, _, n, k, h, h', hrenamed, hrenamed'⟩
  · cases he.symm.trans hlines
  · cases he.symm.trans hlines'
  · cases he.symm.trans hlines
  · obtain ⟨rfl, hskip⟩ := Prod.mk.inj (Except.ok.inj (h.symm.trans hlines))
    obtain ⟨rfl, -⟩ := Prod.mk.inj (Except.ok.inj (h'.symm.trans hlines'))
    obtain ⟨(hn : 10 + n = 13), (hk : 6 + k = 8)⟩ := Supply.mk.inj hskip
    obtain rfl : n = 3 := by omega
    obtain rfl : k = 2 := by omega
    exact ⟨hs, hs', hline, hline', _, _, hlines, hlines', htext, htext', hrenamed, hrenamed'⟩

end Library

end RegisterMachine
