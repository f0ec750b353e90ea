import RegisterMachine.Expansion.Degree
import RegisterMachine.Proofs.Relocation

/-!
# Lists with smaller names

A list may be a part of another one with other names, such that no variable and no label has a
greater number. Then a round does to it what it does to that part, and the names that it takes are
no greater either. So names do not run out for a part of a program, as long as they do not run out
for the program.

* `Instruction.Below` — an instruction is another one with smaller names;
* `Library.exists_block_below` — its block, over a supply that begins earlier;
* `Library.exists_expandLines_below` — a round over a part of a list;
* `Library.roundsToBasic_ne_tooLong` — the rounds of a part of a program.
-/

namespace RegisterMachine

/-! ### Renamed names -/

section Renamed

variable {m m' : Argument.Renaming} {f f' : Label → Label} {v : Variable} {l : Label}

theorem Operation.mentions_rename {o : Operation} (h : o.Mentions v) :
    (o.rename m f).Mentions ((m v).getD v) := by
  rcases h with h | h | ⟨call, hcall, h⟩
  · cases o <;> simp only [subject?, Option.some.injEq, reduceCtorEq] at h <;> subst h <;>
      exact .inl rfl
  · cases o <;> simp only [source?, Option.some.injEq, reduceCtorEq] at h <;> subst h <;>
      exact .inr (.inl rfl)
  · refine .inr (.inr ⟨rename.onCall m call, ?_, Argument.mem_vars_renameList.2 ⟨v, h, rfl⟩⟩)
    rw [call?_rename, hcall]
    rfl

namespace Instruction

variable {i i' : Instruction}

theorem Renamed.mem_referencedVariables (h : Renamed m f i i') (hv : v ∈ i.referencedVariables) :
    (m v).getD v ∈ i'.referencedVariables := by
  rw [Instruction.mem_referencedVariables] at hv ⊢
  rw [h.operation, h.spareVariables]
  exact hv.imp Operation.mentions_rename List.mem_map_of_mem

theorem Renamed.mentionsLabel (h : Renamed m f i i') (hl : i.MentionsLabel l) :
    i'.MentionsLabel (f l) := by
  rw [MentionsLabel, h.label, h.target]
  exact hl.imp (fun he => by rw [he]; rfl) fun he => by rw [he]; rfl

/-- Only what happens to the names of an instruction matters. -/
theorem Renamed.congr (h : Renamed m f i i') (hm : ∀ v ∈ i.referencedVariables, m' v = m v)
    (hf : ∀ l, i.MentionsLabel l → f' l = f l) : Renamed m' f' i i' where
  label := h.label.trans (Option.map_congr fun l hl => (hf l (.inl hl)).symm)
  operation := by
    refine h.operation.trans (Operation.rename_congr (fun v hv => ?_) fun l hl => ?_)
    · exact (hm v (Instruction.mem_referencedVariables.2 (.inl hv))).symm
    · have htarget : i.target = some l := by
        rw [Instruction.target, hl]
        rfl
      exact (hf l (.inr htarget)).symm
  spareVariables := by
    refine h.spareVariables.trans (List.map_congr_left fun v hv => ?_)
    rw [hm v (Instruction.mem_referencedVariables.2 (.inr hv))]
  target := h.target.trans (Option.map_congr fun l hl => (hf l (.inr hl)).symm)

/-! ### Smaller names -/

/-- A renaming keeps the variables of an instruction apart, and the numbers of its work variables
and of its labels become no smaller. -/
structure Raises (m : Argument.Renaming) (f : Label → Label) (i : Instruction) : Prop where
  /-- Distinct variables stay distinct. -/
  injective : ∀ v ∈ i.referencedVariables, ∀ w ∈ i.referencedVariables,
    (m v).getD v = (m w).getD w → v = w
  /-- Work variables become work variables whose numbers are no smaller. -/
  work : ∀ n, .work n ∈ i.referencedVariables →
    ∃ k, n ≤ k ∧ (m (.work n)).getD (.work n) = .work k
  /-- Labels become labels whose numbers are no smaller. -/
  numbered : ∀ n, i.MentionsLabel (.numbered n) → ∃ k, n ≤ k ∧ f (.numbered n) = .numbered k

/-- The first instruction is the second one with other names, none of which is greater. -/
def Below (i i' : Instruction) : Prop :=
  ∃ m f, Renamed m f i i' ∧ Raises m f i

theorem Below.refl (i : Instruction) : i.Below i :=
  ⟨fun _ => none, id, Untouched.renamed ⟨fun _ _ => rfl, fun _ _ => rfl⟩,
    fun _ _ _ _ h => h, fun n _ => ⟨n, le_rfl, rfl⟩, fun n _ => ⟨n, le_rfl, rfl⟩⟩

theorem Below.isBasic_eq (h : i.Below i') : i'.isBasic = i.isBasic := by
  obtain ⟨m, f, hrenamed, -⟩ := h
  rw [isBasic, opcode, hrenamed.operation, Operation.opcode_rename]
  rfl

theorem Below.exists_work (h : i.Below i') {n : Nat} (hn : .work n ∈ i.referencedVariables) :
    ∃ k, n ≤ k ∧ .work k ∈ i'.referencedVariables := by
  obtain ⟨m, f, hrenamed, hraises⟩ := h
  obtain ⟨k, hle, hk⟩ := hraises.work n hn
  exact ⟨k, hle, hk ▸ hrenamed.mem_referencedVariables hn⟩

theorem Below.exists_numbered (h : i.Below i') {n : Nat} (hn : i.MentionsLabel (.numbered n)) :
    ∃ k, n ≤ k ∧ i'.MentionsLabel (.numbered k) := by
  obtain ⟨m, f, hrenamed, hraises⟩ := h
  obtain ⟨k, hle, hk⟩ := hraises.numbered n hn
  exact ⟨k, hle, hk ▸ hrenamed.mentionsLabel hn⟩

end Instruction

end Renamed

open Instruction (Below)

/-! ### Supplies -/

theorem NumberPool.highWater_le {ns : List Nat} {k : Nat} (h : ∀ n ∈ ns, n ≤ k) :
    (NumberPool.ofUsed ns).highWater ≤ k := by
  rw [NumberPool.ofUsed]
  rcases hm : ns.max? with _ | n
  · exact Nat.zero_le k
  · exact h n (List.max?_eq_some_iff.1 hm).1

namespace Supply

variable {s s' : Supply} {code code' : List Instruction} {m : Argument.Renaming}
  {f : Label → Label} {n k : Nat}

/-- The names of the first supply are no greater than those of the second one. -/
structure AtMost (s s' : Supply) : Prop where
  firstVariable : s.firstVariable ≤ s'.firstVariable
  firstLabel : s.firstLabel ≤ s'.firstLabel

theorem AtMost.skip (h : s.AtMost s') (n k : Nat) : (s.skip n k).AtMost (s'.skip n k) :=
  ⟨Nat.add_le_add_right h.firstVariable n, Nat.add_le_add_right h.firstLabel k⟩

theorem AtMost.trans_skip (h : s.AtMost s') (n k : Nat) : s.AtMost (s'.skip n k) :=
  ⟨h.firstVariable.trans (Nat.le_add_right _ n), h.firstLabel.trans (Nat.le_add_right _ k)⟩

/-- Smaller names leave more names free. -/
theorem atMost_ofCode (h : ∀ i ∈ code, ∃ i' ∈ code', i.Below i') :
    (ofCode code).AtMost (ofCode code') where
  firstVariable := by
    refine NumberPool.highWater_le fun n hn => ?_
    rw [usedWorkNumbers, mem_sortedSet] at hn
    obtain ⟨n, hindex, rfl⟩ := List.mem_map.1 hn
    obtain ⟨i, hi, hindex⟩ := List.mem_flatMap.1 hindex
    obtain ⟨v, hv, hwork⟩ := List.mem_filterMap.1 hindex
    obtain rfl : v = .work n := by
      cases v <;> cases hwork
      rfl
    obtain ⟨i', hi', hbelow⟩ := h i hi
    obtain ⟨k, hle, hk⟩ := hbelow.exists_work hv
    exact Nat.succ_le_of_lt (hle.trans_lt (lt_firstVariable hi' hk))
  firstLabel := by
    refine NumberPool.highWater_le fun n hn => ?_
    rw [usedLabelNumbers, mem_sortedSet] at hn
    obtain ⟨n, hindex, rfl⟩ := List.mem_map.1 hn
    obtain ⟨i, hi, hindex⟩ := List.mem_flatMap.1 hindex
    obtain ⟨l, hl, hnumbered⟩ := List.mem_filterMap.1 hindex
    obtain rfl : l = .numbered n := by
      cases l <;> cases hnumbered
      rfl
    rw [List.mem_append, Option.mem_toList, Option.mem_toList] at hl
    obtain ⟨i', hi', hbelow⟩ := h i hi
    obtain ⟨k, hle, hk⟩ := hbelow.exists_numbered hl
    exact Nat.succ_le_of_lt (hle.trans_lt (lt_firstLabel_of_mentionsLabel hi' hk))

theorem brief_freshLabel (h : s.AtMost s') (hbrief : (s'.freshLabel k).Brief) :
    (s.freshLabel k).Brief :=
  Text.Short.of_le hbrief (Nat.succ_le_succ (Nat.add_le_add_right h.firstLabel k))

theorem brief_freshVariable (h : s.AtMost s') (hbrief : (s'.freshVariable k).Brief) :
    (s.freshVariable k).Brief :=
  Text.Short.of_le hbrief (Nat.succ_le_succ (Nat.add_le_add_right h.firstVariable k))

/-- The first `n` variables of a supply become those of another one, and other variables what a
renaming makes of them. -/
def variableElse (s s' : Supply) (n : Nat) (m : Argument.Renaming) : Argument.Renaming := fun v =>
  (s.variableTo s' n v).or (m v)

/-- The first `k` labels of a supply become those of another one, and other labels what a renaming
makes of them. -/
def labelElse (s s' : Supply) (k : Nat) (f : Label → Label) (l : Label) : Label :=
  (((List.range k).find? fun j => s.freshLabel j = l).map s'.freshLabel).getD (f l)

theorem variableElse_of_not_fresh {v : Variable} (h : ¬ s.Fresh v) :
    s.variableElse s' n m v = m v := by
  rw [variableElse, variableTo_eq_none h, Option.none_or]

theorem labelElse_of_not_fresh {l : Label} (h : ∀ j, l ≠ s.freshLabel j) :
    s.labelElse s' k f l = f l := by
  have hnone : (List.range k).find? (fun j => s.freshLabel j = l) = none :=
    List.find?_eq_none.2 fun j _ hj => h j (of_decide_eq_true hj).symm
  rw [labelElse, hnone]
  rfl

theorem relocates_else (s s' : Supply) (n k : Nat) (m : Argument.Renaming) (f : Label → Label) :
    s.Relocates s' n k (s.variableElse s' n m) (s.labelElse s' k f) where
  work j hj := by
    rw [variableElse, (s.relocates s' n k).work j hj, Option.some_or]
  numbered j hj := by
    rw [labelElse, find?_range hj fun i => ?_, Option.map_some, Option.getD_some]
    rw [decide_eq_true_eq]
    exact ⟨freshLabel_injective, fun h => h ▸ rfl⟩

end Supply

/-! ### Copies -/

theorem Instruction.arguments_rename (m : Argument.Renaming) (f : Label → Label) (i : Instruction) :
    (i.rename m f).arguments = Argument.renameList m i.arguments := by
  rw [arguments, arguments, rename, Operation.call?_rename]
  cases i.operation.call? with
  | none => rw [Option.map_none, Argument.renameList]
  | some call => rfl

/-- What has to be written of a renamed instruction, node by node. -/
theorem Instruction.hasOverlongName_rename_eq_false_iff {m : Argument.Renaming} {f : Label → Label}
    {i : Instruction} : (i.rename m f).hasOverlongName = false ↔
      ∀ a ∈ Argument.walk i.arguments, (a.rename m).isOverlong = false := by
  rw [hasOverlongName, arguments_rename, Argument.walk_renameList, List.any_map, List.any_eq_false]
  exact forall₂_congr fun a _ => iff_of_eq (Bool.not_eq_true _)

/-- A name that has been put in is too long if its variable has too great a number. -/
theorem Argument.isOverlong_rename_name {m : Renaming} {text : String} {v w : Variable}
    (hv : Variable.ofName? text = some v) (hw : m v = some w) :
    ((name text).rename m).isOverlong = false ↔ w.Brief := by
  have hname : Variable.isName w.name = true := by
    rw [Variable.isName, Variable.ofName?_name]
    rfl
  rw [rename, hv, Option.bind_some, hw, isOverlong, hname, Bool.true_and,
    Variable.isOverlong_name_eq_false_iff]

/-- Where the copy of a program can be written, it can be written with smaller names. -/
theorem Program.hasOverlongName_copy {p : Program} {s s' : Supply} (h : s.AtMost s')
    (hcopy : ∀ j ∈ p.copy s', j.hasOverlongName = false) :
    ∀ j ∈ p.copy s, j.hasOverlongName = false := by
  intro j hj
  obtain ⟨i, hi, rfl⟩ := List.mem_map.1 hj
  have hwritten := Instruction.hasOverlongName_rename_eq_false_iff.1
    (hcopy _ (List.mem_map_of_mem hi))
  refine Instruction.hasOverlongName_rename_eq_false_iff.2 fun a ha => ?_
  have ha' := hwritten a ha
  cases a with
  | constant value => rw [Argument.rename]; rfl
  | call function as => rw [Argument.rename]; rfl
  | name text =>
    rcases hv : Variable.ofName? text with _ | v
    · rw [Argument.rename, hv] at ha' ⊢
      exact ha'
    · have hmem : v ∈ i.referencedVariables := by
        rw [Instruction.referencedVariables, List.mem_eraseDups, List.mem_append]
        refine .inr ?_
        rw [Instruction.callVariables, Argument.vars, mem_sortedSet]
        exact List.mem_filterMap.2 ⟨_, ha, hv⟩
      have hcopied := mem_copiedVariables.2 (.inl (mem_vars.2 ⟨i, hi, hmem⟩))
      obtain ⟨k, hk⟩ : ∃ k, p.copiedVariables.idxOf? v = some k :=
        Option.isSome_iff_exists.1 (List.isSome_idxOf?.2 hcopied)
      have hfresh : ∀ t, p.copyVariable t v = some (t.freshVariable k) := fun t => by
        rw [copyVariable, hk, Option.map_some]
      rw [Argument.isOverlong_rename_name hv (hfresh s')] at ha'
      exact (Argument.isOverlong_rename_name hv (hfresh s)).2 (Supply.brief_freshVariable h ha')

namespace Library

variable {lib : Library} {i i' : Instruction} {block block' : Block}
  {code code' : List Instruction} {s s' : Supply} {m : Argument.Renaming} {f : Label → Label}

/-! ### Blocks -/

/-- An instruction that has a block has one over other names. -/
theorem BlockOf.exists_of_renamed (h : lib.BlockOf i' block') (hi : i.Renamed m f i') :
    ∃ block, lib.BlockOf i block := by
  rcases hcall : i.operation.call? with _ | call
  · obtain ⟨block, hiff, -⟩ := exists_blockOf_iff lib hcall
    exact ⟨block, (hiff block).2 rfl⟩
  · obtain ⟨v, finish, htakes⟩ := exists_takes hcall
    have hcall' : i'.operation.call? = some (Operation.rename.onCall m call) := by
      rw [hi.operation, Operation.call?_rename, hcall]
      rfl
    obtain ⟨_, entry, _, _, -, hfind, hbound', -⟩ := h.exists_inlining hcall'
    obtain ⟨bound, hbound, -⟩ := (bindings_onCall_eq_ok _ m call).1 hbound'
    exact ⟨_, .call htakes hfind hbound⟩

/-- Where a block fits, the block of the instruction with smaller names does. -/
theorem Fits.below (h : lib.Fits s' i' block') (hi : i.Renamed m f i')
    (hcount : block'.labelCount = block.labelCount) (hle : s.AtMost s') : lib.Fits s i block where
  labels k hk := Supply.brief_freshLabel hle (h.labels k (hcount ▸ hk))
  calls call entry hcall hfind := by
    have hcall' : i'.operation.call? = some (Operation.rename.onCall m call) := by
      rw [hi.operation, Operation.call?_rename, hcall]
      rfl
    exact Program.hasOverlongName_copy hle (h.calls _ entry hcall' hfind)

/-- The names of a supply become those of another one that begins later, and the names of an
instruction become others that are no smaller. Then all names of its block become others that are no
smaller, and stay distinct. -/
theorem raises_body (hi : i.Renamed m f i') (hraises : i.Raises m f) (hs : s.Over code)
    (hmem : i ∈ code) (hs' : s'.Over code') (hmem' : i' ∈ code') (hle : s.AtMost s')
    (hblock : lib.BlockOf i block) {j : Instruction} (hj : j ∈ block.body s) :
    j.Raises (s.variableElse s' block.variableCount m) (s.labelElse s' block.labelCount f) := by
  obtain ⟨hmentions, hlabels⟩ := hygienic_block hblock s
  have hrelocates := s.relocates_else s' block.variableCount block.labelCount m f
  have hm : ∀ v ∈ i.referencedVariables, s.variableElse s' block.variableCount m v = m v :=
    fun v hv => Supply.variableElse_of_not_fresh (hs.not_fresh hmem hv)
  -- No name of the instruction becomes one of the fresh names.
  have hne : ∀ v ∈ i.referencedVariables, ∀ k, (m v).getD v ≠ s'.freshVariable k := fun v hv k he =>
    hs'.not_fresh hmem' (hi.mem_referencedVariables hv) ⟨k, he⟩
  refine ⟨fun v hv w hw he => ?_, fun n hn => ?_, fun n hn => ?_⟩
  · rcases hmentions j hj v hv with hv | ⟨a, ha, rfl⟩ <;>
      rcases hmentions j hj w hw with hw | ⟨b, hb, rfl⟩
    · rw [hm v hv, hm w hw] at he
      exact hraises.injective v hv w hw he
    · rw [hm v hv, hrelocates.work b hb] at he
      exact absurd he (hne v hv b)
    · rw [hm w hw, hrelocates.work a ha] at he
      exact absurd he.symm (hne w hw a)
    · rw [hrelocates.work a ha, hrelocates.work b hb] at he
      rw [Supply.freshVariable_injective he]
  · rcases hmentions j hj _ hn with hn | ⟨a, ha, he⟩
    · rw [hm _ hn]
      exact hraises.work n hn
    · rw [he, hrelocates.work a ha]
      obtain rfl : n = s.firstVariable + a := Variable.work.inj he
      exact ⟨_, Nat.add_le_add_right hle.firstVariable a, rfl⟩
  · rcases hlabels j hj _ hn with hn | ⟨a, ha, he⟩
    · rw [Supply.labelElse_of_not_fresh (hs.ne_freshLabel hmem hn)]
      exact hraises.numbered n hn
    · rw [he, hrelocates.numbered a ha]
      obtain rfl : n = s.firstLabel + a := Label.numbered.inj he
      exact ⟨_, Nat.add_le_add_right hle.firstLabel a, rfl⟩

/-- The block of an instruction with smaller names, over a supply that begins no later. -/
theorem exists_block_below (hi : i.Below i') (hs : s.Over code) (hmem : i ∈ code)
    (hs' : s'.Over code') (hmem' : i' ∈ code') (hle : s.AtMost s')
    (h : lib.block s' i' = .ok block') :
    ∃ block, lib.block s i = .ok block ∧ block'.variableCount = block.variableCount ∧
      block'.labelCount = block.labelCount ∧
      List.Forall₂ Below (block.body s) (block'.body s') := by
  obtain ⟨m, f, hrenamed, hraises⟩ := hi
  obtain ⟨hblock', hfits⟩ := block_eq_ok_iff.1 h
  obtain ⟨block, hblock⟩ := hblock'.exists_of_renamed hrenamed
  have hm : ∀ v ∈ i.referencedVariables, s.variableElse s' block.variableCount m v = m v :=
    fun v hv => Supply.variableElse_of_not_fresh (hs.not_fresh hmem hv)
  have hf : ∀ l, i.MentionsLabel l → s.labelElse s' block.labelCount f l = f l :=
    fun l hl => Supply.labelElse_of_not_fresh (hs.ne_freshLabel hmem hl)
  obtain ⟨block'', hblock'', hblocks⟩ := hblock.exists_renamed (hrenamed.congr hm hf)
      fun v source ho he => by
    have hv : v ∈ i.referencedVariables :=
      Instruction.mem_referencedVariables.2 (.inl (.inl (by rw [ho]; rfl)))
    have hsource : source ∈ i.referencedVariables :=
      Instruction.mem_referencedVariables.2 (.inl (.inr (.inl (by rw [ho]; rfl))))
    rw [hm v hv, hm source hsource] at he
    exact hraises.injective v hv source hsource he
  obtain rfl := hblock''.unique hblock'
  refine ⟨block, block_eq_ok_iff.2 ⟨hblock, hfits.below hrenamed hblocks.labelCount hle⟩,
    hblocks.variableCount, hblocks.labelCount, ?_⟩
  have hbody := (List.forall₂_and_left _ _).2 ⟨fun j hj =>
    raises_body hrenamed hraises hs hmem hs' hmem' hle hblock hj,
    hblocks.body s s' (s.relocates_else s' _ _ m f)⟩
  exact hbody.imp fun j j' hboth => ⟨_, _, hboth.2, hboth.1⟩

/-! ### Rounds -/

/-- The first list of lines is a part of the second one, with smaller names. -/
abbrev LinesBelow : List Line → List Line → Prop :=
  List.SublistForall₂ fun line line' => line.instruction.Below line'.instruction

theorem LinesBelow.of_mem {line : Line} {lines : List Line} (h : line ∈ lines) :
    LinesBelow [line] lines :=
  List.sublistForall₂_iff.2
    ⟨[line], .cons (.refl line.instruction) .nil, List.singleton_sublist.2 h⟩

theorem LinesBelow.append {made made' rest rest' : List Line}
    (h : List.Forall₂ (fun line line' => line.instruction.Below line'.instruction) made made')
    (hrest : LinesBelow rest rest') : LinesBelow (made ++ rest) (made' ++ rest') := by
  induction h with
  | nil => exact hrest
  | cons h _ ih => exact .cons h ih

theorem LinesBelow.append_right {lines rest : List Line} (made : List Line)
    (h : LinesBelow lines rest) : LinesBelow lines (made ++ rest) := by
  induction made with
  | nil => exact h
  | cons line made ih => exact .cons_right ih

theorem LinesBelow.exists_of_mem {lines lines' : List Line} (h : LinesBelow lines lines') :
    ∀ line ∈ lines, ∃ line' ∈ lines', line.instruction.Below line'.instruction := by
  induction h with
  | nil => exact List.forall_mem_nil _
  | cons h _ ih =>
    refine List.forall_mem_cons.2 ⟨⟨_, List.mem_cons_self, h⟩, fun line hline => ?_⟩
    obtain ⟨line', hline', hbelow⟩ := ih line hline
    exact ⟨line', List.mem_cons_of_mem _ hline', hbelow⟩
  | cons_right _ ih =>
    intro line hline
    obtain ⟨line', hline', hbelow⟩ := ih line hline
    exact ⟨line', List.mem_cons_of_mem _ hline', hbelow⟩

/-- A part of a list of basic instructions is one. -/
theorem LinesBelow.isFullyBasic {e e' : Expansion} (h : LinesBelow e.lines e'.lines)
    (hbasic : e'.program.isFullyBasic = true) : e.program.isFullyBasic = true := by
  refine List.all_eq_true.2 fun i hi => ?_
  obtain ⟨line, hline, rfl⟩ := List.mem_map.1 hi
  obtain ⟨line', hline', hbelow⟩ := h.exists_of_mem line hline
  rw [← hbelow.isBasic_eq]
  exact List.all_eq_true.1 hbasic _ (List.mem_map_of_mem hline')

theorem exists_skip_of_expandLine {line : Line} {made : List Line} {rest : Supply}
    (h : lib.expandLine s line = .ok (made, rest)) : ∃ n k, rest = s.skip n k := by
  rw [expandLine] at h
  split at h
  · obtain ⟨-, rfl⟩ := Prod.mk.inj (Except.ok.inj h)
    exact ⟨0, 0, rfl⟩
  · obtain ⟨block, -, h⟩ := Bounded.bind_eq_ok.1 h
    obtain ⟨-, rfl⟩ := Prod.mk.inj (Except.ok.inj h)
    exact ⟨_, _, rfl⟩

/-- What a line with smaller names is replaced by. -/
theorem exists_expandLine_below {line line' : Line} {made' : List Line} {rest' : Supply}
    (h : line.instruction.Below line'.instruction) (hs : s.Over code)
    (hmem : line.instruction ∈ code) (hs' : s'.Over code') (hmem' : line'.instruction ∈ code')
    (hle : s.AtMost s') (hmade : lib.expandLine s' line' = .ok (made', rest')) :
    ∃ made n k, lib.expandLine s line = .ok (made, s.skip n k) ∧ rest' = s'.skip n k ∧
      List.Forall₂ (fun line line' => line.instruction.Below line'.instruction) made made' := by
  rw [expandLine, h.isBasic_eq] at hmade
  rw [expandLine]
  split at hmade
  · rename_i hbasic
    obtain ⟨rfl, rfl⟩ := Prod.mk.inj (Except.ok.inj hmade)
    rw [if_pos hbasic]
    exact ⟨_, 0, 0, rfl, rfl, .cons h .nil⟩
  · rename_i hbasic
    obtain ⟨block', hblock', hmade⟩ := Bounded.bind_eq_ok.1 hmade
    obtain ⟨rfl, rfl⟩ := Prod.mk.inj (Except.ok.inj hmade)
    obtain ⟨block, hblock, hvariables, hlabels, hbody⟩ :=
      exists_block_below h hs hmem hs' hmem' hle hblock'
    rw [if_neg hbasic, hblock, hvariables, hlabels]
    refine ⟨_, _, _, rfl, rfl, ?_⟩
    rw [Block.body, Block.body, List.forall₂_map_left_iff, List.forall₂_map_right_iff] at hbody
    rw [List.forall₂_map_left_iff, List.forall₂_map_right_iff]
    exact hbody

/-- Where a list has its blocks, a part of it with smaller names has them, too. -/
theorem exists_expandLines_below {lines lines' made' : List Line} (h : LinesBelow lines lines')
    (hs : s.Over code) (hmem : ∀ line ∈ lines, line.instruction ∈ code) (hs' : s'.Over code')
    (hmem' : ∀ line ∈ lines', line.instruction ∈ code') (hle : s.AtMost s')
    (hmade : lib.expandLines s' lines' = .ok made') :
    ∃ made, lib.expandLines s lines = .ok made ∧ LinesBelow made made' := by
  induction h generalizing s s' made' with
  | nil => exact ⟨[], rfl, .nil⟩
  | @cons line line' lines lines' hbelow _ ih =>
    obtain ⟨hline, hlines⟩ := List.forall_mem_cons.1 hmem
    obtain ⟨hline', hlines'⟩ := List.forall_mem_cons.1 hmem'
    rw [expandLines_cons] at hmade
    obtain ⟨⟨first', rest'⟩, hfirst', hmade⟩ := Bounded.bind_eq_ok.1 hmade
    obtain ⟨more', hmore', rfl⟩ := Bounded.map_eq_ok.1 hmade
    obtain ⟨first, n, k, hfirst, rfl, hfirsts⟩ :=
      exists_expandLine_below hbelow hs hline hs' hline' hle hfirst'
    obtain ⟨more, hmore, hmores⟩ :=
      ih (hs.skip n k) hlines (hs'.skip n k) hlines' (hle.skip n k) hmore'
    refine ⟨first ++ more, ?_, .append hfirsts hmores⟩
    rw [expandLines_cons]
    exact Bounded.bind_eq_ok.2 ⟨_, hfirst, Bounded.map_eq_ok.2 ⟨more, hmore, rfl⟩⟩
  | @cons_right line' lines lines' _ ih =>
    rw [expandLines_cons] at hmade
    obtain ⟨⟨first', rest'⟩, hfirst', hmade⟩ := Bounded.bind_eq_ok.1 hmade
    obtain ⟨more', hmore', rfl⟩ := Bounded.map_eq_ok.1 hmade
    obtain ⟨n, k, rfl⟩ := exists_skip_of_expandLine hfirst'
    obtain ⟨made, hmade, hmades⟩ := ih hs hmem (hs'.skip n k) (List.forall_mem_cons.1 hmem').2
      (hle.trans_skip n k) hmore'
    exact ⟨made, hmade, .append_right first' hmades⟩

/-- A round leaves a part of a program a part of it, with smaller names, or it fails for labels that
are declared twice. -/
theorem round_below {e e' e₁' : Expansion} (h : LinesBelow e.lines e'.lines)
    (hround : lib.round e' = .ok e₁') :
    (∃ e₁, lib.round e = .ok e₁ ∧ LinesBelow e₁.lines e₁'.lines) ∨
      ∃ l first second, lib.round e = .error (.duplicateLabel l first second e.name) := by
  have hmem : ∀ x : Expansion, ∀ line ∈ x.lines, line.instruction ∈ x.code :=
    fun _ _ => List.mem_map_of_mem
  have hsupply : (Supply.ofCode e.code).AtMost (.ofCode e'.code) := by
    refine Supply.atMost_ofCode fun i hi => ?_
    obtain ⟨line, hline, rfl⟩ := List.mem_map.1 hi
    obtain ⟨line', hline', hbelow⟩ := h.exists_of_mem line hline
    exact ⟨_, hmem e' line' hline', hbelow⟩
  obtain ⟨made, hmade, hbelow⟩ := exists_expandLines_below h ⟨0, 0, rfl⟩ (hmem e) ⟨0, 0, rfl⟩
    (hmem e') hsupply (round_eq_ok_iff.1 hround).2
  rcases hwith : e.withLines? made with cause | e₁
  · obtain ⟨l, first, second, rfl⟩ := withLines?_eq_error hwith
    exact .inr ⟨l, first, second, Bounded.bind_eq_error.2 (.inr ⟨made, hmade, hwith⟩)⟩
  · obtain ⟨hname, rfl⟩ := withLines?_eq_ok_iff.1 hwith
    exact .inl ⟨e₁, round_eq_ok_iff.2 ⟨hname, hmade⟩, hbelow⟩

/-- Names do not run out for a part of a program whose rounds can be counted. -/
theorem roundsToBasic_ne_tooLong {fuel d : Nat} {e e' : Expansion}
    (h : LinesBelow e.lines e'.lines) (hd : lib.roundsToBasic fuel e' = .ok d) :
    lib.roundsToBasic fuel e ≠ .error (.error (.numeral .tooLong)) := by
  induction fuel generalizing e e' d with
  | zero =>
    rw [roundsToBasic]
    split <;> nofun
  | succ fuel ih =>
    rw [roundsToBasic]
    split
    · nofun
    · rename_i hbasic
      rw [roundsToBasic, if_neg fun hbasic' => hbasic (h.isFullyBasic hbasic')] at hd
      obtain ⟨e₁', hround', hd⟩ := Bounded.bind_eq_ok.1 hd
      obtain ⟨d', hd', -⟩ := Bounded.bind_eq_ok.1 hd
      rcases round_below h (Bounded.lift_eq_ok.1 hround') with
        ⟨e₁, hround, hbelow⟩ | ⟨l, first, second, hround⟩
      · rw [hround]
        exact fun hlong => ih hbelow hd' (Bounded.bind_pure_eq_error.1 hlong)
      · rw [hround]
        nofun

end Library

end RegisterMachine
