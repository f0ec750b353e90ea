import Mathlib.Data.List.Forall2
import Mathlib.Data.List.Sort
import RegisterMachine.Proofs.DependencyOrder

/-!
# Bare names written out

A bare name that spells no variable and finds a program stands for a call without arguments. Here
some of these names, at any depth of the arguments of calls, are replaced by the calls that they
stand for. Programs with calls written out mention the same variables and labels, and they have the
same callees, although some of these are then called explicitly that were only named before.

* `Agree` — two computations with related results;
* `Argument.WrittenOut`, `Call.WrittenOut`, `Instruction.WrittenOut`, `Program.WrittenOut`,
  `Library.WrittenOut` — the second one is the first one, with bare names written out;
* `Program.WrittenOut.vars_eq`, `Program.WrittenOut.validate_eq` — what the programs have in common;
* `Library.WrittenOut.find?` — the two libraries find the same names;
* `Library.WrittenOut.callGraph_eq`, `Library.WrittenOut.validate_eq` — and pass the same checks.
-/

namespace RegisterMachine

/-! ### Lists of related items -/

section Lists

variable {α β γ : Type} {R : α → α → Prop} {as bs : List α}

/-- What is read off each of two related entries alike is the same for the two lists. -/
theorem map_eq_of_forall₂ {f g : α → β} (hfg : ∀ a b, R a b → g b = f a)
    (h : List.Forall₂ R as bs) : bs.map g = as.map f := by
  induction h with
  | nil => rfl
  | cons hab _ ih => rw [List.map_cons, List.map_cons, hfg _ _ hab, ih]

/-- The same holds for lists that are read off the entries. -/
theorem flatMap_eq_of_forall₂ {f : α → List β} (hf : ∀ a b, R a b → f b = f a)
    (h : List.Forall₂ R as bs) : bs.flatMap f = as.flatMap f := by
  rw [List.flatMap_def, List.flatMap_def, map_eq_of_forall₂ hf h]

theorem filterMap_eq_of_forall₂ {f : α → Option β} (hf : ∀ a b, R a b → f b = f a)
    (h : List.Forall₂ R as bs) : bs.filterMap f = as.filterMap f := by
  induction h with
  | nil => rfl
  | cons hab _ ih => rw [List.filterMap_cons, List.filterMap_cons, hf _ _ hab, ih]

theorem findIdx?_eq_of_forall₂ {f : α → Bool} (hf : ∀ a b, R a b → f b = f a)
    (h : List.Forall₂ R as bs) : bs.findIdx? f = as.findIdx? f := by
  induction h with
  | nil => rfl
  | cons hab _ ih => rw [List.findIdx?_cons, List.findIdx?_cons, hf _ _ hab, ih]

/-- The first entry of a kind is at the same index, if related entries are of this kind alike. -/
theorem findSome?_zipIdx_eq_of_forall₂ {f : α × Nat → Option β}
    (hf : ∀ a b k, R a b → f (b, k) = f (a, k)) (h : List.Forall₂ R as bs) (k : Nat) :
    (bs.zipIdx k).findSome? f = (as.zipIdx k).findSome? f := by
  induction h generalizing k with
  | nil => rfl
  | cons hab _ ih =>
    rw [List.zipIdx_cons, List.zipIdx_cons, List.findSome?_cons, List.findSome?_cons, hf _ _ k hab,
      ih]

/-- The first items with some property are related, if no relation changes the property. -/
theorem find?_of_forall₂ {f : α → Bool} (hf : ∀ a b, R a b → f b = f a)
    (h : List.Forall₂ R as bs) : Option.Rel R (as.find? f) (bs.find? f) := by
  induction h with
  | nil => exact .none
  | @cons a b as bs hab _ ih =>
    rw [List.find?_cons, List.find?_cons, hf a b hab]
    cases f a with
    | true => exact .some hab
    | false => exact ih

/-- Related lists have related entries at each index, or both have none. -/
theorem getElem?_of_forall₂ (h : List.Forall₂ R as bs) (k : Nat) :
    Option.Rel R as[k]? bs[k]? := by
  induction h generalizing k with
  | nil => exact .none
  | cons hab _ ih =>
    cases k with
    | zero => exact .some hab
    | succ k => exact ih k

end Lists

/-! ### Computations with related results -/

/-- Both computations fail with the same error, or both succeed and their results are related. -/
inductive Agree {ε α β : Type} (R : α → β → Prop) : Except ε α → Except ε β → Prop
  | ok {a : α} {b : β} (related : R a b) : Agree R (.ok a) (.ok b)
  | error (e : ε) : Agree R (.error e) (.error e)

namespace Agree

variable {ε α β γ δ : Type} {R : α → β → Prop} {S : γ → δ → Prop}

theorem of_eq {x y : Except ε α} (h : y = x) : Agree Eq x y := by
  subst h
  cases y with
  | error e => exact .error e
  | ok a => exact .ok rfl

theorem eq {x y : Except ε α} (h : Agree Eq x y) : y = x := by
  cases h with
  | ok hab => rw [hab]
  | error => rfl

/-- Computations in two parts agree if their parts do: both fail in the first part, or both go on
with related answers. -/
theorem bind {x : Except ε α} {y : Except ε β} (h : Agree R x y) {f : α → Except ε γ}
    {g : β → Except ε δ} (hfg : ∀ a b, R a b → Agree S (f a) (g b)) :
    Agree S (x >>= f) (y >>= g) := by
  cases h with
  | ok hab => exact hfg _ _ hab
  | error e => exact .error e

theorem imp {T : α → β → Prop} {x : Except ε α} {y : Except ε β} (h : Agree R x y)
    (hRT : ∀ a b, R a b → T a b) : Agree T x y := by
  cases h with
  | ok hab => exact .ok (hRT _ _ hab)
  | error e => exact .error e

/-- Computations that go on in the same way, whatever related results they go on with. -/
theorem bind_eq {x : Except ε α} {y : Except ε β} (h : Agree R x y) {f : α → Except ε γ}
    {g : β → Except ε γ} (hfg : ∀ a b, R a b → g b = f a) : (y >>= g) = (x >>= f) :=
  (h.bind fun a b hab => .of_eq (hfg a b hab)).eq

theorem lift {x : Except Error α} {y : Except Error β} (h : Agree R x y) :
    Agree R (liftM x : Bounded α) (liftM y : Bounded β) := by
  cases h with
  | ok hab => exact .ok hab
  | error e => exact .error (Stop.error e)

end Agree

/-! ### Arguments -/

namespace Argument

mutual

/-- The second argument is the first one with some bare names written out as calls. -/
inductive WrittenOut (lib : Library) : Argument → Argument → Prop
  | constant (value : Int) : WrittenOut lib (.constant value) (.constant value)
  | name (text : String) : WrittenOut lib (.name text) (.name text)
  | bare {text : String} (not_variable : Variable.isName text = false)
    (found : lib.contains text = true) : WrittenOut lib (.name text) (.call text [])
  | call {function : String} {as bs : List Argument} (arguments : ListWrittenOut lib as bs) :
    WrittenOut lib (.call function as) (.call function bs)

/-- The same for lists of arguments, one by one. -/
inductive ListWrittenOut (lib : Library) : List Argument → List Argument → Prop
  | nil : ListWrittenOut lib [] []
  | cons {a b : Argument} {as bs : List Argument} (head : WrittenOut lib a b)
    (tail : ListWrittenOut lib as bs) : ListWrittenOut lib (a :: as) (b :: bs)

end

variable {lib : Library}

mutual

/-- Nothing has to be written out. -/
theorem WrittenOut.refl : ∀ a : Argument, WrittenOut lib a a
  | .constant value => .constant value
  | .name text => .name text
  | .call _ as => .call (ListWrittenOut.refl as)

theorem ListWrittenOut.refl : ∀ as : List Argument, ListWrittenOut lib as as
  | [] => .nil
  | a :: as => .cons (WrittenOut.refl a) (ListWrittenOut.refl as)

end

/-- Something that is read off single nodes of arguments: it ignores the arguments of a call, and
takes a bare name for the call that it stands for. -/
structure Ignores (lib : Library) {β : Type} (f : Argument → Option β) : Prop where
  bare : ∀ text, Variable.isName text = false → lib.contains text = true →
    f (.call text []) = f (.name text)
  call : ∀ function as bs, f (.call function bs) = f (.call function as)

section Nodes

variable {β : Type} {f : Argument → Option β}

mutual

/-- What is read off single nodes is the same where names are written out, as a call that takes the
place of a bare name has no arguments. The induction is on how names are written out. -/
theorem WrittenOut.filterMap_nodes (hf : Ignores lib f) : ∀ {a b : Argument},
    WrittenOut lib a b → b.nodes.filterMap f = a.nodes.filterMap f
  | _, _, .constant _ => rfl
  | _, _, .name _ => rfl
  | _, _, .bare hvariable hfound => by
    rw [nodes, nodes, walk, List.filterMap_cons, List.filterMap_cons, hf.bare _ hvariable hfound]
  | .call _ as, .call _ bs, .call harguments => by
    rw [nodes, nodes, List.filterMap_cons, List.filterMap_cons, hf.call _ as bs,
      harguments.filterMap_walk hf]

/-- What is read off the nodes is the same for arguments that are written out. -/
theorem ListWrittenOut.filterMap_walk (hf : Ignores lib f) : ∀ {as bs : List Argument},
    ListWrittenOut lib as bs → (walk bs).filterMap f = (walk as).filterMap f
  | _, _, .nil => rfl
  | _, _, .cons hhead htail => by
    rw [walk, walk, List.filterMap_append, List.filterMap_append, hhead.filterMap_nodes hf,
      htail.filterMap_walk hf]

end

end Nodes

/-- Only names of variables spell any. -/
theorem ofName?_of_isName_eq_false {text : String} (h : Variable.isName text = false) :
    Variable.ofName? text = none := by
  rwa [Variable.isName, Option.isSome_eq_false_iff, Option.isNone_iff_eq_none] at h

/-- The variable of a node is read off the node alone, and bare names have none. -/
theorem ignores_asVariable? : Ignores lib asVariable? where
  bare _ hvariable _ := (ofName?_of_isName_eq_false hvariable).symm
  call _ _ _ := rfl

/-- The name under which a node calls a function, be it explicitly or by a bare name. -/
def callee? (lib : Library) : Argument → Option String
  | .constant _ => none
  | .name text =>
    if Variable.isName text then none else if lib.contains text then some text else none
  | .call function _ => some function

/-- So is the function that a node calls, where a bare name calls what it finds. -/
theorem ignores_callee? : Ignores lib (callee? lib) where
  bare _ hvariable hfound := by simp [callee?, hvariable, hfound]
  call _ _ _ := rfl

/-- A node calls a function by its own name, or as a bare name that finds a program. -/
theorem callee?_eq_some_iff {n : Argument} {function : String} :
    callee? lib n = some function ↔
      n.function? = some function ∨ n.bareName? = some function ∧ lib.contains function = true := by
  cases n with
  | constant value => simp [callee?, function?, bareName?]
  | call f as => simp [callee?, function?, bareName?]
  | name text =>
    simp only [callee?, function?, bareName?]
    cases Variable.isName text with
    | true => simp
    | false =>
      simp only [Bool.false_eq_true, if_false, reduceCtorEq, false_or, Option.some.injEq]
      constructor
      · intro h
        split at h
        · rename_i hfound
          obtain rfl := Option.some.inj h
          exact ⟨rfl, hfound⟩
        · cases h
      · rintro ⟨rfl, hfound⟩
        exact if_pos hfound

/-- So is a name that is too long. -/
theorem ignores_isOverlong (lib : Library) : Ignores lib (Option.guard isOverlong) where
  bare text hvariable _ := by simp [Option.guard, isOverlong, hvariable]
  call _ _ _ := rfl

/-- Written out arguments have the same names that are too long. -/
theorem ListWrittenOut.any_isOverlong_eq {as bs : List Argument} (h : ListWrittenOut lib as bs) :
    (walk bs).any isOverlong = (walk as).any isOverlong := by
  have hany : ∀ l : List Argument,
      l.any isOverlong = (l.filterMap (Option.guard isOverlong)).any isOverlong := fun l => by
    simp [List.filterMap_eq_filter]
  rw [hany, hany (walk as), h.filterMap_walk (ignores_isOverlong lib)]

/-- Written out arguments mention the same variables. -/
theorem ListWrittenOut.vars_eq {as bs : List Argument} (h : ListWrittenOut lib as bs) :
    vars bs = vars as := by
  rw [vars, vars, h.filterMap_walk ignores_asVariable?]

mutual

/-- Replacing variables does not get in the way of writing names out, since bare names are names of
no variables. -/
theorem WrittenOut.rename (m : Renaming) : ∀ {a b : Argument},
    WrittenOut lib a b → WrittenOut lib (a.rename m) (b.rename m)
  | _, _, .constant _ => .refl _
  | _, _, .name _ => .refl _
  | .name text, _, .bare hvariable hfound => by
    have hname : Argument.rename m (.name text) = .name text := by
      rw [Argument.rename, ofName?_of_isName_eq_false hvariable]
      rfl
    rw [hname, Argument.rename, Argument.renameList]
    exact .bare hvariable hfound
  | _, _, .call harguments => by
    rw [Argument.rename, Argument.rename]
    exact .call (harguments.rename m)

theorem ListWrittenOut.rename (m : Renaming) : ∀ {as bs : List Argument},
    ListWrittenOut lib as bs → ListWrittenOut lib (renameList m as) (renameList m bs)
  | _, _, .nil => .nil
  | _, _, .cons hhead htail => by
    rw [renameList, renameList]
    exact .cons (hhead.rename m) (htail.rename m)

end

end Argument

/-! ### Instructions -/

/-- The second call is the first one with names in its arguments written out. -/
structure Call.WrittenOut (lib : Library) (c c' : Call) : Prop where
  /-- The function stays. -/
  function_eq : c'.function = c.function
  /-- Names in the arguments are written out. -/
  arguments : Argument.ListWrittenOut lib c.arguments c'.arguments

/-- The second operation is the first one with names in its call written out, if it has one. -/
inductive Operation.WrittenOut (lib : Library) : Operation → Operation → Prop
  | same (o : Operation) : WrittenOut lib o o
  | quotation (v : Variable) {c c' : Call} (call : c.WrittenOut lib c') :
    WrittenOut lib (.quotation v c) (.quotation v c')
  | jumpEqualFunction (v : Variable) {c c' : Call} (call : c.WrittenOut lib c') (target : Label) :
    WrittenOut lib (.jumpEqualFunction v c target) (.jumpEqualFunction v c' target)

/-- The second instruction is the first one with names in its call written out. -/
inductive Instruction.WrittenOut (lib : Library) : Instruction → Instruction → Prop
  | mk (label : Option Label) {o o' : Operation} (operation : o.WrittenOut lib o')
    (spareVariables : List Variable) (spareTarget : Option Label) :
    WrittenOut lib ⟨label, o, spareVariables, spareTarget⟩ ⟨label, o', spareVariables, spareTarget⟩

variable {lib : Library}

theorem Call.WrittenOut.refl (c : Call) : c.WrittenOut lib c :=
  ⟨rfl, .refl c.arguments⟩

theorem Call.WrittenOut.toArgument {c c' : Call} (h : c.WrittenOut lib c') :
    Argument.WrittenOut lib c.toArgument c'.toArgument := by
  rw [Call.toArgument, Call.toArgument, h.function_eq]
  exact .call h.arguments

/-- Renaming the variables of calls does not get in the way of writing names out. -/
theorem Call.WrittenOut.rename {c c' : Call} (h : c.WrittenOut lib c') (m : Argument.Renaming) :
    (Operation.rename.onCall m c).WrittenOut lib (Operation.rename.onCall m c') :=
  ⟨h.function_eq, h.arguments.rename m⟩

namespace Operation

variable {o o' : Operation}

/-- Writing names out does not change what kind of operation it is. -/
theorem WrittenOut.opcode_eq (h : o.WrittenOut lib o') : o'.opcode = o.opcode := by
  cases h <;> rfl

theorem WrittenOut.target?_eq (h : o.WrittenOut lib o') : o'.target? = o.target? := by
  cases h <;> rfl

/-- Renamed operations are written out where the operations are. -/
theorem WrittenOut.rename (h : o.WrittenOut lib o') (m : Argument.Renaming) (f : Label → Label) :
    (o.rename m f).WrittenOut lib (o'.rename m f) := by
  cases h with
  | same => exact .same _
  | quotation v hcall => exact .quotation _ (hcall.rename m)
  | jumpEqualFunction v hcall target => exact .jumpEqualFunction _ (hcall.rename m) _

end Operation

namespace Instruction

variable {i i' : Instruction}

theorem WrittenOut.refl (i : Instruction) : i.WrittenOut lib i :=
  .mk _ (.same _) _ _

theorem WrittenOut.plain (label : Option Label) {o o' : Operation} (h : o.WrittenOut lib o') :
    (plain label o).WrittenOut lib (plain label o') :=
  .mk _ h _ _

theorem WrittenOut.label_eq (h : i.WrittenOut lib i') : i'.label = i.label := by
  cases h
  rfl

theorem WrittenOut.operation (h : i.WrittenOut lib i') :
    i.operation.WrittenOut lib i'.operation := by
  cases h
  assumption

theorem WrittenOut.declared?_eq (h : i.WrittenOut lib i') : i'.declared? = i.declared? := by
  rw [declared?, declared?, h.label_eq]

theorem WrittenOut.target_eq (h : i.WrittenOut lib i') : i'.target = i.target := by
  obtain ⟨label, ho, spares, spare⟩ := h
  exact congrArg (Option.or · spare) ho.target?_eq

theorem WrittenOut.isBasic_eq (h : i.WrittenOut lib i') : i'.isBasic = i.isBasic :=
  congrArg Opcode.isBasic h.operation.opcode_eq

/-- Basic instructions have no calls that could be written out. -/
theorem WrittenOut.eq_of_isBasic (h : i.WrittenOut lib i') (hbasic : i.isBasic = true) :
    i' = i := by
  obtain ⟨label, ho, spares, spare⟩ := h
  cases ho with
  | same => rfl
  | quotation | jumpEqualFunction => cases hbasic

theorem WrittenOut.arguments (h : i.WrittenOut lib i') :
    Argument.ListWrittenOut lib i.arguments i'.arguments := by
  obtain ⟨label, ho, spares, spare⟩ := h
  cases ho with
  | same => exact .refl _
  | quotation v hcall | jumpEqualFunction v hcall target => exact hcall.arguments

/-- Names that are too long are names of variables, and stay where they are. -/
theorem WrittenOut.hasOverlongName_eq (h : i.WrittenOut lib i') :
    i'.hasOverlongName = i.hasOverlongName :=
  h.arguments.any_isOverlong_eq

/-- An instruction references the same variables when names in its call are written out. -/
theorem WrittenOut.referencedVariables_eq (h : i.WrittenOut lib i') :
    i'.referencedVariables = i.referencedVariables := by
  have hoperands : i'.operandVariables = i.operandVariables := by
    obtain ⟨label, ho, spares, spare⟩ := h
    cases ho <;> rfl
  rw [referencedVariables, referencedVariables, callVariables, callVariables, hoperands,
    h.arguments.vars_eq]

/-- Replacing variables and labels does not get in the way of writing names out. -/
theorem WrittenOut.rename (h : i.WrittenOut lib i') (m : Argument.Renaming) (f : Label → Label) :
    (i.rename m f).WrittenOut lib (i'.rename m f) := by
  obtain ⟨label, ho, spares, spare⟩ := h
  exact .mk _ (ho.rename m f) _ _

end Instruction

/-! ### Programs -/

/-- The second program is the first one with names in its calls written out. -/
structure Program.WrittenOut (lib : Library) (p p' : Program) : Prop where
  /-- The name stays. -/
  name_eq : p'.name = p.name
  /-- Names in the calls of the instructions are written out. -/
  code : List.Forall₂ (Instruction.WrittenOut lib) p.code p'.code

section Code

variable {code code' : List Instruction}

/-- Writing names out does not change which labels are declared. -/
theorem declaredLabels_eq (h : List.Forall₂ (Instruction.WrittenOut lib) code code') :
    declaredLabels code' = declaredLabels code :=
  filterMap_eq_of_forall₂ (fun _ _ hi => hi.declared?_eq) h

/-- Which label is declared twice, and where, does not depend on whether names are written out. -/
theorem duplicateLabel?_eq (h : List.Forall₂ (Instruction.WrittenOut lib) code code') :
    duplicateLabel? code' = duplicateLabel? code := by
  suffices hfrom : ∀ seen k, duplicateFrom seen k code' = duplicateFrom seen k code from hfrom [] 0
  induction h with
  | nil => exact fun _ _ => rfl
  | cons hi _ ih =>
    intro seen k
    rw [duplicateFrom, duplicateFrom, hi.declared?_eq]
    simp only [ih]

/-- The names in use do not depend on whether calls are written out. -/
theorem supply_eq (h : List.Forall₂ (Instruction.WrittenOut lib) code code') :
    Supply.ofCode code' = Supply.ofCode code := by
  have hwork : code'.flatMap Instruction.workIndices = code.flatMap Instruction.workIndices :=
    flatMap_eq_of_forall₂ (fun i i' hi => by
      rw [Instruction.workIndices, Instruction.workIndices, hi.referencedVariables_eq]) h
  have hlabel : code'.flatMap Instruction.labelIndices = code.flatMap Instruction.labelIndices :=
    flatMap_eq_of_forall₂ (fun i i' hi => by
      rw [Instruction.labelIndices, Instruction.labelIndices, hi.label_eq, hi.target_eq]) h
  rw [Supply.ofCode, Supply.ofCode, usedWorkNumbers, usedWorkNumbers, usedLabelNumbers,
    usedLabelNumbers, hwork, hlabel]

end Code

namespace Program

variable {p p' : Program}

theorem WrittenOut.refl (p : Program) : p.WrittenOut lib p :=
  ⟨rfl, List.forall₂_same.2 fun i _ => .refl i⟩

/-- A program mentions the same variables when names in it are written out. -/
theorem WrittenOut.vars_eq (h : p.WrittenOut lib p') : p'.vars = p.vars := by
  rw [vars, vars, flatMap_eq_of_forall₂ (fun _ _ hi => hi.referencedVariables_eq) h.code]

/-- A program needs the same number of inputs when names in it are written out. -/
theorem WrittenOut.requiredInputs_eq (h : p.WrittenOut lib p') :
    p'.requiredInputs = p.requiredInputs := by
  rw [requiredInputs, requiredInputs, inputVariables, inputVariables, h.vars_eq]

theorem WrittenOut.labels_eq (h : p.WrittenOut lib p') : p'.labels = p.labels :=
  declaredLabels_eq h.code

theorem WrittenOut.isFullyBasic_eq (h : p.WrittenOut lib p') :
    p'.isFullyBasic = p.isFullyBasic := by
  have hbasic := map_eq_of_forall₂ (fun _ _ hi => hi.isBasic_eq) h.code
  have hall : ∀ code : List Instruction,
      code.all Instruction.isBasic = (code.map Instruction.isBasic).all id := by
    simp [List.all_map]
  rw [isFullyBasic, isFullyBasic, hall, hall, hbasic]

/-- In a program without calls there is nothing to write out. -/
theorem WrittenOut.eq_of_isFullyBasic (h : p.WrittenOut lib p') (hbasic : p.isFullyBasic = true) :
    p' = p := by
  have hcode : List.Forall₂ (fun i i' => i.isBasic = true ∧ i.WrittenOut lib i') p.code p'.code :=
    (List.forall₂_and_left _ _).2 ⟨List.all_eq_true.1 hbasic, h.code⟩
  have heq : List.Forall₂ Eq p'.code p.code :=
    hcode.flip.imp fun i' i hi => hi.2.eq_of_isBasic hi.1
  exact Program.ext h.name_eq (List.forall₂_eq_eq_eq ▸ heq)

theorem WrittenOut.length_eq (h : p.WrittenOut lib p') : p'.code.length = p.code.length :=
  h.code.length_eq.symm

/-- A label leads to the same place in both programs. -/
theorem WrittenOut.indexOf?_eq (h : p.WrittenOut lib p') (label : Label) :
    p'.indexOf? label = p.indexOf? label := by
  refine findIdx?_eq_of_forall₂ (fun i i' hi => ?_) h.code
  rw [hi.declared?_eq]

theorem WrittenOut.indexOf_eq (h : p.WrittenOut lib p') (label : Option Label) :
    p'.indexOf label = p.indexOf label := by
  rw [indexOf, indexOf, h.name_eq]
  cases label with
  | none => rfl
  | some l => simp only [Option.bind_some, h.indexOf?_eq]

/-- The check of a program looks at labels only. -/
theorem WrittenOut.validate_eq (h : p.WrittenOut lib p') : p'.validate = p.validate := by
  have hdangling : p'.isDangling = p.isDangling := by
    funext label
    rw [isDangling, isDangling, h.labels_eq]
  have htarget : p'.danglingTarget? = p.danglingTarget? := by
    rw [danglingTarget?, danglingTarget?, hdangling]
    refine findSome?_zipIdx_eq_of_forall₂ (fun i i' k hi => ?_) h.code 0
    simp only [hi.target_eq]
  rw [validate, validate, htarget, h.name_eq]

end Program

/-! ### Libraries -/

/-- The second library is the first one with names in the calls of its programs written out. -/
structure Library.WrittenOut (lib lib' : Library) : Prop where
  /-- Names in the calls of the programs are written out. -/
  programs : List.Forall₂ (Program.WrittenOut lib) lib.programs lib'.programs

namespace Library

variable {lib' : Library}

theorem WrittenOut.refl (lib : Library) : lib.WrittenOut lib :=
  ⟨List.forall₂_same.2 fun p _ => .refl p⟩

/-- A name finds an entry in one library where it does in the other one, and the program of the
second entry is that of the first one with names written out. -/
theorem WrittenOut.findExpansion? (h : lib.WrittenOut lib') (name : String) :
    Option.Rel (fun e e' : Expansion => e.program.WrittenOut lib e'.program)
      (lib.findExpansion? name) (lib'.findExpansion? name) := by
  have hentries : List.Forall₂ (fun e e' : Expansion => e.program.WrittenOut lib e'.program)
      lib.entries lib'.entries := by
    have hprograms := h.programs
    rwa [Library.programs, Library.programs, List.forall₂_map_left_iff,
      List.forall₂_map_right_iff] at hprograms
  have hname : ∀ e e' : Expansion, e.program.WrittenOut lib e'.program → e'.name = e.name :=
    fun e e' he => he.name_eq
  have hexact := find?_of_forall₂ (f := fun e : Expansion => decide (e.name = name))
    (fun e e' he => by rw [hname e e' he]) hentries
  have hfolded := find?_of_forall₂
    (f := fun e : Expansion => decide (Text.toLower e.name = Text.toLower name))
    (fun e e' he => by rw [hname e e' he]) hentries
  rw [Library.findExpansion?, Library.findExpansion?, findExact?, findExact?]
  generalize lib.entries.find? _ = x, lib'.entries.find? _ = y at hexact ⊢
  cases hexact with
  | some he => exact .some he
  | none => exact hfolded

/-- A name finds a program in one library where it does in the other one, and the second program is
the first one with names written out. -/
theorem WrittenOut.find? (h : lib.WrittenOut lib') (name : String) :
    Option.Rel (Program.WrittenOut lib) (lib.find? name) (lib'.find? name) := by
  have hentry := h.findExpansion? name
  rw [Library.find?, Library.find?]
  generalize lib.findExpansion? name = x, lib'.findExpansion? name = y at hentry ⊢
  cases hentry with
  | some he => exact .some he
  | none => exact .none

theorem WrittenOut.getExpansion (h : lib.WrittenOut lib') (name caller : String) :
    Agree (fun e e' : Expansion => e.program.WrittenOut lib e'.program)
      (lib.getExpansion name caller) (lib'.getExpansion name caller) := by
  have hfind := h.findExpansion? name
  rw [Library.getExpansion, Library.getExpansion]
  generalize lib.findExpansion? name = x, lib'.findExpansion? name = y at hfind ⊢
  cases hfind with
  | none => exact .error _
  | some he => exact .ok he

/-- A function finds a program in one library where it does in the other one, and fails alike. -/
theorem WrittenOut.get (h : lib.WrittenOut lib') (name caller : String) :
    Agree (Program.WrittenOut lib) (lib.get name caller) (lib'.get name caller) := by
  have hfind := h.find? name
  rw [Library.get, Library.get]
  generalize lib.find? name = x, lib'.find? name = y at hfind ⊢
  cases hfind with
  | none => exact .error _
  | some hp => exact .ok hp

/-- A function has the same name in both libraries. -/
theorem WrittenOut.resolve?_eq (h : lib.WrittenOut lib') (name : String) :
    lib'.resolve? name = lib.resolve? name := by
  have hfind := h.find? name
  rw [resolve?, resolve?]
  generalize lib.find? name = x, lib'.find? name = y at hfind ⊢
  cases hfind with
  | none => rfl
  | some hp => exact congrArg some hp.name_eq

theorem WrittenOut.contains_eq (h : lib.WrittenOut lib') (name : String) :
    lib'.contains name = lib.contains name := by
  have hresolve := congrArg Option.isSome (h.resolve?_eq name)
  rwa [resolve?, resolve?, Option.isSome_map, Option.isSome_map] at hresolve

theorem WrittenOut.names_eq (h : lib.WrittenOut lib') : lib'.names = lib.names :=
  map_eq_of_forall₂ (fun _ _ hp => hp.name_eq) h.programs

/-- The functions that an instruction calls, be it explicitly or by bare names. -/
def mentionedCallees (lib : Library) (i : Instruction) : List String :=
  i.operation.call?.toList.flatMap fun call =>
    (Argument.walk [call.toArgument]).filterMap (Argument.callee? lib)

/-- An instruction calls the same programs, by call or by bare name. -/
theorem mentionedCallees_eq {i i' : Instruction} (h : i.WrittenOut lib i') :
    lib.mentionedCallees i' = lib.mentionedCallees i := by
  obtain ⟨label, ho, spares, spare⟩ := h
  cases ho with
  | same => rfl
  | quotation v hcall | jumpEqualFunction v hcall target =>
    have hwalk := (Argument.ListWrittenOut.cons hcall.toArgument .nil).filterMap_walk
      Argument.ignores_callee?
    exact congrArg (· ++ []) hwalk

/-- The programs that a program calls are those that its instructions call. -/
theorem mem_callees_iff {p : Program} {function : String} :
    function ∈ p.calledFunctions ++ p.bareNames.filter lib.contains ↔
      function ∈ p.code.flatMap lib.mentionedCallees := by
  rw [List.mem_append, List.mem_filter, Program.mem_calledFunctions, Program.mem_bareNames]
  simp only [List.mem_flatMap, mentionedCallees, Option.mem_toList,
    List.mem_filterMap, Argument.walk_singleton, Argument.mem_nodes_iff,
    Argument.callee?_eq_some_iff, Argument.function?_eq_some_iff, Argument.bareName?_eq_some_iff]
  constructor
  · rintro (⟨i, hi, call, hcall, as, hn⟩ | ⟨⟨i, hi, call, hcall, hn, hvariable⟩, hfound⟩)
    · exact ⟨i, hi, call, hcall, _, hn, .inl ⟨as, rfl⟩⟩
    · exact ⟨i, hi, call, hcall, _, hn, .inr ⟨⟨rfl, hvariable⟩, hfound⟩⟩
  · rintro ⟨i, hi, call, hcall, _, hn, ⟨as, rfl⟩ | ⟨⟨rfl, hvariable⟩, hfound⟩⟩
    · exact .inl ⟨i, hi, call, hcall, as, hn⟩
    · exact .inr ⟨⟨i, hi, call, hcall, hn, hvariable⟩, hfound⟩

/-- Programs have the same callees once names are written out. -/
theorem WrittenOut.directCalls_eq (h : lib.WrittenOut lib') {p p' : Program}
    (hp : p.WrittenOut lib p') : lib'.directCalls p' = lib.directCalls p := by
  have hcontains : lib'.contains = lib.contains := funext h.contains_eq
  have hresolve : lib'.resolve? = lib.resolve? := funext h.resolve?_eq
  have hcode : p'.code.flatMap lib.mentionedCallees = p.code.flatMap lib.mentionedCallees :=
    flatMap_eq_of_forall₂ (fun _ _ => mentionedCallees_eq) hp.code
  rw [directCalls, directCalls, hcontains, hresolve]
  refine sortedSet_eq fun name => ?_
  simp only [List.mem_map, mem_callees_iff, hcode]

/-- The call graphs are the same, so that the checks for circles come to the same. -/
theorem WrittenOut.callGraph_eq (h : lib.WrittenOut lib') : lib'.callGraph = lib.callGraph := by
  have hmap : lib'.programs.map (fun p => (p.name, lib'.directCalls p)) =
      lib.programs.map fun p => (p.name, lib.directCalls p) :=
    map_eq_of_forall₂ (fun p p' hp => by rw [hp.name_eq, h.directCalls_eq hp]) h.programs
  rw [callGraph, callGraph, hmap]

/-- The library passes the same checks once names are written out, and fails with the same error. -/
theorem WrittenOut.validate_eq (h : lib.WrittenOut lib') : lib'.validate = lib.validate := by
  have hunknown : lib'.unknownCall? = lib.unknownCall? := by
    funext graph
    rw [unknownCall?, unknownCall?, h.names_eq]
  have hprograms : lib'.programs.forM Program.validate = lib.programs.forM Program.validate := by
    have hforM : ∀ {ps ps' : List Program}, List.Forall₂ (Program.WrittenOut lib) ps ps' →
        ps'.forM Program.validate = ps.forM Program.validate := by
      intro ps ps' hps
      induction hps with
      | nil => rfl
      | cons hp _ ih => rw [List.forM, List.forM, hp.validate_eq, ih]
    exact hforM h.programs
  rw [validate, validate, validateWith, validateWith, hunknown, h.callGraph_eq, hprograms]

end Library

end RegisterMachine
