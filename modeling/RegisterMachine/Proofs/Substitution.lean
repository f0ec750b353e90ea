import RegisterMachine.Proofs.ArgumentText
import RegisterMachine.Proofs.CallAgreement
import RegisterMachine.Proofs.StatementText
import RegisterMachine.Proofs.StoreKeys

/-!
# Substitution of variables

A substitution puts variables in the place of variables, all at once and at every depth of
arguments. It can be carried out if every variable of the arguments can be told from its name, and
the name of every variable that is put in can be read again. Then it is transparent: in every place
stands what stood there before or the variable in its place, the arguments call the same functions,
their text is read back, and a call with them has the value that it had before, as long as the new
variables hold what the old ones held.

* `Argument.at?` — the argument in a place;
* `Argument.Replaced` — what stands in a place before and after a substitution;
* `Argument.substitute_eq_ok_iff` — when a substitution can be carried out;
* `Argument.substitute_of_parseList` — what it does to arguments that have been read;
* `Argument.longName_not_substituted` — arguments for which it cannot be carried out.
-/

namespace RegisterMachine

namespace Argument

variable {m : Renaming}

theorem checkNames_eq_ok_iff {as : List Argument} :
    checkNames as = .ok () ↔ ∀ n ∈ walk as, n.isOverlong = false := by
  rw [checkNames]
  split
  · rename_i h
    obtain ⟨n, hn, hlong⟩ := List.any_eq_true.1 h
    exact ⟨nofun, fun hall => absurd hlong (by simp [hall n hn])⟩
  · rename_i h
    refine ⟨fun _ n hn => ?_, fun _ => rfl⟩
    by_contra hlong
    exact h (List.any_eq_true.2 ⟨n, hn, by simpa using hlong⟩)

theorem checkNames_eq_ok_or (as : List Argument) :
    checkNames as = .ok () ∨ checkNames as = .error (.numeral .tooLong) := by
  rw [checkNames]
  split
  · exact .inr rfl
  · exact .inl rfl

/-- A name that has been put in has not too many digits if its variable's number has not. -/
theorem isOverlong_rename {a : Argument} (h : a.isOverlong = false) :
    (a.rename m).isOverlong = false ↔ ∀ v ∈ a.asVariable?, ∀ w ∈ m v, w.Brief := by
  rcases a with value | text | ⟨function, as⟩
  · rw [rename]
    exact iff_of_true h (by simp [asVariable?])
  · rw [rename, asVariable?]
    rcases Variable.ofName? text with _ | v
    · exact iff_of_true h (by simp)
    · rw [Option.bind_some]
      rcases hm : m v with _ | w
      · exact iff_of_true h (by simp [hm])
      · rw [isOverlong, Variable.isName, Variable.ofName?_name, Option.isSome_some, Bool.true_and,
          Variable.isOverlong_name_eq_false_iff]
        simp [hm]
  · rw [rename]
    exact iff_of_true rfl (by simp [asVariable?])

/-- A substitution can be carried out if every variable can be told from its name, before and
after. -/
theorem substitute_eq_ok_iff {as bs : List Argument} :
    substitute m as = .ok bs ↔ (∀ n ∈ walk as, n.isOverlong = false) ∧
      (∀ v ∈ vars as, ∀ w ∈ m v, w.Brief) ∧ renameList m as = bs := by
  have hsubstitute : substitute m as = .ok bs ↔ checkNames as = .ok () ∧
      checkNames (renameList m as) = .ok () ∧ renameList m as = bs := by
    simp only [substitute, Bounded.bind_eq_ok, Bounded.pure_eq_ok, Except.ok.injEq]
    constructor
    · rintro ⟨_, hbefore, _, hafter, h⟩
      exact ⟨hbefore, hafter, h⟩
    · rintro ⟨hbefore, hafter, h⟩
      exact ⟨(), hbefore, (), hafter, h⟩
  rw [hsubstitute, checkNames_eq_ok_iff, checkNames_eq_ok_iff, walk_renameList,
    List.forall_mem_map]
  refine and_congr_right fun hbefore => and_congr_left fun _ => ?_
  constructor
  · intro hafter v hv w hw
    obtain ⟨n, hn, hnv⟩ := List.mem_filterMap.1 (mem_sortedSet.1 hv)
    exact (isOverlong_rename (hbefore n hn)).1 (hafter n hn) v hnv w hw
  · intro himages n hn
    refine (isOverlong_rename (hbefore n hn)).2 fun v hv => himages v ?_
    exact mem_sortedSet.2 (List.mem_filterMap.2 ⟨n, hn, hv⟩)

/-- Otherwise the substitution fails. -/
theorem substitute_eq_ok_or (m : Renaming) (as : List Argument) :
    substitute m as = .ok (renameList m as) ∨
      substitute m as = .error (.numeral .tooLong) := by
  rw [substitute]
  rcases checkNames_eq_ok_or as with h | h
  · rw [h]
    rcases checkNames_eq_ok_or (renameList m as) with h' | h'
    · rw [h']
      exact .inl rfl
    · rw [h']
      exact .inr rfl
  · rw [h]
    exact .inr rfl

/-! ### Places -/

/-- The argument in a place below another one: each number counts among the arguments of a call. -/
def at? : List Nat → Argument → Option Argument
  | [], a => some a
  | k :: place, call _ as => as[k]?.bind (at? place)
  | _ :: _, _ => none

/-- What stands in a place before a substitution, and what stands there after it. -/
inductive Replaced (m : Renaming) : Argument → Argument → Prop
  | constant (value : Int) : Replaced m (.constant value) (.constant value)
  | call (function : String) (as bs : List Argument) :
    Replaced m (.call function as) (.call function bs)
  | variable {text : String} {v w : Variable} (spelled : Variable.ofName? text = some v)
    (image : m v = some w) : Replaced m (.name text) (.name w.name)
  | kept {text : String} (stays : ∀ v, Variable.ofName? text = some v → m v = none) :
    Replaced m (.name text) (.name text)

theorem replaced_rename (a : Argument) : Replaced m a (a.rename m) := by
  rcases a with value | text | ⟨function, as⟩
  · rw [rename]
    exact .constant value
  · rw [rename]
    split
    · rename_i w hw
      obtain ⟨v, hv, hm⟩ := Option.bind_eq_some_iff.1 hw
      exact .variable hv hm
    · rename_i hnone
      exact .kept (Option.bind_eq_none_iff.1 hnone)
  · rw [rename]
    exact .call function as _

theorem at?_constant (k : Nat) (place : List Nat) (value : Int) :
    at? (k :: place) (.constant value) = none := by
  simp [at?]

theorem at?_name (k : Nat) (place : List Nat) (text : String) :
    at? (k :: place) (.name text) = none := by
  simp [at?]

/-- Renaming changes the argument in every place. -/
theorem at?_rename (place : List Nat) (a : Argument) :
    (a.rename m).at? place = (a.at? place).map (rename m) := by
  induction place generalizing a with
  | nil => rw [at?, at?, Option.map_some]
  | cons k place ih =>
    rcases a with value | text | ⟨function, as⟩
    · rw [rename, at?_constant, Option.map_none]
    · rw [rename, at?_name, Option.map_none]
      split <;> rw [at?_name]
    · rw [rename, at?, at?, renameList_eq_map, List.getElem?_map, Option.bind_map, Option.map_bind]
      exact congrArg (as[k]?.bind ·) (funext ih)

theorem replaced_renameList (as : List Argument) (k : Nat) (place : List Nat) :
    Option.Rel (Replaced m) (as[k]?.bind (at? place)) ((renameList m as)[k]?.bind (at? place)) := by
  have hat : (renameList m as)[k]?.bind (at? place) =
      (as[k]?.bind (at? place)).map (rename m) := by
    rw [renameList_eq_map, List.getElem?_map, Option.bind_map, Option.map_bind]
    exact congrArg (as[k]?.bind ·) (funext fun a => at?_rename place a)
  rw [hat]
  rcases as[k]?.bind (at? place) with _ | a
  · exact .none
  · exact .some (replaced_rename a)

/-! ### What a substitution keeps -/

theorem vars_renameList (as : List Argument) :
    vars (renameList m as) = sortedSet ((vars as).map fun v => (m v).getD v) := by
  rw [vars]
  refine sortedSet_eq fun v => ?_
  rw [← mem_sortedSet, ← vars, mem_vars_renameList, List.mem_map]

theorem parseList_renderList {as : List Argument} (h : ReadableIn as) :
    parseList (renderList as) = .ok as :=
  Bounded.mapError_eq_ok.2 (ofText_renderList h)

theorem Readable.rename {a : Argument} (h : a.Readable) : (a.rename m).Readable := by
  rcases a with value | text | ⟨function, as⟩
  · rwa [Argument.rename]
  · rw [Argument.rename]
    split
    · rename_i w _
      exact w.isIdentifier_name
    · exact h
  · rwa [Argument.rename]

/-- Renaming spoils no text. -/
theorem readableIn_renameList {as : List Argument} (h : ReadableIn as) :
    ReadableIn (renameList m as) := by
  rw [ReadableIn, walk_renameList]
  exact List.forall_mem_map.2 fun n hn => (h n hn).rename

/-- A call with renamed arguments has the value of the call, where the new variables hold what the
old ones hold. -/
theorem evaluator_renameList {as : List Argument} (lib : Library) (fuel : Nat)
    (function caller : String) {store store' : Store}
    (h : ∀ v ∈ vars as, store'.get ((m v).getD v) = store.get v) :
    lib.evaluator fuel caller store' ⟨function, renameList m as⟩ =
      lib.evaluator fuel caller store ⟨function, as⟩ := by
  rw [Library.evaluator, ← Library.callBy_nothing, ← Library.callBy_nothing]
  have hagree : AgreeUnder m store.get store'.get (vars (Call.mk function as).arguments) := h
  exact Library.callBy_rename Skip.nothing lib _ caller hagree

/-- A substitution into arguments that have been read fails if some variable cannot be told from its
name, before or after. Else it replaces variables and nothing but variables, in every place and by
what each of them is mapped to; so the variables of the arguments are mapped with it, and the
functions and the bare names stay. The text of the result spells it, and the value of a call, with
its cycles, or the failure, depends on what the variables hold and not on their names. -/
theorem substitute_of_parseList {s : String} {as : List Argument} (h : parseList s = .ok as)
    (m : Renaming) :
    ((∃ n ∈ walk as, n.isOverlong = true) ∨ (∃ v ∈ vars as, ∃ w ∈ m v, ¬ w.Brief) →
      substitute m as = .error (.numeral .tooLong)) ∧
    ((∀ n ∈ walk as, n.isOverlong = false) → (∀ v ∈ vars as, ∀ w ∈ m v, w.Brief) →
      ∃ bs, substitute m as = .ok bs ∧
        (∀ (k : Nat) (place : List Nat),
          Option.Rel (Replaced m) (as[k]?.bind (at? place)) (bs[k]?.bind (at? place))) ∧
        vars bs = sortedSet ((vars as).map fun v => (m v).getD v) ∧
        calledFunctions bs = calledFunctions as ∧
        bareNames bs = bareNames as ∧
        parseList (renderList bs) = .ok bs ∧
        ∀ (lib : Library) (fuel : Nat) (function caller : String) (store store' : Store),
          (∀ v ∈ vars as, store'.get ((m v).getD v) = store.get v) →
          lib.evaluator fuel caller store' ⟨function, bs⟩ =
            lib.evaluator fuel caller store ⟨function, as⟩) := by
  constructor
  · intro hfaults
    refine (substitute_eq_ok_or m as).resolve_left fun hok => ?_
    obtain ⟨hnames, himages, -⟩ := substitute_eq_ok_iff.1 hok
    rcases hfaults with ⟨n, hn, hlong⟩ | ⟨v, hv, w, hw, hlong⟩
    · exact absurd (hnames n hn) (by simp [hlong])
    · exact hlong (himages v hv w hw)
  · intro hnames himages
    have hreadable : ReadableIn as := readable_of_ofText (Bounded.mapError_eq_ok.1 h)
    refine ⟨renameList m as, substitute_eq_ok_iff.2 ⟨hnames, himages, rfl⟩,
      replaced_renameList as, vars_renameList as, calledFunctions_renameList as,
      bareNames_renameList as, ?_, ?_⟩
    · exact parseList_renderList (readableIn_renameList hreadable)
    · intro lib fuel function caller store store' hstores
      exact evaluator_renameList lib fuel function caller hstores

/-- Arguments that name two variables at different depths, one of them in two spellings. -/
def crossed : List Argument :=
  [.name "X1", .call "ECHO" [.name "z1", .call "ECHO" [.name "x1"]], .name "ECHO"]

/-- The first input and the first work variable change places. -/
def crossing : Renaming :=
  .ofPairs [(.input 0, .work 0), (.work 0, .input 0)]

theorem crossing_substitute :
    parseList "X1,(ECHO,z1,(ECHO,x1)),ECHO" = .ok crossed ∧
    (∀ n ∈ walk crossed, n.isOverlong = false) ∧
    (∀ v ∈ vars crossed, ∀ w ∈ crossing v, w.Brief) ∧
    substitute crossing crossed =
      .ok [.name "z1", .call "ECHO" [.name "x1", .call "ECHO" [.name "z1"]], .name "ECHO"] ∧
    parseList "z1,(ECHO,x1,(ECHO,z1)),ECHO" =
      .ok [.name "z1", .call "ECHO" [.name "x1", .call "ECHO" [.name "z1"]], .name "ECHO"] ∧
    Library.echoLibrary.evaluator 2 "MAIN"
        (.ofVariables [.input 0, .work 0] fun v => if v = .work 0 then 3 else 5)
        ⟨"ECHO", [.name "z1", .call "ECHO" [.name "x1", .call "ECHO" [.name "z1"]],
          .name "ECHO"]⟩ = .ok (3, 4) := by
  have hreadable : ReadableIn crossed := by decide +kernel
  have htext : renderList crossed = "X1,(ECHO,z1,(ECHO,x1)),ECHO" := by decide +kernel
  have hparse : parseList "X1,(ECHO,z1,(ECHO,x1)),ECHO" = .ok crossed := by
    rw [← htext]
    exact parseList_renderList hreadable
  have hnames : ∀ n ∈ walk crossed, n.isOverlong = false := by decide +kernel
  have himages : ∀ v ∈ vars crossed, ∀ w ∈ crossing v, w.Brief := by decide +kernel
  obtain ⟨bs, hbs, -, -, -, -, hagain, hvalue⟩ :=
    (substitute_of_parseList hparse crossing).2 hnames himages
  have hok : substitute crossing crossed =
      .ok [.name "z1", .call "ECHO" [.name "x1", .call "ECHO" [.name "z1"]], .name "ECHO"] :=
    substitute_eq_ok_iff.2 ⟨hnames, himages, by decide +kernel⟩
  obtain rfl := Except.ok.inj (hbs.symm.trans hok)
  have hstores : ∀ v ∈ vars crossed,
      (Store.ofVariables [.input 0, .work 0] fun v => if v = .work 0 then 3 else 5).get
          ((crossing v).getD v) =
        (Store.ofVariables [.input 0, .work 0] fun v => if v = .work 0 then 5 else 3).get v := by
    decide +kernel
  refine ⟨hparse, hnames, himages, hok, hagain, ?_⟩
  rw [hvalue _ _ _ _ _ _ hstores]
  rfl

/-- A variable that cannot be told cannot be replaced, nor can it be left alone. -/
theorem longName_not_substituted :
    parseList Variable.longName = .ok [.name Variable.longName] ∧
      substitute (.ofPairs []) [.name Variable.longName] = .error (.numeral .tooLong) := by
  have hworded : Text.isIdentifier Variable.longName.toList = true := by
    rw [Variable.longName, String.toList_ofList, Variable.longNameChars, Text.isIdentifier,
      List.all_replicate]
    decide
  have hreadable : ReadableIn [.name Variable.longName] := by
    rw [ReadableIn, walk, walk, nodes, List.append_nil]
    exact List.forall_mem_singleton.2 hworded
  have hparse := parseList_renderList hreadable
  rw [renderList, render] at hparse
  refine ⟨hparse, (substitute_eq_ok_or _ _).resolve_left fun hok => ?_⟩
  have hname := (substitute_eq_ok_iff.1 hok).1 (.name Variable.longName) (by simp [walk, nodes])
  rw [isOverlong, Variable.isName_longName, Variable.isOverlong_longName] at hname
  cases hname

end Argument

end RegisterMachine
