import Mathlib.Data.Prod.Lex
import RegisterMachine.Label.Parse
import RegisterMachine.Proofs.Inputs
import RegisterMachine.Proofs.StatementText
import RegisterMachine.Proofs.StoreKeys
import RegisterMachine.Variable.Parse

/-!
# Spellings of variables and labels

A variable or a label has one name and many spellings. A spelling may have blanks around it, its
letters are small or capital, and the digits of its number come from any script, apart from the
first one, which is an ASCII digit and not zero. Each spelling is read as what it spells and nothing
else is read, so the name can stand for the variable or the label wherever a text is wanted: names
are told apart, and what has been read from any spelling is read from its name again.

* `Text.SpellsPositive`, `Variable.Spells`, `Label.Spells` — the spellings, without blanks;
* `Variable.ofTrimmed?_eq_some_iff`, `Label.spellingOfTrimmed_eq_label_iff` — what the readers know
  about a text without blanks;
* `FaithfulNames` — the laws of names and spellings, derived at once for both by
  `FaithfulNames.of_spells`;
* `Variable.sortKey` — the place of a variable in listings;
* `names_faithful` — the laws for variables and labels, with recognition, numbers and places.
-/

namespace RegisterMachine

/-! ### Numbers and blanks -/

namespace Text

/-- The characters make up the positive number: an ASCII digit that is not zero, and digits of any
script. -/
inductive SpellsPositive : List Char → Nat → Prop
  | digits {c : Char} {cs : List Char} {ds : List Nat} (first : '1' ≤ c ∧ c ≤ '9')
      (decimal : List.Forall₂ (fun c d => decimal? c = some d) (c :: cs) ds) :
      SpellsPositive (c :: cs) (Nat.ofDigits 10 ds.reverse)

theorem decimalValue_pos {c : Char} (hc : '1' ≤ c ∧ c ≤ '9') (cs : List Char) :
    0 < decimalValue (c :: cs) := by
  induction cs using List.reverseRecOn with
  | nil =>
    obtain ⟨d, hpos, hd⟩ := exists_decimal?_of_first hc
    simpa [decimalValue, hd] using hpos
  | append_singleton cs e ih =>
    rw [← List.cons_append, decimalValue_concat]
    omega

theorem spellsPositive_iff {cs : List Char} {n : Nat} :
    SpellsPositive cs n ↔ Variable.isNameNumber cs = true ∧ decimalValue cs = n := by
  constructor
  · rintro ⟨first, decimal⟩
    have hdecimal := exists_forall₂_decimal?_iff.1 ⟨_, decimal⟩
    exact ⟨Variable.isNameNumber_cons_iff.2 ⟨first, (List.forall_mem_cons.1 hdecimal).2⟩,
      decimalValue_eq_ofDigits decimal⟩
  · rintro ⟨hnumber, rfl⟩
    obtain ⟨ds, hds⟩ := exists_forall₂_decimal?_iff.2 (Variable.isDecimal_of_isNameNumber hnumber)
    rcases cs with _ | ⟨c, cs⟩
    · cases hnumber
    rw [decimalValue_eq_ofDigits hds]
    exact .digits (Variable.isNameNumber_cons_iff.1 hnumber).1 hds

variable {cs : List Char} {n : Nat}

theorem SpellsPositive.isNameNumber (h : SpellsPositive cs n) : Variable.isNameNumber cs = true :=
  (spellsPositive_iff.1 h).1

theorem SpellsPositive.decimalValue_eq (h : SpellsPositive cs n) : decimalValue cs = n :=
  (spellsPositive_iff.1 h).2

theorem SpellsPositive.isDecimal (h : SpellsPositive cs n) : ∀ c ∈ cs, isDecimal c = true :=
  Variable.isDecimal_of_isNameNumber h.isNameNumber

theorem SpellsPositive.ne_nil (h : SpellsPositive cs n) : cs ≠ [] := by
  cases h
  exact List.cons_ne_nil _ _

theorem SpellsPositive.isBlank (h : SpellsPositive cs n) : ∀ c ∈ cs, isBlank c = false :=
  fun c hc => isBlank_of_isDecimal (h.isDecimal c hc)

/-- A number that is spelled with few digits has a numeral of few digits. -/
theorem SpellsPositive.short (h : SpellsPositive cs n)
    (hfew : cs.countP Text.isDecimal ≤ maxDigits) : Short n := by
  rw [List.countP_eq_length.2 h.isDecimal] at hfew
  rw [← h.decimalValue_eq]
  exact short_decimalValue hfew

theorem SpellsPositive.pos (h : SpellsPositive cs n) : 0 < n := by
  rcases h with ⟨first, decimal⟩
  rw [← decimalValue_eq_ofDigits decimal]
  exact decimalValue_pos first _

/-- A number in a name counts from one. -/
theorem spellsPositive_of_isNameNumber (h : Variable.isNameNumber cs = true) :
    SpellsPositive cs (decimalValue cs - 1 + 1) := by
  have hspells : SpellsPositive cs (decimalValue cs) := spellsPositive_iff.2 ⟨h, rfl⟩
  rwa [Nat.sub_add_cancel hspells.pos]

theorem spellsPositive_toDigits (h : 0 < n) : SpellsPositive (Nat.toDigits 10 n) n :=
  spellsPositive_iff.2 ⟨Variable.isNameNumber_toDigits h, decimalValue_toDigits n⟩

/-- The text is a word with nothing but blanks around it. -/
def Holds (s : String) (word : List Char) : Prop :=
  ∃ before after, s.toList = before ++ word ++ after ∧ (∀ c ∈ before, isBlank c = true) ∧
    ∀ c ∈ after, isBlank c = true

/-- A word without blanks is what is left when the blanks are cut off. -/
theorem holds_iff {s : String} {word : List Char} (hword : ∀ c ∈ word, isBlank c = false) :
    Holds s word ↔ trim s.toList = word := by
  constructor
  · rintro ⟨before, after, hs, hbefore, hafter⟩
    -- Without a word in between, the cut from the left takes the blanks of both ends.
    rcases word with _ | ⟨c, word⟩
    · have hblank : s.toList.dropWhile isBlank = [] := by
        rw [hs, List.append_nil, List.dropWhile_eq_nil_iff]
        exact fun c hc => (List.mem_append.1 hc).elim (hbefore c) (hafter c)
      rw [trim, hblank]
      rfl
    · rw [hs, trim_append hbefore hafter (List.cons_ne_nil c word) hword]
  · rintro rfl
    exact exists_trim s.toList

end Text

/-! ### Variables -/

namespace Variable

/-- The characters spell the variable. -/
inductive Spells : List Char → Variable → Prop
  | input {c : Char} {cs : List Char} {index : Nat} (letter : c = 'x' ∨ c = 'X')
      (number : Text.SpellsPositive cs (index + 1)) : Spells (c :: cs) (.input index)
  | result {c : Char} (letter : c = 'y' ∨ c = 'Y') : Spells [c] .result
  | work {c : Char} {cs : List Char} {index : Nat} (letter : c = 'z' ∨ c = 'Z')
      (number : Text.SpellsPositive cs (index + 1)) : Spells (c :: cs) (.work index)

variable {word : List Char} {v w : Variable}

/-- A variable is read from its spellings, and from nothing else. -/
theorem ofTrimmed?_eq_some_iff : ofTrimmed? word = some v ↔ Spells word v := by
  constructor
  · intro h
    rcases word with _ | ⟨c, cs⟩
    · cases h
    rw [ofTrimmed?] at h
    split at h
    · rename_i hempty
      obtain rfl := List.isEmpty_iff.1 hempty
      split at h
      · rename_i hletter
        obtain rfl := Option.some.inj h
        exact .result (by simpa using hletter)
      · cases h
    · split at h
      · rename_i hnumber
        have hspells := Text.spellsPositive_of_isNameNumber hnumber
        dsimp only at h
        split at h
        · rename_i hletter
          obtain rfl := Option.some.inj h
          exact .input (by simpa using hletter) hspells
        · split at h
          · rename_i hletter
            obtain rfl := Option.some.inj h
            exact .work (by simpa using hletter) hspells
          · cases h
      · cases h
  · rintro (⟨letter, number⟩ | ⟨letter⟩ | ⟨letter, number⟩)
    · rw [ofTrimmed?, List.isEmpty_eq_false_iff.2 number.ne_nil, number.isNameNumber,
        number.decimalValue_eq]
      rcases letter with rfl | rfl <;> rfl
    · rcases letter with rfl | rfl <;> rfl
    · rw [ofTrimmed?, List.isEmpty_eq_false_iff.2 number.ne_nil, number.isNameNumber,
        number.decimalValue_eq]
      rcases letter with rfl | rfl <;> rfl

theorem Spells.isBlank (h : Spells word v) : ∀ c ∈ word, Text.isBlank c = false := by
  rcases h with ⟨letter, number⟩ | ⟨letter⟩ | ⟨letter, number⟩
  · exact List.forall_mem_cons.2 ⟨by rcases letter with rfl | rfl <;> decide, number.isBlank⟩
  · exact List.forall_mem_singleton.2 (by rcases letter with rfl | rfl <;> decide)
  · exact List.forall_mem_cons.2 ⟨by rcases letter with rfl | rfl <;> decide, number.isBlank⟩

/-- A variable that is spelled with few digits has a name of few digits. -/
theorem Spells.brief (h : Spells word v) (hfew : word.countP Text.isDecimal ≤ Text.maxDigits) :
    v.Brief := by
  rcases h with ⟨-, number⟩ | ⟨-⟩ | ⟨-, number⟩
  · exact number.short ((List.sublist_cons_self _ _).countP_le.trans hfew)
  · decide
  · exact number.short ((List.sublist_cons_self _ _).countP_le.trans hfew)

theorem spells_name (v : Variable) : Spells v.name.toList v := by
  cases v with
  | input index =>
    rw [toList_name_input]
    exact .input (.inl rfl) (Text.spellsPositive_toDigits (Nat.succ_pos index))
  | result => exact .result (.inl rfl)
  | work index =>
    rw [toList_name_work]
    exact .work (.inl rfl) (Text.spellsPositive_toDigits (Nat.succ_pos index))

end Variable

/-! ### Labels -/

namespace Text

/-- The characters whose capital is a letter of `EXIT`. -/
theorem capital_eq_iff {c d : Char} (hd : d ∈ ['E', 'X', 'I', 'T']) :
    capital c = d ↔ c = d.toLower ∨ c = d ∨ d = 'I' ∧ c = 'ı' := by
  constructor
  · intro h
    rw [capital] at h
    split at h
    · rename_i hsmall
      have hsmalls : ∀ k : Fin 26, (Char.ofNat (97 + k - 32)).toLower = Char.ofNat (97 + k) := by
        decide
      rw [Bool.and_eq_true, decide_eq_true_eq, decide_eq_true_eq] at hsmall
      have hle : 'a'.toNat ≤ c.toNat := hsmall.1
      have hge : c.toNat ≤ 'z'.toNat := hsmall.2
      have ha : 'a'.toNat = 97 := rfl
      have hz : 'z'.toNat = 122 := rfl
      have hc : 97 + (c.toNat - 97) = c.toNat := by omega
      have hlower := hsmalls ⟨c.toNat - 97, by omega⟩
      rw [hc, h, Char.ofNat_toNat] at hlower
      exact .inl hlower.symm
    · split at h
      · rename_i hdotless
        exact .inr (.inr ⟨h.symm, eq_of_beq hdotless⟩)
      · split at h
        -- The long `ſ` has the capital `S`, which is not among the letters.
        · subst h
          exact absurd hd (by decide)
        · exact .inr (.inl h)
  · have hall : ∀ d ∈ ['E', 'X', 'I', 'T'], capital d.toLower = d ∧ capital d = d := by
      simp only [List.forall_mem_cons, List.not_mem_nil, false_imp_iff, implies_true, and_true]
      decide
    rintro (rfl | rfl | ⟨rfl, rfl⟩)
    · exact (hall d hd).1
    · exact (hall c hd).2
    · rfl

end Text

namespace Label

/-- The characters spell the label, or the lack of one. -/
inductive Spells : List Char → Option Label → Prop
  | none : Spells [] none
  | exit {e x i t : Char} (he : e = 'e' ∨ e = 'E') (hx : x = 'x' ∨ x = 'X')
      (hi : i = 'i' ∨ i = 'I' ∨ i = 'ı') (ht : t = 't' ∨ t = 'T') :
      Spells [e, x, i, t] (some .exit)
  | numbered {c : Char} {cs : List Char} {index : Nat} (letter : c = 'l' ∨ c = 'L')
      (number : Text.SpellsPositive cs (index + 1)) : Spells (c :: cs) (some (.numbered index))

variable {word : List Char} {l : Label} {o o' : Option Label}

theorem toKeyword_eq_exit_iff : Text.toKeyword word = "EXIT" ↔ Spells word (some exit) := by
  have hcapitals : Text.toKeyword word = "EXIT" ↔ word.map Text.capital = ['E', 'X', 'I', 'T'] := by
    rw [Text.toKeyword, ← String.toList_inj, String.toList_ofList]
    rfl
  rw [hcapitals]
  constructor
  · intro h
    simp only [List.map_eq_cons_iff, List.map_eq_nil_iff] at h
    obtain ⟨e, _, rfl, he, x, _, rfl, hx, i, _, rfl, hi, t, _, rfl, ht, rfl⟩ := h
    rw [Text.capital_eq_iff (by decide)] at he hx hi ht
    exact .exit (by simpa using he) (by simpa using hx) (by simpa using hi) (by simpa using ht)
  · rintro (_ | ⟨he, hx, hi, ht⟩)
    simp only [List.map_cons, List.map_nil, List.cons.injEq, and_true]
    refine ⟨?_, ?_, ?_, ?_⟩
    · rcases he with rfl | rfl <;> rfl
    · rcases hx with rfl | rfl <;> rfl
    · rcases hi with rfl | rfl | rfl <;> rfl
    · rcases ht with rfl | rfl <;> rfl

/-- A label is read from its spellings, and from nothing else. -/
theorem spellingOfTrimmed_eq_label_iff :
    spellingOfTrimmed word = .label l ↔ Spells word (some l) := by
  constructor
  · intro h
    rcases word with _ | ⟨c, cs⟩
    · cases h
    rw [spellingOfTrimmed] at h
    split at h
    · rename_i hexit
      obtain rfl := Spelling.label.inj h
      exact toKeyword_eq_exit_iff.1 (eq_of_beq hexit)
    · split at h
      · rename_i hnumber
        rw [Bool.and_eq_true] at hnumber
        obtain rfl := Spelling.label.inj h
        exact .numbered (by simpa using hnumber.1) (Text.spellsPositive_of_isNameNumber hnumber.2)
      · cases h
  · intro h
    cases h with
    | exit he hx hi ht =>
      rw [spellingOfTrimmed, toKeyword_eq_exit_iff.2 (.exit he hx hi ht)]
      rfl
    | @numbered c cs index letter number =>
      have hkeyword := toKeyword_ne_exit letter cs
      rw [spellingOfTrimmed, if_neg (by simpa using hkeyword), number.isNameNumber,
        number.decimalValue_eq]
      rcases letter with rfl | rfl <;> rfl

/-- The lack of a label is read from blanks, and from nothing else. -/
theorem spellingOfTrimmed_eq_blank_iff : spellingOfTrimmed word = .blank ↔ Spells word none := by
  constructor
  · intro h
    rcases word with _ | ⟨c, cs⟩
    · exact .none
    rw [spellingOfTrimmed] at h
    split at h
    · cases h
    · split at h <;> cases h
  · rintro ⟨⟩
    rfl

theorem Spells.unique (h : Spells word o) (h' : Spells word o') : o = o' := by
  cases o with
  | none =>
    cases h
    cases h'
    rfl
  | some l =>
    cases o' with
    | none =>
      cases h'
      cases h
    | some l' =>
      rw [← spellingOfTrimmed_eq_label_iff] at h h'
      exact congrArg some (Spelling.label.inj (h.symm.trans h'))

theorem Spells.isBlank (h : Spells word o) : ∀ c ∈ word, Text.isBlank c = false := by
  cases h with
  | none => exact List.forall_mem_nil _
  | exit he hx hi ht =>
    simp only [List.forall_mem_cons, List.not_mem_nil, false_imp_iff, implies_true, and_true]
    refine ⟨?_, ?_, ?_, ?_⟩
    · rcases he with rfl | rfl <;> decide
    · rcases hx with rfl | rfl <;> decide
    · rcases hi with rfl | rfl | rfl <;> decide
    · rcases ht with rfl | rfl <;> decide
  | numbered letter number =>
    exact List.forall_mem_cons.2 ⟨by rcases letter with rfl | rfl <;> decide, number.isBlank⟩

/-- A label that is spelled with few digits has a name of few digits. -/
theorem Spells.brief (h : Spells word o) (hfew : word.countP Text.isDecimal ≤ Text.maxDigits) :
    ∀ l ∈ o, l.Brief := by
  rintro l rfl
  cases h with
  | exit => trivial
  | numbered _ number => exact number.short ((List.sublist_cons_self _ _).countP_le.trans hfew)

theorem spells_nameOf (o : Option Label) : Spells (nameOf o).toList o := by
  rcases o with _ | _ | index
  · exact .none
  · exact .exit (.inr rfl) (.inr rfl) (.inr (.inl rfl)) (.inr rfl)
  · rw [nameOf, toList_name_numbered]
    exact .numbered (.inr rfl) (Text.spellsPositive_toDigits (Nat.succ_pos index))

theorem fewDigits_nameOf (h : ∀ l ∈ o, l.Brief) : Argument.FewDigits (nameOf o) := by
  cases o with
  | none => decide
  | some l => exact (spells_word (h l rfl)).2.2

theorem parse_eq_ok_iff {s : String} :
    parse s = .ok o ↔ Spells (Text.trim s.toList) o ∧ Argument.FewDigits s := by
  cases o with
  | some l => rw [parse_eq_ok_some_iff, Spelled, spellingOfTrimmed_eq_label_iff]
  | none =>
    rw [← spellingOfTrimmed_eq_blank_iff]
    constructor
    · intro h
      rw [parse] at h
      split at h
      · rename_i hblank
        have htrim : Text.trim s.toList = [] := by
          generalize Text.trim s.toList = word at hblank
          cases spellingOfTrimmed_eq_blank_iff.1 hblank
          rfl
        refine ⟨hblank, ?_⟩
        rw [Argument.FewDigits, ← Text.countP_isDecimal_trim, htrim]
        exact Nat.zero_le _
      · split at h <;> cases h
      · cases h
    · rintro ⟨hblank, -⟩
      rw [parse, hblank]

end Label

/-! ### Faithful names -/

/-- Names are faithful: they are told apart, they are read as what they name, a text is read exactly
if it is a spelling with few digits, and what has been read is read from its name again. -/
structure FaithfulNames {α : Type} (name : α → String) (parse : String → Except Error α)
    (Brief : α → Prop) (Spells : List Char → α → Prop) : Prop where
  name_injective : Function.Injective name
  parse_name : ∀ a, Brief a → parse (name a) = .ok a
  parse_iff : ∀ s a, parse s = .ok a ↔
    (∃ word, Text.Holds s word ∧ Spells word a) ∧ Argument.FewDigits s
  parse_name_of_parse : ∀ s a, parse s = .ok a → parse (name a) = .ok a

/-- Names are faithful if a reader knows the spellings without blanks and names are among them. -/
theorem FaithfulNames.of_spells {α : Type} {name : α → String} {parse : String → Except Error α}
    {Brief : α → Prop} {Spells : List Char → α → Prop}
    (hparse : ∀ s a, parse s = .ok a ↔ Spells (Text.trim s.toList) a ∧ Argument.FewDigits s)
    (hblank : ∀ word a, Spells word a → ∀ c ∈ word, Text.isBlank c = false)
    (hunique : ∀ word a b, Spells word a → Spells word b → a = b)
    (hname : ∀ a, Spells (name a).toList a)
    (hfew : ∀ a, Brief a → Argument.FewDigits (name a))
    (hbrief : ∀ word a, Spells word a → word.countP Text.isDecimal ≤ Text.maxDigits → Brief a) :
    FaithfulNames name parse Brief Spells := by
  have hread : ∀ a, Brief a → parse (name a) = .ok a := by
    intro a ha
    rw [hparse, Text.trim_eq_self (hblank _ a (hname a))]
    exact ⟨hname a, hfew a ha⟩
  refine ⟨fun a b h => ?_, hread, fun s a => ?_, fun s a h => ?_⟩
  · exact hunique _ a b (hname a) (h ▸ hname b)
  · rw [hparse]
    refine and_congr_left fun _ => ⟨fun h => ⟨_, Text.exists_trim s.toList, h⟩, ?_⟩
    rintro ⟨word, hholds, h⟩
    rwa [(Text.holds_iff (hblank word a h)).1 hholds]
  -- The blanks around the word hold no digits, so the word has as few as the text.
  · obtain ⟨hspells, hdigits⟩ := (hparse s a).1 h
    rw [Argument.FewDigits, ← Text.countP_isDecimal_trim] at hdigits
    exact hread a (hbrief _ a hspells hdigits)

theorem Variable.faithfulNames : FaithfulNames name parse Brief Spells := by
  refine .of_spells (fun s v => ?_) (fun _ _ => Spells.isBlank) (fun word v w h h' => ?_)
    spells_name (fun _ => fewDigits_name) fun _ _ => Spells.brief
  · rw [parse_eq_ok_iff, ofName?, ofTrimmed?_eq_some_iff]
  · rw [← ofTrimmed?_eq_some_iff] at h h'
    exact Option.some.inj (h.symm.trans h')

theorem Label.faithfulNames :
    FaithfulNames nameOf parse (fun o => ∀ l ∈ o, l.Brief) Spells :=
  .of_spells (fun _ _ => parse_eq_ok_iff) (fun _ _ => Spells.isBlank) (fun _ _ _ => Spells.unique)
    spells_nameOf (fun _ => fewDigits_nameOf) fun _ _ => Spells.brief

/-! ### Recognition, numbers and places -/

/-- A text is recognised as a variable exactly if one can be read from it, as long as its digits are
few. -/
theorem Variable.isName_iff_exists_parse {s : String} (h : Argument.FewDigits s) :
    isName s = true ↔ ∃ v, parse s = .ok v := by
  rw [isName, Option.isSome_iff_exists]
  exact exists_congr fun v => by rw [parse_eq_ok_iff, and_iff_left h]

/-- The number in the name of a label is the one that the label was made with. -/
theorem Label.exists_ofNumber {n : Nat} (hpos : 0 < n) (h : Text.Short n) :
    ∃ l, ofNumber n = .ok l ∧ number (some l) = .ok n ∧
      Text.numeral (l.name.toList.drop 1) = .ok n := by
  obtain ⟨index, rfl⟩ := Nat.exists_eq_add_of_lt hpos
  rw [Nat.zero_add] at h ⊢
  refine ⟨numbered index, ?_, rfl, ?_⟩
  · rw [ofNumber, if_neg (by omega), showing_eq_ok_iff]
    exact ⟨by simpa using h, by simp⟩
  · rw [toList_name_numbered]
    exact Text.numeral_toDigits h

/-- The place of a variable in listings: that of its kind, and among those its number. -/
def Variable.sortKey (v : Variable) : ℕ ×ₗ ℕ :=
  toLex (v.rank, v.number)

theorem Variable.sortKey_injective : Function.Injective sortKey := by
  intro v w h
  have hkey : (v.rank, v.number) = (w.rank, w.number) := toLex.injective h
  exact eq_of_rank_eq_of_number_eq (Prod.ext_iff.1 hkey).1 (Prod.ext_iff.1 hkey).2

theorem Variable.lt_iff_sortKey_lt {v w : Variable} : v < w ↔ v.sortKey < w.sortKey := by
  rw [sortKey, sortKey, Prod.Lex.toLex_lt_toLex]
  exact lt_iff

/-- Variables and labels, the lack of a label included, have faithful names, and what is recognised
as a variable is what can be read as one. The number in the name of a label is the one that it was
made with. No two variables have one place in listings, and listings follow these places. -/
theorem names_faithful :
    FaithfulNames Variable.name Variable.parse Variable.Brief Variable.Spells ∧
    FaithfulNames Label.nameOf Label.parse (fun o => ∀ l ∈ o, l.Brief) Label.Spells ∧
    (∀ s, Argument.FewDigits s → (Variable.isName s = true ↔ ∃ v, Variable.parse s = .ok v)) ∧
    (∀ n : Nat, 0 < n → Text.Short n →
      ∃ l, Label.ofNumber n = .ok l ∧ Label.number (some l) = .ok n ∧
        Text.numeral (l.name.toList.drop 1) = .ok n) ∧
    Function.Injective Variable.sortKey ∧
    ∀ v w : Variable, v < w ↔ v.sortKey < w.sortKey :=
  ⟨Variable.faithfulNames, Label.faithfulNames, fun _ => Variable.isName_iff_exists_parse,
    fun _ => Label.exists_ofNumber, Variable.sortKey_injective,
    fun _ _ => Variable.lt_iff_sortKey_lt⟩

/-- A capital letter, digits of two scripts and blanks of two kinds, and a label with a letter that
is not ASCII. -/
theorem mixedSpellings_faithful :
    Argument.FewDigits "\tX1३\u2003" ∧ Variable.parse "\tX1३\u2003" = .ok (.input 12) ∧
    Variable.parse "x13" = .ok (.input 12) ∧ Variable.isName "\tX1३\u2003" = true ∧
    Argument.FewDigits "exıt\n" ∧ Label.parse "exıt\n" = .ok (some .exit) ∧
    Label.parse "EXIT" = .ok (some .exit) ∧
    Text.Short 4300 ∧ ∃ l, Label.ofNumber (4300 : Nat) = .ok l ∧
      Label.number (some l) = .ok 4300 ∧ Text.numeral (l.name.toList.drop 1) = .ok 4300 := by
  obtain ⟨hvariables, hlabels, hrecognised, hnumber, -, -⟩ := names_faithful
  have hfewInput : Argument.FewDigits "\tX1३\u2003" := by decide
  have hfewExit : Argument.FewDigits "exıt\n" := by decide
  have hshort : Text.Short 4300 := by decide
  have hinput : Variable.parse "\tX1३\u2003" = .ok (.input 12) := by
    refine (hvariables.parse_iff _ _).2 ⟨⟨['X', '1', '३'], ?_, ?_⟩, hfewInput⟩
    · exact ⟨['\t'], ['\u2003'], rfl, List.forall_mem_singleton.2 (by decide),
        List.forall_mem_singleton.2 (by decide)⟩
    · have hdigits : List.Forall₂ (fun c d => Text.decimal? c = some d) ['1', '३'] [1, 3] :=
        .cons rfl (.cons rfl .nil)
      exact .input (.inr rfl) (.digits (by decide) hdigits)
  have hexit : Label.parse "exıt\n" = .ok (some .exit) := by
    refine (hlabels.parse_iff _ _).2 ⟨⟨['e', 'x', 'ı', 't'], ?_, ?_⟩, hfewExit⟩
    · exact ⟨[], ['\n'], rfl, List.forall_mem_nil _, List.forall_mem_singleton.2 (by decide)⟩
    · exact .exit (.inl rfl) (.inl rfl) (.inr (.inr rfl)) (.inl rfl)
  exact ⟨hfewInput, hinput, hvariables.parse_name_of_parse _ _ hinput,
    (hrecognised _ hfewInput).2 ⟨_, hinput⟩, hfewExit, hexit,
    hlabels.parse_name_of_parse _ _ hexit, hshort, hnumber 4300 (by decide) hshort⟩

end RegisterMachine
