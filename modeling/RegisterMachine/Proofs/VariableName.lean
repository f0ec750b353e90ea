import RegisterMachine.Variable

/-!
# Names of variables

Every variable is found again under its canonical name: the decimal digits of a number read back as
that number, the first digit of a positive number is not zero, and no canonical name holds a blank.
So a renaming that writes canonical names into argument text loses nothing. A name that is too long
is recognised as a name of a variable all the same.
-/

namespace RegisterMachine

namespace Text

/-! ### Decimal digits -/

/-- A digit that is printed is read back as its value. -/
theorem decimal?_digitChar {d : Nat} (h : d < 10) : decimal? d.digitChar = some d := by
  have hall : ∀ d : Fin 10, decimal? (Nat.digitChar d) = some d.val := by decide
  exact hall ⟨d, h⟩

/-- One more digit behind others counts once, and those in front of it ten times as much. -/
theorem decimalValue_concat (cs : List Char) (c : Char) :
    decimalValue (cs ++ [c]) = 10 * decimalValue cs + (decimal? c).getD 0 := by
  simp [decimalValue]

/-- The digits that a number is printed with are read back as the number. -/
theorem decimalValue_toDigits (n : Nat) : decimalValue (Nat.toDigits 10 n) = n := by
  induction n using Nat.strongRecOn with
  | ind n ih =>
    rw [Nat.toDigits_eq_if (by decide)]
    split
    · rename_i h
      simp [decimalValue, decimal?_digitChar h]
    · rename_i h
      rw [decimalValue_concat, ih (n / 10) (by omega), decimal?_digitChar (by omega)]
      simp only [Option.getD_some]
      omega

/-- Numbers are printed with the ten digits and nothing else. -/
theorem exists_digitChar_of_mem_toDigits {n : Nat} {c : Char} (h : c ∈ Nat.toDigits 10 n) :
    ∃ d < 10, c = d.digitChar := by
  induction n using Nat.strongRecOn with
  | ind n ih =>
    rw [Nat.toDigits_eq_if (by decide)] at h
    split at h
    · rename_i hn
      exact ⟨n, hn, by simpa using h⟩
    · rename_i hn
      rcases List.mem_append.1 h with h | h
      · exact ih (n / 10) (by omega) h
      · exact ⟨n % 10, by omega, by simpa using h⟩

/-- The digits of a positive number start with a positive digit, as the numbers in names have to. -/
theorem exists_toDigits_eq_cons {n : Nat} (h : 0 < n) :
    ∃ d cs, 0 < d ∧ d < 10 ∧ Nat.toDigits 10 n = d.digitChar :: cs := by
  induction n using Nat.strongRecOn with
  | ind n ih =>
    rw [Nat.toDigits_eq_if (by decide)]
    split
    · rename_i hn
      exact ⟨n, [], h, hn, rfl⟩
    · rename_i hn
      obtain ⟨d, cs, hpos, hlt, hd⟩ := ih (n / 10) (by omega) (by omega)
      exact ⟨d, cs ++ [(n % 10).digitChar], hpos, hlt, by simp [hd]⟩

/-! ### Blanks -/

/-- There is nothing to trim in a text without blanks. -/
theorem trim_eq_self {cs : List Char} (h : ∀ c ∈ cs, isBlank c = false) : trim cs = cs := by
  have hdrop : ∀ ds : List Char, (∀ c ∈ ds, isBlank c = false) → ds.dropWhile isBlank = ds := by
    intro ds hds
    cases ds with
    | nil => rfl
    | cons d ds => rw [List.dropWhile_cons_of_neg (by simp [hds d (by simp)])]
  rw [trim, hdrop cs h, hdrop _ fun c hc => h c (by simpa using hc), List.reverse_reverse]

theorem isBlank_digitChar {d : Nat} (h : d < 10) : isBlank d.digitChar = false := by
  have hall : ∀ d : Fin 10, isBlank (Nat.digitChar d) = false := by decide
  exact hall ⟨d, h⟩

end Text

namespace Variable

/-! ### Canonical names -/

/-- The digits of a positive number may follow the letter of a name. -/
theorem isNameNumber_toDigits {n : Nat} (h : 0 < n) : isNameNumber (Nat.toDigits 10 n) = true := by
  obtain ⟨d, cs, hpos, hlt, hd⟩ := Text.exists_toDigits_eq_cons h
  have hfirst : ∀ d : Fin 10, 0 < d.val →
      ('1' ≤ Nat.digitChar d && Nat.digitChar d ≤ '9') = true := by decide
  have hrest : ∀ c ∈ cs, Text.isDecimal c = true := by
    intro c hc
    obtain ⟨e, he, rfl⟩ := Text.exists_digitChar_of_mem_toDigits
      (show c ∈ Nat.toDigits 10 n by rw [hd]; exact List.mem_cons_of_mem _ hc)
    rw [Text.isDecimal, Text.decimal?_digitChar he]
    rfl
  rw [hd, isNameNumber, hfirst ⟨d, hlt⟩ hpos, List.all_eq_true.2 hrest]
  rfl

/-- A trimmed text of a letter and the digits of a positive number spells what its letter says. -/
private theorem ofTrimmed?_cons_toDigits (c : Char) (index : Nat) :
    ofTrimmed? (c :: Nat.toDigits 10 (index + 1)) =
      if c == 'x' || c == 'X' then some (input index)
      else if c == 'z' || c == 'Z' then some (work index)
      else none := by
  have hne : (Nat.toDigits 10 (index + 1)).isEmpty = false := by
    simp [Nat.toDigits_ne_nil]
  rw [ofTrimmed?, hne, isNameNumber_toDigits (Nat.succ_pos index), Text.decimalValue_toDigits]
  simp

/-- A letter and digits have nothing around them to trim. -/
theorem trim_cons_toDigits {c : Char} (hc : Text.isBlank c = false) (n : Nat) :
    Text.trim (c :: Nat.toDigits 10 n) = c :: Nat.toDigits 10 n := by
  refine Text.trim_eq_self fun e he => ?_
  rcases List.mem_cons.1 he with rfl | he
  · exact hc
  · obtain ⟨d, hd, rfl⟩ := Text.exists_digitChar_of_mem_toDigits he
    exact Text.isBlank_digitChar hd

/-- The characters of the name of an input. Names count from one. -/
theorem toList_name_input (index : Nat) :
    (input index).name.toList = 'x' :: Nat.toDigits 10 (index + 1) := by
  simp [name]

/-- The characters of the name of a work variable. Names count from one. -/
theorem toList_name_work (index : Nat) :
    (work index).name.toList = 'z' :: Nat.toDigits 10 (index + 1) := by
  simp [name]

/-- The canonical name of a variable spells it. -/
@[simp] theorem ofName?_name (v : Variable) : ofName? v.name = some v := by
  cases v with
  | input index =>
    rw [ofName?, toList_name_input, trim_cons_toDigits (by decide), ofTrimmed?_cons_toDigits]
    rfl
  | result => decide
  | work index =>
    rw [ofName?, toList_name_work, trim_cons_toDigits (by decide), ofTrimmed?_cons_toDigits]
    rfl

/-! ### Names with too many digits -/

/-- The canonical name of a variable has not too many digits to be read if the number of the
variable can be written. -/
theorem isOverlong_name_eq_false_iff (v : Variable) : isOverlong v.name = false ↔ v.Brief := by
  rcases v with index | _ | index
  · rw [isOverlong, toList_name_input, trim_cons_toDigits (by decide), List.length_cons,
      decide_eq_false_iff_not, Brief, number, Text.Short]
    omega
  · decide
  · rw [isOverlong, toList_name_work, trim_cons_toDigits (by decide), List.length_cons,
      decide_eq_false_iff_not, Brief, number, Text.Short]
    omega

/-- The characters of a name with one digit more than a number may have. -/
def longNameChars : List Char :=
  'x' :: List.replicate (Text.maxDigits + 1) '1'

/-- A name that spells a variable, although its variable cannot be told. -/
def longName : String :=
  String.ofList longNameChars

/-- The long name has a letter and ones. -/
theorem mem_longNameChars {c : Char} (h : c ∈ longNameChars) : c = 'x' ∨ c = '1' := by
  rcases List.mem_cons.1 h with h | h
  · exact .inl h
  · exact .inr (List.eq_of_mem_replicate h)

theorem trim_longName : Text.trim longName.toList = longNameChars := by
  rw [longName, String.toList_ofList]
  refine Text.trim_eq_self fun c hc => ?_
  rcases mem_longNameChars hc with rfl | rfl <;> decide

/-- The long name is a name of a variable by its form. -/
theorem isName_longName : isName longName = true := by
  have hdigits : isNameNumber (List.replicate (Text.maxDigits + 1) '1') = true := by
    have hdecimal : Text.isDecimal '1' = true := by decide
    rw [List.replicate_succ, isNameNumber, List.all_replicate, hdecimal]
    decide
  rw [isName, ofName?, trim_longName, longNameChars, ofTrimmed?, hdigits]
  rfl

/-- Its variable cannot be told, as its digits are too many to be read. -/
theorem isOverlong_longName : isOverlong longName = true := by
  rw [isOverlong, trim_longName, longNameChars, List.length_cons, List.length_replicate]
  decide

end Variable

end RegisterMachine
