import Mathlib.Data.List.Induction
import Mathlib.Data.Nat.Digits.Defs
import RegisterMachine.Argument.Token
import RegisterMachine.Assembly.Lexer
import RegisterMachine.Proofs.VariableName

/-!
# Words and numerals

What is printed is made of words, numerals and a few signs. A word starts with an ASCII letter or an
underscore and goes on with word characters of any script, and no sign is one of these. So a lexer
that is put in front of a printed word takes all of it and stops at the sign behind it.

* `Text.numeral_toDigits` — a number of few enough digits is read from its numeral;
* `Text.isIdentifier` — the words that name something;
* `Variable.isIdentifier_name`, `Label.isIdentifier_name` — printed names are words, and they are
  no keywords.
-/

namespace RegisterMachine

namespace Assembly

/-- The symbols of one character, and what they are not. -/
theorem symbolKind?_facts {c : Char} {kind : TokenKind}
    (h : symbolKind? c = some kind) :
    c ∈ ['[', ']', '+', '-', '=', '≠'] ∧ c ≠ '<' ∧ c ≠ '!' ∧ isSpace c = false := by
  unfold symbolKind? at h
  split at h <;> first | decide | cases h

/-- The characters that separate words or start something else than a word. -/
def signs : List Char :=
  ['<', '!', '(', ')', ' ', '\t', '\r', '[', ']', '+', '-', '=', '≠']

/-- What the lexer asks of a character that is none of its signs. -/
theorem facts_of_not_mem_signs {c : Char} (h : c ∉ signs) :
    c ≠ '<' ∧ c ≠ '!' ∧ c ≠ '(' ∧ c ≠ ')' ∧ isSpace c = false ∧ symbolKind? c = none := by
  have hne : ∀ d ∈ signs, c ≠ d := by
    rintro d hd rfl
    exact h hd
  refine ⟨hne _ (by decide), hne _ (by decide), hne _ (by decide), hne _ (by decide), ?_, ?_⟩
  · rw [isSpace, beq_false_of_ne (hne ' ' (by decide)), beq_false_of_ne (hne '\t' (by decide)),
      beq_false_of_ne (hne '\r' (by decide))]
    rfl
  · rw [Option.eq_none_iff_forall_ne_some]
    intro kind hkind
    obtain ⟨hmem, -⟩ := symbolKind?_facts hkind
    exact h (List.mem_append_right ['<', '!', '(', ')', ' ', '\t', '\r'] hmem)

end Assembly

namespace Text

/-! ### Numerals -/

/-- The ten digits are decimal digits. -/
theorem isDecimal_digitChar {d : Nat} (h : d < 10) : isDecimal d.digitChar = true := by
  rw [isDecimal, decimal?_digitChar h]
  rfl

theorem isDecimal_of_mem_toDigits {n : Nat} {c : Char} (h : c ∈ Nat.toDigits 10 n) :
    isDecimal c = true := by
  obtain ⟨d, hd, rfl⟩ := exists_digitChar_of_mem_toDigits h
  exact isDecimal_digitChar hd

/-- A number is printed with one digit at least. -/
theorem exists_toDigits_eq (n : Nat) :
    ∃ d < 10, ∃ cs, Nat.toDigits 10 n = d.digitChar :: cs := by
  rcases Nat.eq_zero_or_pos n with rfl | hn
  · exact ⟨0, by decide, [], rfl⟩
  · obtain ⟨d, cs, -, hd, h⟩ := exists_toDigits_eq_cons hn
    exact ⟨d, hd, cs, h⟩

/-- What the lexers ask of a character that is a printed digit. -/
theorem digitChar_facts {d : Nat} (h : d < 10) :
    d.digitChar ≠ '<' ∧ d.digitChar ≠ '!' ∧ d.digitChar ≠ '(' ∧ d.digitChar ≠ ')' ∧
      d.digitChar ≠ ',' ∧ d.digitChar ≠ '-' ∧ d.digitChar ≠ '+' ∧ isBlank d.digitChar = false ∧
      Assembly.isSpace d.digitChar = false ∧ Assembly.symbolKind? d.digitChar = none ∧
      isDigit d.digitChar = true ∧ isDecimal d.digitChar = true := by
  have hall : ∀ d : Fin 10, Nat.digitChar d ≠ '<' ∧ Nat.digitChar d ≠ '!' ∧
      Nat.digitChar d ≠ '(' ∧ Nat.digitChar d ≠ ')' ∧ Nat.digitChar d ≠ ',' ∧
      Nat.digitChar d ≠ '-' ∧ Nat.digitChar d ≠ '+' ∧ isBlank (Nat.digitChar d) = false ∧
      Assembly.isSpace (Nat.digitChar d) = false ∧
      Assembly.symbolKind? (Nat.digitChar d) = none ∧ isDigit (Nat.digitChar d) = true ∧
      isDecimal (Nat.digitChar d) = true := by decide +kernel
  exact hall ⟨d, h⟩

/-- A decimal digit comes at most nine places behind the zero of its script. -/
theorem exists_zero_of_decimal? {c : Char} {d : Nat} (h : decimal? c = some d) :
    ∃ z ∈ digitZeros, z ≤ c.toNat ∧ c.toNat ≤ z + 9 ∧ d = c.toNat - z := by
  obtain ⟨z, hz, rfl⟩ := Option.map_eq_some_iff.1 h
  have hrange := List.find?_some hz
  rw [Bool.and_eq_true, decide_eq_true_eq, decide_eq_true_eq] at hrange
  exact ⟨z, List.mem_of_find?_eq_some hz, hrange.1, hrange.2, rfl⟩

/-- No decimal digit is a blank. -/
theorem isBlank_of_isDecimal {c : Char} (h : isDecimal c = true) : isBlank c = false := by
  have hapart : ∀ z ∈ digitZeros, ∀ run ∈ blankRuns, z + 9 < run.1 ∨ run.2 < z := by decide
  obtain ⟨d, hd⟩ := Option.isSome_iff_exists.1 h
  obtain ⟨z, hz, hle, hge, -⟩ := exists_zero_of_decimal? hd
  rw [isBlank, inRuns, List.any_eq_false]
  intro run hrun
  have hout := hapart z hz run hrun
  simp only [Bool.and_eq_true, decide_eq_true_eq, not_and]
  omega

/-- No sign is a decimal digit. -/
theorem ne_of_isDecimal {c d : Char} (hc : isDecimal c = true) (hd : isDecimal d = false) :
    c ≠ d := by
  rintro rfl
  cases hc.symm.trans hd

/-- What the lexer asks of a character that is a decimal digit in any script. -/
theorem isDecimal_facts {c : Char} (h : isDecimal c = true) :
    c ≠ '<' ∧ c ≠ '!' ∧ c ≠ '(' ∧ c ≠ ')' ∧ Assembly.isSpace c = false ∧
      Assembly.symbolKind? c = none ∧ isDigit c = true := by
  have hsigns : ∀ d ∈ Assembly.signs, isDecimal d = false := by
    simp only [Assembly.signs, List.forall_mem_cons, List.not_mem_nil, false_imp_iff, implies_true,
      and_true]
    decide
  obtain ⟨hless, hbang, hleft, hright, hspace, hsymbol⟩ :=
    Assembly.facts_of_not_mem_signs fun hmem => ne_of_isDecimal h (hsigns c hmem) rfl
  exact ⟨hless, hbang, hleft, hright, hspace, hsymbol, by rw [isDigit, h, Bool.true_or]⟩

/-- Digits have a value that is less than the power of ten with as many zeros. -/
theorem decimalValue_lt (cs : List Char) : decimalValue cs < 10 ^ cs.length := by
  induction cs using List.reverseRecOn with
  | nil => exact Nat.one_pos
  | append_singleton cs c ih =>
    have hc : (decimal? c).getD 0 ≤ 9 := by
      cases hd : decimal? c with
      | none => exact Nat.zero_le 9
      | some d =>
        obtain ⟨z, -, hle, hge, rfl⟩ := exists_zero_of_decimal? hd
        rw [Option.getD_some]
        omega
    rw [decimalValue_concat, List.length_append, List.length_singleton, Nat.pow_succ]
    omega

/-- The numbers of few enough digits are those below a power of ten. -/
theorem short_iff {n : Nat} : Short n ↔ n < 10 ^ maxDigits := by
  constructor
  · intro h
    rw [← decimalValue_toDigits n]
    exact (decimalValue_lt _).trans_le (Nat.pow_le_pow_right (by decide) h)
  · exact Nat.toDigits_length 10 n maxDigits (by decide)

/-- Smaller numbers have no more digits. -/
theorem Short.of_le {k n : Nat} (h : Short n) (hle : k ≤ n) : Short k :=
  short_iff.2 (hle.trans_lt (short_iff.1 h))

/-- The number behind the last one of few enough digits has too many. -/
theorem not_short_succ : ¬ Short (10 ^ maxDigits - 1 + 1) := by
  rw [short_iff]
  omega

/-- The number of a numeral that is not too long has a numeral that is not. -/
theorem short_decimalValue {cs : List Char} (h : cs.length ≤ maxDigits) :
    Short (decimalValue cs) :=
  short_iff.2 ((decimalValue_lt cs).trans_le (Nat.pow_le_pow_right (by decide) h))

/-- A numeral that is not too long is read as its number. -/
theorem numeral_toDigits {n : Nat} (h : Short n) : numeral (Nat.toDigits 10 n) = .ok n := by
  rw [numeral, if_neg (Nat.not_lt.2 h),
    if_pos (List.all_eq_true.2 fun _ => isDecimal_of_mem_toDigits), decimalValue_toDigits]

/-! ### Identifiers -/

/-- The words that name something, be it a variable, a label or a program. -/
def isIdentifier : List Char → Bool
  | [] => false
  | c :: cs => isIdentifierStart c && cs.all isWordChar

/-- Identifiers start with ASCII characters. -/
private theorem exists_ofNat_of_isIdentifierStart {c : Char} (h : isIdentifierStart c = true) :
    ∃ n : Fin 128, c = Char.ofNat n := by
  have hlt : c.toNat < 128 := by
    simp only [isIdentifierStart, isAsciiLetter, Bool.or_eq_true, Bool.and_eq_true,
      decide_eq_true_eq, beq_iff_eq, Char.le_def, UInt32.le_iff_toNat_le] at h
    rcases h with (⟨-, h⟩ | ⟨-, h⟩) | rfl
    · exact Nat.lt_of_le_of_lt h (by decide)
    · exact Nat.lt_of_le_of_lt h (by decide)
    · decide
  exact ⟨⟨c.toNat, hlt⟩, (Char.ofNat_toNat c).symm⟩

theorem isWordChar_of_isIdentifierStart {c : Char} (h : isIdentifierStart c = true) :
    isWordChar c = true := by
  rw [isWordChar, h]
  rfl

/-- What the lexers ask of a character that may begin an identifier. -/
theorem isIdentifierStart_facts {c : Char} (h : isIdentifierStart c = true) :
    c ≠ '<' ∧ c ≠ '!' ∧ c ≠ '(' ∧ c ≠ ')' ∧ c ≠ ',' ∧ isBlank c = false ∧ isDigit c = false ∧
      Argument.isSign c = false ∧ Assembly.isSpace c = false ∧ Assembly.symbolKind? c = none := by
  obtain ⟨n, rfl⟩ := exists_ofNat_of_isIdentifierStart h
  revert n
  decide +kernel

theorem isLetter_of_isIdentifierStart {c : Char} (h : isIdentifierStart c = true) :
    (isLetter c || c == '_') = true := by
  rw [isIdentifierStart, Bool.or_eq_true] at h
  rcases h with h | h
  · rw [isLetter, h]
    rfl
  · rw [h, Bool.or_true]

/-- No sign is a word character. -/
theorem ne_of_isWordChar {c d : Char} (hc : isWordChar c = true)
    (hd : isWordChar d = false) : c ≠ d := by
  rintro rfl
  cases hc.symm.trans hd

theorem ne_parens_of_isWordChar {c : Char} (hc : isWordChar c = true) : c ≠ '(' ∧ c ≠ ')' :=
  ⟨ne_of_isWordChar hc (by decide +kernel), ne_of_isWordChar hc (by decide +kernel)⟩

/-- All characters of an identifier may stand in a word. -/
theorem isWordChar_of_mem_identifier {w : List Char} (h : isIdentifier w = true) {c : Char}
    (hc : c ∈ w) : isWordChar c = true := by
  cases w with
  | nil => cases hc
  | cons d w =>
    rw [isIdentifier, Bool.and_eq_true, List.all_eq_true] at h
    rcases List.mem_cons.1 hc with rfl | hc
    · exact isWordChar_of_isIdentifierStart h.1
    · exact h.2 c hc

/-- A word that is taken from the front of a text is an identifier. -/
theorem isIdentifier_takeWhile {c : Char} (hc : isIdentifierStart c = true) (cs : List Char) :
    isIdentifier (c :: cs.takeWhile isWordChar) = true := by
  rw [isIdentifier, hc, Bool.true_and]
  exact List.all_takeWhile

/-! ### Ends of words -/

/-- Nothing stands here, or one of the signs that stand behind a word. -/
def endsWord : List Char → Bool
  | [] => true
  | c :: _ => c == ' ' || c == ']' || c == ',' || c == ')'

/-- Nothing stands here, or a character of another class. -/
def stopsAt (p : Char → Bool) : List Char → Bool
  | [] => true
  | c :: _ => !p c

/-- What is left behind a word does not run on with it. -/
theorem stopsAt_dropWhile (p : Char → Bool) (cs : List Char) :
    stopsAt p (cs.dropWhile p) = true := by
  induction cs with
  | nil => rfl
  | cons c cs ih =>
    rw [List.dropWhile_cons]
    cases h : p c with
    | true => exact ih
    | false => simp [stopsAt, h]

/-- Where a word may end, nothing runs on that has none of the four characters that end words. -/
theorem stopsAt_of_endsWord {p : Char → Bool} {rest : List Char} (hrest : endsWord rest = true)
    (hp : p ' ' = false ∧ p ']' = false ∧ p ',' = false ∧ p ')' = false) :
    stopsAt p rest = true := by
  cases rest with
  | nil => rfl
  | cons c rest =>
    simp only [endsWord, Bool.or_eq_true, beq_iff_eq] at hrest
    rw [stopsAt, Bool.not_eq_true']
    rcases hrest with ((rfl | rfl) | rfl) | rfl
    · exact hp.1
    · exact hp.2.1
    · exact hp.2.2.1
    · exact hp.2.2.2

/-- A word goes up to the first character of another class. -/
theorem span_append {p : Char → Bool} {w rest : List Char} (hw : ∀ c ∈ w, p c = true)
    (hrest : stopsAt p rest = true) :
    (w ++ rest).takeWhile p = w ∧ (w ++ rest).dropWhile p = rest := by
  have hstop : rest.takeWhile p = [] ∧ rest.dropWhile p = rest := by
    cases rest with
    | nil => exact ⟨rfl, rfl⟩
    | cons c rest =>
      have hc : ¬ p c = true := by simpa [stopsAt] using hrest
      exact ⟨List.takeWhile_cons_of_neg hc, List.dropWhile_cons_of_neg hc⟩
  rw [List.takeWhile_append_of_pos hw, List.dropWhile_append_of_pos hw, hstop.1, hstop.2,
    List.append_nil]
  exact ⟨rfl, rfl⟩

theorem stopsAt_isWordChar {rest : List Char} (hrest : endsWord rest = true) :
    stopsAt isWordChar rest = true :=
  stopsAt_of_endsWord hrest (by decide +kernel)

theorem stopsAt_isDecimal {rest : List Char} (hrest : endsWord rest = true) :
    stopsAt isDecimal rest = true :=
  stopsAt_of_endsWord hrest (by decide)

/-! ### Names -/

theorem isWordChar_digitChar {d : Nat} (h : d < 10) : isWordChar d.digitChar = true := by
  have hall : ∀ d : Fin 10, isWordChar (Nat.digitChar d) = true := by decide +kernel
  exact hall ⟨d, h⟩

theorem isWordChar_of_mem_toDigits {n : Nat} {c : Char} (h : c ∈ Nat.toDigits 10 n) :
    isWordChar c = true := by
  obtain ⟨d, hd, rfl⟩ := exists_digitChar_of_mem_toDigits h
  exact isWordChar_digitChar hd

/-- A letter and the digits of a number are an identifier, as in the names of variables and labels.
-/
theorem isIdentifier_cons_toDigits {c : Char} (hc : isIdentifierStart c = true) (n : Nat) :
    isIdentifier (c :: Nat.toDigits 10 n) = true := by
  rw [isIdentifier, hc, List.all_eq_true.2]
  · rfl
  · exact fun e => isWordChar_of_mem_toDigits

end Text

/-- No keyword starts with another letter. -/
theorem Assembly.wordKind_cons {c : Char} {cs : List Char}
    (h : Text.capital c ∉ ['P', 'F', 'I', 'G']) : wordKind (c :: cs) = .identifier := by
  have hne : ∀ keyword : String, keyword.toList.head? ≠ some (Text.capital c) →
      Text.toKeyword (c :: cs) ≠ keyword := by
    rintro keyword hhead rfl
    exact hhead (by simp [Text.toKeyword])
  simp only [List.mem_cons, List.not_mem_nil, or_false, not_or] at h
  rw [wordKind]
  split
  · rename_i hkeyword
    exact absurd hkeyword (hne _ (by simpa [eq_comm] using h.1))
  · rename_i hkeyword
    exact absurd hkeyword (hne _ (by simpa [eq_comm] using h.2.1))
  · rename_i hkeyword
    exact absurd hkeyword (hne _ (by simpa [eq_comm] using h.2.2.1))
  · rename_i hkeyword
    exact absurd hkeyword (hne _ (by simpa [eq_comm] using h.2.2.2))
  · rfl

namespace Variable

/-- The characters of the name of a variable. -/
theorem toList_name (v : Variable) : v.name.toList = ['y'] ∨
    ∃ c ∈ ['x', 'z'], v.name.toList = c :: Nat.toDigits 10 v.number := by
  cases v with
  | input index => exact .inr ⟨'x', by simp, toList_name_input index⟩
  | result => exact .inl rfl
  | work index => exact .inr ⟨'z', by simp, toList_name_work index⟩

/-- The name of a variable is a word. -/
theorem isIdentifier_name (v : Variable) : Text.isIdentifier v.name.toList = true := by
  rcases v.toList_name with h | ⟨c, hc, h⟩
  · rw [h]
    rfl
  · rw [h]
    simp only [List.mem_cons, List.not_mem_nil, or_false] at hc
    rcases hc with rfl | rfl <;> exact Text.isIdentifier_cons_toDigits rfl _

/-- The name of a variable is no keyword. -/
theorem wordKind_name (v : Variable) : Assembly.wordKind v.name.toList = .identifier := by
  rcases v.toList_name with h | ⟨c, hc, h⟩
  · rw [h]
    rfl
  · rw [h]
    simp only [List.mem_cons, List.not_mem_nil, or_false] at hc
    rcases hc with rfl | rfl <;> exact Assembly.wordKind_cons (by decide)

end Variable

namespace Label

theorem toList_name_numbered (index : Nat) :
    (numbered index).name.toList = 'L' :: Nat.toDigits 10 (index + 1) := by
  simp [name]

/-- The characters of the name of a label. -/
theorem toList_name (l : Label) : l.name.toList = ['E', 'X', 'I', 'T'] ∨
    ∃ k, l = .numbered k ∧ l.name.toList = 'L' :: Nat.toDigits 10 (k + 1) := by
  cases l with
  | exit => exact .inl rfl
  | numbered k => exact .inr ⟨k, rfl, toList_name_numbered k⟩

/-- The name of a label is a word. -/
theorem isIdentifier_name (l : Label) : Text.isIdentifier l.name.toList = true := by
  rcases l.toList_name with h | ⟨k, -, h⟩
  · rw [h]
    rfl
  · rw [h]
    exact Text.isIdentifier_cons_toDigits rfl _

/-- The name of a label is no keyword. -/
theorem wordKind_name (l : Label) : Assembly.wordKind l.name.toList = .identifier := by
  rcases l.toList_name with h | ⟨k, -, h⟩
  · rw [h]
    rfl
  · rw [h]
    exact Assembly.wordKind_cons (by decide)

end Label

end RegisterMachine
