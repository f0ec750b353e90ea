import RegisterMachine.Assembly.Statement
import RegisterMachine.Proofs.LineWords

/-!
# The grammar of lines

A line of assembly text is blank, or a header, or a statement with or without a label in front of
it, and there is one rule for each kind of statement. The rules leave it open how many digits a
number may have: they take any number that fits, for a condition on texts. Under the condition that
numbers are read at all, the reader of lines follows the rules, and what it reads is what the rules
say.

* `Assembly.SpellsOperation`, `Assembly.Denotes` — the rules;
* `Assembly.LineReader.denotes_of_readStatement` — what is read is what the rules say;
* `Assembly.LineReader.readStatement_of_denotes` — what the rules say is read.
-/

namespace RegisterMachine

/-! ### Numbers and names -/

namespace Text

/-- Digits are read as their value if they are not too many. -/
theorem numeral_eq_ok_iff {cs : List Char} {n : Nat} :
    numeral cs = .ok n ↔
      (∀ c ∈ cs, isDecimal c = true) ∧ decimalValue cs = n ∧ cs.countP isDecimal ≤ maxDigits := by
  rw [numeral]
  constructor
  · intro h
    split at h
    · cases h
    · rename_i hshort
      split at h
      · rename_i hdigits
        exact ⟨List.all_eq_true.1 hdigits, Except.ok.inj h,
          List.countP_le_length.trans (Nat.not_lt.1 hshort)⟩
      · cases h
  · rintro ⟨hdigits, rfl, hshort⟩
    rw [List.countP_eq_length.2 hdigits] at hshort
    rw [if_neg (Nat.not_lt.2 hshort), if_pos (List.all_eq_true.2 hdigits)]

/-- No digit is cut off together with blanks. -/
theorem countP_isDecimal_trim (cs : List Char) :
    (trim cs).countP isDecimal = cs.countP isDecimal := by
  have hdrop : ∀ cs : List Char, (cs.dropWhile isBlank).countP isDecimal = cs.countP isDecimal := by
    intro cs
    induction cs with
    | nil => rfl
    | cons c cs ih =>
      rw [List.dropWhile_cons]
      split
      · rename_i hblank
        have hdecimal : ¬ isDecimal c = true := by
          intro hdecimal
          cases hblank.symm.trans (isBlank_of_isDecimal hdecimal)
        rw [ih, List.countP_cons_of_neg hdecimal]
      · rfl
  rw [trim, List.countP_reverse, hdrop, List.countP_reverse, hdrop]

/-- The first digit of a number in a name has a positive value. -/
theorem exists_decimal?_of_first {c : Char} (hc : '1' ≤ c ∧ c ≤ '9') :
    ∃ d, 0 < d ∧ decimal? c = some d := by
  have hle : '1'.toNat ≤ c.toNat := hc.1
  have hge : c.toNat ≤ '9'.toNat := hc.2
  have hone : '1'.toNat = 49 := rfl
  have hnine : '9'.toNat = 57 := rfl
  have hrange : (0x30 ≤ c.toNat && c.toNat ≤ 0x30 + 9) = true := by
    rw [Bool.and_eq_true, decide_eq_true_eq, decide_eq_true_eq]
    omega
  have hzero : digitZeros.find? (fun z => z ≤ c.toNat && c.toNat ≤ z + 9) = some 0x30 :=
    List.find?_cons_of_pos hrange
  refine ⟨c.toNat - 0x30, by omega, ?_⟩
  rw [decimal?, hzero, Option.map_some]

end Text

namespace Variable

/-- The digits of a name start with one of the digits from 1 to 9. Those behind it are any decimal
digits. -/
theorem isNameNumber_cons_iff {c : Char} {cs : List Char} :
    isNameNumber (c :: cs) = true ↔
      ('1' ≤ c ∧ c ≤ '9') ∧ ∀ e ∈ cs, Text.isDecimal e = true := by
  rw [isNameNumber, Bool.and_eq_true, Bool.and_eq_true, decide_eq_true_eq, decide_eq_true_eq,
    List.all_eq_true]

/-- All characters behind the letter of a name are decimal digits, the first one included. -/
theorem isDecimal_of_isNameNumber {cs : List Char} (h : isNameNumber cs = true) :
    ∀ c ∈ cs, Text.isDecimal c = true := by
  obtain _ | ⟨c, cs⟩ := cs
  · cases h
  obtain ⟨hc, hcs⟩ := isNameNumber_cons_iff.1 h
  obtain ⟨d, -, hd⟩ := Text.exists_decimal?_of_first hc
  refine List.forall_mem_cons.2 ⟨?_, hcs⟩
  rw [Text.isDecimal, hd]
  rfl

/-- A letter and digits are too long if the digits are too many. Blanks around them do not count. -/
theorem isOverlong_eq_false_iff_of_trim {s : String} {c : Char} {digits : List Char}
    (hs : Text.trim s.toList = c :: digits) (hc : Text.isDecimal c = false)
    (hdigits : ∀ d ∈ digits, Text.isDecimal d = true) :
    isOverlong s = false ↔ Argument.FewDigits s := by
  have hcount : s.toList.countP Text.isDecimal = digits.length := by
    rw [← Text.countP_isDecimal_trim, hs, List.countP_cons_of_neg (by simp [hc]),
      List.countP_eq_length.2 hdigits]
  rw [isOverlong, hs, List.length_cons, decide_eq_false_iff_not, Argument.FewDigits, hcount]
  omega

/-- The name of a variable is too long if its number has too many digits. -/
theorem isOverlong_eq_false_iff {s : String} {v : Variable} (h : ofName? s = some v) :
    isOverlong s = false ↔ Argument.FewDigits s := by
  have hletter : ∀ c ∈ ['x', 'X', 'y', 'Y', 'z', 'Z'], Text.isDecimal c = false := by
    simp only [List.forall_mem_cons, List.not_mem_nil, false_imp_iff, implies_true, and_true]
    decide
  rw [ofName?] at h
  rcases htrim : Text.trim s.toList with _ | ⟨c, digits⟩
  · rw [htrim] at h
    cases h
  rw [htrim, ofTrimmed?] at h
  have hc : c ∈ ['x', 'X', 'y', 'Y', 'z', 'Z'] := by
    by_contra hc
    simp only [List.mem_cons, List.not_mem_nil, or_false, not_or] at hc
    simp [hc] at h
  have hdigits : ∀ d ∈ digits, Text.isDecimal d = true := by
    split at h
    · rename_i hempty
      rw [List.isEmpty_iff.1 hempty]
      exact List.forall_mem_nil _
    · split at h
      · rename_i hnumber
        exact isDecimal_of_isNameNumber hnumber
      · cases h
  exact isOverlong_eq_false_iff_of_trim htrim (hletter c hc) hdigits

end Variable

namespace Label

/-- The text spells the label, with blanks around it or without, however many digits it has. -/
def Spelled (s : String) (l : Label) : Prop :=
  spellingOfTrimmed (Text.trim s.toList) = .label l

/-- The name of a numbered label is too long if its number has too many digits. -/
theorem Spelled.isOverlong_eq_false_iff {s : String} {l : Label} (h : Spelled s l) :
    (l.isNumbered && Variable.isOverlong s) = false ↔ Argument.FewDigits s := by
  rw [Spelled] at h
  rcases htrim : Text.trim s.toList with _ | ⟨c, cs⟩
  · rw [htrim] at h
    cases h
  rw [htrim, spellingOfTrimmed] at h
  split at h
  · rename_i hexit
    obtain rfl := Spelling.label.inj h
    have hlength : (c :: cs).length = 4 := by
      have hchars := congrArg String.toList (eq_of_beq hexit)
      rw [Text.toKeyword, String.toList_ofList] at hchars
      simpa using congrArg List.length hchars
    have hfew : Argument.FewDigits s := by
      have hle := List.countP_le_length (p := Text.isDecimal) (l := c :: cs)
      have hmax : Text.maxDigits = 4300 := rfl
      rw [Argument.FewDigits, ← Text.countP_isDecimal_trim, htrim]
      omega
    exact iff_of_true rfl hfew
  · split at h
    · rename_i hnumber
      rw [Bool.and_eq_true, Bool.or_eq_true, beq_iff_eq, beq_iff_eq] at hnumber
      obtain rfl := Spelling.label.inj h
      refine Variable.isOverlong_eq_false_iff_of_trim htrim ?_
        (Variable.isDecimal_of_isNameNumber hnumber.2)
      rcases hnumber.1 with rfl | rfl <;> decide
    · cases h

/-- A label is read if its number has not too many digits. -/
theorem parse_eq_ok_some_iff {s : String} {l : Label} :
    parse s = .ok (some l) ↔ Spelled s l ∧ Argument.FewDigits s := by
  rw [parse]
  cases hspelling : spellingOfTrimmed (Text.trim s.toList) with
  | blank | other =>
    refine ⟨nofun, fun ⟨hspelled, _⟩ => ?_⟩
    cases hspelling.symm.trans hspelled
  | label l' =>
    have hspelled : Spelled s l' := hspelling
    dsimp only
    constructor
    · intro h
      split at h
      · cases h
      · rename_i hshort
        obtain rfl := Option.some.inj (Except.ok.inj h)
        exact ⟨hspelled, hspelled.isOverlong_eq_false_iff.1 (by simpa using hshort)⟩
    · rintro ⟨hl, hfew⟩
      obtain rfl := Spelling.label.inj (hspelling.symm.trans hl)
      rw [hspelled.isOverlong_eq_false_iff.2 hfew]
      rfl

end Label

/-- A variable is read from the names that spell it, if their numbers have not too many digits. -/
theorem Variable.parse_eq_ok_iff {s : String} {v : Variable} :
    parse s = .ok v ↔ ofName? s = some v ∧ Argument.FewDigits s := by
  rw [parse]
  cases hname : ofName? s with
  | none => exact ⟨nofun, nofun⟩
  | some w =>
    dsimp only
    rw [← isOverlong_eq_false_iff hname]
    cases isOverlong s <;> simp

/-- A call is read from the texts that can be derived for it in the grammar of arguments, if the
numbers in them have not too many digits. -/
theorem Call.parse_eq_ok_iff {s : String} {c : Call} :
    parse s = .ok c ↔ ∃ ws, Argument.Splits s.toList ws ∧
      Argument.Derives .arguments ws [c.toArgument] ∧ Argument.FewDigitsIn ws := by
  rw [← Argument.ofText_eq_ok_iff, parse, Bounded.mapError_eq_ok, Argument.callOfText,
    Bounded.bind_eq_ok]
  constructor
  · rintro ⟨as, has, h⟩
    split at h
    · obtain rfl := Except.ok.inj h
      exact has
    · cases h
  · intro h
    exact ⟨_, h, rfl⟩

namespace Assembly

/-! ### The rules -/

section Grammar

-- The texts whose numbers are short enough.
variable (Fits : String → Prop)

/-- The word spells the variable, and its number fits. -/
def SpellsVariable (w : TokenKind × String) (v : Variable) : Prop :=
  w.1 = .identifier ∧ Variable.ofName? w.2 = some v ∧ Fits w.2

/-- The word spells the label, and its number fits. -/
def SpellsLabel (w : TokenKind × String) (l : Label) : Prop :=
  w.1 = .identifier ∧ Label.Spelled w.2 l ∧ Fits w.2

/-- The word consists of decimal digits with the number as their value, and it fits. -/
def SpellsNumber (w : TokenKind × String) (n : Nat) : Prop :=
  w.1 = .number ∧ (∀ c ∈ w.2.toList, Text.isDecimal c = true) ∧
    Text.decimalValue w.2.toList = n ∧ Fits w.2

/-- The word spells the call: it can be derived in the grammar of arguments, and the numbers in it
fit. -/
def SpellsCall (w : TokenKind × String) (c : Call) : Prop :=
  w.1 = .call ∧ ∃ ws, Argument.Splits w.2.toList ws ∧
    Argument.Derives .arguments ws [c.toArgument] ∧ ∀ v ∈ ws, v.1 = .number → Fits v.2

/-- What statements do, by their words. There is one rule for each kind of statement, and no two of
them fit the same words: those for constants ask for a number other than zero, and the one for
copies asks for another variable. -/
inductive SpellsOperation : List (TokenKind × String) → Operation → Prop
  /-- `v <- v` -/
  | neutral {w a w' : TokenKind × String} {v : Variable} (hw : SpellsVariable Fits w v)
      (ha : a.1 = .arrow) (hw' : SpellsVariable Fits w' v) : SpellsOperation [w, a, w'] (.neutral v)
  /-- `v <- v + 1` -/
  | increase {w a w' s n : TokenKind × String} {v : Variable} (hw : SpellsVariable Fits w v)
      (ha : a.1 = .arrow) (hw' : SpellsVariable Fits w' v) (hs : s.1 = .plus)
      (hn : SpellsNumber Fits n 1) : SpellsOperation [w, a, w', s, n] (.increase v)
  /-- `v <- v - 1` -/
  | decrease {w a w' s n : TokenKind × String} {v : Variable} (hw : SpellsVariable Fits w v)
      (ha : a.1 = .arrow) (hw' : SpellsVariable Fits w' v) (hs : s.1 = .minus)
      (hn : SpellsNumber Fits n 1) : SpellsOperation [w, a, w', s, n] (.decrease v)
  /-- `v <- 0` -/
  | zeroVariable {w a n : TokenKind × String} {v : Variable} (hw : SpellsVariable Fits w v)
      (ha : a.1 = .arrow) (hn : SpellsNumber Fits n 0) : SpellsOperation [w, a, n] (.zeroVariable v)
  /-- `v <- k` -/
  | constantAssignment {w a n : TokenKind × String} {v : Variable} {k : Nat}
      (hw : SpellsVariable Fits w v) (ha : a.1 = .arrow) (hn : SpellsNumber Fits n k)
      (hk : k ≠ 0) : SpellsOperation [w, a, n] (.constantAssignment v k)
  /-- `v <- w` -/
  | assignment {w a w' : TokenKind × String} {v source : Variable} (hw : SpellsVariable Fits w v)
      (ha : a.1 = .arrow) (hw' : SpellsVariable Fits w' source) (hne : source ≠ v) :
      SpellsOperation [w, a, w'] (.assignment v source)
  /-- `v <- (F,args)` -/
  | quotation {w a c : TokenKind × String} {v : Variable} {call : Call}
      (hw : SpellsVariable Fits w v) (ha : a.1 = .arrow) (hc : SpellsCall Fits c call) :
      SpellsOperation [w, a, c] (.quotation v call)
  /-- `GOTO L` -/
  | gotoLabel {g t : TokenKind × String} {l : Label} (hg : g.1 = .goto)
      (ht : SpellsLabel Fits t l) : SpellsOperation [g, t] (.gotoLabel l)
  /-- `IF v != 0 GOTO L` -/
  | jumpNotZero {i w e n g t : TokenKind × String} {v : Variable} {l : Label} (hi : i.1 = .ifWord)
      (hw : SpellsVariable Fits w v) (he : e.1 = .notEqual) (hn : SpellsNumber Fits n 0)
      (hg : g.1 = .goto) (ht : SpellsLabel Fits t l) :
      SpellsOperation [i, w, e, n, g, t] (.jumpNotZero v l)
  /-- `IF v = 0 GOTO L` -/
  | jumpZero {i w e n g t : TokenKind × String} {v : Variable} {l : Label} (hi : i.1 = .ifWord)
      (hw : SpellsVariable Fits w v) (he : e.1 = .equal) (hn : SpellsNumber Fits n 0)
      (hg : g.1 = .goto) (ht : SpellsLabel Fits t l) :
      SpellsOperation [i, w, e, n, g, t] (.jumpZero v l)
  /-- `IF v = k GOTO L` -/
  | jumpEqualConstant {i w e n g t : TokenKind × String} {v : Variable} {k : Nat} {l : Label}
      (hi : i.1 = .ifWord) (hw : SpellsVariable Fits w v) (he : e.1 = .equal)
      (hn : SpellsNumber Fits n k) (hk : k ≠ 0) (hg : g.1 = .goto) (ht : SpellsLabel Fits t l) :
      SpellsOperation [i, w, e, n, g, t] (.jumpEqualConstant v k l)
  /-- `IF v = w GOTO L` -/
  | jumpEqualVariable {i w e w' g t : TokenKind × String} {v source : Variable} {l : Label}
      (hi : i.1 = .ifWord) (hw : SpellsVariable Fits w v) (he : e.1 = .equal)
      (hw' : SpellsVariable Fits w' source) (hg : g.1 = .goto) (ht : SpellsLabel Fits t l) :
      SpellsOperation [i, w, e, w', g, t] (.jumpEqualVariable v source l)
  /-- `IF v = (F,args) GOTO L` -/
  | jumpEqualFunction {i w e c g t : TokenKind × String} {v : Variable} {call : Call} {l : Label}
      (hi : i.1 = .ifWord) (hw : SpellsVariable Fits w v) (he : e.1 = .equal)
      (hc : SpellsCall Fits c call) (hg : g.1 = .goto) (ht : SpellsLabel Fits t l) :
      SpellsOperation [i, w, e, c, g, t] (.jumpEqualFunction v call l)

/-- What a line says. -/
inductive Meaning where
  /-- Nothing. -/
  | blank
  /-- A section with this name starts. -/
  | header (isMain : Bool) (name : String)
  /-- The section goes on with this instruction. -/
  | statement (i : Instruction)

/-- What lines say, by their words. The label in front of a statement is a numbered one. -/
inductive Denotes : List (TokenKind × String) → Meaning → Prop
  | blank : Denotes [] .blank
  /-- `PROGRAM name` -/
  | program {k n : TokenKind × String} (hk : k.1 = .program) (hn : n.1 = .identifier) :
      Denotes [k, n] (.header true n.2)
  /-- `FUNCTION name` -/
  | function {k n : TokenKind × String} (hk : k.1 = .function) (hn : n.1 = .identifier) :
      Denotes [k, n] (.header false n.2)
  | plain {ws : List (TokenKind × String)} {o : Operation} (h : SpellsOperation Fits ws o) :
      Denotes ws (.statement (.plain none o))
  /-- A statement behind `[L]`. -/
  | labelled {l n r : TokenKind × String} {ws : List (TokenKind × String)} {label : Label}
      {o : Operation} (hl : l.1 = .leftBracket) (hn : SpellsLabel Fits n label)
      (hlabel : label.isNumbered = true) (hr : r.1 = .rightBracket)
      (h : SpellsOperation Fits ws o) :
      Denotes (l :: n :: r :: ws) (.statement (.plain (some label) o))

end Grammar

/-! ### Words in front of a reader -/

namespace LineReader

variable {r r' : LineReader} {t : Token} {kind : TokenKind} {number width : Nat} {ts : List Token}
  {v source : Variable} {l : Label} {c : Call} {k : Nat} {o : Operation}

/-- The words in front of a reader, which are the tokens that are left, without their columns. -/
def words (r : LineReader) : List (TokenKind × String) :=
  r.left.map Token.word

/-- A reader that is not at the end of its line has the next token in front of it, and then the
words behind that one. -/
theorem words_of_next (h : r.next.kind = kind) (hkind : kind ≠ .lineEnd) :
    r.words = r.next.word :: r.skip.words := by
  obtain ⟨number, width, _ | ⟨t, ts⟩⟩ := r
  · exact absurd h.symm hkind
  · rfl

/-- A token that is asked for and found is the next one, and the reader goes on behind it. -/
theorem expect_eq_ok (h : r.expect kind = .ok (t, r')) :
    r.next.kind = kind ∧ t = r.next ∧ r' = r.skip := by
  rw [expect] at h
  split at h
  · rename_i hkind
    obtain ⟨rfl, rfl⟩ := Prod.mk.inj (Except.ok.inj h)
    exact ⟨hkind, rfl, rfl⟩
  · cases h

@[simp] theorem next_cons : next ⟨number, width, t :: ts⟩ = t := rfl

@[simp] theorem skip_cons : skip ⟨number, width, t :: ts⟩ = ⟨number, width, ts⟩ := rfl

/-- The next token is found if it is of the kind that is asked for. -/
theorem expect_cons (h : t.kind = kind) :
    expect ⟨number, width, t :: ts⟩ kind = .ok (t, ⟨number, width, ts⟩) :=
  if_pos h

/-! ### Operands -/

/-- An identifier is read as a variable if it spells the variable with few enough digits. What other
names are refused for does not matter here. -/
theorem variableOf_eq_ok_iff (ht : t.kind = .identifier) :
    r.variableOf t = .ok v ↔ SpellsVariable Argument.FewDigits t.word v := by
  have hspells : SpellsVariable Argument.FewDigits t.word v ↔ Variable.parse t.text = .ok v := by
    rw [Variable.parse_eq_ok_iff]
    exact and_iff_right ht
  rw [hspells, variableOf]
  split
  · rename_i hparse
    rw [hparse]
    exact ⟨nofun, nofun⟩
  · exact Iff.rfl

/-- An identifier is read as a label if it spells the label with few enough digits. -/
theorem labelOf_eq_ok_iff (ht : t.kind = .identifier) :
    r.labelOf t = .ok (some l) ↔ SpellsLabel Argument.FewDigits t.word l := by
  have hspells : SpellsLabel Argument.FewDigits t.word l ↔ Label.parse t.text = .ok (some l) := by
    rw [Label.parse_eq_ok_some_iff]
    exact and_iff_right ht
  rw [hspells, labelOf]
  split
  · rename_i hparse
    rw [hparse]
    exact ⟨nofun, nofun⟩
  · exact Iff.rfl

/-- The text of a call is read as the call that it spells, with few enough digits in each of its
numbers. -/
theorem callOf_eq_ok_iff (ht : t.kind = .call) :
    r.callOf t = .ok c ↔ SpellsCall Argument.FewDigits t.word c := by
  have hspells : SpellsCall Argument.FewDigits t.word c ↔ Call.parse t.text = .ok c := by
    rw [Call.parse_eq_ok_iff]
    exact and_iff_right ht
  rw [hspells, callOf]
  split
  · rename_i hparse
    rw [hparse]
    exact ⟨nofun, nofun⟩
  · exact Iff.rfl

/-- A number is read if it has few enough digits. -/
theorem numberOf_eq_ok_iff (ht : t.kind = .number) :
    numberOf t = .ok k ↔ SpellsNumber Argument.FewDigits t.word k := by
  rw [numberOf, Bounded.mapError_eq_ok, Text.numeral_eq_ok_iff]
  exact (and_iff_right ht).symm

/-! ### What is read is spelled -/

/-- The reader passes the words of an operation on its way, and the words that are left are behind
them. -/
def Passes (r : LineReader) (o : Operation) (r' : LineReader) : Prop :=
  ∃ ws, r.words = ws ++ r'.words ∧ SpellsOperation Argument.FewDigits ws o

/-- A target that is read is spelled by the next word. -/
theorem spells_of_readTarget (h : r.readTarget = .ok (l, r')) :
    ∃ w, r.words = w :: r'.words ∧ SpellsLabel Argument.FewDigits w l := by
  obtain ⟨⟨t, r₁⟩, ht, h⟩ := Bounded.bind_eq_ok.1 h
  obtain ⟨hkind, rfl, rfl⟩ := expect_eq_ok ht
  obtain ⟨label, hlabel, h⟩ := Bounded.bind_eq_ok.1 h
  cases label with
  | none => cases h
  | some label =>
    obtain ⟨rfl, rfl⟩ := Prod.mk.inj (Except.ok.inj h)
    exact ⟨_, words_of_next hkind (by decide), (labelOf_eq_ok_iff hkind).1 hlabel⟩

/-- A jump that is read is spelled by the next two words. -/
theorem spells_of_readGoto (h : r.readGoto = .ok (l, r')) :
    ∃ g w, r.words = g :: w :: r'.words ∧ g.1 = .goto ∧ SpellsLabel Argument.FewDigits w l := by
  obtain ⟨⟨g, r₁⟩, hg, h⟩ := Bounded.bind_eq_ok.1 h
  obtain ⟨hkind, rfl, rfl⟩ := expect_eq_ok hg
  obtain ⟨w, hw, hspells⟩ := spells_of_readTarget h
  exact ⟨r.next.word, w, by rw [words_of_next hkind (by decide), hw], hkind, hspells⟩

/-- What is read behind a sign is the number one, and the variable to count is the one that is
written. -/
theorem spells_of_readCount (hsign : r.next.kind = .plus ∨ r.next.kind = .minus)
    (h : r.readCount v source = .ok (o, r')) :
    source = v ∧ o = (if r.next.kind = .plus then .increase v else .decrease v) ∧
      ∃ n, r.words = r.next.word :: n :: r'.words ∧ SpellsNumber Argument.FewDigits n 1 := by
  obtain ⟨⟨n, r₁⟩, hn, h⟩ := Bounded.bind_eq_ok.1 h
  obtain ⟨hnumber, rfl, rfl⟩ := expect_eq_ok hn
  have hwords : r.words = r.next.word :: r.skip.next.word :: r.skip.skip.words := by
    rw [words_of_next rfl (by rcases hsign with h | h <;> rw [h] <;> decide),
      words_of_next hnumber (by decide)]
  dsimp only at h
  split at h
  · cases h
  · rename_i hself
    obtain ⟨k, hk, h⟩ := Bounded.bind_eq_ok.1 h
    split at h
    · cases h
    · rename_i hone
      obtain ⟨rfl, rfl⟩ := Prod.mk.inj (Except.ok.inj h)
      obtain rfl := not_not.1 hone
      exact ⟨not_not.1 hself, rfl, _, hwords, (numberOf_eq_ok_iff hnumber).1 hk⟩

/-- The right side of an assignment that is read is spelled by the words behind the arrow. -/
theorem passes_of_readAssignment (hr : r.next.kind = .identifier)
    (h : r.readAssignment = .ok (o, r')) : r.Passes o r' := by
  obtain ⟨v, hv, h⟩ := Bounded.bind_eq_ok.1 h
  obtain ⟨⟨a, r₁⟩, ha, h⟩ := Bounded.bind_eq_ok.1 h
  obtain ⟨harrow, rfl, rfl⟩ := expect_eq_ok ha
  have hv := (variableOf_eq_ok_iff hr).1 hv
  have hwords : ∀ {kind}, r.skip.skip.next.kind = kind → kind ≠ .lineEnd → r.words =
      [r.next.word, r.skip.next.word, r.skip.skip.next.word] ++ r.skip.skip.skip.words := by
    intro kind hkind hne
    rw [words_of_next hr (by decide), words_of_next harrow (by decide), words_of_next hkind hne]
    rfl
  dsimp only at h
  -- The right side is a number, a call, or a variable, of which one may be added or taken away.
  split at h
  · rename_i hnumber
    obtain ⟨k, hk, h⟩ := Bounded.bind_eq_ok.1 h
    obtain ⟨rfl, rfl⟩ := Prod.mk.inj (Except.ok.inj h)
    have hk := (numberOf_eq_ok_iff hnumber).1 hk
    refine ⟨_, hwords hnumber (by decide), ?_⟩
    split
    · rename_i hzero
      exact .zeroVariable hv harrow (hzero ▸ hk)
    · rename_i hne
      exact .constantAssignment hv harrow hk hne
  · rename_i hcall
    obtain ⟨c, hc, h⟩ := Bounded.bind_eq_ok.1 h
    obtain ⟨rfl, rfl⟩ := Prod.mk.inj (Except.ok.inj h)
    exact ⟨_, hwords hcall (by decide), .quotation hv harrow ((callOf_eq_ok_iff hcall).1 hc)⟩
  · rename_i hname
    obtain ⟨source, hsource, h⟩ := Bounded.bind_eq_ok.1 h
    have hsource := (variableOf_eq_ok_iff hname).1 hsource
    have hwords := hwords hname (by decide)
    split at h
    · rename_i hsign
      obtain ⟨rfl, rfl, n, hcount, hn⟩ := spells_of_readCount hsign h
      rw [hcount] at hwords
      refine ⟨_, hwords.trans (List.append_assoc _ [_, n] _).symm, ?_⟩
      split
      · rename_i hplus
        exact .increase hv harrow hsource hplus hn
      · rename_i hplus
        exact .decrease hv harrow hsource (hsign.resolve_left hplus) hn
    · obtain ⟨rfl, rfl⟩ := Prod.mk.inj (Except.ok.inj h)
      refine ⟨_, hwords, ?_⟩
      split
      · rename_i hself
        exact .neutral hv harrow (hself ▸ hsource)
      · rename_i hne
        exact .assignment hv harrow hsource hne
  · cases h

/-- A condition that is read is spelled by the words behind its keyword, with the jump at the end.
-/
theorem passes_of_readCondition (hr : r.next.kind = .ifWord)
    (h : r.skip.readCondition = .ok (o, r')) : r.Passes o r' := by
  obtain ⟨⟨t, r₁⟩, ht, h⟩ := Bounded.bind_eq_ok.1 h
  obtain ⟨hname, rfl, rfl⟩ := expect_eq_ok ht
  obtain ⟨v, hv, h⟩ := Bounded.bind_eq_ok.1 h
  have hv := (variableOf_eq_ok_iff hname).1 hv
  have hwords : ∀ {kind kind' g w}, r.skip.skip.next.kind = kind → kind ≠ .lineEnd →
      r.skip.skip.skip.next.kind = kind' → kind' ≠ .lineEnd →
      r.skip.skip.skip.skip.words = g :: w :: r'.words → r.words = [r.next.word, r.skip.next.word,
        r.skip.skip.next.word, r.skip.skip.skip.next.word, g, w] ++ r'.words := by
    intro kind kind' g w hkind hne hkind' hne' hjump
    rw [words_of_next hr (by decide), words_of_next hname (by decide), words_of_next hkind hne,
      words_of_next hkind' hne', hjump]
    rfl
  dsimp only at h
  -- The variable is compared with zero, or with a number, a variable or a call.
  split at h
  · rename_i hunequal
    obtain ⟨⟨n, r₁⟩, hn, h⟩ := Bounded.bind_eq_ok.1 h
    obtain ⟨hnumber, rfl, rfl⟩ := expect_eq_ok hn
    obtain ⟨k, hk, h⟩ := Bounded.bind_eq_ok.1 h
    have hk := (numberOf_eq_ok_iff hnumber).1 hk
    dsimp only at h
    split at h
    · cases h
    · rename_i hzero
      obtain rfl := not_not.1 hzero
      obtain ⟨⟨target, r₂⟩, hjump, h⟩ := Bounded.bind_eq_ok.1 h
      obtain ⟨rfl, rfl⟩ := Prod.mk.inj (Except.ok.inj h)
      obtain ⟨g, w, hjump, hg, ht⟩ := spells_of_readGoto hjump
      exact ⟨_, hwords hunequal (by decide) hnumber (by decide) hjump,
        .jumpNotZero hr hv hunequal hk hg ht⟩
  · rename_i hequal
    split at h
    · rename_i hnumber
      obtain ⟨k, hk, h⟩ := Bounded.bind_eq_ok.1 h
      obtain ⟨⟨target, r₂⟩, hjump, h⟩ := Bounded.bind_eq_ok.1 h
      obtain ⟨rfl, rfl⟩ := Prod.mk.inj (Except.ok.inj h)
      obtain ⟨g, w, hjump, hg, ht⟩ := spells_of_readGoto hjump
      have hk := (numberOf_eq_ok_iff hnumber).1 hk
      refine ⟨_, hwords hequal (by decide) hnumber (by decide) hjump, ?_⟩
      dsimp only
      split
      · rename_i hzero
        exact .jumpZero hr hv hequal (hzero ▸ hk) hg ht
      · rename_i hne
        exact .jumpEqualConstant hr hv hequal hk hne hg ht
    · rename_i hname'
      obtain ⟨source, hsource, h⟩ := Bounded.bind_eq_ok.1 h
      obtain ⟨⟨target, r₂⟩, hjump, h⟩ := Bounded.bind_eq_ok.1 h
      obtain ⟨rfl, rfl⟩ := Prod.mk.inj (Except.ok.inj h)
      obtain ⟨g, w, hjump, hg, ht⟩ := spells_of_readGoto hjump
      exact ⟨_, hwords hequal (by decide) hname' (by decide) hjump,
        .jumpEqualVariable hr hv hequal ((variableOf_eq_ok_iff hname').1 hsource) hg ht⟩
    · rename_i hcall
      obtain ⟨c, hc, h⟩ := Bounded.bind_eq_ok.1 h
      obtain ⟨⟨target, r₂⟩, hjump, h⟩ := Bounded.bind_eq_ok.1 h
      obtain ⟨rfl, rfl⟩ := Prod.mk.inj (Except.ok.inj h)
      obtain ⟨g, w, hjump, hg, ht⟩ := spells_of_readGoto hjump
      exact ⟨_, hwords hequal (by decide) hcall (by decide) hjump,
        .jumpEqualFunction hr hv hequal ((callOf_eq_ok_iff hcall).1 hc) hg ht⟩
    · cases h
  · cases h

/-- An operation is read from words that spell it. The first word tells jumps, conditions and
assignments apart. -/
theorem passes_of_readOperation (h : r.readOperation = .ok (o, r')) : r.Passes o r' := by
  rw [readOperation] at h
  split at h
  · rename_i hgoto
    obtain ⟨⟨target, r₁⟩, ht, h⟩ := Bounded.bind_eq_ok.1 h
    obtain ⟨rfl, rfl⟩ := Prod.mk.inj (Except.ok.inj h)
    obtain ⟨w, hw, ht⟩ := spells_of_readTarget ht
    exact ⟨[r.next.word, w], by rw [words_of_next hgoto (by decide), hw]; rfl, .gotoLabel hgoto ht⟩
  · rename_i hif
    exact passes_of_readCondition hif h
  · rename_i hname
    exact passes_of_readAssignment hname h
  · cases h

/-! ### What is spelled is read -/

section Spelled

variable {t₁ t₂ t₃ t₄ t₅ : Token}

/-- A word that spells a label is read as a target. -/
theorem readTarget_of_spells (h : SpellsLabel Argument.FewDigits t.word l) :
    readTarget ⟨number, width, t :: ts⟩ = .ok (l, ⟨number, width, ts⟩) := by
  have hkind : t.kind = .identifier := h.1
  simp [readTarget, expect_cons hkind, (labelOf_eq_ok_iff hkind).2 h]

/-- A keyword and a word that spells a label are read as a jump. -/
theorem readGoto_of_spells (hgoto : t₁.kind = .goto)
    (h : SpellsLabel Argument.FewDigits t₂.word l) :
    readGoto ⟨number, width, t₁ :: t₂ :: ts⟩ = .ok (l, ⟨number, width, ts⟩) := by
  simp [readGoto, expect_cons hgoto, readTarget_of_spells h]

/-- An assignment of a number is read, and zero is told from other constants. -/
theorem readAssignment_number (hv : SpellsVariable Argument.FewDigits t₁.word v)
    (harrow : t₂.kind = .arrow) (hk : SpellsNumber Argument.FewDigits t₃.word k) :
    readAssignment ⟨number, width, [t₁, t₂, t₃]⟩ =
      .ok (if k = 0 then .zeroVariable v else .constantAssignment v k, ⟨number, width, []⟩) := by
  have hkind : t₃.kind = .number := hk.1
  simp [readAssignment, (variableOf_eq_ok_iff hv.1).2 hv, expect_cons harrow, hkind,
    (numberOf_eq_ok_iff hkind).2 hk]

/-- An assignment of the value of a call is read. -/
theorem readAssignment_call (hv : SpellsVariable Argument.FewDigits t₁.word v)
    (harrow : t₂.kind = .arrow) (hc : SpellsCall Argument.FewDigits t₃.word c) :
    readAssignment ⟨number, width, [t₁, t₂, t₃]⟩ =
      .ok (.quotation v c, ⟨number, width, []⟩) := by
  have hkind : t₃.kind = .call := hc.1
  simp [readAssignment, (variableOf_eq_ok_iff hv.1).2 hv, expect_cons harrow, hkind,
    (callOf_eq_ok_iff hkind).2 hc]

/-- An assignment of a variable is read, and one to itself is told from others. -/
theorem readAssignment_variable (hv : SpellsVariable Argument.FewDigits t₁.word v)
    (harrow : t₂.kind = .arrow) (hsource : SpellsVariable Argument.FewDigits t₃.word source) :
    readAssignment ⟨number, width, [t₁, t₂, t₃]⟩ =
      .ok (if source = v then .neutral v else .assignment v source, ⟨number, width, []⟩) := by
  have hkind : t₃.kind = .identifier := hsource.1
  have hend : (next ⟨number, width, []⟩).kind = .lineEnd := rfl
  simp [readAssignment, (variableOf_eq_ok_iff hv.1).2 hv, expect_cons harrow, hkind,
    (variableOf_eq_ok_iff hkind).2 hsource, hend]

/-- Counting a variable up or down is read, by the sign. -/
theorem readAssignment_count (hv : SpellsVariable Argument.FewDigits t₁.word v)
    (harrow : t₂.kind = .arrow) (hv' : SpellsVariable Argument.FewDigits t₃.word v)
    (hsign : t₄.kind = .plus ∨ t₄.kind = .minus)
    (hone : SpellsNumber Argument.FewDigits t₅.word 1) :
    readAssignment ⟨number, width, [t₁, t₂, t₃, t₄, t₅]⟩ =
      .ok (if t₄.kind = .plus then .increase v else .decrease v, ⟨number, width, []⟩) := by
  have hkind : t₃.kind = .identifier := hv'.1
  have hnumber : t₅.kind = .number := hone.1
  rcases hsign with hsign | hsign <;>
    simp [readAssignment, readCount, (variableOf_eq_ok_iff hv.1).2 hv, expect_cons harrow, hkind,
      (variableOf_eq_ok_iff hkind).2 hv', hsign, expect_cons hnumber,
      (numberOf_eq_ok_iff hnumber).2 hone]

/-- A comparison for values other than zero is read. There is none with another constant. -/
theorem readCondition_notEqual (hv : SpellsVariable Argument.FewDigits t₁.word v)
    (hunequal : t₂.kind = .notEqual) (hzero : SpellsNumber Argument.FewDigits t₃.word 0)
    (hgoto : t₄.kind = .goto) (hl : SpellsLabel Argument.FewDigits t₅.word l) :
    readCondition ⟨number, width, [t₁, t₂, t₃, t₄, t₅]⟩ =
      .ok (.jumpNotZero v l, ⟨number, width, []⟩) := by
  have hname : t₁.kind = .identifier := hv.1
  have hkind : t₃.kind = .number := hzero.1
  simp [readCondition, expect_cons hname, (variableOf_eq_ok_iff hname).2 hv, hunequal,
    expect_cons hkind, (numberOf_eq_ok_iff hkind).2 hzero, readGoto_of_spells hgoto hl]

/-- A comparison with a number is read, and zero is told from other constants. -/
theorem readCondition_number (hv : SpellsVariable Argument.FewDigits t₁.word v)
    (hequal : t₂.kind = .equal) (hk : SpellsNumber Argument.FewDigits t₃.word k)
    (hgoto : t₄.kind = .goto) (hl : SpellsLabel Argument.FewDigits t₅.word l) :
    readCondition ⟨number, width, [t₁, t₂, t₃, t₄, t₅]⟩ =
      .ok (if k = 0 then .jumpZero v l else .jumpEqualConstant v k l, ⟨number, width, []⟩) := by
  have hname : t₁.kind = .identifier := hv.1
  have hkind : t₃.kind = .number := hk.1
  simp [readCondition, expect_cons hname, (variableOf_eq_ok_iff hname).2 hv, hequal, hkind,
    (numberOf_eq_ok_iff hkind).2 hk, readGoto_of_spells hgoto hl]

/-- A comparison of two variables is read. -/
theorem readCondition_variable (hv : SpellsVariable Argument.FewDigits t₁.word v)
    (hequal : t₂.kind = .equal) (hsource : SpellsVariable Argument.FewDigits t₃.word source)
    (hgoto : t₄.kind = .goto) (hl : SpellsLabel Argument.FewDigits t₅.word l) :
    readCondition ⟨number, width, [t₁, t₂, t₃, t₄, t₅]⟩ =
      .ok (.jumpEqualVariable v source l, ⟨number, width, []⟩) := by
  have hname : t₁.kind = .identifier := hv.1
  have hkind : t₃.kind = .identifier := hsource.1
  simp [readCondition, expect_cons hname, (variableOf_eq_ok_iff hname).2 hv, hequal, hkind,
    (variableOf_eq_ok_iff hkind).2 hsource, readGoto_of_spells hgoto hl]

/-- A comparison with the value of a call is read. -/
theorem readCondition_call (hv : SpellsVariable Argument.FewDigits t₁.word v)
    (hequal : t₂.kind = .equal) (hc : SpellsCall Argument.FewDigits t₃.word c)
    (hgoto : t₄.kind = .goto) (hl : SpellsLabel Argument.FewDigits t₅.word l) :
    readCondition ⟨number, width, [t₁, t₂, t₃, t₄, t₅]⟩ =
      .ok (.jumpEqualFunction v c l, ⟨number, width, []⟩) := by
  have hname : t₁.kind = .identifier := hv.1
  have hkind : t₃.kind = .call := hc.1
  simp [readCondition, expect_cons hname, (variableOf_eq_ok_iff hname).2 hv, hequal, hkind,
    (callOf_eq_ok_iff hkind).2 hc, readGoto_of_spells hgoto hl]

/-- An operation is read from all words that spell it, and nothing is left of them. There is one
case for each rule. -/
theorem readOperation_of_spells {ws : List (TokenKind × String)}
    (h : SpellsOperation Argument.FewDigits ws o) (hts : ts.map Token.word = ws) :
    readOperation ⟨number, width, ts⟩ = .ok (o, ⟨number, width, []⟩) := by
  have hassignment : ∀ {t : Token} {ts : List Token} {v : Variable},
      SpellsVariable Argument.FewDigits t.word v →
      readOperation ⟨number, width, t :: ts⟩ = readAssignment ⟨number, width, t :: ts⟩ := by
    intro t ts v ht
    have hkind : t.kind = .identifier := ht.1
    simp [readOperation, hkind]
  have hcondition : ∀ {t : Token} {ts : List Token}, t.word.1 = .ifWord →
      readOperation ⟨number, width, t :: ts⟩ = readCondition ⟨number, width, ts⟩ := by
    intro t ts ht
    have hkind : t.kind = .ifWord := ht
    simp [readOperation, hkind]
  cases h <;> simp only [List.map_eq_cons_iff, List.map_eq_nil_iff] at hts
  case neutral v hw ha hw' =>
    obtain ⟨t₁, _, rfl, rfl, t₂, _, rfl, rfl, t₃, _, rfl, rfl, rfl⟩ := hts
    rw [hassignment hw, readAssignment_variable hw ha hw', if_pos rfl]
  case assignment v source hw ha hw' hne =>
    obtain ⟨t₁, _, rfl, rfl, t₂, _, rfl, rfl, t₃, _, rfl, rfl, rfl⟩ := hts
    rw [hassignment hw, readAssignment_variable hw ha hw', if_neg hne]
  case increase v hw ha hw' hs hn =>
    obtain ⟨t₁, _, rfl, rfl, t₂, _, rfl, rfl, t₃, _, rfl, rfl, t₄, _, rfl, rfl, t₅, _, rfl, rfl,
      rfl⟩ := hts
    have hplus : t₄.kind = .plus := hs
    rw [hassignment hw, readAssignment_count hw ha hw' (.inl hplus) hn, if_pos hplus]
  case decrease v hw ha hw' hs hn =>
    obtain ⟨t₁, _, rfl, rfl, t₂, _, rfl, rfl, t₃, _, rfl, rfl, t₄, _, rfl, rfl, t₅, _, rfl, rfl,
      rfl⟩ := hts
    have hplus : t₄.kind ≠ .plus := fun hplus => by cases hplus.symm.trans hs
    rw [hassignment hw, readAssignment_count hw ha hw' (.inr hs) hn, if_neg hplus]
  case zeroVariable v hw ha hn =>
    obtain ⟨t₁, _, rfl, rfl, t₂, _, rfl, rfl, t₃, _, rfl, rfl, rfl⟩ := hts
    rw [hassignment hw, readAssignment_number hw ha hn, if_pos rfl]
  case constantAssignment v k hw ha hn hk =>
    obtain ⟨t₁, _, rfl, rfl, t₂, _, rfl, rfl, t₃, _, rfl, rfl, rfl⟩ := hts
    rw [hassignment hw, readAssignment_number hw ha hn, if_neg hk]
  case quotation v call hw ha hc =>
    obtain ⟨t₁, _, rfl, rfl, t₂, _, rfl, rfl, t₃, _, rfl, rfl, rfl⟩ := hts
    rw [hassignment hw, readAssignment_call hw ha hc]
  case gotoLabel l hg ht =>
    obtain ⟨t₁, _, rfl, rfl, t₂, _, rfl, rfl, rfl⟩ := hts
    have hkind : t₁.kind = .goto := hg
    simp [readOperation, hkind, readTarget_of_spells ht]
  case jumpNotZero v l hi hw he hn hg ht =>
    obtain ⟨t₁, _, rfl, rfl, t₂, _, rfl, rfl, t₃, _, rfl, rfl, t₄, _, rfl, rfl, t₅, _, rfl, rfl, t₆,
      _, rfl, rfl, rfl⟩ := hts
    rw [hcondition hi, readCondition_notEqual hw he hn hg ht]
  case jumpZero v l hi hw he hn hg ht =>
    obtain ⟨t₁, _, rfl, rfl, t₂, _, rfl, rfl, t₃, _, rfl, rfl, t₄, _, rfl, rfl, t₅, _, rfl, rfl, t₆,
      _, rfl, rfl, rfl⟩ := hts
    rw [hcondition hi, readCondition_number hw he hn hg ht, if_pos rfl]
  case jumpEqualConstant v k l hi hw he hn hk hg ht =>
    obtain ⟨t₁, _, rfl, rfl, t₂, _, rfl, rfl, t₃, _, rfl, rfl, t₄, _, rfl, rfl, t₅, _, rfl, rfl, t₆,
      _, rfl, rfl, rfl⟩ := hts
    rw [hcondition hi, readCondition_number hw he hn hg ht, if_neg hk]
  case jumpEqualVariable v source l hi hw he hw' hg ht =>
    obtain ⟨t₁, _, rfl, rfl, t₂, _, rfl, rfl, t₃, _, rfl, rfl, t₄, _, rfl, rfl, t₅, _, rfl, rfl, t₆,
      _, rfl, rfl, rfl⟩ := hts
    rw [hcondition hi, readCondition_variable hw he hw' hg ht]
  case jumpEqualFunction v call l hi hw he hc hg ht =>
    obtain ⟨t₁, _, rfl, rfl, t₂, _, rfl, rfl, t₃, _, rfl, rfl, t₄, _, rfl, rfl, t₅, _, rfl, rfl, t₆,
      _, rfl, rfl, rfl⟩ := hts
    rw [hcondition hi, readCondition_call hw he hc hg ht]

end Spelled

/-! ### Lines -/

/-- At the end of a line there are no words left. -/
theorem words_eq_nil (hr : ∀ w ∈ r.words, w.1 ≠ .lineEnd) (h : r.next.kind = .lineEnd) :
    r.words = [] := by
  obtain ⟨number, width, _ | ⟨t, ts⟩⟩ := r
  · rfl
  · exact absurd h (hr t.word List.mem_cons_self)

/-- A reader that has finished is at the end of its line. -/
theorem next_of_finish (h : r.finish = .ok ()) : r.next.kind = .lineEnd := by
  rw [finish] at h
  split at h
  · assumption
  · cases h

/-- A header that is read goes on with its name and nothing else. -/
theorem words_of_readHeader {name : String} (hr : ∀ w ∈ r.words, w.1 ≠ .lineEnd)
    (h : r.readHeader = .ok name) : ∃ w, r.words = [w] ∧ w.1 = .identifier ∧ w.2 = name := by
  obtain ⟨⟨t, r₁⟩, ht, h⟩ := Bounded.bind_eq_ok.1 h
  obtain ⟨hkind, rfl, rfl⟩ := expect_eq_ok ht
  obtain ⟨_, hfinish, h⟩ := Bounded.bind_eq_ok.1 h
  obtain rfl := Except.ok.inj h
  have hwords := words_of_next hkind (by decide)
  rw [hwords, List.forall_mem_cons] at hr
  rw [words_eq_nil hr.2 (next_of_finish hfinish)] at hwords
  exact ⟨_, hwords, hkind, rfl⟩

/-- A name by itself is read as the name of a section. -/
theorem readHeader_of_words {w : TokenKind × String} (hr : r.words = [w])
    (hw : w.1 = .identifier) : r.readHeader = .ok w.2 := by
  obtain ⟨number, width, ts⟩ := r
  obtain ⟨t, ts, rfl, rfl, hts⟩ := List.map_eq_cons_iff.1 hr
  obtain rfl := List.map_eq_nil_iff.1 hts
  rw [readHeader, expect_cons hw]
  rfl

/-- The label that is read in front of a statement is spelled by three words, it is numbered, and it
is not declared yet. Otherwise nothing is read, and the statement has no label. -/
theorem spells_of_readLabel {declared : List (Label × Nat)} {label : Option Label}
    (h : r.readLabel declared = .ok (label, r')) :
    label = none ∧ r' = r ∨
      ∃ w₁ w₂ w₃ l, r.words = w₁ :: w₂ :: w₃ :: r'.words ∧ label = some l ∧
        w₁.1 = .leftBracket ∧ SpellsLabel Argument.FewDigits w₂ l ∧ l.isNumbered = true ∧
        w₃.1 = .rightBracket ∧ declared.lookup l = none := by
  rw [readLabel] at h
  split at h
  · rename_i hleft
    obtain ⟨⟨t, r₁⟩, ht, h⟩ := Bounded.bind_eq_ok.1 h
    obtain ⟨hname, rfl, rfl⟩ := expect_eq_ok ht
    obtain ⟨spelled, hspelled, h⟩ := Bounded.bind_eq_ok.1 h
    dsimp only at h
    split at h
    · cases h
    · rename_i l hfilter
      split at h
      · cases h
      · rename_i hnew
        obtain ⟨⟨t, r₂⟩, ht, h⟩ := Bounded.bind_eq_ok.1 h
        obtain ⟨hright, rfl, rfl⟩ := expect_eq_ok ht
        obtain ⟨rfl, rfl⟩ := Prod.mk.inj (Except.ok.inj h)
        obtain ⟨rfl, hnumbered⟩ := Option.filter_eq_some_iff.1 hfilter
        refine .inr ⟨r.next.word, r.skip.next.word, r.skip.skip.next.word, l, ?_, rfl, hleft,
          (labelOf_eq_ok_iff hname).1 hspelled, hnumbered, hright, hnew⟩
        rw [words_of_next hleft (by decide), words_of_next hname (by decide),
          words_of_next hright (by decide)]
  · obtain ⟨rfl, rfl⟩ := Prod.mk.inj (Except.ok.inj h)
    exact .inl ⟨rfl, rfl⟩

end LineReader

/-- The first word of an operation is a variable or a keyword of statements. -/
theorem SpellsOperation.exists_cons {Fits : String → Prop} {ws : List (TokenKind × String)}
    {o : Operation} (h : SpellsOperation Fits ws o) :
    ∃ w ws', ws = w :: ws' ∧ w.1 ∈ [TokenKind.identifier, .ifWord, .goto] := by
  cases h with
  | gotoLabel hg | jumpNotZero hg | jumpZero hg | jumpEqualConstant hg | jumpEqualVariable hg
  | jumpEqualFunction hg => exact ⟨_, _, rfl, by simp [hg]⟩
  | neutral hw | increase hw | decrease hw | zeroVariable hw | constantAssignment hw
  | assignment hw | quotation hw => exact ⟨_, _, rfl, by simp [hw.1]⟩

/-- The first word of a statement is a bracket, or the first one of an operation. -/
theorem Denotes.exists_cons {Fits : String → Prop} {ws : List (TokenKind × String)}
    {i : Instruction} (h : Denotes Fits ws (.statement i)) :
    ∃ w ws', ws = w :: ws' ∧ w.1 ∈ [TokenKind.leftBracket, .identifier, .ifWord, .goto] := by
  cases h with
  | plain ho =>
    obtain ⟨w, ws', rfl, hw⟩ := ho.exists_cons
    exact ⟨w, ws', rfl, List.mem_cons_of_mem _ hw⟩
  | labelled hl => exact ⟨_, _, rfl, by simp [hl]⟩

namespace LineReader

section Statement

variable {r : LineReader} {declared : List (Label × Nat)} {i : Instruction}

/-- A statement that is read is what its line says, and its label is new. -/
theorem denotes_of_readStatement (hr : ∀ w ∈ r.words, w.1 ≠ .lineEnd)
    (h : r.readStatement declared = .ok i) :
    Denotes Argument.FewDigits r.words (.statement i) ∧
      ∀ l ∈ i.label, declared.lookup l = none := by
  obtain ⟨⟨label, r₁⟩, hlabel, h⟩ := Bounded.bind_eq_ok.1 h
  obtain ⟨⟨o, r₂⟩, ho, h⟩ := Bounded.bind_eq_ok.1 h
  obtain ⟨_, hfinish, h⟩ := Bounded.bind_eq_ok.1 h
  obtain rfl := Except.ok.inj h
  obtain ⟨ws, hws, ho⟩ := passes_of_readOperation ho
  have hws : r₁.words = ws ++ r₂.words := hws
  have hfinish : r₂.finish = .ok () := hfinish
  obtain ⟨rfl, rfl⟩ | ⟨w₁, w₂, w₃, l, hwords, rfl, hleft, hl, hnumbered, hright, hnew⟩ :=
    spells_of_readLabel hlabel
  · rw [hws, List.forall_mem_append] at hr
    rw [hws, words_eq_nil hr.2 (next_of_finish hfinish), List.append_nil]
    exact ⟨.plain ho, nofun⟩
  · rw [hwords, hws, List.forall_mem_cons, List.forall_mem_cons, List.forall_mem_cons,
      List.forall_mem_append] at hr
    rw [hwords, hws, words_eq_nil hr.2.2.2.2 (next_of_finish hfinish), List.append_nil]
    refine ⟨.labelled hleft hl hnumbered hright ho, ?_⟩
    rintro _ ⟨⟩
    exact hnew

/-- What a line says is read from it, if its label is new. -/
theorem readStatement_of_denotes (h : Denotes Argument.FewDigits r.words (.statement i))
    (hnew : ∀ l ∈ i.label, declared.lookup l = none) : r.readStatement declared = .ok i := by
  obtain ⟨number, width, ts⟩ := r
  change Denotes Argument.FewDigits (ts.map Token.word) (.statement i) at h
  generalize hts : ts.map Token.word = ws at h
  cases h with
  | @plain _ o ho =>
    have hlabel : readLabel ⟨number, width, ts⟩ declared = .ok (none, ⟨number, width, ts⟩) := by
      obtain ⟨w, ws, rfl, hw⟩ := ho.exists_cons
      obtain ⟨t, ts, rfl, rfl, -⟩ := List.map_eq_cons_iff.1 hts
      refine if_neg fun hleft => ?_
      have hkind : t.word.1 = .leftBracket := hleft
      rw [hkind] at hw
      exact absurd hw (by decide)
    rw [readStatement, hlabel, Bounded.ok_bind]
    dsimp only
    rw [readOperation_of_spells ho hts]
    rfl
  | @labelled w₁ w₂ w₃ ws l o hl hn hnumbered hr' ho =>
    simp only [List.map_eq_cons_iff] at hts
    obtain ⟨t₁, _, rfl, rfl, t₂, _, rfl, rfl, t₃, ts, rfl, rfl, hts⟩ := hts
    have hleft : t₁.kind = .leftBracket := hl
    have hname : t₂.kind = .identifier := hn.1
    have hright : t₃.kind = .rightBracket := hr'
    have hfilter : (some l).filter Label.isNumbered = some l := Option.filter_some_pos hnumbered
    have hlabel : readLabel ⟨number, width, t₁ :: t₂ :: t₃ :: ts⟩ declared =
        .ok (some l, ⟨number, width, ts⟩) := by
      simp [readLabel, hleft, expect_cons hname, (labelOf_eq_ok_iff hname).2 hn, hfilter,
        hnew l rfl, expect_cons hright]
    rw [readStatement, hlabel, Bounded.ok_bind]
    dsimp only
    rw [readOperation_of_spells ho hts]
    rfl

end Statement

end LineReader

end Assembly

end RegisterMachine
