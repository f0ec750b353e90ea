import RegisterMachine.Argument.Parse
import RegisterMachine.Proofs.Fuel
import RegisterMachine.Proofs.Word

/-!
# The words of argument text

Argument text is made of parentheses, commas, integers and identifiers, the last two as long as they
can be, with blanks anywhere between them. The lexer finds these words in any text that has them. It
also counts parentheses, so it refuses a text whose parentheses do not balance.

* `Argument.isInteger`, `Argument.integerValue` — integers and what they spell;
* `Argument.Splits` — a text is made of some words;
* `Argument.splits_of_tokensFrom`, `Argument.Splits.exists_tokensFrom` — the lexer finds them;
* `Argument.misplaced_of_tokensFrom` — how the lexer refuses a text;
* `Argument.Shuts`, `Argument.not_isUnbalanced_of_tokensFrom` — it never refuses one for parentheses
  that balance.
-/

namespace RegisterMachine.Argument

/-- A token without its position. -/
def Token.word (t : Token) : TokenKind × String :=
  (t.kind, t.text)

/-! ### Integers -/

/-- The digits of an integer, behind its sign if it has one. -/
def isInteger : List Char → Bool
  | [] => false
  | c :: cs => cs.all Text.isDecimal && (Text.isDecimal c || (isSign c && !cs.isEmpty))

/-- The integer that digits with an optional sign spell. -/
def integerValue : List Char → Int
  | '-' :: digits => -(Text.decimalValue digits : Int)
  | '+' :: digits => Text.decimalValue digits
  | digits => Text.decimalValue digits

/-- A text with no more digits than a number may have. -/
def FewDigits (text : String) : Prop :=
  text.toList.countP Text.isDecimal ≤ Text.maxDigits

instance : DecidablePred FewDigits := fun text =>
  inferInstanceAs (Decidable (text.toList.countP Text.isDecimal ≤ Text.maxDigits))

/-- An integer that is read is the one that is spelled, and its numeral is not too long. -/
theorem integer_eq_ok {text : String} {value : Int} (h : integer text = .ok value) :
    FewDigits text ∧ value = integerValue text.toList ∧ Text.Short value.natAbs := by
  have hnumeral : ∀ {digits : List Char} {n : Nat}, Text.numeral digits = .ok n →
      digits.countP Text.isDecimal ≤ Text.maxDigits ∧ n = Text.decimalValue digits ∧
        Text.Short n := by
    intro digits n hn
    rw [Text.numeral] at hn
    split at hn
    · cases hn
    · rename_i hle
      split at hn
      · obtain rfl := Except.ok.inj hn
        exact ⟨List.countP_le_length.trans (Nat.not_lt.1 hle), rfl,
          Text.short_decimalValue (Nat.not_lt.1 hle)⟩
      · cases hn
  rw [integer] at h
  rw [FewDigits]
  split at h
  · rename_i digits htext
    obtain ⟨n, hn, rfl⟩ := Bounded.map_eq_ok.1 h
    obtain ⟨hle, rfl, hshort⟩ := hnumeral hn
    rw [htext, Int.natAbs_neg]
    exact ⟨hle, rfl, hshort⟩
  · rename_i digits htext
    obtain ⟨n, hn, rfl⟩ := Bounded.map_eq_ok.1 h
    obtain ⟨hle, rfl, hshort⟩ := hnumeral hn
    rw [htext]
    exact ⟨hle, rfl, hshort⟩
  · rename_i hminus hplus
    obtain ⟨n, hn, rfl⟩ := Bounded.map_eq_ok.1 h
    obtain ⟨hle, rfl, hshort⟩ := hnumeral hn
    exact ⟨hle, (integerValue.eq_3 _ hminus hplus).symm, hshort⟩

/-- An integer without a sign is made of digits. -/
theorem isDecimal_of_isInteger {cs : List Char} (h : isInteger cs = true)
    (hminus : ∀ digits, cs = '-' :: digits → False) (hplus : ∀ digits, cs = '+' :: digits → False) :
    ∀ d ∈ cs, Text.isDecimal d = true := by
  cases cs with
  | nil => exact List.forall_mem_nil _
  | cons c cs =>
    rw [isInteger, Bool.and_eq_true, List.all_eq_true, Bool.or_eq_true, Bool.and_eq_true] at h
    refine List.forall_mem_cons.2 ⟨h.2.resolve_right fun hsign => ?_, h.1⟩
    rw [isSign, Bool.or_eq_true, beq_iff_eq, beq_iff_eq] at hsign
    rcases hsign.1 with rfl | rfl
    · exact hplus cs rfl
    · exact hminus cs rfl

/-- An integer that is spelled is read, unless it has too many digits. -/
theorem integer_of_isInteger {text : String} (h : isInteger text.toList = true)
    (hfew : FewDigits text) : integer text = .ok (integerValue text.toList) := by
  have hnumeral : ∀ {digits : List Char}, (∀ d ∈ digits, Text.isDecimal d = true) →
      digits.countP Text.isDecimal ≤ Text.maxDigits →
      Text.numeral digits = .ok (Text.decimalValue digits) := by
    intro digits hdigits hle
    rw [List.countP_eq_length.2 hdigits] at hle
    rw [Text.numeral, if_neg (Nat.not_lt.2 hle), if_pos (List.all_eq_true.2 hdigits)]
  rw [FewDigits] at hfew
  rw [integer]
  split
  · rename_i digits htext
    rw [htext] at h hfew ⊢
    have hdigits : digits.countP Text.isDecimal ≤ Text.maxDigits := hfew
    rw [hnumeral (by simpa [isInteger] using (Bool.and_eq_true_iff.1 h).1) hdigits]
    rfl
  · rename_i digits htext
    rw [htext] at h hfew ⊢
    have hdigits : digits.countP Text.isDecimal ≤ Text.maxDigits := hfew
    rw [hnumeral (by simpa [isInteger] using (Bool.and_eq_true_iff.1 h).1) hdigits]
    rfl
  · rename_i hminus hplus
    rw [hnumeral (isDecimal_of_isInteger h hminus hplus) hfew, integerValue.eq_3 _ hminus hplus]
    rfl

/-! ### Words -/

/-- A text is made of words and blanks. An integer is not followed by a digit, and an identifier not
by a character that could belong to it. -/
inductive Splits : List Char → List (TokenKind × String) → Prop
  | nil : Splits [] []
  | blank {c : Char} {cs : List Char} {ws : List (TokenKind × String)}
      (hc : Text.isBlank c = true) (h : Splits cs ws) : Splits (c :: cs) ws
  | leftParen {cs : List Char} {ws : List (TokenKind × String)} (h : Splits cs ws) :
      Splits ('(' :: cs) ((.leftParen, "(") :: ws)
  | rightParen {cs : List Char} {ws : List (TokenKind × String)} (h : Splits cs ws) :
      Splits (')' :: cs) ((.rightParen, ")") :: ws)
  | comma {cs : List Char} {ws : List (TokenKind × String)} (h : Splits cs ws) :
      Splits (',' :: cs) ((.comma, ",") :: ws)
  | number {w cs : List Char} {ws : List (TokenKind × String)} (hw : isInteger w = true)
      (hcs : Text.stopsAt Text.isDecimal cs = true) (h : Splits cs ws) :
      Splits (w ++ cs) ((.number, String.ofList w) :: ws)
  | identifier {w cs : List Char} {ws : List (TokenKind × String)}
      (hw : Text.isIdentifier w = true) (hcs : Text.stopsAt Text.isWordChar cs = true)
      (h : Splits cs ws) : Splits (w ++ cs) ((.identifier, String.ofList w) :: ws)

/-- The parentheses among some words close those that are open in front of them, and balance. -/
def Closes : Nat → List (TokenKind × String) → Prop
  | depth, [] => depth = 0
  | depth, w :: ws =>
    match w.1 with
    | .leftParen => Closes (depth + 1) ws
    | .rightParen => 0 < depth ∧ Closes (depth - 1) ws
    | _ => Closes depth ws

theorem isInteger_takeWhile {c : Char} {cs : List Char} (h : startsNumber (c :: cs) = true) :
    isInteger (c :: cs.takeWhile Text.isDecimal) = true := by
  rw [isInteger, List.all_takeWhile, Bool.true_and]
  cases hc : Text.isDecimal c with
  | true => rfl
  | false =>
    rcases cs with _ | ⟨d, cs⟩
    · simp [startsNumber, hc] at h
    · obtain ⟨hsign, hd⟩ : isSign c = true ∧ Text.isDecimal d = true := by
        simpa [startsNumber, hc] using h
      rw [hsign, List.takeWhile_cons_of_pos hd]
      rfl

/-- What the lexer cuts a text into are its words. -/
theorem splits_of_tokensFrom {position depth : Nat} {cs : List Char} {ts : List Token}
    (h : tokensFrom position depth cs = .ok ts) :
    Splits cs (ts.map Token.word) ∧ Closes depth (ts.map Token.word) := by
  fun_induction tokensFrom position depth cs generalizing ts with
  | case1 =>
    obtain rfl := Except.ok.inj h
    exact ⟨.nil, rfl⟩
  | case2 | case5 | case10 => cases h
  | case3 position depth c cs hblank ih =>
    obtain ⟨hsplits, hcloses⟩ := ih h
    exact ⟨.blank hblank hsplits, hcloses⟩
  | case4 position depth c cs _ hc ih =>
    obtain ⟨ts', hts', rfl⟩ := Bounded.map_eq_ok.1 h
    obtain rfl := eq_of_beq hc
    exact ⟨.leftParen (ih hts').1, (ih hts').2⟩
  | case6 position depth c cs _ _ hc hdepth ih =>
    obtain ⟨ts', hts', rfl⟩ := Bounded.map_eq_ok.1 h
    obtain rfl := eq_of_beq hc
    exact ⟨.rightParen (ih hts').1, Nat.pos_of_ne_zero hdepth, (ih hts').2⟩
  | case7 position depth c cs _ _ _ hc ih =>
    obtain ⟨ts', hts', rfl⟩ := Bounded.map_eq_ok.1 h
    obtain rfl := eq_of_beq hc
    exact ⟨.comma (ih hts').1, (ih hts').2⟩
  | case8 =>
    rename_i cs _ _ _ _ hnumber word ih
    obtain ⟨ts', hts', rfl⟩ := Bounded.map_eq_ok.1 h
    refine ⟨?_, (ih hts').2⟩
    have hsplit := Splits.number (isInteger_takeWhile hnumber)
      (Text.stopsAt_dropWhile Text.isDecimal cs) (ih hts').1
    rwa [List.cons_append, List.takeWhile_append_dropWhile] at hsplit
  | case9 =>
    rename_i cs _ _ _ _ _ hstart word ih
    obtain ⟨ts', hts', rfl⟩ := Bounded.map_eq_ok.1 h
    refine ⟨?_, (ih hts').2⟩
    have hsplit := Splits.identifier (Text.isIdentifier_takeWhile hstart cs)
      (Text.stopsAt_dropWhile Text.isWordChar cs) (ih hts').1
    rwa [List.cons_append, List.takeWhile_append_dropWhile] at hsplit

/-- One token in front of others. -/
private theorem exists_tokensFrom_cons {position position' depth depth' : Nat}
    {cs cs' : List Char} {ws : List (TokenKind × String)} {kind : TokenKind} {text : String}
    (hcs' : tokensFrom position depth cs' =
      (⟨kind, text, position⟩ :: ·) <$> tokensFrom position' depth' cs)
    (h : ∃ ts, tokensFrom position' depth' cs = .ok ts ∧ ts.map Token.word = ws) :
    ∃ ts, tokensFrom position depth cs' = .ok ts ∧ ts.map Token.word = (kind, text) :: ws := by
  obtain ⟨ts, hts, rfl⟩ := h
  exact ⟨⟨kind, text, position⟩ :: ts, by rw [hcs', hts]; rfl, rfl⟩

/-- An integer starts with a sign or a digit. -/
theorem isInteger_cons {c : Char} {w : List Char} (h : isInteger (c :: w) = true) :
    (Text.isBlank c = false ∧ c ≠ '(' ∧ c ≠ ')' ∧ c ≠ ',') ∧ (∀ d ∈ w, Text.isDecimal d = true) ∧
      ∀ cs, startsNumber (c :: (w ++ cs)) = true := by
  rw [isInteger, Bool.and_eq_true, List.all_eq_true, Bool.or_eq_true, Bool.and_eq_true] at h
  obtain ⟨hw, hdecimal | ⟨hsign, hne⟩⟩ := h
  · refine ⟨⟨Text.isBlank_of_isDecimal hdecimal, ?_, ?_, ?_⟩, hw, fun cs => ?_⟩
    · rintro rfl
      cases hdecimal
    · rintro rfl
      cases hdecimal
    · rintro rfl
      cases hdecimal
    · simp [startsNumber, hdecimal]
  · have hc : c = '+' ∨ c = '-' := by simpa [isSign] using hsign
    refine ⟨by rcases hc with rfl | rfl <;> decide, hw, fun cs => ?_⟩
    rcases w with _ | ⟨d, w⟩
    · cases hne
    · simp [startsNumber, hsign, hw d List.mem_cons_self]

/-- The lexer finds the words of a text, if their parentheses balance. -/
theorem Splits.exists_tokensFrom {cs : List Char} {ws : List (TokenKind × String)}
    (h : Splits cs ws) {depth : Nat} (hcloses : Closes depth ws) (position : Nat) :
    ∃ ts, tokensFrom position depth cs = .ok ts ∧ ts.map Token.word = ws := by
  induction h generalizing depth position with
  | nil =>
    obtain rfl : depth = 0 := hcloses
    exact ⟨[], by rw [tokensFrom]; rfl, rfl⟩
  | blank hc _ ih =>
    rw [tokensFrom, if_pos hc]
    exact ih hcloses _
  | leftParen _ ih => exact exists_tokensFrom_cons (by rw [tokensFrom]; rfl) (ih hcloses _)
  | rightParen _ ih =>
    obtain ⟨hdepth, hcloses⟩ := hcloses
    obtain ⟨depth, rfl⟩ := Nat.exists_eq_succ_of_ne_zero (Nat.ne_of_gt hdepth)
    exact exists_tokensFrom_cons (by rw [tokensFrom]; rfl) (ih hcloses _)
  | comma _ ih => exact exists_tokensFrom_cons (by rw [tokensFrom]; rfl) (ih hcloses _)
  | @number w cs ws hw hcs _ ih =>
    obtain _ | ⟨c, w⟩ := w
    · cases hw
    obtain ⟨hc, hdigits, hnumber⟩ := isInteger_cons hw
    obtain ⟨htake, hdrop⟩ := Text.span_append hdigits hcs
    refine exists_tokensFrom_cons ?_ (ih hcloses (position + (c :: w).length))
    rw [List.cons_append, tokensFrom]
    simp [hc, hnumber, htake, hdrop]
  | @identifier w cs ws hw hcs _ ih =>
    obtain _ | ⟨c, w⟩ := w
    · cases hw
    rw [Text.isIdentifier, Bool.and_eq_true, List.all_eq_true] at hw
    obtain ⟨-, -, hleft, hright, hcomma, hblank, hdigit, hsign, -⟩ :=
      Text.isIdentifierStart_facts hw.1
    have hdecimal : Text.isDecimal c = false := by
      rw [Text.isDigit, Bool.or_eq_false_iff] at hdigit
      exact hdigit.1
    have hnumber : startsNumber (c :: (w ++ cs)) = false := by
      simp [startsNumber, hdecimal, hsign]
    obtain ⟨htake, hdrop⟩ := Text.span_append hw.2 hcs
    refine exists_tokensFrom_cons ?_ (ih hcloses (position + (c :: w).length))
    rw [List.cons_append, tokensFrom]
    simp [hblank, hleft, hright, hcomma, hnumber, hw.1, htake, hdrop]

/-- The words of a text are what they are called. -/
theorem Splits.sound {cs : List Char} {ws : List (TokenKind × String)} (h : Splits cs ws) :
    ∀ w ∈ ws, w.1 ≠ .atEnd ∧ (w.1 = .identifier → Text.isIdentifier w.2.toList = true) ∧
      (w.1 = .number → isInteger w.2.toList = true) := by
  induction h with
  | nil => exact List.forall_mem_nil _
  | blank _ _ ih => exact ih
  | leftParen _ ih | rightParen _ ih | comma _ ih =>
    exact List.forall_mem_cons.2 ⟨⟨nofun, nofun, nofun⟩, ih⟩
  | number hw _ _ ih =>
    exact List.forall_mem_cons.2 ⟨⟨nofun, nofun, fun _ => by rwa [String.toList_ofList]⟩, ih⟩
  | identifier hw _ _ ih =>
    exact List.forall_mem_cons.2 ⟨⟨nofun, fun _ => by rwa [String.toList_ofList], nofun⟩, ih⟩

/-- Words are no longer than their text. -/
theorem Splits.length_le {cs : List Char} {ws : List (TokenKind × String)} (h : Splits cs ws) :
    ∀ w ∈ ws, w.2.toList.length ≤ cs.length := by
  have hcons : ∀ {cs' cs : List Char} {w : TokenKind × String} {ws : List (TokenKind × String)},
      w.2.toList.length ≤ cs'.length → cs.length ≤ cs'.length →
      (∀ v ∈ ws, v.2.toList.length ≤ cs.length) →
      ∀ v ∈ w :: ws, v.2.toList.length ≤ cs'.length := by
    intro cs' cs w ws hw hle hws v hv
    rcases List.mem_cons.1 hv with rfl | hv
    · exact hw
    · exact (hws v hv).trans hle
  induction h with
  | nil => exact List.forall_mem_nil _
  | blank _ _ ih => exact fun w hw => (ih w hw).trans (Nat.le_succ _)
  | leftParen _ ih | rightParen _ ih | comma _ ih =>
    exact hcons (Nat.succ_le_succ (Nat.zero_le _)) (Nat.le_succ _) ih
  | number _ _ _ ih | identifier _ _ _ ih =>
    refine hcons ?_ (List.length_append ▸ Nat.le_add_left _ _) ih
    rw [String.toList_ofList, List.length_append]
    exact Nat.le_add_right _ _

/-- The lexer refuses a text at a position. -/
theorem misplaced_of_tokensFrom {position depth : Nat} {cs : List Char} {failure : Failure}
    (h : tokensFrom position depth cs = .error failure) :
    ∃ fault position, failure = .misplaced fault position := by
  have hmap : ∀ {t : Token} {x : Except Failure (List Token)},
      (t :: ·) <$> x = .error failure → x = .error failure := by
    rintro t (failure | ts) hx
    · exact hx
    · cases hx
  fun_induction tokensFrom position depth cs with
  | case1 => cases h
  | case2 | case5 | case10 => exact ⟨_, _, (Except.error.inj h).symm⟩
  | case3 =>
    rename_i ih
    exact ih h
  | case4 | case6 | case7 | case8 | case9 =>
    rename_i ih
    exact ih (hmap h)

/-! ### Parentheses -/

/-- A text is refused for its parentheses. -/
def Fault.IsUnbalanced : Fault → Prop
  | .unbalancedLeft | .unbalancedRight => True
  | _ => False

/-- The parentheses in a text close those that are open in front of it, and balance. -/
def Shuts : Nat → List Char → Prop
  | depth, [] => depth = 0
  | depth, c :: cs =>
    if c = '(' then Shuts (depth + 1) cs
    else if c = ')' then 0 < depth ∧ Shuts (depth - 1) cs
    else Shuts depth cs

section Shuts

variable {depth : Nat} {w cs : List Char}

theorem shuts_leftParen : Shuts depth ('(' :: cs) ↔ Shuts (depth + 1) cs := Iff.rfl

theorem shuts_rightParen : Shuts depth (')' :: cs) ↔ 0 < depth ∧ Shuts (depth - 1) cs := Iff.rfl

/-- A text without parentheses leaves open what is open. -/
theorem shuts_append_iff (hw : ∀ c ∈ w, c ≠ '(' ∧ c ≠ ')') :
    Shuts depth (w ++ cs) ↔ Shuts depth cs := by
  induction w with
  | nil => exact Iff.rfl
  | cons c w ih =>
    obtain ⟨⟨hleft, hright⟩, hw⟩ := List.forall_mem_cons.1 hw
    rw [List.cons_append, Shuts, if_neg hleft, if_neg hright]
    exact ih hw

theorem shuts_cons_iff {c : Char} (hc : c ≠ '(' ∧ c ≠ ')') :
    Shuts depth (c :: cs) ↔ Shuts depth cs :=
  shuts_append_iff (List.forall_mem_singleton.2 hc)

/-- The lexer refuses no text for parentheses that balance. -/
theorem not_isUnbalanced_of_tokensFrom {position position' : Nat} {fault : Fault}
    (hshuts : Shuts depth cs)
    (h : tokensFrom position depth cs = .error (.misplaced fault position')) :
    ¬ fault.IsUnbalanced := by
  have hdecimal : ∀ {c : Char}, Text.isDecimal c = true → c ≠ '(' ∧ c ≠ ')' :=
    fun hc => ⟨Text.ne_of_isDecimal hc (by decide), Text.ne_of_isDecimal hc (by decide)⟩
  fun_induction tokensFrom position depth cs with
  | case1 => cases h
  | case2 _ _ hdepth => exact absurd hshuts hdepth
  | case3 position depth c cs hblank ih =>
    refine ih ((shuts_cons_iff ⟨?_, ?_⟩).1 hshuts) h
    all_goals
      rintro rfl
      cases hblank
  | case4 position depth c cs _ hleft ih =>
    obtain rfl := eq_of_beq hleft
    exact ih (shuts_leftParen.1 hshuts) (Bounded.map_eq_error.1 h)
  | case5 position c cs _ _ hright =>
    obtain rfl := eq_of_beq hright
    exact absurd (shuts_rightParen.1 hshuts).1 (Nat.lt_irrefl 0)
  | case6 position depth c cs _ _ hright hdepth ih =>
    obtain rfl := eq_of_beq hright
    exact ih (shuts_rightParen.1 hshuts).2 (Bounded.map_eq_error.1 h)
  | case7 position depth c cs _ _ _ hcomma ih =>
    obtain rfl := eq_of_beq hcomma
    exact ih ((shuts_cons_iff (by decide)).1 hshuts) (Bounded.map_eq_error.1 h)
  | case8 position depth c cs _ hleft hright _ _ word ih =>
    rw [beq_iff_eq] at hleft hright
    rw [← List.takeWhile_append_dropWhile (p := Text.isDecimal) (l := cs), ← List.cons_append,
      shuts_append_iff (List.forall_mem_cons.2 ⟨⟨hleft, hright⟩, fun d hd =>
        hdecimal (List.all_eq_true.1 List.all_takeWhile d hd)⟩)] at hshuts
    exact ih hshuts (Bounded.map_eq_error.1 h)
  | case9 position depth c cs _ hleft hright _ _ hstart word ih =>
    rw [beq_iff_eq] at hleft hright
    rw [← List.takeWhile_append_dropWhile (p := Text.isWordChar) (l := cs), ← List.cons_append,
      shuts_append_iff (List.forall_mem_cons.2 ⟨⟨hleft, hright⟩, fun d hd =>
        Text.ne_parens_of_isWordChar (List.all_eq_true.1 List.all_takeWhile d hd)⟩)] at hshuts
    exact ih hshuts (Bounded.map_eq_error.1 h)
  | case10 =>
    obtain ⟨rfl, -⟩ := Failure.misplaced.inj (Except.error.inj h)
    exact not_false

end Shuts

end RegisterMachine.Argument
