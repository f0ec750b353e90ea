import RegisterMachine.Proofs.LineText

/-!
# The words of a line

A line of assembly text is made of signs, numbers, words and calls, with blanks between them. A
number and a word are as long as they can be, and a call goes up to the parenthesis that matches its
first one. The lexer cuts a line into these, and refuses a line that is not made of them.

* `Assembly.Matched` — text whose parentheses match;
* `Assembly.Splits` — a line is made of some words;
* `Assembly.Splits.lexes`, `Assembly.splits_of_lineTokensFrom` — the lexer finds them;
* `Assembly.Splits.unique`, `Assembly.Splits.sound` — there is one way to split a line.
-/

namespace RegisterMachine.Assembly

variable {cs : List Char} {ws : List (TokenKind × String)}

/-! ### Parentheses -/

/-- Text in which all parentheses match. -/
inductive Matched : List Char → Prop
  | nil : Matched []
  | char {c : Char} {cs : List Char} (hc : c ≠ '(' ∧ c ≠ ')') (h : Matched cs) : Matched (c :: cs)
  | parens {inside cs : List Char} (hinside : Matched inside) (h : Matched cs) :
      Matched ('(' :: (inside ++ ')' :: cs))

theorem Matched.append {cs' : List Char} (h : Matched cs) (h' : Matched cs') :
    Matched (cs ++ cs') := by
  induction h with
  | nil => exact h'
  | char hc _ ih => exact .char hc ih
  | parens hinside _ _ ih =>
    rw [List.cons_append, List.append_assoc]
    exact .parens hinside ih

/-- The search for the end of a call passes over text in which parentheses match. -/
theorem Matched.balanced (h : Matched cs) : Balanced cs := by
  induction h with
  | nil => exact balanced_nil
  | char hc _ ih =>
    exact (balanced_of_forall (List.forall_mem_singleton.2 hc)).append ih
  | parens _ _ hinside ih =>
    have happend := hinside.parens.append ih
    rwa [List.cons_append, List.append_assoc] at happend

/-- Parentheses match up to the one that ends the innermost call, and the search goes on behind it
if that call is inside of others. -/
def Ends (depth : Nat) (cs inside rest : List Char) : Prop :=
  ∃ matched behind, Matched matched ∧ cs = matched ++ ')' :: behind ∧
    match depth with
    | 0 => inside = matched ++ [')'] ∧ rest = behind
    | d + 1 => ∃ inside', closeCall (d + 1) behind = some (inside', rest) ∧
        inside = matched ++ ')' :: inside'

theorem Ends.append {depth : Nat} {inside rest cs' : List Char} (hcs : Matched cs)
    (h : Ends depth cs' inside rest) : Ends depth (cs ++ cs') (cs ++ inside) rest := by
  obtain ⟨matched, behind, hmatched, rfl, hends⟩ := h
  refine ⟨cs ++ matched, behind, hcs.append hmatched, (List.append_assoc ..).symm, ?_⟩
  cases depth with
  | zero =>
    obtain ⟨rfl, rfl⟩ := hends
    exact ⟨(List.append_assoc ..).symm, rfl⟩
  | succ d =>
    obtain ⟨inside', hclose, rfl⟩ := hends
    exact ⟨inside', hclose, (List.append_assoc ..).symm⟩

/-- The search for the end of a call finds the parenthesis that matches. -/
theorem ends_of_closeCall {depth : Nat} {inside rest : List Char}
    (h : closeCall (depth + 1) cs = some (inside, rest)) : Ends depth cs inside rest := by
  -- The search starts anew behind each inner call, so the induction is on the length.
  induction hn : cs.length using Nat.strong_induction_on generalizing cs depth inside with
  | _ n ih =>
  subst hn
  obtain _ | ⟨c, cs⟩ := cs
  · cases h
  rw [closeCall] at h
  by_cases hright : c = ')'
  · subst hright
    refine ⟨[], cs, .nil, rfl, ?_⟩
    cases depth with
    | zero =>
      obtain ⟨rfl, rfl⟩ := Prod.mk.inj (Option.some.inj h)
      exact ⟨rfl, rfl⟩
    | succ d =>
      obtain ⟨⟨inside', rest'⟩, hclose, hinside⟩ := Option.map_eq_some_iff.1 h
      obtain ⟨rfl, rfl⟩ := Prod.mk.inj hinside
      exact ⟨inside', hclose, rfl⟩
  · rw [if_neg (by simp [hright])] at h
    obtain ⟨⟨inside', rest'⟩, hclose, hinside⟩ := Option.map_eq_some_iff.1 h
    obtain ⟨rfl, rfl⟩ := Prod.mk.inj hinside
    by_cases hleft : c = '('
    · subst hleft
      have hends : Ends (depth + 1) cs inside' rest' :=
        ih cs.length (Nat.lt_succ_self _) hclose rfl
      obtain ⟨inner, behind, hinner, rfl, inside'', hclose', rfl⟩ := hends
      have hbehind : Ends depth behind inside'' rest' := by
        refine ih behind.length ?_ hclose' rfl
        simp only [List.length_cons, List.length_append]
        omega
      have hcall := hbehind.append (.parens hinner .nil)
      simpa using hcall
    · rw [if_neg (by simpa using hleft), if_neg (by simpa using hright)] at hclose
      exact (ih cs.length (Nat.lt_succ_self _) hclose rfl).append (.char ⟨hleft, hright⟩ .nil)

/-! ### Words -/

/-- A line is made of words and blanks. A number is not followed by a digit, and a word neither by a
character that could belong to it nor by a parenthesis, which would make a call of it. -/
inductive Splits : List Char → List (TokenKind × String) → Prop
  | nil : Splits [] []
  | space {c : Char} {cs : List Char} {ws : List (TokenKind × String)} (hc : isSpace c = true)
      (h : Splits cs ws) : Splits (c :: cs) ws
  | arrow {cs : List Char} {ws : List (TokenKind × String)} (h : Splits cs ws) :
      Splits ('<' :: '-' :: cs) ((.arrow, "<-") :: ws)
  | notEqual {cs : List Char} {ws : List (TokenKind × String)} (h : Splits cs ws) :
      Splits ('!' :: '=' :: cs) ((.notEqual, "!=") :: ws)
  | symbol {c : Char} {kind : TokenKind} {cs : List Char} {ws : List (TokenKind × String)}
      (hc : symbolKind? c = some kind) (h : Splits cs ws) :
      Splits (c :: cs) ((kind, String.singleton c) :: ws)
  | number {w cs : List Char} {ws : List (TokenKind × String)} (hne : w ≠ [])
      (hw : ∀ c ∈ w, Text.isDecimal c = true) (hcs : Text.stopsAt Text.isDecimal cs = true)
      (h : Splits cs ws) : Splits (w ++ cs) ((.number, String.ofList w) :: ws)
  | word {w cs : List Char} {ws : List (TokenKind × String)} (hw : Text.isIdentifier w = true)
      (hcs : Text.stopsAt (fun c => Text.isWordChar c || c == '(') cs = true) (h : Splits cs ws) :
      Splits (w ++ cs) ((wordKind w, String.ofList w) :: ws)
  | call {f inside cs : List Char} {ws : List (TokenKind × String)}
      (hf : f = [] ∨ Text.isIdentifier f = true) (hinside : Matched inside) (h : Splits cs ws) :
      Splits (f ++ '(' :: (inside ++ ')' :: cs))
        ((.call, String.ofList (f ++ '(' :: (inside ++ [')']))) :: ws)

/-- The lexer finds the words of a line. -/
theorem Splits.lexes (h : Splits cs ws) : Lexes cs ws := by
  induction h with
  | nil => exact lexes_nil
  | space hc _ ih => exact ih.space hc
  | arrow _ ih => exact ih.arrow
  | notEqual _ ih => exact ih.notEqual
  | symbol hc _ ih => exact ih.symbol (symbolKind?_facts hc).2 hc
  | number hne hw hcs _ ih => exact ih.digits hne hw hcs
  | word hw hcs _ ih => exact ih.word hw hcs
  | call hf hinside _ ih => exact ih.parens hf hinside.balanced

/-- Behind a word that is not the function of a call, no word goes on. -/
theorem stopsAt_of_not_call (h : ∀ rest, cs.dropWhile Text.isWordChar = '(' :: rest → False) :
    Text.stopsAt (fun c => Text.isWordChar c || c == '(') (cs.dropWhile Text.isWordChar) =
      true := by
  have hstops := Text.stopsAt_dropWhile Text.isWordChar cs
  cases hrest : cs.dropWhile Text.isWordChar with
  | nil => rfl
  | cons d rest =>
    rw [hrest] at hstops
    rw [Text.stopsAt, Bool.not_eq_true'] at hstops ⊢
    rw [hstops, Bool.false_or, beq_eq_false_iff_ne]
    rintro rfl
    exact h rest hrest

/-- What the lexer cuts a line into are its words. -/
theorem splits_of_lineTokensFrom {line column : Nat} {ts : List Token}
    (h : lineTokensFrom line column cs = .ok ts) : Splits cs (ts.map Token.word) := by
  fun_induction lineTokensFrom line column cs generalizing ts with
  | case1 =>
    obtain rfl := Except.ok.inj h
    exact .nil
  | case7 | case8 | case10 | case12 | case14 | case15 => cases h
  | case2 column cs ih =>
    obtain ⟨ts', hts', rfl⟩ := Bounded.map_eq_ok.1 h
    exact .arrow (ih hts')
  | case3 column cs ih =>
    obtain ⟨ts', hts', rfl⟩ := Bounded.map_eq_ok.1 h
    exact .notEqual (ih hts')
  | case4 =>
    rename_i hspace ih
    exact .space hspace (ih h)
  | case5 =>
    rename_i hsymbol ih
    obtain ⟨ts', hts', rfl⟩ := Bounded.map_eq_ok.1 h
    exact .symbol hsymbol (ih hts')
  | case6 =>
    rename_i hleft inside rest hclose text ih
    obtain ⟨ts', hts', rfl⟩ := Bounded.map_eq_ok.1 h
    obtain ⟨matched, behind, hmatched, rfl, rfl, rfl⟩ := ends_of_closeCall hclose
    obtain rfl := eq_of_beq hleft
    exact .call (.inl rfl) hmatched (ih hts')
  | case9 =>
    rename_i hdecimal word ih
    obtain ⟨ts', hts', rfl⟩ := Bounded.map_eq_ok.1 h
    have hsplit := Splits.number (w := word) (List.cons_ne_nil _ _)
      (List.forall_mem_cons.2 ⟨hdecimal, List.all_eq_true.1 List.all_takeWhile⟩)
      (Text.stopsAt_dropWhile Text.isDecimal _) (ih hts')
    rwa [List.cons_append, List.takeWhile_append_dropWhile] at hsplit
  | case11 =>
    rename_i cs _ _ _ _ _ _ _ _ hstart word rest hword inside rest' hclose text ih
    obtain ⟨ts', hts', rfl⟩ := Bounded.map_eq_ok.1 h
    obtain ⟨matched, behind, hmatched, rfl, rfl, rfl⟩ := ends_of_closeCall hclose
    have hsplit := Splits.call (.inr (Text.isIdentifier_takeWhile hstart cs)) hmatched (ih hts')
    rwa [List.cons_append, ← hword, List.takeWhile_append_dropWhile] at hsplit
  | case13 =>
    rename_i cs _ _ _ _ _ _ _ _ hstart word hcall ih
    obtain ⟨ts', hts', rfl⟩ := Bounded.map_eq_ok.1 h
    have hsplit := Splits.word (Text.isIdentifier_takeWhile hstart cs) (stopsAt_of_not_call hcall)
      (ih hts')
    rwa [List.cons_append, List.takeWhile_append_dropWhile] at hsplit

/-- A line is made of words in one way only. -/
theorem Splits.unique {ws' : List (TokenKind × String)} (h : Splits cs ws) (h' : Splits cs ws') :
    ws = ws' := by
  obtain ⟨ts, hts, rfl⟩ := h.lexes 0 0
  obtain ⟨ts', hts', rfl⟩ := h'.lexes 0 0
  rw [Except.ok.inj (hts.symm.trans hts')]

/-- What a word is called says what it is: no end of a line or of the text, digits if it is called a
number, and a word that is no keyword if it is called an identifier. -/
structure Sound (w : TokenKind × String) : Prop where
  inLine : w.1 ≠ .lineEnd
  inText : w.1 ≠ .atEnd
  number : w.1 = .number → ∀ c ∈ w.2.toList, Text.isDecimal c = true
  identifier : w.1 = .identifier →
    Text.isIdentifier w.2.toList = true ∧ wordKind w.2.toList = .identifier

theorem kind_facts {kind : TokenKind}
    (h : (∃ c, symbolKind? c = some kind) ∨ ∃ w, wordKind w = kind) :
    kind ≠ .lineEnd ∧ kind ≠ .atEnd ∧ kind ≠ .number ∧ kind ≠ .call := by
  rcases h with ⟨c, hc⟩ | ⟨w, rfl⟩
  · unfold symbolKind? at hc
    split at hc <;> cases hc <;> decide
  · unfold wordKind
    split <;> decide

theorem symbolKind?_ne_identifier (c : Char) : symbolKind? c ≠ some .identifier := by
  unfold symbolKind?
  split <;> exact nofun

/-- All words of a line are what they are called. -/
theorem Splits.sound (h : Splits cs ws) : ∀ w ∈ ws, Sound w := by
  induction h with
  | nil => exact List.forall_mem_nil _
  | space _ _ ih => exact ih
  | arrow _ ih | notEqual _ ih | call _ _ _ ih =>
    exact List.forall_mem_cons.2 ⟨⟨nofun, nofun, nofun, nofun⟩, ih⟩
  | @symbol c _ _ _ hc _ ih =>
    obtain ⟨hline, hend, hnumber, -⟩ := kind_facts (.inl ⟨_, hc⟩)
    refine List.forall_mem_cons.2 ⟨⟨hline, hend, fun h => absurd h hnumber, fun h => ?_⟩, ih⟩
    exact absurd (hc.trans (congrArg some h)) (symbolKind?_ne_identifier c)
  | number _ hw _ _ ih =>
    refine List.forall_mem_cons.2 ⟨⟨nofun, nofun, fun _ => ?_, nofun⟩, ih⟩
    rwa [String.toList_ofList]
  | @word w _ _ hw _ _ ih =>
    obtain ⟨hline, hend, hnumber, -⟩ := kind_facts (.inr ⟨w, rfl⟩)
    refine List.forall_mem_cons.2 ⟨⟨hline, hend, fun h => absurd h hnumber, fun h => ?_⟩, ih⟩
    rw [String.toList_ofList]
    exact ⟨hw, h⟩

/-- A line that is made of words does not end in a slash. -/
theorem Splits.getLast?_ne (h : Splits cs ws) : cs.getLast? ≠ some '/' := by
  have happend : ∀ {piece rest : List Char}, piece.getLast? ≠ some '/' →
      rest.getLast? ≠ some '/' → (piece ++ rest).getLast? ≠ some '/' := by
    intro piece rest hpiece hrest
    rw [List.getLast?_append]
    intro hlast
    rcases Option.or_eq_some_iff.1 hlast with hlast | ⟨-, hlast⟩
    · exact hrest hlast
    · exact hpiece hlast
  have hword : ∀ {w : List Char}, (∀ c ∈ w, c ≠ '/') → w.getLast? ≠ some '/' :=
    fun hw hlast => hw _ (List.mem_of_getLast? hlast) rfl
  induction h with
  | nil => nofun
  | @space c _ _ hc _ ih =>
    have hne : [c].getLast? ≠ some '/' := by
      rintro ⟨⟩
      cases hc
    exact happend hne ih
  | arrow _ ih =>
    have harrow : ['<', '-'].getLast? ≠ some '/' := by decide
    exact happend harrow ih
  | notEqual _ ih =>
    have hsign : ['!', '='].getLast? ≠ some '/' := by decide
    exact happend hsign ih
  | @symbol c _ _ _ hc _ ih =>
    have hne : [c].getLast? ≠ some '/' := by
      rintro ⟨⟩
      cases hc
    exact happend hne ih
  | number _ hw _ _ ih =>
    exact happend (hword fun c hc => Text.ne_of_isDecimal (hw c hc) (by decide)) ih
  | word hw _ _ ih =>
    refine happend (hword fun c hc => ?_) ih
    exact Text.ne_of_isWordChar (Text.isWordChar_of_mem_identifier hw hc) (by decide +kernel)
  | @call f inside cs _ _ _ _ ih =>
    have hsplit : f ++ '(' :: (inside ++ ')' :: cs) = ((f ++ '(' :: inside) ++ [')']) ++ cs := by
      simp
    have hlast : ((f ++ '(' :: inside) ++ [')']).getLast? ≠ some '/' := by
      rw [List.getLast?_concat]
      decide
    rw [hsplit]
    exact happend hlast ih

end RegisterMachine.Assembly
