import RegisterMachine.Proofs.Sections

/-!
# Characters that cannot be read

The lexer of lines looks twice at a character that may start a number or a word: whether it is a
digit or a letter of any sort, and whether numbers or words start with it. The two looks disagree on
ornate digits and on letters outside of ASCII. Inside of a word such a character is read as any
other, but where a number or a word has to start it cannot be read, and the line is refused for it
without a complaint about the text.

A line is refused for a character if and only if there are words and blanks up to this character.
All other lines that are not made of words and blanks are complained about.

* `Assembly.IsUnreadable` — the characters on which the two looks disagree;
* `Assembly.Piece`, `Assembly.Leads` — words and blanks in front of what follows them;
* `Assembly.lineTokensFrom_eq_unreadable_iff` — the lines that are refused for a character;
* `Assembly.UnreadableAt`, `Assembly.tokenLines_eq_unreadable_iff` — the texts.
-/

namespace RegisterMachine.Assembly

/-- A digit or a letter with which neither a number nor a word starts. -/
def IsUnreadable (c : Char) : Prop :=
  (Text.isDigit c || Text.isLetter c) = true ∧ Text.isDecimal c = false ∧
    Text.isIdentifierStart c = false

instance : DecidablePred IsUnreadable := fun _ =>
  inferInstanceAs (Decidable (_ ∧ _ ∧ _))

/-! ### Pieces of a line -/

/-- The lexer takes the text in one step, in front of what follows it: a blank, or a word. -/
inductive Piece (rest : List Char) : List Char → Prop
  | space {c : Char} (hc : isSpace c = true) : Piece rest [c]
  | arrow : Piece rest ['<', '-']
  | notEqual : Piece rest ['!', '=']
  | symbol {c : Char} {kind : TokenKind} (hc : symbolKind? c = some kind) : Piece rest [c]
  | number {w : List Char} (hne : w ≠ []) (hw : ∀ c ∈ w, Text.isDecimal c = true)
      (hrest : Text.stopsAt Text.isDecimal rest = true) : Piece rest w
  | word {w : List Char} (hw : Text.isIdentifier w = true)
      (hrest : Text.stopsAt (fun c => Text.isWordChar c || c == '(') rest = true) : Piece rest w
  | call {f inside : List Char} (hf : f = [] ∨ Text.isIdentifier f = true)
      (hinside : Matched inside) : Piece rest (f ++ '(' :: (inside ++ [')']))

/-- The lexer takes the text step by step, in front of what follows it. -/
inductive Leads (rest : List Char) : List Char → Prop
  | nil : Leads rest []
  | cons {w cs : List Char} (hw : Piece (cs ++ rest) w) (h : Leads rest cs) : Leads rest (w ++ cs)

section Pieces

variable {rest w front : List Char} {line column : Nat} {e : Error}

/-- What the lexer says about a text, it says about the text with a piece in front of it. -/
theorem Piece.lineTokensFrom_eq_error (hw : Piece rest w)
    (h : lineTokensFrom line (column + w.length) rest = .error e) :
    lineTokensFrom line column (w ++ rest) = .error e := by
  cases hw with
  | space hc => exact (lineTokensFrom_space hc).trans h
  | arrow =>
    rw [List.cons_append, List.singleton_append, lineTokensFrom]
    exact Bounded.map_eq_error.2 h
  | notEqual =>
    rw [List.cons_append, List.singleton_append, lineTokensFrom]
    exact Bounded.map_eq_error.2 h
  | symbol hc =>
    rw [List.singleton_append, lineTokensFrom_symbol (symbolKind?_facts hc).2 hc]
    exact Bounded.map_eq_error.2 h
  | number hne hw hrest =>
    rw [lineTokensFrom_digits hne hw hrest]
    exact Bounded.map_eq_error.2 h
  | word hw hrest =>
    rw [lineTokensFrom_word hw hrest]
    exact Bounded.map_eq_error.2 h
  | @call f inside hf hinside =>
    have hsplit : (f ++ '(' :: (inside ++ [')'])) ++ rest =
        f ++ '(' :: (inside ++ ')' :: rest) := by
      simp
    rw [hsplit, lineTokensFrom_parens hf hinside.balanced]
    exact Bounded.map_eq_error.2 h

theorem Leads.lineTokensFrom_eq_error (hfront : Leads rest front)
    (h : lineTokensFrom line (column + front.length) rest = .error e) :
    lineTokensFrom line column (front ++ rest) = .error e := by
  induction hfront generalizing column with
  | nil => exact h
  | @cons w cs hw _ ih =>
    rw [List.append_assoc]
    refine hw.lineTokensFrom_eq_error (ih ?_)
    rwa [List.length_append, ← Nat.add_assoc] at h

end Pieces

/-! ### Lines that are refused for a character -/

/-- No such character separates words or starts something else than a word. -/
theorem IsUnreadable.not_mem_signs {c : Char} (h : IsUnreadable c) : c ∉ signs := by
  have hsigns : ∀ d ∈ signs, (Text.isDigit d || Text.isLetter d) = false := by
    simp only [signs, List.forall_mem_cons, List.not_mem_nil, false_imp_iff, implies_true, and_true]
    decide +kernel
  exact fun hmem => absurd (hsigns c hmem) (by simp [h.1])

theorem isUnreadable_of_isDigit {c : Char} (hdigit : Text.isDigit c = true)
    (hdecimal : ¬ Text.isDecimal c = true) : IsUnreadable c := by
  refine ⟨by rw [hdigit, Bool.true_or], Bool.eq_false_of_not_eq_true hdecimal, ?_⟩
  cases hstart : Text.isIdentifierStart c with
  | false => rfl
  | true =>
    obtain ⟨-, -, -, -, -, -, hdigit', -⟩ := Text.isIdentifierStart_facts hstart
    exact hdigit.symm.trans hdigit'

theorem isUnreadable_of_isLetter {c : Char} (hdigit : ¬ Text.isDigit c = true)
    (hletter : (Text.isLetter c || c == '_') = true) (hstart : ¬ Text.isIdentifierStart c = true) :
    IsUnreadable c := by
  rw [Text.isDigit, Bool.or_eq_true, not_or] at hdigit
  rw [Text.isIdentifierStart, Bool.or_eq_true, not_or] at hstart
  rw [Bool.or_eq_true] at hletter
  refine ⟨?_, Bool.eq_false_of_not_eq_true hdigit.1, ?_⟩
  · rw [hletter.resolve_right hstart.2, Bool.or_true]
  · rw [Text.isIdentifierStart, Bool.or_eq_false_iff]
    exact ⟨Bool.eq_false_of_not_eq_true hstart.1, Bool.eq_false_of_not_eq_true hstart.2⟩

theorem lineTokensFrom_unreadable {c : Char} (hc : IsUnreadable c) (line column : Nat)
    (rest : List Char) :
    lineTokensFrom line column (c :: rest) = .error (.unreadable c line column) := by
  obtain ⟨hless, hbang, hleft, hright, hspace, hsymbol⟩ := facts_of_not_mem_signs hc.not_mem_signs
  obtain ⟨hclass, hdecimal, hstart⟩ := hc
  rw [lineTokensFrom]
  · cases hdigit : Text.isDigit c with
    | true => simp [hspace, hsymbol, hleft, hright, hdecimal]
    | false =>
      rw [hdigit, Bool.false_or] at hclass
      simp [hspace, hsymbol, hleft, hright, hclass, hstart]
  · exact fun _ he => absurd he hless
  · exact fun _ he => absurd he hbang

/-- A line is complained about, or it is refused for a character that words and blanks lead to. -/
def Refuses (line column : Nat) (cs : List Char) (e : Error) : Prop :=
  (∃ fault column', e = .assembly fault line column') ∨
    ∃ front c rest, cs = front ++ c :: rest ∧ Leads (c :: rest) front ∧ IsUnreadable c ∧
      e = .unreadable c line (column + front.length)

section Refuses

variable {line column : Nat} {cs : List Char} {e : Error}

theorem refuses_complaint (fault : Fault) (column' : Nat) :
    Refuses line column cs (.assembly fault line column') :=
  .inl ⟨fault, column', rfl⟩

theorem refuses_unreadable {c : Char} (hc : IsUnreadable c) :
    Refuses line column (c :: cs) (.unreadable c line column) :=
  .inr ⟨[], c, cs, rfl, .nil, hc, rfl⟩

theorem Refuses.piece {rest w : List Char} (h : Refuses line (column + w.length) rest e)
    (hw : Piece rest w) : Refuses line column (w ++ rest) e := by
  rcases h with hcomplaint | ⟨front, c, rest, rfl, hleads, hc, rfl⟩
  · exact .inl hcomplaint
  · refine .inr ⟨w ++ front, c, rest, (List.append_assoc ..).symm, .cons hw hleads, hc, ?_⟩
    rw [List.length_append, Nat.add_assoc]

/-- The lexer refuses a line in no other way. -/
theorem refuses_of_lineTokensFrom (h : lineTokensFrom line column cs = .error e) :
    Refuses line column cs e := by
  -- Wherever the lexer takes a piece, it fails as it does behind the piece. The other branches are
  -- four complaints and the two looks at a character, at a digit and at a letter.
  fun_induction lineTokensFrom line column cs with
  | case1 => cases h
  | case2 column cs ih => exact (ih (Bounded.map_eq_error.1 h)).piece .arrow
  | case3 column cs ih => exact (ih (Bounded.map_eq_error.1 h)).piece .notEqual
  | case4 =>
    rename_i hspace ih
    exact (ih h).piece (.space hspace)
  | case5 =>
    rename_i hsymbol ih
    exact (ih (Bounded.map_eq_error.1 h)).piece (.symbol hsymbol)
  | case7 | case8 | case12 | case15 =>
    obtain rfl := Except.error.inj h
    exact refuses_complaint _ _
  | case6 =>
    rename_i hleft inside rest hclose text ih
    obtain ⟨matched, behind, hmatched, rfl, rfl, rfl⟩ := ends_of_closeCall hclose
    obtain rfl := eq_of_beq hleft
    have hsplit : '(' :: (matched ++ ')' :: rest) = ([] ++ '(' :: (matched ++ [')'])) ++ rest := by
      simp
    rw [hsplit]
    exact (ih (Bounded.map_eq_error.1 h)).piece (.call (.inl rfl) hmatched)
  | case9 =>
    rename_i hdecimal word ih
    have hrefuses := (ih (Bounded.map_eq_error.1 h)).piece (.number (List.cons_ne_nil _ _)
      (List.forall_mem_cons.2 ⟨hdecimal, List.all_eq_true.1 List.all_takeWhile⟩)
      (Text.stopsAt_dropWhile Text.isDecimal _))
    rwa [List.cons_append, List.takeWhile_append_dropWhile] at hrefuses
  | case10 =>
    rename_i hdigit hdecimal
    obtain rfl := Except.error.inj h
    exact refuses_unreadable (isUnreadable_of_isDigit hdigit hdecimal)
  | case11 =>
    rename_i c cs _ _ _ _ _ _ _ _ hstart word rest hword inside rest' hclose text ih
    obtain ⟨matched, behind, hmatched, rfl, rfl, rfl⟩ := ends_of_closeCall hclose
    have hsplit : c :: cs = (word ++ '(' :: (matched ++ [')'])) ++ rest' := by
      have hcs : word ++ cs.dropWhile Text.isWordChar = c :: cs :=
        congrArg (c :: ·) List.takeWhile_append_dropWhile
      rw [← hcs, hword]
      simp
    rw [hsplit]
    exact (ih (Bounded.map_eq_error.1 h)).piece
      (.call (.inr (Text.isIdentifier_takeWhile hstart cs)) hmatched)
  | case13 =>
    rename_i cs _ _ _ _ _ _ _ _ hstart word hcall ih
    have hrefuses := (ih (Bounded.map_eq_error.1 h)).piece
      (.word (Text.isIdentifier_takeWhile hstart cs) (stopsAt_of_not_call hcall))
    rwa [List.cons_append, List.takeWhile_append_dropWhile] at hrefuses
  | case14 =>
    rename_i hdigit hletter hstart
    obtain rfl := Except.error.inj h
    exact refuses_unreadable (isUnreadable_of_isLetter hdigit hletter hstart)

/-- A line is refused for a character if and only if words and blanks lead to it. -/
theorem lineTokensFrom_eq_unreadable_iff {c : Char} {line' column' : Nat} :
    lineTokensFrom line column cs = .error (.unreadable c line' column') ↔
      ∃ front rest, cs = front ++ c :: rest ∧ Leads (c :: rest) front ∧ IsUnreadable c ∧
        line' = line ∧ column' = column + front.length := by
  constructor
  · intro h
    rcases refuses_of_lineTokensFrom h with ⟨_, _, hcomplaint⟩ |
      ⟨front, c, rest, rfl, hleads, hc, he⟩
    · cases hcomplaint
    · cases he
      exact ⟨front, rest, rfl, hleads, hc, rfl, rfl⟩
  · rintro ⟨front, rest, rfl, hleads, hc, rfl, rfl⟩
    exact hleads.lineTokensFrom_eq_error (lineTokensFrom_unreadable hc _ _ _)

end Refuses

/-! ### Texts -/

/-- Words and blanks lead to the character on a line of the text, and the lines above are made of
words and blanks. -/
def UnreadableAt (source : String) (c : Char) (line column : Nat) : Prop :=
  ∃ above cs below front rest, splitLines source.toList = above ++ cs :: below ∧
    (∀ cs' ∈ above, ∃ ws, Splits (stripComment cs') ws) ∧ stripComment cs = front ++ c :: rest ∧
    Leads (c :: rest) front ∧ IsUnreadable c ∧ line = above.length + 1 ∧ column = front.length

section Texts

variable {source : String} {e : Error}

theorem exists_ofChars_eq_ok_iff {number : Nat} {cs : List Char} :
    (∃ t, TokenLine.ofChars number cs = .ok t) ↔ ∃ ws, Splits (stripComment cs) ws := by
  constructor
  · rintro ⟨t, ht⟩
    obtain ⟨ts, hts, -⟩ := Bounded.bind_eq_ok.1 ht
    exact ⟨_, splits_of_lineTokensFrom hts⟩
  · rintro ⟨ws, hws⟩
    obtain ⟨ts, hts, -⟩ := hws.lexes number 0
    exact ⟨_, Bounded.bind_eq_ok.2 ⟨ts, hts, rfl⟩⟩

/-- A text is refused on the first line that is not made of words and blanks. -/
theorem tokenLines_eq_error_iff :
    tokenLines source = .error e ↔
      ∃ above cs below, splitLines source.toList = above ++ cs :: below ∧
        (∀ cs' ∈ above, ∃ ws, Splits (stripComment cs') ws) ∧
        lineTokensFrom (above.length + 1) 0 (stripComment cs) = .error e := by
  have hline : ∀ {number : Nat} {cs : List Char}, TokenLine.ofChars number cs = .error e ↔
      lineTokensFrom number 0 (stripComment cs) = .error e := Bounded.bind_pure_eq_error
  rw [tokenLines, Bounded.mapM_eq_error_iff]
  constructor
  · rintro ⟨front, ⟨cs, number⟩, rest, happend, hfront, herror⟩
    obtain ⟨above, below, hlines, rfl, hrest⟩ := List.zipIdx_eq_append_iff.1 happend
    obtain ⟨_, below, rfl, hcs, rfl⟩ := List.zipIdx_eq_cons_iff.1 hrest.symm
    obtain ⟨rfl, rfl⟩ := Prod.mk.inj hcs
    refine ⟨above, cs, below, hlines, fun cs' hcs' => ?_, ?_⟩
    · rw [← List.zipIdx_map_fst 1 above] at hcs'
      obtain ⟨_, hmem, rfl⟩ := List.mem_map.1 hcs'
      exact exists_ofChars_eq_ok_iff.1 (hfront _ hmem)
    · rw [Nat.add_comm]
      exact hline.1 herror
  · rintro ⟨above, cs, below, hlines, habove, herror⟩
    refine ⟨above.zipIdx 1, (cs, 1 + above.length), below.zipIdx (1 + above.length + 1), ?_, ?_, ?_⟩
    · rw [hlines, List.zipIdx_append, List.zipIdx_cons]
    · rintro ⟨cs', number⟩ hmem
      exact exists_ofChars_eq_ok_iff.2 (habove cs' (List.fst_mem_of_mem_zipIdx hmem))
    · rw [Nat.add_comm] at herror
      exact hline.2 herror

/-- A text is refused for a character if and only if it is the first that cannot be read. -/
theorem tokenLines_eq_unreadable_iff {c : Char} {line column : Nat} :
    tokenLines source = .error (.unreadable c line column) ↔ UnreadableAt source c line column := by
  rw [tokenLines_eq_error_iff, UnreadableAt]
  simp only [lineTokensFrom_eq_unreadable_iff, Nat.zero_add]
  constructor
  · rintro ⟨above, cs, below, hlines, habove, front, rest, hcs, hleads, hc, hline, hcolumn⟩
    exact ⟨above, cs, below, front, rest, hlines, habove, hcs, hleads, hc, hline, hcolumn⟩
  · rintro ⟨above, cs, below, front, rest, hlines, habove, hcs, hleads, hc, hline, hcolumn⟩
    exact ⟨above, cs, below, hlines, habove, front, rest, hcs, hleads, hc, hline, hcolumn⟩

/-- The lexer refuses a text for a character, or it complains about it. -/
theorem refuses_of_tokenLines (h : tokenLines source = .error e) :
    (∃ fault line column, e = .assembly fault line column) ∨
      ∃ c line column, e = .unreadable c line column := by
  obtain ⟨above, cs, below, -, -, herror⟩ := tokenLines_eq_error_iff.1 h
  rcases refuses_of_lineTokensFrom herror with ⟨fault, column, rfl⟩ | ⟨front, c, rest, -, -, -, rfl⟩
  · exact .inl ⟨fault, _, column, rfl⟩
  · exact .inr ⟨c, _, _, rfl⟩

end Texts

end RegisterMachine.Assembly
