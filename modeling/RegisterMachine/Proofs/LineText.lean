import RegisterMachine.Instruction.Text
import RegisterMachine.Proofs.ArgumentText

/-!
# The tokens of printed lines

A statement is printed as tokens with one blank between any two of them. None of its words runs into
the next one, since a blank ends a word, and the parentheses of a printed call match. So the lexer
takes a printed line apart into the tokens that it was made of.

* `Assembly.Lexes` — from characters to tokens, whatever the column;
* `Assembly.Stands` — the tokens that stand for themselves in a text;
* `Operation.words`, `Instruction.words` — the tokens of statements and lines;
* `Assembly.prints_line`, `Assembly.prints_header` — printed lines are cut into them.
-/

namespace RegisterMachine

namespace Assembly

/-- A token without its column. -/
def Token.word (t : Token) : TokenKind × String :=
  (t.kind, t.text)

/-- Wherever in a line the text stands, it is cut into the tokens. -/
def Lexes (cs : List Char) (ws : List (TokenKind × String)) : Prop :=
  ∀ line column, ∃ ts, lineTokensFrom line column cs = .ok ts ∧ ts.map Token.word = ws

/-! ### One step of the lexer -/

section Steps

variable {rest : List Char} {line column : Nat}

/-- A blank is no part of a token, and moves the column. -/
theorem lineTokensFrom_space {c : Char} (hc : isSpace c = true) :
    lineTokensFrom line column (c :: rest) = lineTokensFrom line (column + 1) rest := by
  rw [lineTokensFrom]
  · rw [if_pos hc]
  · rintro cs rfl
    cases hc
  · rintro cs rfl
    cases hc

/-- A symbol of one character is a token by itself. The characters that may begin a longer symbol
are left out here. -/
theorem lineTokensFrom_symbol {c : Char} {kind : TokenKind}
    (hc : c ≠ '<' ∧ c ≠ '!' ∧ isSpace c = false) (hkind : symbolKind? c = some kind) :
    lineTokensFrom line column (c :: rest) =
      (⟨kind, String.singleton c, column⟩ :: ·) <$> lineTokensFrom line (column + 1) rest := by
  obtain ⟨hless, hbang, hspace⟩ := hc
  rw [lineTokensFrom]
  · simp [hspace, hkind]
  · exact fun _ he => absurd he hless
  · exact fun _ he => absurd he hbang

/-- A word is taken whole, if it is not the function of a call. Behind it there must be neither a
character that would belong to it nor a parenthesis. -/
theorem lineTokensFrom_word {w : List Char} (hw : Text.isIdentifier w = true)
    (hrest : Text.stopsAt (fun c => Text.isWordChar c || c == '(') rest = true) :
    lineTokensFrom line column (w ++ rest) =
      (⟨wordKind w, String.ofList w, column⟩ :: ·) <$>
        lineTokensFrom line (column + w.length) rest := by
  obtain _ | ⟨c, w⟩ := w
  · cases hw
  rw [Text.isIdentifier, Bool.and_eq_true, List.all_eq_true] at hw
  obtain ⟨hless, hbang, hleft, hright, -, -, hdigit, -, hspace, hsymbol⟩ :=
    Text.isIdentifierStart_facts hw.1
  have hstops : Text.stopsAt Text.isWordChar rest = true ∧ ∀ cs, rest ≠ '(' :: cs := by
    cases rest with
    | nil =>
      refine ⟨rfl, ?_⟩
      rintro cs ⟨⟩
    | cons d rest =>
      rw [Text.stopsAt, Bool.not_eq_true', Bool.or_eq_false_iff] at hrest
      rw [Text.stopsAt, hrest.1]
      refine ⟨rfl, ?_⟩
      rintro cs ⟨⟩
      cases hrest.2
  obtain ⟨htake, hdrop⟩ := Text.span_append hw.2 hstops.1
  rw [List.cons_append, lineTokensFrom]
  · simp only [hspace, hsymbol, hdigit, hw.1, Text.isLetter_of_isIdentifierStart hw.1, htake,
      beq_iff_eq, hleft, hright, Bool.false_eq_true, if_false, if_true]
    split
    · rename_i hcall
      exact absurd (hdrop.symm.trans hcall) (hstops.2 _)
    · rw [hdrop]
  · exact fun _ he => absurd he hless
  · exact fun _ he => absurd he hbang

/-- Digits are taken together, up to the first character that is no digit. -/
theorem lineTokensFrom_digits {w : List Char} (hne : w ≠ [])
    (hw : ∀ c ∈ w, Text.isDecimal c = true) (hrest : Text.stopsAt Text.isDecimal rest = true) :
    lineTokensFrom line column (w ++ rest) =
      (⟨.number, String.ofList w, column⟩ :: ·) <$>
        lineTokensFrom line (column + w.length) rest := by
  obtain _ | ⟨c, w⟩ := w
  · exact absurd rfl hne
  rw [List.forall_mem_cons] at hw
  obtain ⟨hless, hbang, hleft, hright, hspace, hsymbol, hdigit⟩ := Text.isDecimal_facts hw.1
  obtain ⟨htake, hdrop⟩ := Text.span_append hw.2 hrest
  rw [List.cons_append, lineTokensFrom]
  · simp [hspace, hsymbol, hleft, hright, hdigit, hw.1, htake, hdrop]
  · exact fun _ he => absurd he hless
  · exact fun _ he => absurd he hbang

end Steps

section Lexes

variable {rest : List Char} {ws : List (TokenKind × String)}

/-- At the end of a line there are no more tokens. -/
theorem lexes_nil : Lexes [] [] := fun line column => ⟨[], by rw [lineTokensFrom], rfl⟩

/-- White space in front of a text changes nothing but the columns. -/
theorem Lexes.space (h : Lexes rest ws) {c : Char} (hc : isSpace c = true) :
    Lexes (c :: rest) ws := by
  intro line column
  obtain ⟨ts, hts, rfl⟩ := h line (column + 1)
  exact ⟨ts, by rw [lineTokensFrom_space hc, hts], rfl⟩

theorem Lexes.blank (h : Lexes rest ws) : Lexes (' ' :: rest) ws :=
  h.space rfl

/-- One token in front of others: if the lexer takes it from the text and goes on with the rest, in
whatever column, the tokens of the text are this one and those of the rest. -/
theorem Lexes.cons (h : Lexes rest ws) {kind : TokenKind} {text : String} {cs : List Char}
    (hcs : ∀ line column, ∃ column', lineTokensFrom line column cs =
      (⟨kind, text, column⟩ :: ·) <$> lineTokensFrom line column' rest) :
    Lexes cs ((kind, text) :: ws) := by
  intro line column
  obtain ⟨column', htokens⟩ := hcs line column
  obtain ⟨ts, hts, rfl⟩ := h line column'
  exact ⟨⟨kind, text, column⟩ :: ts, by rw [htokens, hts]; rfl, rfl⟩

theorem Lexes.arrow (h : Lexes rest ws) : Lexes ('<' :: '-' :: rest) ((.arrow, "<-") :: ws) :=
  h.cons fun line column => ⟨_, by rw [lineTokensFrom]⟩

theorem Lexes.notEqual (h : Lexes rest ws) :
    Lexes ('!' :: '=' :: rest) ((.notEqual, "!=") :: ws) :=
  h.cons fun line column => ⟨_, by rw [lineTokensFrom]⟩

theorem Lexes.symbol (h : Lexes rest ws) {c : Char} {kind : TokenKind}
    (hc : c ≠ '<' ∧ c ≠ '!' ∧ isSpace c = false) (hkind : symbolKind? c = some kind) :
    Lexes (c :: rest) ((kind, String.singleton c) :: ws) :=
  h.cons fun _ _ => ⟨_, lineTokensFrom_symbol hc hkind⟩

/-- A word in front of a text that does not run on with it, neither as a longer word nor as a call.
-/
theorem Lexes.word (h : Lexes rest ws) {w : List Char} (hw : Text.isIdentifier w = true)
    (hrest : Text.stopsAt (fun c => Text.isWordChar c || c == '(') rest = true) :
    Lexes (w ++ rest) ((wordKind w, String.ofList w) :: ws) :=
  h.cons fun _ _ => ⟨_, lineTokensFrom_word hw hrest⟩

/-- A word in front of a text where words may end. -/
theorem Lexes.identifier (h : Lexes rest ws) {w : List Char} (hw : Text.isIdentifier w = true)
    (hrest : Text.endsWord rest = true) :
    Lexes (w ++ rest) ((wordKind w, String.ofList w) :: ws) :=
  h.word hw (Text.stopsAt_of_endsWord hrest (by decide +kernel))

theorem Lexes.digits (h : Lexes rest ws) {w : List Char} (hne : w ≠ [])
    (hw : ∀ c ∈ w, Text.isDecimal c = true) (hrest : Text.stopsAt Text.isDecimal rest = true) :
    Lexes (w ++ rest) ((.number, String.ofList w) :: ws) :=
  h.cons fun _ _ => ⟨_, lineTokensFrom_digits hne hw hrest⟩

/-- A numeral is taken whole, and stands for the number that was printed. -/
theorem Lexes.number (h : Lexes rest ws) (n : Nat) (hrest : Text.endsWord rest = true) :
    Lexes ((toString n).toList ++ rest) ((.number, toString n) :: ws) := by
  have hdigits : (toString n).toList = Nat.toDigits 10 n := Nat.toList_repr
  have htext : String.ofList (Nat.toDigits 10 n) = toString n := by
    rw [← hdigits, String.ofList_toList]
  rw [hdigits, ← htext]
  exact h.digits Nat.toDigits_ne_nil (fun _ => Text.isDecimal_of_mem_toDigits)
    (Text.stopsAt_isDecimal hrest)

end Lexes

/-! ### Calls -/

/-- Inside a call, the search for its end passes over the text, whatever the depth of the call and
whatever comes behind it. -/
def Balanced (cs : List Char) : Prop :=
  ∀ depth rest, closeCall (depth + 1) (cs ++ rest) =
    (closeCall (depth + 1) rest).map fun x => (cs ++ x.1, x.2)

section Balanced

variable {cs cs' : List Char}

theorem balanced_nil : Balanced [] := by
  intro depth rest
  simp

/-- Two texts that are passed over are passed over together. -/
theorem Balanced.append (h : Balanced cs) (h' : Balanced cs') : Balanced (cs ++ cs') := by
  intro depth rest
  rw [List.append_assoc, h depth, h' depth, Option.map_map]
  congr 1
  funext x
  simp

/-- Parentheses around a text match each other: the search goes one level down and comes back. -/
theorem Balanced.parens (h : Balanced cs) : Balanced ('(' :: (cs ++ [')'])) := by
  intro depth rest
  have hclose : closeCall (depth + 2) (')' :: rest) =
      (closeCall (depth + 1) rest).map fun x => (')' :: x.1, x.2) := by
    rw [closeCall]
    simp
  have hopen : closeCall (depth + 1) ('(' :: (cs ++ (')' :: rest))) =
      (closeCall (depth + 2) (cs ++ (')' :: rest))).map fun x => ('(' :: x.1, x.2) := by
    rw [closeCall]
    simp
  rw [List.cons_append, List.append_assoc, List.singleton_append, hopen, h (depth + 1), hclose,
    Option.map_map, Option.map_map]
  congr 1
  funext x
  simp

/-- A text without parentheses is passed over, since nothing else is counted. -/
theorem balanced_of_forall (h : ∀ c ∈ cs, c ≠ '(' ∧ c ≠ ')') : Balanced cs := by
  induction cs with
  | nil => exact balanced_nil
  | cons c cs ih =>
    rw [List.forall_mem_cons] at h
    obtain ⟨⟨hleft, hright⟩, hcs⟩ := h
    intro depth rest
    rw [List.cons_append, closeCall]
    simp [hleft, hright, ih hcs depth rest, Function.comp_def]

theorem balanced_comma (h : Balanced cs) : Balanced (',' :: cs) :=
  (balanced_of_forall (by simp : ∀ c ∈ [','], c ≠ '(' ∧ c ≠ ')')).append h

theorem balanced_identifier {w : List Char} (hw : Text.isIdentifier w = true) : Balanced w :=
  balanced_of_forall fun _ hc =>
    Text.ne_parens_of_isWordChar (Text.isWordChar_of_mem_identifier hw hc)

theorem balanced_toDigits (n : Nat) : Balanced (Nat.toDigits 10 n) := by
  refine balanced_of_forall fun c hc => ?_
  obtain ⟨d, hd, rfl⟩ := Text.exists_digitChar_of_mem_toDigits hc
  obtain ⟨-, -, hleft, hright, -⟩ := Text.digitChar_facts hd
  exact ⟨hleft, hright⟩

mutual

/-- The text of an argument is passed over if its functions and names are identifiers. Every call in
it opens and closes its own parentheses, so the induction is on the argument. -/
theorem balanced_chars : ∀ a : Argument, (∀ n ∈ a.nodes, n.Worded) → Balanced a.chars
  | .constant (.ofNat n), _ => by
    rw [Argument.chars, Argument.toList_ofNat]
    exact balanced_toDigits n
  | .constant (.negSucc n), _ => by
    rw [Argument.chars, Argument.toList_negSucc]
    exact (balanced_of_forall (by simp : ∀ c ∈ ['-'], c ≠ '(' ∧ c ≠ ')')).append
      (balanced_toDigits (n + 1))
  | .name text, h => by
    rw [Argument.chars]
    rw [Argument.nodes] at h
    exact balanced_identifier (h _ List.mem_cons_self)
  | .call function arguments, h => by
    rw [Argument.nodes, List.forall_mem_cons] at h
    rw [Argument.chars, ← List.append_assoc]
    exact ((balanced_identifier h.1).append (balanced_charsTail arguments h.2)).parens

/-- The texts of further arguments, each behind a comma, are passed over too. -/
theorem balanced_charsTail : ∀ as : List Argument, (∀ n ∈ Argument.walk as, n.Worded) →
    Balanced (Argument.charsTail as)
  | [], _ => by
    rw [Argument.charsTail]
    exact balanced_nil
  | a :: as, h => by
    rw [Argument.walk, List.forall_mem_append] at h
    rw [Argument.charsTail]
    exact balanced_comma ((balanced_chars a h.1).append (balanced_charsTail as h.2))

end

end Balanced

/-- A call is taken up to the parenthesis that matches its first one, whether its function stands
inside of the parentheses or in front of them. -/
theorem lineTokensFrom_parens {f inside rest : List Char} {line column : Nat}
    (hf : f = [] ∨ Text.isIdentifier f = true) (hinside : Balanced inside) :
    lineTokensFrom line column (f ++ '(' :: (inside ++ ')' :: rest)) =
      (⟨.call, String.ofList (f ++ '(' :: (inside ++ [')'])), column⟩ :: ·) <$>
        lineTokensFrom line (column + (f ++ '(' :: (inside ++ [')'])).length) rest := by
  have hclose : closeCall 1 (inside ++ ')' :: rest) = some (inside ++ [')'], rest) := by
    rw [hinside 0, closeCall]
    rfl
  rcases hf with rfl | hf
  · rw [List.nil_append, List.nil_append, lineTokensFrom]
    · have hspace : isSpace '(' = false := rfl
      have hsymbol : symbolKind? '(' = none := rfl
      simp only [hspace, hsymbol, Bool.false_eq_true, if_false, beq_self_eq_true, if_true]
      split
      · rename_i hsome
        obtain ⟨rfl, rfl⟩ := Prod.mk.inj (Option.some.inj (hclose.symm.trans hsome))
        rfl
      · rename_i hnone
        cases hclose.symm.trans hnone
    · simp
    · simp
  · obtain _ | ⟨c, w⟩ := f
    · cases hf
    rw [Text.isIdentifier, Bool.and_eq_true, List.all_eq_true] at hf
    obtain ⟨hless, hbang, hleft, hright, -, -, hdigit, -, hspace, hsymbol⟩ :=
      Text.isIdentifierStart_facts hf.1
    have hparen : Text.stopsAt Text.isWordChar ('(' :: (inside ++ ')' :: rest)) = true := by
      rw [Text.stopsAt]
      decide +kernel
    obtain ⟨htake, hdrop⟩ := Text.span_append hf.2 hparen
    rw [List.cons_append, lineTokensFrom]
    · simp only [hspace, hsymbol, hdigit, hf.1, Text.isLetter_of_isIdentifierStart hf.1, htake,
        beq_iff_eq, hleft, hright, Bool.false_eq_true, if_false, if_true]
      split
      · rename_i rest' hcall
        obtain rfl := (List.cons.inj (hdrop.symm.trans hcall)).2
        split
        · rename_i hsome
          obtain ⟨rfl, rfl⟩ := Prod.mk.inj (Option.some.inj (hclose.symm.trans hsome))
          rfl
        · rename_i hnone
          cases hclose.symm.trans hnone
      · rename_i hcall
        exact absurd hdrop (hcall _)
    · exact fun _ he => absurd he hless
    · exact fun _ he => absurd he hbang

/-- A call in front of any text. Whatever comes behind the last parenthesis, it cannot run on with
it. -/
theorem Lexes.parens {rest : List Char} {ws : List (TokenKind × String)} (h : Lexes rest ws)
    {f inside : List Char} (hf : f = [] ∨ Text.isIdentifier f = true) (hinside : Balanced inside) :
    Lexes (f ++ '(' :: (inside ++ ')' :: rest))
      ((.call, String.ofList (f ++ '(' :: (inside ++ [')']))) :: ws) :=
  h.cons fun _ _ => ⟨_, lineTokensFrom_parens hf hinside⟩

/-- A printed call is taken whole, with its arguments, as one token. -/
theorem Lexes.call {rest : List Char} {ws : List (TokenKind × String)} (h : Lexes rest ws)
    {c : Call} (hc : ∀ n ∈ Argument.walk [c.toArgument], n.Worded) :
    Lexes (c.render.toList ++ rest) ((.call, c.render) :: ws) := by
  obtain ⟨inside, hinside, htext⟩ : ∃ inside, Balanced inside ∧
      c.render.toList = '(' :: (inside ++ [')']) := by
    rw [Call.toArgument, Argument.walk, Argument.walk, List.append_nil, Argument.nodes,
      List.forall_mem_cons] at hc
    refine ⟨_, (balanced_identifier hc.1).append (balanced_charsTail c.arguments hc.2), ?_⟩
    rw [Call.render, Argument.toList_render, Call.toArgument, Argument.chars, List.append_assoc]
  have hrender : String.ofList ([] ++ '(' :: (inside ++ [')'])) = c.render := by
    rw [List.nil_append, ← htext, String.ofList_toList]
  have hlex := h.parens (.inl rfl) hinside
  rw [hrender] at hlex
  rw [htext, List.cons_append, List.append_assoc]
  exact hlex

/-! ### Statements -/

/-- The characters of some tokens, each of them behind one blank, as statements are printed. -/
def spaced : List (TokenKind × String) → List Char
  | [] => []
  | w :: ws => ' ' :: (w.2.toList ++ spaced ws)

/-- A character that ends no line and begins no comment, so that a line of such characters is read
to its end. -/
def isPlain (c : Char) : Bool :=
  c != '#' && c != '/' && c != '\n'

/-- The token stands in a text as itself, wherever a word may end behind it. None of its characters
cuts the line short. -/
structure Stands (w : TokenKind × String) : Prop where
  plain : ∀ c ∈ w.2.toList, isPlain c = true
  lexes : ∀ rest ws, Text.endsWord rest = true → Lexes rest ws →
    Lexes (w.2.toList ++ rest) (w :: ws)

/-- A word may end in front of spaced tokens, and at the end of the line. -/
theorem endsWord_spaced (ws : List (TokenKind × String)) : Text.endsWord (spaced ws) = true := by
  cases ws <;> rfl

section Stands

variable {ws : List (TokenKind × String)}

/-- Tokens that stand for themselves are read back from their spaced text. The blank in front of
each token ends the one before it. -/
theorem lexes_spaced (h : ∀ w ∈ ws, Stands w) : Lexes (spaced ws) ws := by
  induction ws with
  | nil => exact lexes_nil
  | cons w ws ih =>
    rw [List.forall_mem_cons] at h
    exact (h.1.lexes _ _ (endsWord_spaced ws) (ih h.2)).blank

/-- Spaced text of such tokens neither ends the line nor begins a comment. -/
theorem isPlain_of_mem_spaced (h : ∀ w ∈ ws, Stands w) : ∀ c ∈ spaced ws, isPlain c = true := by
  induction ws with
  | nil => exact List.forall_mem_nil _
  | cons w ws ih =>
    rw [List.forall_mem_cons] at h
    rw [spaced, List.forall_mem_cons, List.forall_mem_append]
    exact ⟨rfl, h.1.plain, ih h.2⟩

end Stands

/-- Letters, digits and underscores are plain, as the three exceptions are none of these. -/
theorem isPlain_of_isWordChar {c : Char} (h : Text.isWordChar c = true) : isPlain c = true := by
  have hne : ∀ d, Text.isWordChar d = false → (c != d) = true := fun d hd =>
    bne_iff_ne.2 (Text.ne_of_isWordChar h hd)
  rw [isPlain, hne '#' (by decide +kernel), hne '/' (by decide +kernel),
    hne '\n' (by decide +kernel)]
  rfl

/-- An identifier stands for itself, as the keyword that it may be. -/
theorem stands_identifier {text : String} (h : Text.isIdentifier text.toList = true) :
    Stands (wordKind text.toList, text) where
  plain _ hc := isPlain_of_isWordChar (Text.isWordChar_of_mem_identifier h hc)
  lexes rest ws hrest hlex := by
    have hword := hlex.identifier h hrest
    rwa [String.ofList_toList] at hword

/-- The digits of a number stand for themselves. -/
theorem stands_number (n : Nat) : Stands (.number, toString n) where
  plain c hc := by
    obtain ⟨d, hd, rfl⟩ := Text.exists_digitChar_of_mem_toDigits
      (show c ∈ Nat.toDigits 10 n by rwa [← Nat.toList_repr])
    exact isPlain_of_isWordChar (Text.isWordChar_digitChar hd)
  lexes _ _ hrest hlex := hlex.number n hrest

/-- A call stands for itself if its functions and names are identifiers. -/
theorem stands_call {c : Call} (hc : ∀ n ∈ Argument.walk [c.toArgument], n.Worded) :
    Stands (.call, c.render) where
  plain := by
    rw [Call.render, Argument.toList_render]
    rw [Argument.walk, Argument.walk, List.append_nil] at hc
    exact Argument.forall_mem_chars (fun _ => isPlain_of_isWordChar) (List.all_eq_true.1 rfl)
      c.toArgument hc
  lexes _ _ _ hlex := hlex.call hc

theorem stands_arrow : Stands (.arrow, "<-") where
  plain := List.all_eq_true.1 rfl
  lexes _ _ _ hlex := hlex.arrow

theorem stands_notEqual : Stands (.notEqual, "!=") where
  plain := List.all_eq_true.1 rfl
  lexes _ _ _ hlex := hlex.notEqual

/-- A symbol of one character stands for itself, with or without blanks behind it. -/
theorem stands_symbol {c : Char} {kind : TokenKind} (hkind : symbolKind? c = some kind)
    (hc : c ≠ '<' ∧ c ≠ '!' ∧ isSpace c = false ∧ isPlain c = true) :
    Stands (kind, String.singleton c) where
  plain := by
    rw [String.toList_singleton]
    exact List.forall_mem_singleton.2 hc.2.2.2
  lexes _ _ _ hlex := by
    rw [String.toList_singleton]
    exact hlex.symbol ⟨hc.1, hc.2.1, hc.2.2.1⟩ hkind

end Assembly

/-- The token of a variable. -/
def Variable.word (v : Variable) : Assembly.TokenKind × String :=
  (.identifier, v.name)

/-- The token of a label. -/
def Label.word (l : Label) : Assembly.TokenKind × String :=
  (.identifier, l.name)

/-- The token of a call. -/
def Call.word (c : Call) : Assembly.TokenKind × String :=
  (.call, c.render)

/-- The token of a constant. -/
def constantWord (n : Nat) : Assembly.TokenKind × String :=
  (.number, toString n)

namespace Operation

/-- The tokens of the statement of an operation, in the order in which they are printed. -/
def words : Operation → List (Assembly.TokenKind × String)
  | neutral v => [v.word, (.arrow, "<-"), v.word]
  | increase v => [v.word, (.arrow, "<-"), v.word, (.plus, "+"), constantWord 1]
  | decrease v => [v.word, (.arrow, "<-"), v.word, (.minus, "-"), constantWord 1]
  | jumpNotZero v target => [(.ifWord, "IF"), v.word, (.notEqual, "!="), constantWord 0,
    (.goto, "GOTO"), target.word]
  | zeroVariable v => [v.word, (.arrow, "<-"), constantWord 0]
  | gotoLabel target => [(.goto, "GOTO"), target.word]
  | constantAssignment v k => [v.word, (.arrow, "<-"), constantWord k]
  | jumpZero v target => [(.ifWord, "IF"), v.word, (.equal, "="), constantWord 0, (.goto, "GOTO"),
    target.word]
  | assignment v source => [v.word, (.arrow, "<-"), source.word]
  | jumpEqualConstant v k target => [(.ifWord, "IF"), v.word, (.equal, "="), constantWord k,
    (.goto, "GOTO"), target.word]
  | jumpEqualVariable v source target => [(.ifWord, "IF"), v.word, (.equal, "="), source.word,
    (.goto, "GOTO"), target.word]
  | quotation v call => [v.word, (.arrow, "<-"), call.word]
  | jumpEqualFunction v call target => [(.ifWord, "IF"), v.word, (.equal, "="), call.word,
    (.goto, "GOTO"), target.word]

/-- The statement of an operation is the spaced text of its tokens, but for the first blank. -/
theorem toList_text (o : Operation) : ' ' :: o.text.toList = Assembly.spaced o.words := by
  have hv : ∀ v : Variable, toString v = v.name := fun v => rfl
  have hl : ∀ l : Label, toString l = l.name := fun l => rfl
  have hs : ∀ s : String, toString s = s := fun s => rfl
  have hone : Nat.toDigits 10 1 = ['1'] := rfl
  cases o <;>
    simp [text, words, Assembly.spaced, Variable.word, Label.word, Call.word, constantWord, hv, hl,
      hs, hone]

end Operation

namespace Assembly

/-- The name of a variable is an identifier and no keyword. -/
theorem stands_variable (v : Variable) : Stands v.word := by
  have hstands := stands_identifier v.isIdentifier_name
  rwa [v.wordKind_name] at hstands

/-- The name of a label is an identifier and no keyword. -/
theorem stands_label (l : Label) : Stands l.word := by
  have hstands := stands_identifier l.isIdentifier_name
  rwa [l.wordKind_name] at hstands

theorem stands_goto : Stands (.goto, "GOTO") := by
  have hkind : wordKind "GOTO".toList = .goto := rfl
  rw [← hkind]
  exact stands_identifier (by decide +kernel)

theorem stands_ifWord : Stands (.ifWord, "IF") := by
  have hkind : wordKind "IF".toList = .ifWord := rfl
  rw [← hkind]
  exact stands_identifier (by decide +kernel)

theorem stands_plus : Stands (.plus, "+") := by
  have htext : "+" = String.singleton '+' := rfl
  rw [htext]
  exact stands_symbol rfl (by decide)

theorem stands_minus : Stands (.minus, "-") := by
  have htext : "-" = String.singleton '-' := rfl
  rw [htext]
  exact stands_symbol rfl (by decide)

theorem stands_equal : Stands (.equal, "=") := by
  have htext : "=" = String.singleton '=' := rfl
  rw [htext]
  exact stands_symbol rfl (by decide)

end Assembly

/-- The functions and names in the call of an operation are identifiers. Names that are read from
text always are. -/
def Operation.Worded (o : Operation) : Prop :=
  ∀ c ∈ o.call?, ∀ n ∈ Argument.walk [c.toArgument], n.Worded

/-- All tokens of a statement stand for themselves. Only for calls there is something to ask for. -/
theorem Operation.stands_of_mem_words {o : Operation} (h : o.Worded) :
    ∀ w ∈ o.words, Assembly.Stands w := by
  have hcall : ∀ c ∈ o.call?, Assembly.Stands c.word := fun c hc =>
    Assembly.stands_call (h c hc)
  cases o <;>
    simp only [words, List.forall_mem_cons, List.not_mem_nil, false_implies, implies_true, and_true,
      Assembly.stands_variable, Assembly.stands_label, constantWord, Assembly.stands_number,
      Assembly.stands_arrow, Assembly.stands_plus, Assembly.stands_minus, Assembly.stands_equal,
      Assembly.stands_notEqual, Assembly.stands_goto, Assembly.stands_ifWord, true_and]
  case quotation v call => exact hcall call rfl
  case jumpEqualFunction v call target => exact hcall call rfl

/-! ### Lines -/

/-- The tokens of the label in front of a statement. -/
def Label.tagWords : Option Label → List (Assembly.TokenKind × String)
  | none => []
  | some label => [(.leftBracket, "["), label.word, (.rightBracket, "]")]

/-- The tokens of the line of an instruction. -/
def Instruction.words (i : Instruction) : List (Assembly.TokenKind × String) :=
  Label.tagWords i.label ++ i.operation.words

namespace Assembly

/-- The tokens of a header. -/
def headerWords (kind : TokenKind) (name : String) : List (TokenKind × String) :=
  [(kind, kind.name), (.identifier, name)]

/-- The line has neither a comment nor a line break in it, and is cut into the tokens. -/
structure Prints (line : String) (ws : List (TokenKind × String)) : Prop where
  plain : ∀ c ∈ line.toList, isPlain c = true
  lexes : Lexes line.toList ws

/-- A word that a header starts with, and a name that is no keyword, make up a header. -/
theorem prints_header {kind : TokenKind} {name : String}
    (hkind : Text.isIdentifier kind.name.toList = true ∧ wordKind kind.name.toList = kind)
    (hname : Text.isIdentifier name.toList = true ∧ wordKind name.toList = .identifier) :
    Prints s!"{kind.name} {name}" (headerWords kind name) := by
  have hheader : s!"{kind.name} {name}".toList =
      kind.name.toList ++ spaced [(.identifier, name)] := by
    simp [spaced, toString]
  have hfirst := stands_identifier hkind.1
  have hsecond := stands_identifier hname.1
  rw [hkind.2] at hfirst
  rw [hname.2] at hsecond
  have hstands : ∀ w ∈ [(TokenKind.identifier, name)], Stands w := by simpa using hsecond
  constructor
  · rw [hheader, List.forall_mem_append]
    exact ⟨hfirst.plain, isPlain_of_mem_spaced hstands⟩
  · rw [hheader]
    exact hfirst.lexes _ _ rfl (lexes_spaced hstands)

/-- Padding in front of a text changes nothing but the columns. -/
theorem Lexes.blanks {rest : List Char} {ws : List (TokenKind × String)} (h : Lexes rest ws)
    (n : Nat) : Lexes (List.replicate n ' ' ++ rest) ws := by
  induction n with
  | zero => exact h
  | succ n ih => exact ih.blank

/-- The label in front of a statement is read as its three tokens, or as nothing where there is no
label. -/
theorem prints_tag (label : Option Label) : (∀ c ∈ (labelTag label).toList, isPlain c = true) ∧
    ∀ rest ws, Lexes rest ws →
      Lexes ((labelTag label).toList ++ rest) (Label.tagWords label ++ ws) := by
  cases label with
  | none => exact ⟨List.forall_mem_nil _, fun rest ws h => h⟩
  | some label =>
    have htag : (labelTag (some label)).toList = '[' :: (label.name.toList ++ [']']) := by
      simp [labelTag, toString]
    have hstands := stands_label label
    rw [htag, List.forall_mem_cons, List.forall_mem_append]
    refine ⟨⟨rfl, hstands.plain, List.forall_mem_singleton.2 rfl⟩, fun rest ws h => ?_⟩
    have hright : Lexes (']' :: rest) ((.rightBracket, "]") :: ws) :=
      h.symbol (by decide) rfl
    have hname := hstands.lexes _ _ rfl hright
    have hleft := hname.symbol (c := '[') (by decide) rfl
    simpa [Label.tagWords, Label.word] using hleft

/-- The line of an instruction, in a label column of any width, is cut into the tokens of its label
and its statement. -/
theorem prints_line {i : Instruction} (h : i.operation.Worded) (width : Nat) :
    Prints (i.line width) i.words := by
  obtain ⟨htag, hlabel⟩ := prints_tag i.label
  have hline : ∃ n, (i.line width).toList =
      (labelTag i.label).toList ++ (List.replicate n ' ' ++ spaced i.operation.words) := by
    refine ⟨width - (labelTag i.label).length, ?_⟩
    rw [← Operation.toList_text]
    simp [Instruction.line, padRight, Instruction.text]
  obtain ⟨n, hline⟩ := hline
  have hstands := Operation.stands_of_mem_words h
  constructor
  · rw [hline, List.forall_mem_append, List.forall_mem_append]
    refine ⟨htag, fun c hc => ?_, isPlain_of_mem_spaced hstands⟩
    rw [List.eq_of_mem_replicate hc]
    rfl
  · rw [hline]
    exact hlabel _ _ ((lexes_spaced hstands).blanks n)

end Assembly

end RegisterMachine
