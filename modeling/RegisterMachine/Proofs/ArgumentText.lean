import RegisterMachine.Proofs.ArgumentGrammar

/-!
# Printed arguments

Arguments are read back from their text, if every name in them is an identifier and no constant has
too many digits. Their text splits into the words that they are printed as, and the grammar derives
them from these words. Whatever a text spells is of this kind: its names are identifiers of the
text, and an integer has no more digits than the numeral that it was read from. So printing
arguments that have been read and reading them again changes nothing, whichever form their calls
had.

* `Argument.Readable`, `Argument.ReadableIn` — what can be read back;
* `Argument.Legible`, `Argument.LegibleIn` — what can be read back, variables included;
* `Argument.chars`, `Argument.words` — the characters and the words of an argument;
* `Argument.splits_chars`, `Argument.derives_words` — its text is made of its words, and it is
  derived from them;
* `Argument.ofText_renderList`, `Call.parse_render` — from text to arguments;
* `Argument.readable_of_ofText`, `Call.readable_of_parse` — what has been read can be read back;
* `Argument.reads_back` — both together.
-/

namespace RegisterMachine

namespace Argument

/-! ### Legible arguments -/

/-- The name that an argument is, or the function that it calls, is an identifier. -/
def Worded : Argument → Prop
  | constant _ => True
  | name text => Text.isIdentifier text.toList = true
  | call function _ => Text.isIdentifier function.toList = true

/-- The number that an argument is, or that the variable of its name has, can be read. -/
def Brief : Argument → Prop
  | constant value => Text.Short value.natAbs
  | name text => (name text).isOverlong = false
  | call _ _ => True

/-- An argument whose own text can be read back, whatever stands below it. -/
def Legible (a : Argument) : Prop :=
  a.Worded ∧ a.Brief

instance : DecidablePred Worded
  | constant _ => inferInstanceAs (Decidable True)
  | name text => inferInstanceAs (Decidable (Text.isIdentifier text.toList = true))
  | call function _ => inferInstanceAs (Decidable (Text.isIdentifier function.toList = true))

instance : DecidablePred Brief
  | constant value => inferInstanceAs (Decidable (Text.Short value.natAbs))
  | name text => inferInstanceAs (Decidable ((name text).isOverlong = false))
  | call _ _ => inferInstanceAs (Decidable True)

instance : DecidablePred Legible := fun a =>
  inferInstanceAs (Decidable (a.Worded ∧ a.Brief))

theorem Brief.isOverlong {a : Argument} (h : a.Brief) : a.isOverlong = false := by
  cases a with
  | name text => exact h
  | constant value => rfl
  | call function arguments => rfl

/-- An argument whose own text spells it, whatever stands below it. -/
def Readable : Argument → Prop
  | constant value => Text.Short value.natAbs
  | name text => Text.isIdentifier text.toList = true
  | call function _ => Text.isIdentifier function.toList = true

instance : DecidablePred Readable
  | constant value => inferInstanceAs (Decidable (Text.Short value.natAbs))
  | name text => inferInstanceAs (Decidable (Text.isIdentifier text.toList = true))
  | call function _ => inferInstanceAs (Decidable (Text.isIdentifier function.toList = true))

theorem Readable.worded {a : Argument} (h : a.Readable) : a.Worded := by
  cases a with
  | constant value => trivial
  | name text | call function arguments => exact h

theorem Legible.readable {a : Argument} (h : a.Legible) : a.Readable := by
  cases a with
  | constant value => exact h.2
  | name text | call function arguments => exact h.1

/-- All nodes of an argument list are readable. -/
def ReadableIn (as : List Argument) : Prop :=
  ∀ n ∈ walk as, n.Readable

instance : DecidablePred ReadableIn := fun as =>
  inferInstanceAs (Decidable (∀ n ∈ walk as, n.Readable))

/-- All nodes of an argument list are legible. -/
def LegibleIn (as : List Argument) : Prop :=
  ∀ n ∈ walk as, n.Legible

theorem LegibleIn.readable {as : List Argument} (h : LegibleIn as) : ReadableIn as :=
  fun n hn => (h n hn).readable

/-! ### Characters and words -/

mutual

/-- The characters of an argument. -/
def chars : Argument → List Char
  | constant value => (toString value).toList
  | name text => text.toList
  | call function arguments => '(' :: (function.toList ++ (charsTail arguments ++ [')']))

/-- The characters of further arguments, each behind a comma. -/
def charsTail : List Argument → List Char
  | [] => []
  | a :: as => ',' :: (a.chars ++ charsTail as)

end

mutual

/-- The words of an argument. -/
def words : Argument → List (TokenKind × String)
  | constant value => [(.number, toString value)]
  | name text => [(.identifier, text)]
  | call function arguments =>
    (.leftParen, "(") :: (.identifier, function) :: (wordsTail arguments ++ [(.rightParen, ")")])

/-- The words of further arguments, each behind a comma. -/
def wordsTail : List Argument → List (TokenKind × String)
  | [] => []
  | a :: as => (.comma, ",") :: (a.words ++ wordsTail as)

end

mutual

theorem toList_render : ∀ a : Argument, a.render.toList = a.chars
  | constant value => by rw [render, chars]
  | name text => by rw [render, chars]
  | call function [] => by simp [render, chars, charsTail]
  | call function (a :: as) => by
    have htail := toList_renderList (a :: as) (List.cons_ne_nil a as)
    simp [render, chars, ← htail]

/-- The text of a list that is not empty, behind a comma. -/
theorem toList_renderList : ∀ as : List Argument, as ≠ [] →
    ',' :: (renderList as).toList = charsTail as
  | [], h => absurd rfl h
  | [a], _ => by rw [renderList, charsTail, charsTail, List.append_nil, toList_render a]
  | a :: b :: as, _ => by
    have htail := toList_renderList (b :: as) (List.cons_ne_nil b as)
    rw [renderList, charsTail, ← toList_render a, ← htail]
    · simp
    · simp

end

theorem toList_ofNat (n : Nat) : (toString (Int.ofNat n)).toList = Nat.toDigits 10 n :=
  Nat.toList_repr

theorem toList_negSucc (n : Nat) :
    (toString (Int.negSucc n)).toList = '-' :: Nat.toDigits 10 (n + 1) := by
  change ("-" ++ Nat.repr (n + 1)).toList = _
  rw [String.toList_append, Nat.toList_repr]
  rfl

mutual

/-- What holds of word characters and of the signs of arguments holds of all characters of an
argument. -/
theorem forall_mem_chars {P : Char → Prop} (hword : ∀ c, Text.isWordChar c = true → P c)
    (hsign : ∀ c ∈ ['(', ')', ',', '-'], P c) :
    ∀ a : Argument, (∀ n ∈ a.nodes, n.Worded) → ∀ c ∈ a.chars, P c
  | constant (.ofNat n), _, c, hc => by
    rw [chars, toList_ofNat] at hc
    exact hword c (Text.isWordChar_of_mem_toDigits hc)
  | constant (.negSucc n), _, c, hc => by
    rw [chars, toList_negSucc, List.mem_cons] at hc
    rcases hc with rfl | hc
    · exact hsign '-' (by decide)
    · exact hword c (Text.isWordChar_of_mem_toDigits hc)
  | name text, ha, c, hc => by
    rw [nodes] at ha
    rw [chars] at hc
    exact hword c (Text.isWordChar_of_mem_identifier (ha _ List.mem_cons_self) hc)
  | call function arguments, ha, c, hc => by
    rw [nodes, List.forall_mem_cons] at ha
    rw [chars, List.mem_cons, List.mem_append, List.mem_append, List.mem_singleton] at hc
    rcases hc with rfl | hc | hc | rfl
    · exact hsign '(' (by decide)
    · exact hword c (Text.isWordChar_of_mem_identifier ha.1 hc)
    · exact forall_mem_charsTail hword hsign arguments ha.2 c hc
    · exact hsign ')' (by decide)

theorem forall_mem_charsTail {P : Char → Prop} (hword : ∀ c, Text.isWordChar c = true → P c)
    (hsign : ∀ c ∈ ['(', ')', ',', '-'], P c) :
    ∀ as : List Argument, (∀ n ∈ walk as, n.Worded) → ∀ c ∈ charsTail as, P c
  | [], _, c, hc => by
    rw [charsTail] at hc
    cases hc
  | a :: as, has, c, hc => by
    rw [walk, List.forall_mem_append] at has
    rw [charsTail, List.mem_cons, List.mem_append] at hc
    rcases hc with rfl | hc | hc
    · exact hsign ',' (by decide)
    · exact forall_mem_chars hword hsign a has.1 c hc
    · exact forall_mem_charsTail hword hsign as has.2 c hc

end

/-! ### From characters to words -/

/-- The text of an integer is an integer. -/
theorem isInteger_toString (value : Int) : isInteger (toString value).toList = true := by
  rcases value with n | n
  · obtain ⟨d, hd, w, hdigits⟩ := Text.exists_toDigits_eq n
    have hw : ∀ e ∈ w, Text.isDecimal e = true := fun e he =>
      Text.isDecimal_of_mem_toDigits (hdigits ▸ List.mem_cons_of_mem _ he)
    rw [toList_ofNat, hdigits, isInteger, List.all_eq_true.2 hw, Text.isDecimal_digitChar hd]
    rfl
  · obtain ⟨d, -, w, hdigits⟩ := Text.exists_toDigits_eq (n + 1)
    rw [toList_negSucc, isInteger, List.all_eq_true.2 fun e => Text.isDecimal_of_mem_toDigits,
      hdigits]
    rfl

/-- The text of an integer spells it. -/
theorem integerValue_toString (value : Int) : integerValue (toString value).toList = value := by
  rcases value with n | n
  · obtain ⟨d, hd, w, hdigits⟩ := Text.exists_toDigits_eq n
    obtain ⟨-, -, -, -, -, hminus, hplus, -⟩ := Text.digitChar_facts hd
    have hvalue : integerValue (d.digitChar :: w) = Text.decimalValue (d.digitChar :: w) :=
      integerValue.eq_3 _ (fun _ h => hminus (List.cons.inj h).1) fun _ h =>
        hplus (List.cons.inj h).1
    rw [toList_ofNat, hdigits, hvalue, ← hdigits, Text.decimalValue_toDigits]
    rfl
  · rw [toList_negSucc, integerValue, Text.decimalValue_toDigits]
    rfl

theorem fewDigits_toString {value : Int} (h : Text.Short value.natAbs) :
    FewDigits (toString value) := by
  rw [FewDigits]
  rcases value with n | n
  · rw [toList_ofNat]
    exact List.countP_le_length.trans h
  · rw [toList_negSucc, List.countP_cons_of_neg (by decide)]
    exact List.countP_le_length.trans h

theorem endsWord_charsTail {as : List Argument} {rest : List Char}
    (hrest : Text.endsWord rest = true) : Text.endsWord (charsTail as ++ rest) = true := by
  cases as with
  | nil => rwa [charsTail, List.nil_append]
  | cons a as => rfl

mutual

/-- The text of an argument is made of its words. -/
theorem splits_chars : ∀ (a : Argument) {rest : List Char} {ws : List (TokenKind × String)},
    (∀ n ∈ a.nodes, n.Worded) → Text.endsWord rest = true → Splits rest ws →
    Splits (a.chars ++ rest) (a.words ++ ws)
  | constant value, rest, ws, _, hrest, h => by
    have hsplits := h.number (isInteger_toString value) (Text.stopsAt_isDecimal hrest)
    rw [String.ofList_toList] at hsplits
    rw [chars, words]
    exact hsplits
  | name text, rest, ws, ha, hrest, h => by
    have htext : (name text).Worded := ha _ (by rw [nodes]; exact List.mem_singleton.2 rfl)
    have hsplits := h.identifier htext (Text.stopsAt_isWordChar hrest)
    rw [String.ofList_toList] at hsplits
    rw [chars, words]
    exact hsplits
  | call function arguments, rest, ws, ha, hrest, h => by
    rw [nodes, List.forall_mem_cons] at ha
    have htail := splits_charsTail arguments ha.2 (by rfl) h.rightParen
    have hends : Text.endsWord (charsTail arguments ++ ')' :: rest) = true :=
      endsWord_charsTail rfl
    have hsplits := (htail.identifier ha.1 (Text.stopsAt_isWordChar hends)).leftParen
    rw [String.ofList_toList] at hsplits
    rw [chars, words]
    simpa using hsplits

theorem splits_charsTail : ∀ (as : List Argument) {rest : List Char}
    {ws : List (TokenKind × String)}, (∀ n ∈ walk as, n.Worded) → Text.endsWord rest = true →
    Splits rest ws → Splits (charsTail as ++ rest) (wordsTail as ++ ws)
  | [], _, _, _, _, h => by
    rw [charsTail, wordsTail]
    exact h
  | a :: as, rest, ws, has, hrest, h => by
    rw [walk, List.forall_mem_append] at has
    have htail := splits_charsTail as has.2 hrest h
    have hsplits := (splits_chars a has.1 (endsWord_charsTail hrest) htail).comma
    rw [charsTail, wordsTail]
    simpa using hsplits

end

/-! ### From words to arguments -/

mutual

/-- An argument is derived from its words. -/
theorem derives_words : ∀ a : Argument, Derives .argument a.words [a]
  | constant value => by
    have hderives : Derives .argument [(.number, toString value)] _ := .number rfl
    rw [integerValue_toString] at hderives
    rw [words]
    exact hderives
  | name text => by
    rw [words]
    exact .name rfl
  | call function arguments => by
    rw [words]
    exact .inside rfl rfl (derives_wordsTail arguments) rfl

theorem derives_wordsTail : ∀ as : List Argument, Derives .further (wordsTail as) as
  | [] => by
    rw [wordsTail]
    exact .stop
  | a :: as => by
    rw [wordsTail]
    exact .comma rfl (derives_words a) (derives_wordsTail as)

end

mutual

/-- No number among the words of a readable argument has too many digits. -/
theorem fewDigitsIn_words : ∀ a : Argument, (∀ n ∈ a.nodes, n.Readable) → FewDigitsIn a.words
  | constant value, ha => by
    have hvalue : (constant value).Readable := ha _ (by rw [nodes]; exact List.mem_singleton.2 rfl)
    rw [words]
    exact fewDigitsIn_cons.2 ⟨fun _ => fewDigits_toString hvalue, fewDigitsIn_nil⟩
  | name text, _ => by
    rw [words]
    exact fewDigitsIn_cons.2 ⟨nofun, fewDigitsIn_nil⟩
  | call function arguments, ha => by
    rw [nodes, List.forall_mem_cons] at ha
    rw [words]
    exact fewDigitsIn_cons.2 ⟨nofun, fewDigitsIn_cons.2 ⟨nofun, fewDigitsIn_append.2
      ⟨fewDigitsIn_wordsTail arguments ha.2, fewDigitsIn_cons.2 ⟨nofun, fewDigitsIn_nil⟩⟩⟩⟩

theorem fewDigitsIn_wordsTail : ∀ as : List Argument, ReadableIn as → FewDigitsIn (wordsTail as)
  | [], _ => by
    rw [wordsTail]
    exact fewDigitsIn_nil
  | a :: as, has => by
    rw [ReadableIn, walk, List.forall_mem_append] at has
    rw [wordsTail]
    exact fewDigitsIn_cons.2 ⟨nofun, fewDigitsIn_append.2
      ⟨fewDigitsIn_words a has.1, fewDigitsIn_wordsTail as has.2⟩⟩

end

/-! ### Argument text -/

/-- Readable arguments are the arguments that their text spells. -/
theorem ofText_renderList {as : List Argument} (h : ReadableIn as) :
    ofText (renderList as) = .ok as := by
  refine ofText_eq_ok_iff.2 ?_
  cases as with
  | nil => exact ⟨[], .nil, .empty, fewDigitsIn_nil⟩
  | cons a as =>
    have hchars : (renderList (a :: as)).toList = a.chars ++ (charsTail as ++ []) := by
      rw [List.append_nil]
      exact (List.cons.inj (toList_renderList (a :: as) (List.cons_ne_nil a as))).2
    rw [ReadableIn, walk, List.forall_mem_append] at h
    have htail : Splits (charsTail as ++ []) (wordsTail as ++ []) :=
      splits_charsTail as (fun n hn => (h.2 n hn).worded) rfl .nil
    have hsplits := splits_chars a (fun n hn => (h.1 n hn).worded) (endsWord_charsTail rfl) htail
    rw [← hchars, List.append_nil] at hsplits
    exact ⟨_, hsplits, .list (derives_words a) (derives_wordsTail as),
      fewDigitsIn_append.2 ⟨fewDigitsIn_words a h.1, fewDigitsIn_wordsTail as h.2⟩⟩

/-- What the grammar derives from the words of a text is readable, if no number is too long. -/
theorem readable_of_derives {n : Nonterminal} {ws : List (TokenKind × String)}
    {as : List Argument} (h : Derives n ws as)
    (hnames : ∀ w ∈ ws, w.1 = .identifier → Text.isIdentifier w.2.toList = true)
    (hnumbers : ∀ w ∈ ws, w.1 = .number → isInteger w.2.toList = true ∧ FewDigits w.2) :
    ReadableIn as := by
  rw [ReadableIn]
  induction h with
  | empty | stop =>
    rw [walk]
    exact List.forall_mem_nil _
  | list _ _ first others =>
    rw [List.forall_mem_append] at hnames hnumbers
    rw [walk, List.forall_mem_append]
    have hfirst := first hnames.1 hnumbers.1
    rw [walk, walk, List.append_nil] at hfirst
    exact ⟨hfirst, others hnames.2 hnumbers.2⟩
  | comma _ _ _ first others =>
    rw [List.forall_mem_cons, List.forall_mem_append] at hnames hnumbers
    rw [walk, List.forall_mem_append]
    have hfirst := first hnames.2.1 hnumbers.2.1
    rw [walk, walk, List.append_nil] at hfirst
    exact ⟨hfirst, others hnames.2.2 hnumbers.2.2⟩
  | @number w hw =>
    obtain ⟨hinteger, hfew⟩ := hnumbers w List.mem_cons_self hw
    rw [walk, walk, nodes, List.append_nil]
    exact List.forall_mem_singleton.2 (integer_eq_ok (integer_of_isInteger hinteger hfew)).2.2
  | @name w hw =>
    rw [walk, walk, nodes, List.append_nil]
    exact List.forall_mem_singleton.2 (hnames w List.mem_cons_self hw)
  | inside _ hf _ _ ih =>
    simp only [List.forall_mem_cons, List.forall_mem_append] at hnames hnumbers
    rw [walk, walk, nodes, List.append_nil]
    exact List.forall_mem_cons.2 ⟨hnames.2.1 hf, ih hnames.2.2.1 hnumbers.2.2.1⟩
  | before hf _ _ _ ih =>
    simp only [List.forall_mem_cons, List.forall_mem_append] at hnames hnumbers
    rw [walk, walk, nodes, List.append_nil]
    exact List.forall_mem_cons.2 ⟨hnames.1 hf, ih hnames.2.2.1 hnumbers.2.2.1⟩

theorem readable_of_ofText {s : String} {as : List Argument} (h : ofText s = .ok as) :
    ReadableIn as := by
  obtain ⟨ws, hsplits, hderives, hfew⟩ := ofText_eq_ok_iff.1 h
  exact readable_of_derives hderives (fun w hw => (hsplits.sound w hw).2.1) fun w hw hnumber =>
    ⟨(hsplits.sound w hw).2.2 hnumber, hfew w hw hnumber⟩

end Argument

/-- A readable call is the call that its text spells. -/
theorem Call.parse_render {c : Call} (h : Argument.ReadableIn [c.toArgument]) :
    Call.parse c.render = .ok c := by
  have htext : Argument.ofText c.render = .ok [c.toArgument] := by
    have hlist := Argument.ofText_renderList h
    rwa [Argument.renderList] at hlist
  rw [Call.parse, Argument.callOfText, htext]
  rfl

theorem Call.readable_of_parse {s : String} {c : Call} (h : Call.parse s = .ok c) :
    Argument.ReadableIn [c.toArgument] := by
  obtain ⟨as, has, h⟩ := Bounded.bind_eq_ok.1 (Bounded.mapError_eq_ok.1 h)
  have hreadable := Argument.readable_of_ofText has
  split at h
  · obtain rfl := Except.ok.inj h
    exact hreadable
  · cases h

namespace Argument

/-- Readable arguments and calls are read back from their text, and whatever has been read from some
text is readable, so it is read back from its own text. -/
theorem reads_back :
    (∀ as, ReadableIn as → parseList (renderList as) = .ok as) ∧
      (∀ c : Call, ReadableIn [c.toArgument] → Call.parse c.render = .ok c) ∧
      (∀ s as, parseList s = .ok as → parseList (renderList as) = .ok as) ∧
      ∀ s c, Call.parse s = .ok c → Call.parse c.render = .ok c := by
  have hlist : ∀ as, ReadableIn as → parseList (renderList as) = .ok as := fun as h =>
    Bounded.mapError_eq_ok.2 (ofText_renderList h)
  refine ⟨hlist, fun c => Call.parse_render, fun s as h => ?_, fun s c h => ?_⟩
  · exact hlist as (readable_of_ofText (Bounded.mapError_eq_ok.1 h))
  · exact Call.parse_render (Call.readable_of_parse h)

/-- A call with the value of another one. -/
def callOfCall : Call :=
  ⟨"F", [.call "G" []]⟩

/-- It may be spelled in both forms at once. -/
theorem ofText_callOfCall : ofText "F( (G) )" = .ok [callOfCall.toArgument] := by
  have hsplits : Splits
      (['F'] ++ '(' :: ' ' :: '(' :: (['G'] ++ ')' :: ' ' :: ')' :: []))
      [(.identifier, "F"), (.leftParen, "("), (.leftParen, "("), (.identifier, "G"),
        (.rightParen, ")"), (.rightParen, ")")] :=
    .identifier (by decide +kernel) (by decide +kernel) (.leftParen (.blank (by decide)
      (.leftParen (.identifier (by decide +kernel) (by decide +kernel) (.rightParen (.blank
        (by decide) (.rightParen .nil)))))))
  have hinner : Derives .argument
      ((.leftParen, "(") :: (.identifier, "G") :: ([] ++ [(.rightParen, ")")])) [.call "G" []] :=
    .inside rfl rfl .stop rfl
  have houter : Derives .argument
      ((.identifier, "F") :: (.leftParen, "(") :: ([(.leftParen, "("), (.identifier, "G"),
        (.rightParen, ")")] ++ [] ++ [(.rightParen, ")")])) [callOfCall.toArgument] :=
    .before rfl rfl (.list hinner .stop) rfl
  exact ofText_eq_ok_iff.2 ⟨_, hsplits, .list houter .stop, by decide +kernel⟩

theorem callOfCall_reads_back :
    ReadableIn [.name "x1", .constant (-7)] ∧
      parseList "x1,-7" = .ok [.name "x1", .constant (-7)] ∧
      ReadableIn [callOfCall.toArgument] ∧ Call.parse "(F,(G))" = .ok callOfCall ∧
      parseList "F( (G) )" = .ok [callOfCall.toArgument] ∧
      parseList "(F,(G))" = .ok [callOfCall.toArgument] ∧
      Call.parse "F( (G) )" = .ok callOfCall ∧ Call.parse callOfCall.render = .ok callOfCall := by
  obtain ⟨hlist, hcall, hlistAgain, hcallAgain⟩ := reads_back
  have hreadable : ReadableIn [.name "x1", .constant (-7)] := by decide +kernel
  have hreadable' : ReadableIn [callOfCall.toArgument] := by decide +kernel
  have htext : renderList [.name "x1", .constant (-7)] = "x1,-7" := by decide +kernel
  have hrender : callOfCall.render = "(F,(G))" := by decide +kernel
  have hrenderList : renderList [callOfCall.toArgument] = "(F,(G))" := hrender
  have hparse : Call.parse "F( (G) )" = .ok callOfCall := by
    rw [Call.parse, callOfText, ofText_callOfCall]
    rfl
  have hparseList : parseList "F( (G) )" = .ok [callOfCall.toArgument] := by
    rw [parseList, ofText_callOfCall]
    rfl
  have hagain := hlistAgain _ _ hparseList
  rw [hrenderList] at hagain
  refine ⟨hreadable, ?_, hreadable', ?_, hparseList, hagain, hparse, hcallAgain _ _ hparse⟩
  · rw [← htext]
    exact hlist _ hreadable
  · rw [← hrender]
    exact hcall _ hreadable'

end Argument

end RegisterMachine
