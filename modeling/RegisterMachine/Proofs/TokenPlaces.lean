import Mathlib.Data.List.Infix
import RegisterMachine.Proofs.ArgumentReader
import RegisterMachine.Proofs.LineByLine

/-!
# The places of tokens

The lexer of lines passes over a line once and loses nothing of it. Every token is a part of its
line and says where it starts, no token reaches into the next one, and what no token covers, up to
the comment or the end of the line, separates tokens and does nothing else. A call ends at the
parenthesis that matches its first one, so whatever else may be wrong with its text, its parentheses
balance.

* `Assembly.StopsAt` — where a line ends for the lexer;
* `Assembly.Placed` — tokens one behind the other, with blanks between them;
* `Assembly.placed_of_lineTokensFrom` — the lexer places its tokens like that;
* `Call.not_isUnbalanced_of_parse` — texts that are not refused for their parentheses;
* `Assembly.Covers` — the tokens of a line cover it;
* `Assembly.tokenLines_lossless` — the stream of the tokens of a text, line by line.
-/

namespace RegisterMachine

/-- A call whose parentheses balance is not refused for them. -/
theorem Call.not_isUnbalanced_of_parse {s text : String} {fault : Argument.Fault} {position : Nat}
    (hshuts : Argument.Shuts 0 s.toList)
    (h : Call.parse s = .error (.argumentSyntax fault text position)) : ¬ fault.IsUnbalanced := by
  obtain ⟨failure, hfailure, he⟩ := Bounded.mapError_eq_error.1 h
  cases failure with
  | misplaced fault' position' =>
    obtain ⟨rfl, -, -⟩ := Error.argumentSyntax.inj he
    rcases Argument.callOfText_eq_error hfailure with htext | hcall
    · exact Argument.not_isUnbalanced_of_ofText hshuts htext
    · obtain ⟨rfl, -⟩ := Argument.Failure.misplaced.inj hcall
      exact not_false
  | numeral fault' => cases he

namespace Assembly

/-! ### Comments -/

/-- A line ends at a column: where its first comment starts, if it has one. -/
structure StopsAt (line : List Char) (stop : Nat) : Prop where
  le : stop ≤ line.length
  comment : stop < line.length → IsComment (line.drop stop)
  first : ∀ column < stop, ¬ IsComment (line.drop column)

theorem stripComment_isPrefix (line : List Char) : stripComment line <+: line := by
  fun_induction stripComment line with
  | case1 | case2 | case3 => exact List.nil_prefix
  | case4 c cs _ _ ih => exact (List.prefix_cons_inj c).2 ih

/-- What is cut off a line is its first comment. -/
theorem stopsAt_stripComment (line : List Char) : StopsAt line (stripComment line).length := by
  fun_induction stripComment line with
  | case1 =>
    exact ⟨Nat.le_refl _, fun h => absurd h (Nat.lt_irrefl _),
      fun _ h => absurd h (Nat.not_lt_zero _)⟩
  | case2 cs =>
    exact ⟨Nat.zero_le _, fun _ => ⟨cs, .inl rfl⟩, fun _ h => absurd h (Nat.not_lt_zero _)⟩
  | case3 cs =>
    exact ⟨Nat.zero_le _, fun _ => ⟨cs, .inr rfl⟩, fun _ h => absurd h (Nat.not_lt_zero _)⟩
  | case4 c cs hhash hslashes ih =>
    refine ⟨Nat.succ_le_succ ih.le, fun h => ih.comment (Nat.lt_of_succ_lt_succ h), ?_⟩
    rintro (_ | column) hcolumn
    · rintro ⟨text, hcs | hcs⟩
      · exact hhash (List.cons.inj hcs).1
      · exact hslashes text (List.cons.inj hcs).1 (List.cons.inj hcs).2
    · exact ih.first column (Nat.lt_of_succ_lt_succ hcolumn)

/-! ### Places -/

/-- The column behind a token. -/
def Token.stop (t : Token) : Nat :=
  t.column + t.text.toList.length

/-- Tokens stand in a text one behind the other, with nothing but blanks around them. The text
starts at the column. -/
inductive Placed : Nat → List Char → List Token → Prop
  | nil {column : Nat} : Placed column [] []
  | space {column : Nat} {c : Char} {cs : List Char} {ts : List Token} (hc : isSpace c = true)
      (h : Placed (column + 1) cs ts) : Placed column (c :: cs) ts
  | token {column : Nat} {kind : TokenKind} {w cs : List Char} {ts : List Token} (hne : w ≠ [])
      (h : Placed (column + w.length) cs ts) :
      Placed column (w ++ cs) (⟨kind, String.ofList w, column⟩ :: ts)

/-- What one step of the lexer takes is placed in front of what the other steps take. -/
theorem Placed.of_step {line column : Nat} {kind : TokenKind} {w cs : List Char} {ts : List Token}
    (hstep : lineTokensFrom line column (w ++ cs) =
      (⟨kind, String.ofList w, column⟩ :: ·) <$> lineTokensFrom line (column + w.length) cs)
    (hne : w ≠ [])
    (h : ∀ {ts}, lineTokensFrom line (column + w.length) cs = .ok ts →
      Placed (column + w.length) cs ts)
    (hts : lineTokensFrom line column (w ++ cs) = .ok ts) : Placed column (w ++ cs) ts := by
  rw [hstep] at hts
  obtain ⟨ts', hts', rfl⟩ := Bounded.map_eq_ok.1 hts
  exact .token hne (h hts')

/-- The words of a line are found where they stand. -/
theorem Splits.placed {cs : List Char} {ws : List (TokenKind × String)} (h : Splits cs ws)
    {line column : Nat} {ts : List Token} (hts : lineTokensFrom line column cs = .ok ts) :
    Placed column cs ts := by
  induction h generalizing column ts with
  | nil =>
    rw [lineTokensFrom] at hts
    obtain rfl := Except.ok.inj hts
    exact .nil
  | space hc _ ih =>
    rw [lineTokensFrom_space hc] at hts
    exact .space hc (ih hts)
  | @arrow cs _ _ ih =>
    exact .of_step (w := ['<', '-']) (lineTokensFrom.eq_2 ..) (List.cons_ne_nil _ _) ih hts
  | @notEqual cs _ _ ih =>
    exact .of_step (w := ['!', '=']) (lineTokensFrom.eq_3 ..) (List.cons_ne_nil _ _) ih hts
  | @symbol c _ _ _ hc _ ih =>
    exact .of_step (w := [c]) (lineTokensFrom_symbol (symbolKind?_facts hc).2 hc)
      (List.cons_ne_nil _ _) ih hts
  | number hne hw hcs _ ih => exact .of_step (lineTokensFrom_digits hne hw hcs) hne ih hts
  | word hw hcs _ ih =>
    refine .of_step (lineTokensFrom_word hw hcs) ?_ ih hts
    rintro rfl
    cases hw
  | @call f inside cs _ hf hinside _ ih =>
    have hcall : f ++ '(' :: (inside ++ ')' :: cs) = (f ++ '(' :: (inside ++ [')'])) ++ cs := by
      simp
    have hstep := @lineTokensFrom_parens f inside cs line column hf hinside.balanced
    rw [hcall] at hts hstep ⊢
    exact .of_step hstep (by simp) ih hts

theorem placed_of_lineTokensFrom {line column : Nat} {cs : List Char} {ts : List Token}
    (h : lineTokensFrom line column cs = .ok ts) : Placed column cs ts :=
  (splits_of_lineTokensFrom h).placed h

namespace Placed

variable {column : Nat} {cs : List Char} {ts : List Token}

theorem text_ne (h : Placed column cs ts) : ∀ t ∈ ts, t.text ≠ "" := by
  induction h with
  | nil => exact List.forall_mem_nil _
  | space _ _ ih => exact ih
  | token hne _ ih =>
    refine List.forall_mem_cons.2 ⟨fun hempty => hne ?_, ih⟩
    simpa using congrArg String.toList hempty

/-- Every token is the part of the text at its column. -/
theorem exists_append (h : Placed column cs ts) {t : Token} (ht : t ∈ ts) :
    ∃ front rest, cs = front ++ (t.text.toList ++ rest) ∧ t.column = column + front.length := by
  induction h with
  | nil => cases ht
  | @space column c cs ts _ _ ih =>
    obtain ⟨front, rest, rfl, hcolumn⟩ := ih ht
    refine ⟨c :: front, rest, rfl, ?_⟩
    rw [hcolumn, List.length_cons]
    omega
  | @token column kind w cs ts _ _ ih =>
    rcases List.mem_cons.1 ht with rfl | ht
    · exact ⟨[], cs, by rw [String.toList_ofList]; rfl, rfl⟩
    · obtain ⟨front, rest, rfl, hcolumn⟩ := ih ht
      refine ⟨w ++ front, rest, (List.append_assoc ..).symm, ?_⟩
      rw [hcolumn, List.length_append, Nat.add_assoc]

theorem le_column (h : Placed column cs ts) {t : Token} (ht : t ∈ ts) : column ≤ t.column := by
  obtain ⟨front, rest, -, hcolumn⟩ := h.exists_append ht
  omega

theorem stop_le (h : Placed column cs ts) {t : Token} (ht : t ∈ ts) :
    t.stop ≤ column + cs.length := by
  obtain ⟨front, rest, rfl, hcolumn⟩ := h.exists_append ht
  rw [Token.stop, hcolumn, List.length_append, List.length_append]
  omega

theorem text_isPrefix (h : Placed 0 cs ts) {t : Token} (ht : t ∈ ts) :
    t.text.toList <+: cs.drop t.column := by
  obtain ⟨front, rest, rfl, hcolumn⟩ := h.exists_append ht
  rw [hcolumn, Nat.zero_add, List.drop_left]
  exact List.prefix_append _ _

/-- No token reaches into a later one. -/
theorem apart (h : Placed column cs ts) : ts.Pairwise fun t u => t.stop ≤ u.column := by
  induction h with
  | nil => exact .nil
  | space _ _ ih => exact ih
  | token _ h ih =>
    refine List.pairwise_cons.2 ⟨fun u hu => ?_, ih⟩
    rw [Token.stop, String.toList_ofList]
    exact h.le_column hu

/-- Later tokens start further to the right. -/
theorem increasing (h : Placed column cs ts) : ts.Pairwise fun t u => t.column < u.column := by
  refine h.apart.imp_of_mem fun ht _ hstop => ?_
  have hlength := List.length_pos_of_ne_nil fun hempty =>
    h.text_ne _ ht (String.toList_inj.1 hempty)
  rw [Token.stop] at hstop
  omega

/-- What is in no token is blank. -/
theorem isSpace_of_outside (h : Placed column cs ts) {k : Nat} {c : Char} (hc : cs[k]? = some c)
    (houtside : ∀ t ∈ ts, ¬ (t.column ≤ column + k ∧ column + k < t.stop)) : isSpace c = true := by
  induction h generalizing k with
  | nil => cases hc
  | space hspace _ ih =>
    obtain _ | k := k
    · obtain rfl := Option.some.inj hc
      exact hspace
    · refine ih hc fun t ht hinside => houtside t ht ?_
      omega
  | @token column kind w cs ts _ _ ih =>
    obtain ⟨hfirst, houtside⟩ := List.forall_mem_cons.1 houtside
    rw [Token.stop, String.toList_ofList] at hfirst
    have hle : w.length ≤ k := by
      dsimp only at hfirst
      omega
    rw [List.getElem?_append_right hle] at hc
    refine ih hc fun t ht hinside => houtside t ht ?_
    omega

end Placed

/-! ### Calls -/

/-- Parentheses around a text whose parentheses match, behind a name or alone. -/
def IsCall (text : List Char) : Prop :=
  ∃ f inside, text = f ++ '(' :: (inside ++ [')']) ∧ (∀ c ∈ f, c ≠ '(' ∧ c ≠ ')') ∧ Matched inside

theorem matched_of_forall {cs : List Char} (h : ∀ c ∈ cs, c ≠ '(' ∧ c ≠ ')') : Matched cs := by
  induction cs with
  | nil => exact .nil
  | cons c cs ih =>
    rw [List.forall_mem_cons] at h
    exact .char h.1 (ih h.2)

theorem Matched.shuts {cs rest : List Char} {depth : Nat} (h : Matched cs)
    (hrest : Argument.Shuts depth rest) : Argument.Shuts depth (cs ++ rest) := by
  induction h generalizing depth rest with
  | nil => exact hrest
  | char hc _ ih => exact (Argument.shuts_cons_iff hc).2 (ih hrest)
  | @parens inside cs _ _ hinside ih =>
    rw [List.cons_append, List.append_assoc]
    exact Argument.shuts_leftParen.2
      (hinside (Argument.shuts_rightParen.2 ⟨Nat.succ_pos _, ih hrest⟩))

theorem IsCall.shuts {text : List Char} (h : IsCall text) : Argument.Shuts 0 text := by
  obtain ⟨f, inside, rfl, hf, hinside⟩ := h
  rw [Argument.shuts_append_iff hf]
  exact Argument.shuts_leftParen.2
    (hinside.shuts (Argument.shuts_rightParen.2 ⟨Nat.succ_pos _, rfl⟩))

/-- What is called a call is one. -/
theorem Splits.isCall {cs : List Char} {ws : List (TokenKind × String)} (h : Splits cs ws) :
    ∀ w ∈ ws, w.1 = .call → IsCall w.2.toList := by
  induction h with
  | nil => exact List.forall_mem_nil _
  | space _ _ ih => exact ih
  | arrow _ ih | notEqual _ ih | number _ _ _ _ ih => exact List.forall_mem_cons.2 ⟨nofun, ih⟩
  | symbol hc _ ih =>
    obtain ⟨-, -, -, hcall⟩ := kind_facts (.inl ⟨_, hc⟩)
    exact List.forall_mem_cons.2 ⟨fun h => absurd h hcall, ih⟩
  | @word w _ _ _ _ _ ih =>
    obtain ⟨-, -, -, hcall⟩ := kind_facts (.inr ⟨w, rfl⟩)
    exact List.forall_mem_cons.2 ⟨fun h => absurd h hcall, ih⟩
  | @call f inside _ _ hf hinside _ ih =>
    refine List.forall_mem_cons.2 ⟨fun _ => ⟨f, inside, String.toList_ofList, ?_, hinside⟩, ih⟩
    intro c hc
    rcases hf with rfl | hf
    · cases hc
    · exact Text.ne_parens_of_isWordChar (Text.isWordChar_of_mem_identifier hf hc)

/-! ### Lines -/

/-- The tokens of a line are all of it, up to a column. -/
structure Covers (cs : List Char) (stop : Nat) (ts : List Token) : Prop where
  /-- No token is empty. -/
  text_ne : ∀ t ∈ ts, t.text ≠ ""
  /-- No token is an end. -/
  kind_ne : ∀ t ∈ ts, t.kind ≠ .lineEnd ∧ t.kind ≠ .atEnd
  /-- Their columns increase. -/
  increasing : ts.Pairwise fun t u => t.column < u.column
  /-- None reaches into a later one. -/
  apart : ts.Pairwise fun t u => t.stop ≤ u.column
  /-- The text of a token is what the line has at its column. -/
  text_isPrefix : ∀ t ∈ ts, t.text.toList <+: cs.drop t.column
  /-- None reaches behind the column. -/
  stop_le : ∀ t ∈ ts, t.stop ≤ stop
  /-- What is in none of them is blank. -/
  blank : ∀ column < stop, (∀ t ∈ ts, ¬ (t.column ≤ column ∧ column < t.stop)) →
    ∃ c ∈ [' ', '\t', '\r'], cs[column]? = some c
  /-- A call ends where its first parenthesis is closed, and is not refused for parentheses. -/
  call : ∀ t ∈ ts, t.kind = .call → IsCall t.text.toList ∧ ∀ fault text position,
    Call.parse t.text = .error (.argumentSyntax fault text position) → ¬ fault.IsUnbalanced

theorem mem_of_isSpace {c : Char} (h : isSpace c = true) : c ∈ [' ', '\t', '\r'] := by
  simpa [isSpace, or_assoc] using h

/-- The lexer covers a line up to its comment. -/
theorem covers_of_lineTokens {number : Nat} {line : List Char} {ts : List Token}
    (h : lineTokens number (stripComment line) = .ok ts) :
    Covers line (stripComment line).length ts := by
  have hplaced : Placed 0 (stripComment line) ts := placed_of_lineTokensFrom h
  have hsplits : Splits (stripComment line) (ts.map Token.word) := splits_of_lineTokensFrom h
  have hword : ∀ {t : Token}, t ∈ ts → t.word ∈ ts.map Token.word := List.mem_map_of_mem
  refine ⟨hplaced.text_ne, fun t ht => ?_, hplaced.increasing, hplaced.apart, fun t ht => ?_,
    fun t ht => ?_, fun column hcolumn houtside => ?_, fun t ht hkind => ?_⟩
  · have hsound := hsplits.sound t.word (hword ht)
    exact ⟨hsound.inLine, hsound.inText⟩
  · exact (hplaced.text_isPrefix ht).trans ((stripComment_isPrefix line).drop _)
  · rw [← Nat.zero_add (stripComment line).length]
    exact hplaced.stop_le ht
  · refine ⟨_, mem_of_isSpace ?_, List.prefix_iff_getElem?.1 (stripComment_isPrefix line) _ hcolumn⟩
    refine hplaced.isSpace_of_outside (List.getElem?_eq_getElem hcolumn) ?_
    rwa [Nat.zero_add]
  · have hcall := hsplits.isCall t.word (hword ht) hkind
    exact ⟨hcall, fun _ _ _ => Call.not_isUnbalanced_of_parse hcall.shuts⟩

/-! ### Texts -/

/-- A part of a stream comes from a line: the tokens that cover the line up to its comment, and
one token for its end. -/
def ComesFrom (line : List Char × Nat) (block : TokenStream) : Prop :=
  ∃ stop ts, StopsAt line.1 stop ∧ Covers line.1 stop ts ∧
    block = ts.map (⟨line.2, ·⟩) ++ [⟨line.2, .lineEnd, "", stop⟩]

theorem comesFrom_of_ofChars {line : List Char} {number : Nat} {t : TokenLine}
    (h : TokenLine.ofChars number line = .ok t) : ComesFrom (line, number) t.reader.spots := by
  obtain ⟨ts, hts, ht⟩ := Bounded.bind_eq_ok.1 h
  obtain rfl := Except.ok.inj ht
  exact ⟨_, ts, stopsAt_stripComment line, covers_of_lineTokens hts, rfl⟩

/-- The lexer loses nothing of a text that it accepts. The stream of its tokens consists of one
part for each line, in order, and a last token for the end of the text. The part of a line has one
token for its end, and in front of it tokens that are the text of the line at their columns, one
behind the other, up to the comment, with nothing but blanks around them. The calls among them go
from one parenthesis to the one that matches, so they are not refused for parentheses later. -/
theorem tokenLines_lossless {source : String} {lines : List TokenLine}
    (h : tokenLines source = .ok lines) :
    ∃ blocks : List TokenStream,
      stream lines = blocks.flatten ++ [⟨(splitLines source.toList).length, .atEnd, "", 0⟩] ∧
      List.Forall₂ ComesFrom ((splitLines source.toList).zipIdx 1) blocks := by
  have hlines := Bounded.forall₂_of_mapM h
  refine ⟨lines.map (·.reader.spots), ?_, ?_⟩
  · rw [stream, List.flatMap_def, ← hlines.length_eq, List.length_zipIdx]
  · rw [List.forall₂_map_right_iff]
    exact hlines.imp fun _ _ => comesFrom_of_ofChars

/-- A call with a call inside, in front of a comment with an open parenthesis, and a second line
with nothing but a comment. -/
def commentedCall : String :=
  "y <- F((G,x1),-2)\t// (\n#"

theorem splits_commentedCall :
    List.Forall₂ (fun line ws => Splits (stripComment line) ws) (splitLines commentedCall.toList)
      [[(.identifier, "y"), (.arrow, "<-"), (.call, "F((G,x1),-2)")], []] := by
  have hlines : splitLines commentedCall.toList = ["y <- F((G,x1),-2)\t// (".toList, ['#']] := by
    decide +kernel
  have hstrip : stripComment "y <- F((G,x1),-2)\t// (".toList = "y <- F((G,x1),-2)\t".toList := by
    decide +kernel
  have hinner : Matched ['G', ',', 'x', '1'] := matched_of_forall (by simp)
  have hafter : Matched [',', '-', '2'] := matched_of_forall (by simp)
  have hinside : Matched ('(' :: (['G', ',', 'x', '1'] ++ ')' :: [',', '-', '2'])) :=
    .parens hinner hafter
  have hcall : Splits (['F'] ++ '(' :: (_ ++ ')' :: ['\t'])) _ :=
    .call (.inr (by decide +kernel)) hinside (.space rfl .nil)
  have hword : Splits (['y'] ++ (' ' :: '<' :: '-' :: ' ' :: _)) _ :=
    .word (by decide +kernel) (by decide +kernel) (.space rfl (.arrow (.space rfl hcall)))
  rw [hlines]
  refine .cons ?_ (.cons .nil .nil)
  rw [hstrip]
  exact hword

theorem commentedCall_lossless :
    ∃ lines, tokenLines commentedCall = .ok lines ∧
      lines.map TokenLine.words =
        [[(.identifier, "y"), (.arrow, "<-"), (.call, "F((G,x1),-2)")], []] ∧
      ∃ blocks : List TokenStream,
        stream lines = blocks.flatten ++ [⟨2, .atEnd, "", 0⟩] ∧
        List.Forall₂ ComesFrom ((splitLines commentedCall.toList).zipIdx 1) blocks := by
  obtain ⟨lines, hlines, hwords⟩ :=
    exists_tokenLines (splits_commentedCall.imp fun _ _ h => h.lexes)
  exact ⟨lines, hlines, hwords, tokenLines_lossless hlines⟩

end Assembly

end RegisterMachine
