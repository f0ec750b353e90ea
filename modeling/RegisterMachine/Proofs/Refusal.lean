import RegisterMachine.Proofs.ArgumentReader
import RegisterMachine.Proofs.TokenStream
import RegisterMachine.Proofs.UnreadableText
import RegisterMachine.Proofs.Validation

/-!
# How a text is refused

A text that spells no programs is complained about, at a line and a column. There are two ways
around this: the text is refused for a character that cannot be read, or for a number or a name with
more digits than a numeral may have. If the programs are checked as a library, they may also be
refused for an unknown label, an unknown function, or a circle of calls. There is no other failure.

Each reader fails in the same two ways, with a complaint or for a word of its line, so there is one
lemma for each of them, and the failures of lines, sections and texts follow from these.

* `Assembly.Overlong` — words with too many digits, and calls with such a word;
* `Assembly.Declines` — what readers fail with;
* `Assembly.failsAs_readLine`, `Assembly.failsAs_parse_of_tokenLines` — the failures of lines and
  texts;
* `Assembly.assemble_refusals` — all failures.
-/

namespace RegisterMachine

/-! ### Numerals and names -/

namespace Text

theorem numeral_of_isDecimal {cs : List Char} (h : ∀ c ∈ cs, isDecimal c = true)
    {fault : NumeralFault} (hfault : numeral cs = .error fault) :
    fault = .tooLong ∧ maxDigits < cs.countP isDecimal := by
  rw [numeral] at hfault
  split at hfault
  · rename_i hlong
    rw [List.countP_eq_length.2 h]
    exact ⟨(Except.error.inj hfault).symm, hlong⟩
  · rw [if_pos (List.all_eq_true.2 h)] at hfault
    cases hfault

end Text

/-- A text that names a variable is refused for nothing but its digits. -/
theorem Variable.parse_eq_error {s : String} {e : Error} (h : Variable.parse s = .error e) :
    e = .invalidVariable s ∨ e = .numeral .tooLong ∧ ¬ Argument.FewDigits s := by
  rw [parse] at h
  split at h
  · exact .inl (Except.error.inj h).symm
  · rename_i v hname
    split at h
    · rename_i hoverlong
      refine .inr ⟨(Except.error.inj h).symm, fun hfew => ?_⟩
      rw [(isOverlong_eq_false_iff hname).2 hfew] at hoverlong
      cases hoverlong
    · cases h

/-- A text that names a label is refused for nothing but its digits. -/
theorem Label.parse_eq_error {s : String} {e : Error} (h : Label.parse s = .error e) :
    e = .invalidLabel s ∨ e = .numeral .tooLong ∧ ¬ Argument.FewDigits s := by
  rw [parse] at h
  split at h
  · cases h
  · rename_i label hspelling
    have hspelled : Spelled s label := hspelling
    split at h
    · rename_i hoverlong
      refine .inr ⟨(Except.error.inj h).symm, fun hfew => ?_⟩
      rw [hspelled.isOverlong_eq_false_iff.2 hfew] at hoverlong
      cases hoverlong
    · cases h
  · exact .inl (Except.error.inj h).symm

/-! ### Arguments -/

namespace Argument

/-- Some word of a text is a number or a name with too many digits. -/
def HasOverlong (cs : List Char) : Prop :=
  ∃ ws, Splits cs ws ∧ ∃ w ∈ ws, (w.1 = .number ∨ w.1 = .identifier) ∧ ¬ FewDigits w.2

theorem tooLong_of_integer {text : String} (h : isInteger text.toList = true)
    {fault : Text.NumeralFault} (hfault : integer text = .error fault) :
    fault = .tooLong ∧ ¬ FewDigits text := by
  have hlong : ¬ FewDigits text := fun hfew => by
    rw [integer_of_isInteger h hfew] at hfault
    cases hfault
  refine ⟨?_, hlong⟩
  rw [integer] at hfault
  split at hfault
  · rename_i digits htext
    rw [htext] at h
    exact (Text.numeral_of_isDecimal (isInteger_cons h).2.1 (Bounded.map_eq_error.1 hfault)).1
  · rename_i digits htext
    rw [htext] at h
    exact (Text.numeral_of_isDecimal (isInteger_cons h).2.1 (Bounded.map_eq_error.1 hfault)).1
  · rename_i hminus hplus
    exact (Text.numeral_of_isDecimal (isDecimal_of_isInteger h hminus hplus)
      (Bounded.map_eq_error.1 hfault)).1

/-- A text is refused for the value of a number only if the number is too long. -/
theorem hasOverlong_of_ofText {s : String} {fault : Text.NumeralFault}
    (h : ofText s = .error (.numeral fault)) : fault = .tooLong ∧ HasOverlong s.toList := by
  cases hts : tokens s.toList with
  | error failure =>
    rw [ofText, hts] at h
    obtain rfl := Except.error.inj h
    obtain ⟨_, _, hmisplaced⟩ := misplaced_of_tokensFrom hts
    cases hmisplaced
  | ok ts =>
    obtain ⟨hsplits, -⟩ := splits_of_tokensFrom hts
    rw [ofText, hts] at h
    obtain ⟨w, hw, hnumber, hinteger⟩ := failsWithin_ofTokens s.toList.length ts _ h
    obtain ⟨rfl, hlong⟩ := tooLong_of_integer ((hsplits.sound w hw).2.2 hnumber) hinteger
    exact ⟨rfl, _, hsplits, w, hw, .inl hnumber, hlong⟩

/-- The names among arguments are words of the text that spells them. -/
theorem Derives.name_mem {n : Nonterminal} {ws : List (TokenKind × String)} {as : List Argument}
    (h : Derives n ws as) {text : String} (htext : .name text ∈ walk as) :
    (.identifier, text) ∈ ws := by
  induction h with
  | empty | stop => cases htext
  | list _ _ first others =>
    rw [walk, List.mem_append] at htext
    rcases htext with hfirst | hothers
    · exact List.mem_append_left _ (first (by rwa [walk_singleton]))
    · exact List.mem_append_right _ (others hothers)
  | comma _ _ _ first others =>
    rw [walk, List.mem_append] at htext
    refine List.mem_cons_of_mem _ ?_
    rcases htext with hfirst | hothers
    · exact List.mem_append_left _ (first (by rwa [walk_singleton]))
    · exact List.mem_append_right _ (others hothers)
  | number =>
    rw [walk_singleton, nodes, List.mem_singleton] at htext
    cases htext
  | name hw =>
    rw [walk_singleton, nodes, List.mem_singleton] at htext
    obtain rfl := Argument.name.inj htext
    exact List.mem_singleton.2 (Prod.ext hw.symm rfl)
  | inside _ _ _ _ ih | before _ _ _ _ ih =>
    rw [walk_singleton, nodes, List.mem_cons] at htext
    have hmem := ih (htext.resolve_left nofun)
    exact List.mem_cons_of_mem _ (List.mem_cons_of_mem _ (List.mem_append_left _ hmem))

end Argument

theorem Call.parse_eq_error {s : String} {e : Error} (h : Call.parse s = .error e) :
    (∃ fault position, e = .argumentSyntax fault s position) ∨
      e = .numeral .tooLong ∧ Argument.HasOverlong s.toList := by
  obtain ⟨failure, hfailure, rfl⟩ := Bounded.mapError_eq_error.1 h
  cases failure with
  | misplaced fault position => exact .inl ⟨fault, position, rfl⟩
  | numeral fault =>
    rcases Argument.callOfText_eq_error hfailure with htext | hcall
    · obtain ⟨rfl, hlong⟩ := Argument.hasOverlong_of_ofText htext
      exact .inr ⟨rfl, hlong⟩
    · cases hcall

namespace Assembly

open Bounded

/-! ### Lines -/

/-- A number or a name with too many digits, or a call with such a word in it. -/
inductive Overlong : TokenKind × String → Prop
  | word {w : TokenKind × String} (hw : w.1 = .number ∨ w.1 = .identifier)
      (hlong : ¬ Argument.FewDigits w.2) : Overlong w
  | inCall {w : TokenKind × String} (hw : w.1 = .call)
      (hlong : Argument.HasOverlong w.2.toList) : Overlong w

/-- One of the words is too long. -/
def SomeOverlong (ws : List (TokenKind × String)) : Prop :=
  ∃ w ∈ ws, Overlong w

/-- Something is complained about, or it is refused for too many digits, which it has. -/
def Declines (overlong : Prop) (e : Error) : Prop :=
  (∃ fault line column, e = .assembly fault line column) ∨ e = .numeral .tooLong ∧ overlong

theorem declines_complaint {overlong : Prop} {fault : Fault} {line column : Nat} :
    Declines overlong (.assembly fault line column) :=
  .inl ⟨fault, line, column, rfl⟩

section Operands

variable {α β : Type} {ws : List (TokenKind × String)} {r : LineReader} {t : Token}

theorem failsAs_complain {fault : Fault} :
    FailsAs (Declines (SomeOverlong ws)) (r.complain t fault : Except Error α) :=
  failsAs_error declines_complaint

/-- Nothing is read after a complaint. -/
theorem failsAs_complain_bind {fault : Fault} {f : α → Except Error β} :
    FailsAs (Declines (SomeOverlong ws)) ((r.complain t fault : Except Error α) >>= f) :=
  failsAs_complain.bind fun _ h => nomatch h

theorem failsAs_expect_bind {kind : TokenKind} {f : Token × LineReader → Except Error β}
    (hf : r.next.kind = kind → FailsAs (Declines (SomeOverlong ws)) (f (r.next, r.skip))) :
    FailsAs (Declines (SomeOverlong ws)) (r.expect kind >>= f) := by
  rw [LineReader.expect]
  split
  · rename_i hkind
    exact hf hkind
  · exact failsAs_complain_bind

theorem failsAs_variableOf (ht : t.kind = .identifier) (hmem : t.word ∈ ws) :
    FailsAs (Declines (SomeOverlong ws)) (r.variableOf t) := by
  intro e h
  rw [LineReader.variableOf] at h
  split at h
  · exact failsAs_complain e h
  · rename_i hother
    rcases Variable.parse_eq_error h with rfl | ⟨rfl, hlong⟩
    · exact absurd h (hother _)
    · exact .inr ⟨rfl, _, hmem, .word (.inr ht) hlong⟩

theorem failsAs_labelOf (ht : t.kind = .identifier) (hmem : t.word ∈ ws) :
    FailsAs (Declines (SomeOverlong ws)) (r.labelOf t) := by
  intro e h
  rw [LineReader.labelOf] at h
  split at h
  · exact failsAs_complain e h
  · rename_i hother
    rcases Label.parse_eq_error h with rfl | ⟨rfl, hlong⟩
    · exact absurd h (hother _)
    · exact .inr ⟨rfl, _, hmem, .word (.inr ht) hlong⟩

theorem failsAs_callOf (ht : t.kind = .call) (hmem : t.word ∈ ws) :
    FailsAs (Declines (SomeOverlong ws)) (r.callOf t) := by
  intro e h
  rw [LineReader.callOf] at h
  split at h
  · exact failsAs_complain e h
  · rename_i hother
    rcases Call.parse_eq_error h with ⟨fault, position, rfl⟩ | ⟨rfl, hlong⟩
    · exact absurd h (hother _ _ _)
    · exact .inr ⟨rfl, _, hmem, .inCall ht hlong⟩

theorem failsAs_numberOf (hws : ∀ w ∈ ws, Sound w) (ht : t.kind = .number) (hmem : t.word ∈ ws) :
    FailsAs (Declines (SomeOverlong ws)) (LineReader.numberOf t) := by
  intro e h
  obtain ⟨fault, hfault, rfl⟩ := mapError_eq_error.1 h
  obtain ⟨rfl, hlong⟩ := Text.numeral_of_isDecimal ((hws _ hmem).number ht) hfault
  exact .inr ⟨rfl, _, hmem, .word (.inl ht) (Nat.not_le.2 hlong)⟩

end Operands

namespace LineReader

/-! ### Statements -/

section Statements

-- The words of the line, of which those in front of the reader are left.
variable {ws : List (TokenKind × String)} {r : LineReader}

theorem words_skip_subset (hr : r.words ⊆ ws) : r.skip.words ⊆ ws :=
  fun _ hw => hr (List.map_subset _ (fun _ => List.mem_of_mem_tail) hw)

theorem word_next_mem (hr : r.words ⊆ ws) {kind : TokenKind} (h : r.next.kind = kind)
    (hkind : kind ≠ .lineEnd) : r.next.word ∈ ws :=
  hr (by rw [words_of_next h hkind]; exact List.mem_cons_self)

theorem failsAs_finish : FailsAs (Declines (SomeOverlong ws)) r.finish := by
  rw [finish]
  split
  · exact failsAs_ok _
  · exact failsAs_complain

theorem failsAs_readTarget (hr : r.words ⊆ ws) :
    FailsAs (Declines (SomeOverlong ws)) r.readTarget := by
  refine failsAs_expect_bind fun hname => ?_
  refine (failsAs_labelOf hname (word_next_mem hr hname (by decide))).bind fun label _ => ?_
  cases label with
  | none => exact failsAs_complain
  | some label => exact failsAs_ok _

theorem failsAs_readGoto (hr : r.words ⊆ ws) : FailsAs (Declines (SomeOverlong ws)) r.readGoto :=
  failsAs_expect_bind fun _ => failsAs_readTarget (words_skip_subset hr)

variable (hws : ∀ w ∈ ws, Sound w)
include hws

theorem failsAs_readCondition (hr : r.words ⊆ ws) :
    FailsAs (Declines (SomeOverlong ws)) r.readCondition := by
  refine failsAs_expect_bind fun hname => ?_
  refine (failsAs_variableOf hname (word_next_mem hr hname (by decide))).bind fun v _ => ?_
  have hcomparison : r.skip.words ⊆ ws := words_skip_subset hr
  have hoperand : r.skip.skip.words ⊆ ws := words_skip_subset hcomparison
  have hgoto : r.skip.skip.skip.words ⊆ ws := words_skip_subset hoperand
  dsimp only
  split
  · refine failsAs_expect_bind fun hnumber => ?_
    refine (failsAs_numberOf hws hnumber (word_next_mem hoperand hnumber (by decide))).bind
      fun k _ => ?_
    dsimp only
    split
    · exact failsAs_complain_bind
    · exact (failsAs_readGoto hgoto).bind fun _ _ => failsAs_ok _
  · split
    · rename_i hnumber
      exact (failsAs_numberOf hws hnumber (word_next_mem hoperand hnumber (by decide))).bind
        fun k _ => (failsAs_readGoto hgoto).bind fun _ _ => failsAs_ok _
    · rename_i hname'
      exact (failsAs_variableOf hname' (word_next_mem hoperand hname' (by decide))).bind
        fun source _ => (failsAs_readGoto hgoto).bind fun _ _ => failsAs_ok _
    · rename_i hcall
      exact (failsAs_callOf hcall (word_next_mem hoperand hcall (by decide))).bind
        fun call _ => (failsAs_readGoto hgoto).bind fun _ _ => failsAs_ok _
    · exact failsAs_complain
  · exact failsAs_complain

theorem failsAs_readCount (hr : r.words ⊆ ws) (v source : Variable) :
    FailsAs (Declines (SomeOverlong ws)) (r.readCount v source) := by
  refine failsAs_expect_bind fun hnumber => ?_
  have hmem : r.skip.next.word ∈ ws := word_next_mem (words_skip_subset hr) hnumber (by decide)
  dsimp only
  split
  · exact failsAs_complain_bind
  · refine (failsAs_numberOf hws hnumber hmem).bind fun k _ => ?_
    split
    · exact failsAs_complain_bind
    · exact failsAs_ok _

theorem failsAs_readAssignment (hr : r.words ⊆ ws) (hname : r.next.kind = .identifier) :
    FailsAs (Declines (SomeOverlong ws)) r.readAssignment := by
  refine (failsAs_variableOf hname (word_next_mem hr hname (by decide))).bind fun v _ => ?_
  refine failsAs_expect_bind fun _ => ?_
  have hoperand : r.skip.skip.words ⊆ ws := words_skip_subset (words_skip_subset hr)
  dsimp only
  split
  · rename_i hnumber
    exact (failsAs_numberOf hws hnumber (word_next_mem hoperand hnumber (by decide))).bind
      fun k _ => failsAs_ok _
  · rename_i hcall
    exact (failsAs_callOf hcall (word_next_mem hoperand hcall (by decide))).bind
      fun call _ => failsAs_ok _
  · rename_i hname'
    refine (failsAs_variableOf hname' (word_next_mem hoperand hname' (by decide))).bind
      fun source _ => ?_
    split
    · exact failsAs_readCount hws (words_skip_subset hoperand) v source
    · exact failsAs_ok _
  · exact failsAs_complain

theorem failsAs_readOperation (hr : r.words ⊆ ws) :
    FailsAs (Declines (SomeOverlong ws)) r.readOperation := by
  rw [readOperation]
  split
  · exact (failsAs_readTarget (words_skip_subset hr)).bind fun _ _ => failsAs_ok _
  · exact failsAs_readCondition hws (words_skip_subset hr)
  · rename_i hname
    exact failsAs_readAssignment hws hr hname
  · exact failsAs_complain

omit hws in
theorem failsAs_readLabel (hr : r.words ⊆ ws) (declared : List (Label × Nat)) :
    FailsAs (Declines (SomeOverlong ws)) (r.readLabel declared) := by
  rw [readLabel]
  split
  · refine failsAs_expect_bind fun hname => ?_
    have hmem : r.skip.next.word ∈ ws := word_next_mem (words_skip_subset hr) hname (by decide)
    refine (failsAs_labelOf hname hmem).bind fun label _ => ?_
    split
    · exact failsAs_complain
    · split
      · exact failsAs_complain
      · exact failsAs_expect_bind fun _ => failsAs_ok _
  · exact failsAs_ok _

theorem failsAs_readStatement (hr : r.words ⊆ ws) (declared : List (Label × Nat)) :
    FailsAs (Declines (SomeOverlong ws)) (r.readStatement declared) := by
  refine (failsAs_readLabel hr declared).bind fun ⟨label, r₁⟩ hlabel => ?_
  have hr₁ : r₁.words ⊆ ws := by
    rcases spells_of_readLabel hlabel with ⟨-, rfl⟩ | ⟨w₁, w₂, w₃, l, hwords, -⟩
    · exact hr
    · rw [hwords] at hr
      exact fun w hw => hr (List.mem_append_right [w₁, w₂, w₃] hw)
  refine (failsAs_readOperation hws hr₁).bind fun _ _ => ?_
  exact failsAs_finish.bind fun _ _ => failsAs_ok _

omit hws in
theorem failsAs_readHeader : FailsAs (Declines (SomeOverlong ws)) r.readHeader :=
  failsAs_expect_bind fun _ => failsAs_finish.bind fun _ _ => failsAs_ok _

end Statements

end LineReader

/-- A line is refused for its words. -/
theorem failsAs_readLine {line : TokenLine} (hline : ∀ w ∈ line.words, Sound w)
    (defaultName : String) (ss : List Section) :
    FailsAs (Declines (SomeOverlong line.words)) (readLine defaultName ss line) := by
  rw [readLine]
  dsimp only
  split
  · exact failsAs_ok _
  · exact LineReader.failsAs_readHeader.bind fun _ _ => failsAs_ok _
  · exact LineReader.failsAs_readHeader.bind fun _ _ => failsAs_ok _
  · exact (LineReader.failsAs_readStatement hline (List.Subset.refl _) _).bind
      fun _ _ => failsAs_ok _

/-! ### Sections -/

/-- A program whose labels are distinct is refused only for a name with too many digits. -/
theorem tooLong_of_ofCode? {name : String} {code : List Instruction} {e : Error}
    (hnodup : (declaredLabels code).Nodup) (h : Program.ofCode? name code = .error e) :
    e = .numeral .tooLong ∧ ∃ i ∈ code, i.hasOverlongName = true := by
  have hdistinct : ∀ {code : List Instruction} (hcode : (declaredLabels code).Nodup),
      Program.ofDistinct? name code = .ok ⟨name, code, hcode⟩ :=
    fun hcode => Program.ofDistinct?_eq_ok ⟨name, _, hcode⟩
  rw [Program.ofCode?] at h
  split at h
  · cases (hdistinct hnodup).symm.trans h
  · rename_i k hk
    have htake : (declaredLabels (code.take (k + 1))).Nodup :=
      hnodup.sublist ((List.take_sublist _ _).filterMap _)
    rw [hdistinct htake, ok_bind] at h
    obtain ⟨hlt, hname, -⟩ := List.findIdx?_eq_some_iff_getElem.1 hk
    exact ⟨(Except.error.inj h).symm, _, List.getElem_mem hlt, hname⟩

/-- Sections whose labels are distinct are refused only for such a name. -/
theorem failsAs_ofSections {lineCount : Nat} {ss : List Section}
    (hss : ∀ s ∈ ss, (declaredLabels s.code).Nodup) :
    FailsAs (Declines (∃ s ∈ ss, ∃ i ∈ s.code, i.hasOverlongName = true))
      (ofSections lineCount ss) := by
  rw [ofSections]
  refine FailsAs.bind ?_ fun _ _ => ?_
  · rw [mainSection]
    split
    · exact failsAs_error declines_complaint
    · exact failsAs_ok _
    · exact failsAs_error declines_complaint
  · split
    · exact failsAs_error declines_complaint
    · refine FailsAs.bind ?_ fun programs _ => ?_
      · intro e h
        obtain ⟨front, s, rest, rfl, -, hs⟩ := mapM_eq_error_iff.1 h
        have hmem : s ∈ front ++ s :: rest := List.mem_append_right _ List.mem_cons_self
        obtain ⟨rfl, i, hi, hname⟩ := tooLong_of_ofCode? (hss s hmem) (map_eq_error.1 hs)
        exact .inr ⟨rfl, s, hmem, i, hi, hname⟩
      · split
        · exact failsAs_ok _
        · exact failsAs_error declines_complaint

/-- The call of an operation is one of its words. -/
theorem SpellsOperation.exists_spellsCall {Fits : String → Prop} {ws : List (TokenKind × String)}
    {o : Operation} {call : Call} (h : SpellsOperation Fits ws o) (hcall : o.call? = some call) :
    ∃ w ∈ ws, SpellsCall Fits w call := by
  cases h with
  | quotation _ _ hc | jumpEqualFunction _ _ _ hc =>
    obtain rfl := Option.some.inj hcall
    exact ⟨_, by simp, hc⟩
  | _ => cases hcall

/-- A name in the arguments of a statement stands in a call of its line. -/
theorem someOverlong_of_hasOverlongName {ws : List (TokenKind × String)} {i : Instruction}
    (h : Denotes Argument.FewDigits ws (.statement i)) (hname : i.hasOverlongName = true) :
    SomeOverlong ws := by
  obtain ⟨ws', o, hws', ho, hi⟩ : ∃ ws' o, ws' ⊆ ws ∧ SpellsOperation Argument.FewDigits ws' o ∧
      i.operation = o := by
    cases h with
    | plain ho => exact ⟨_, _, List.Subset.refl _, ho, rfl⟩
    | @labelled l n r ws' _ _ _ _ _ _ ho =>
      exact ⟨ws', _, List.subset_append_right [l, n, r] _, ho, rfl⟩
  -- If no word were too long, all names would have short numbers.
  by_contra hnone
  have hfit : (Meaning.statement i).NamesFit Argument.FewDigits := by
    intro s hs _
    by_contra hlong
    rw [Instruction.arguments, hi] at hs
    cases hcall : o.call? with
    | none =>
      rw [hcall] at hs
      cases hs
    | some call =>
      rw [hcall] at hs
      obtain ⟨w, hw, hkind, vs, hsplits, hderives, -⟩ := ho.exists_spellsCall hcall
      have hmem : .name s ∈ Argument.walk [call.toArgument] := by
        rw [Argument.walk_singleton, Call.toArgument, Argument.nodes]
        exact List.mem_cons_of_mem _ hs
      have hoverlong : Argument.HasOverlong w.2.toList :=
        ⟨vs, hsplits, _, hderives.name_mem hmem, .inr rfl, hlong⟩
      exact hnone ⟨w, hws' hw, .inCall hkind hoverlong⟩
  rw [hasOverlongName_eq_false_iff.2 hfit] at hname
  cases hname

/-! ### Texts -/

/-- Some line of the text is made of words of which one is too long. -/
def HasOverlong (source : String) : Prop :=
  ∃ cs ∈ splitLines source.toList, ∃ ws, Splits (stripComment cs) ws ∧ SomeOverlong ws

/-- Texts that are made of words are refused for what the words are. -/
theorem failsAs_parse_of_tokenLines {source : String} {lines : List TokenLine}
    (hlines : tokenLines source = .ok lines) (defaultName : String) :
    FailsAs (Declines (HasOverlong source)) (parse source defaultName) := by
  have hsound := sound_of_tokenLines hlines
  have hline : ∀ {line : TokenLine}, line ∈ lines → SomeOverlong line.words →
      HasOverlong source := by
    intro line hline hoverlong
    obtain ⟨cs, hcs, hsplits⟩ := exists_left_of_forall₂ (splits_of_tokenLines hlines) hline
    exact ⟨cs, hcs, _, hsplits, hoverlong⟩
  rw [parse, hlines, ok_bind]
  -- The lines fail for their own words. The sections are put together without looking at words, so
  -- a name with too many digits has to be led back to the line that it came from.
  refine FailsAs.bind ?_ fun ss hss => ?_
  · intro e h
    obtain ⟨line, hmem, ss, hread⟩ := exists_of_foldlM_eq_error (map_eq_error.1 h)
    rcases failsAs_readLine (hsound line hmem) defaultName ss e hread with hcomplaint | ⟨rfl, hlong⟩
    · exact .inl hcomplaint
    · exact .inr ⟨rfl, hline hmem hlong⟩
  · obtain ⟨⟨ms, hms, hparts⟩, hnodup⟩ :=
      (sections_eq_ok_iff fun line hmem w hw => (hsound line hmem w hw).inLine).1 ⟨ss, hss, rfl⟩
    rw [List.forall_mem_map] at hnodup
    intro e h
    rcases failsAs_ofSections hnodup e h with hcomplaint | ⟨rfl, s, hs, i, hi, hname⟩
    · exact .inl hcomplaint
    · have hcode : i ∈ (parts defaultName ms).flatMap Part.code := by
        rw [← hparts]
        exact List.mem_flatMap.2 ⟨s.part, List.mem_map_of_mem hs, hi⟩
      rw [flatMap_code_parts] at hcode
      obtain ⟨m, hm, hmi⟩ := List.mem_filterMap.1 hcode
      obtain ⟨line, hmem, hdenotes⟩ := exists_left_of_forall₂ hms hm
      cases m with
      | blank | header => cases hmi
      | statement j =>
        obtain rfl := Option.some.inj hmi
        exact .inr ⟨rfl, hline hmem (someOverlong_of_hasOverlongName hdenotes hname)⟩

/-- A text is refused for a character if and only if it gets to one that cannot be read. -/
theorem parse_eq_unreadable_iff {source defaultName : String} {c : Char} {line column : Nat} :
    parse source defaultName = .error (.unreadable c line column) ↔
      UnreadableAt source c line column := by
  rw [← tokenLines_eq_unreadable_iff]
  cases hlines : tokenLines source with
  | error e =>
    rw [parse, hlines, error_bind, Except.error.injEq, Except.error.injEq]
  | ok lines =>
    constructor
    · intro h
      rcases failsAs_parse_of_tokenLines hlines defaultName _ h with ⟨_, _, _, he⟩ | ⟨he, -⟩ <;>
        cases he
    · intro h
      cases h

/-- What the assembler reports: malformed text, and what is wrong with a library if the programs are
checked as one. -/
def Reports (validate : Bool) : Error → Prop
  | .assembly _ _ _ => True
  | .unknownLabel _ _ _ | .unknownFunction _ _ | .cyclicCall _ => validate = true
  | _ => False

/-- The other failures of reading a text. -/
theorem reports_of_parse {source defaultName : String} {e : Error} (validate : Bool)
    (h : parse source defaultName = .error e) :
    Reports validate e ∨ (∃ c line column, e = .unreadable c line column) ∨
      e = .numeral .tooLong ∧ HasOverlong source := by
  cases hlines : tokenLines source with
  | error e' =>
    rw [parse, hlines, error_bind] at h
    obtain rfl := Except.error.inj h
    rcases refuses_of_tokenLines hlines with ⟨_, _, _, rfl⟩ | hunreadable
    · exact .inl trivial
    · exact .inr (.inl hunreadable)
  | ok lines =>
    rcases failsAs_parse_of_tokenLines hlines defaultName e h with ⟨_, _, _, rfl⟩ | hlong
    · exact .inl trivial
    · exact .inr (.inr hlong)

end Assembly

/-- A library that fails its checks has an unknown function or label, or a circle of calls. -/
theorem Library.reports_of_validate {lib : Library} {e : Error} (h : lib.validate = .error e) :
    Assembly.Reports true e := by
  rw [validate, validateWith] at h
  split at h
  · obtain rfl := Except.error.inj h
    exact rfl
  · rcases hforM : lib.programs.forM Program.validate with cause | u
    · rw [hforM] at h
      obtain rfl := Except.error.inj h
      obtain ⟨p, -, hp⟩ := exists_of_forM_eq_error hforM
      obtain ⟨_, _, _, rfl, -⟩ := Program.exists_dangles_of_validate_eq_error hp
      exact rfl
    · rw [hforM, Bounded.ok_bind] at h
      split at h
      · obtain rfl := Except.error.inj h
        exact rfl
      · cases h

namespace Assembly

/-- An assembly is refused as a text, or as a library. -/
theorem parse_or_validate_of_assemble {source defaultName : String} {validate : Bool} {e : Error}
    (h : assemble source defaultName validate = .error e) :
    parse source defaultName = .error e ∨ validate = true ∧ Reports true e := by
  rw [assemble] at h
  cases hparse : parse source defaultName with
  | error e' =>
    rw [hparse, Bounded.error_bind] at h
    exact .inl h
  | ok a =>
    rw [hparse, Bounded.ok_bind] at h
    cases validate with
    | false => cases h
    | true =>
      have hlibrary : a.library.validate = .error e := Bounded.bind_pure_eq_error.1 h
      exact .inr ⟨rfl, Library.reports_of_validate hlibrary⟩

/-- The assembler reports what is wrong with a text, unless it gets to a character that cannot be
read, or to a number or a name with too many digits. It never looks behind the last token, neither
of a text nor of a call. -/
theorem assemble_refusals (source defaultName : String) (validate : Bool) :
    (∀ e, assemble source defaultName validate = .error e →
      Reports validate e ∨ (∃ c line column, e = .unreadable c line column) ∨
        e = .numeral .tooLong ∧ HasOverlong source) ∧
      (∀ c line column, assemble source defaultName validate = .error (.unreadable c line column) ↔
        UnreadableAt source c line column) ∧
      (scan source defaultName = (parse source defaultName).mapError .refused ∧
        scan source defaultName ≠ .error .pastEnd ∧
        scan source defaultName ≠ .error .unfinished) ∧
      ∀ s, Argument.scan s = (Argument.ofText s).mapError .refused ∧
        Argument.scan s ≠ .error .pastEnd := by
  refine ⟨fun e h => ?_, fun c line column => ⟨fun h => ?_, fun h => ?_⟩, ⟨?_, ?_, ?_⟩, fun s => ?_⟩
  · rcases parse_or_validate_of_assemble h with hparse | ⟨rfl, hreports⟩
    · exact reports_of_parse validate hparse
    · exact .inl hreports
  · rcases parse_or_validate_of_assemble h with hparse | ⟨-, hreports⟩
    · exact parse_eq_unreadable_iff.1 hparse
    · cases hreports
  · rw [assemble, parse_eq_unreadable_iff.2 h, Bounded.error_bind]
  · exact scan_eq source defaultName
  · rw [scan_eq]
    cases parse source defaultName <;> exact nofun
  · rw [scan_eq]
    cases parse source defaultName <;> exact nofun
  · refine ⟨Argument.scan_eq s, ?_⟩
    rw [Argument.scan_eq]
    cases Argument.ofText s <;> exact nofun

/-- An accent on the name that is assigned stops the lexer there, behind three words and blanks. -/
theorem accent_assemble_refusals :
    UnreadableAt "x1 <- é" 'é' 1 6 ∧
      assemble "x1 <- é" "main" true = .error (.unreadable 'é' 1 6) := by
  have hleads : Leads ['é'] ['x', '1', ' ', '<', '-', ' '] :=
    .cons (w := ['x', '1']) (.word (by decide +kernel) (by decide +kernel))
      (.cons (.space rfl) (.cons .arrow (.cons (.space rfl) .nil)))
  have hunreadable : UnreadableAt "x1 <- é" 'é' 1 6 :=
    ⟨[], _, [], _, [], rfl, nofun, rfl, hleads, by decide +kernel, rfl, rfl⟩
  exact ⟨hunreadable, ((assemble_refusals "x1 <- é" "main" true).2.1 'é' 1 6).2 hunreadable⟩

/-- Raised digits are digits, but no number starts with one. -/
theorem superscript_not_assembled_or_reported :
    ¬ ((∃ a, assemble "²" "main" true = .ok a) ∨
      ∃ e, assemble "²" "main" true = .error e ∧ Reports true e) := by
  have hunreadable : UnreadableAt "²" '²' 1 0 :=
    ⟨[], ['²'], [], [], [], rfl, nofun, rfl, .nil, by decide +kernel, rfl, rfl⟩
  have hassemble : assemble "²" "main" true = .error (.unreadable '²' 1 0) := by
    rw [assemble, parse_eq_unreadable_iff.2 hunreadable, Bounded.error_bind]
  rw [hassemble]
  rintro (⟨a, ha⟩ | ⟨e, he, hreports⟩)
  · cases ha
  · obtain rfl := Except.error.inj he
    exact hreports

end Assembly

end RegisterMachine
