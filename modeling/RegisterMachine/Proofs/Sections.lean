import RegisterMachine.Assembly.Basic
import RegisterMachine.Proofs.DeclaredLabels
import RegisterMachine.Proofs.LineGrammar

/-!
# The sections of a text

Every line of a text says something on its own: nothing, that a section starts, or that it goes on
with an instruction. What the lines say makes up the sections, and the text can be read if and only
if every line says something and the sections are those of an assembly: one of them is the main
program, their names are distinct, and none of them declares a label twice.

* `Assembly.Means` — what a line says;
* `Assembly.parts` — the sections that lines make up;
* `Assembly.readLine_eq_ok_iff`, `Assembly.exists_foldlM_readLine` — one line, and all lines;
* `Assembly.parse_eq_ok_iff` — the programs of a text.
-/

namespace RegisterMachine

namespace Assembly

/-! ### What lines say -/

section Means

variable (Fits : String → Prop)

/-- The variables that are named in the arguments of a call have numbers that are short enough. -/
def Meaning.NamesFit : Meaning → Prop
  | statement i =>
    ∀ s, Argument.name s ∈ Argument.walk i.arguments → Variable.isName s = true → Fits s
  | _ => True

/-- What a line says, its comment left out. -/
def Means (cs : List Char) (m : Meaning) : Prop :=
  ∃ ws, Splits (stripComment cs) ws ∧ Denotes Fits ws m ∧ m.NamesFit Fits

end Means

/-- What a line declares is the label in front of its statement. -/
theorem Denotes.declared?_eq {Fits : String → Prop} {ws : List (TokenKind × String)}
    {i : Instruction} (h : Denotes Fits ws (.statement i)) : i.declared? = i.label := by
  cases h with
  | plain => rfl
  | labelled _ _ hnumbered => exact Option.filter_some_pos hnumbered

/-! ### What lines make up -/

/-- A section: its name, whether it is the main program, and its instructions. -/
structure Part where
  name : String
  isMain : Bool
  code : List Instruction

/-- The instructions in front of the first header. -/
def leading : List Meaning → List Instruction
  | [] => []
  | .blank :: ms => leading ms
  | .statement i :: ms => i :: leading ms
  | .header _ _ :: _ => []

/-- The sections with a header. -/
def headed : List Meaning → List Part
  | [] => []
  | .header isMain name :: ms => ⟨name, isMain, leading ms⟩ :: headed ms
  | .blank :: ms | .statement _ :: ms => headed ms

/-- All sections. Statements in front of the first header are a main program. -/
def parts (defaultName : String) (ms : List Meaning) : List Part :=
  match leading ms with
  | [] => headed ms
  | i :: code => ⟨defaultName, true, i :: code⟩ :: headed ms

/-- The sections are those of an assembly. -/
structure WellFormed (ps : List Part) : Prop where
  main : ∃ p, ps.filter Part.isMain = [p]
  names : (ps.map Part.name).Nodup
  labels : ∀ p ∈ ps, (declaredLabels p.code).Nodup

/-- The programs of the assembly are the sections, in their order. -/
structure Holds (a : Assembly) (ps : List Part) : Prop where
  main : (ps.filter Part.isMain).map (fun p => (p.name, p.code)) = [(a.main.name, a.main.code)]
  functions : (ps.filter (!·.isMain)).map (fun p => (p.name, p.code)) =
    a.functions.map fun p => (p.name, p.code)

/-- The instruction that a line adds. -/
def Meaning.instruction? : Meaning → Option Instruction
  | statement i => some i
  | _ => none

/-- Every statement is in one section, and the sections keep their order. -/
theorem flatMap_code_parts (defaultName : String) (ms : List Meaning) :
    (parts defaultName ms).flatMap Part.code = ms.filterMap Meaning.instruction? := by
  have hheaded : leading ms ++ (headed ms).flatMap Part.code =
      ms.filterMap Meaning.instruction? := by
    induction ms with
    | nil => rfl
    | cons m ms ih =>
      cases m with
      | blank => exact ih
      | header isMain name => exact ih
      | statement i => exact congrArg (i :: ·) ih
  rw [parts, ← hheaded]
  split
  · rename_i hnil
    rw [hnil, List.nil_append]
  · rename_i hcons
    rw [hcons, List.flatMap_cons]

/-- The sections so far, latest first, go on with what further lines say. -/
def continued (defaultName : String) (ms : List Meaning) : List Part → List Part
  | [] => parts defaultName ms
  | p :: ps => ps.reverse ++ ⟨p.name, p.isMain, p.code ++ leading ms⟩ :: headed ms

theorem continued_nil (defaultName : String) (ps : List Part) :
    continued defaultName [] ps = ps.reverse := by
  cases ps with
  | nil => rfl
  | cons p ps =>
    rw [continued, leading, headed, List.append_nil, List.reverse_cons]

/-! ### One line -/

/-- The words of a line. -/
def TokenLine.words (t : TokenLine) : List (TokenKind × String) :=
  t.tokens.map Token.word

/-- A section as far as its name and its instructions are concerned. -/
def Section.part (s : Section) : Part :=
  ⟨s.name, s.isMain, s.code⟩

/-- The labels of a section are those that its instructions declare, each of them once. -/
structure Section.Sound (s : Section) : Prop where
  labels : s.labels.map Prod.fst = declaredLabels s.code
  nodup : (declaredLabels s.code).Nodup

theorem lookup_eq_none_iff {declared : List (Label × Nat)} {l : Label} :
    declared.lookup l = none ↔ l ∉ declared.map Prod.fst := by
  rw [List.lookup_eq_none_iff, List.mem_map]
  constructor
  · rintro h ⟨x, hx, rfl⟩
    exact bne_iff_ne.1 (h x hx) rfl
  · intro h x hx
    exact bne_iff_ne.2 fun he => h ⟨x, hx, he.symm⟩

theorem Section.sound_new (name : String) (isMain : Bool) (line : Nat) :
    (Section.new name isMain line).Sound :=
  ⟨rfl, List.nodup_nil⟩

section Line

variable {defaultName : String} {number : Nat} {ss ss' : List Section} {m : Meaning}
  {i : Instruction}

/-- The section that a statement belongs to. -/
def current (defaultName : String) (number : Nat) (ss : List Section) : Section :=
  ss.headD (.new defaultName true number)

/-- What becomes of the sections so far, latest first, at a line that says something. -/
inductive Steps (defaultName : String) (number : Nat) :
    List Section → Meaning → List Section → Prop
  | blank {ss : List Section} : Steps defaultName number ss .blank ss
  | header {ss : List Section} {isMain : Bool} {name : String} :
      Steps defaultName number ss (.header isMain name) (.new name isMain number :: ss)
  /-- A label must not be declared before in the same section. -/
  | statement {ss : List Section} {i : Instruction}
      (hnew : ∀ l ∈ i.label, (current defaultName number ss).labels.lookup l = none) :
      Steps defaultName number ss (.statement i)
        ((current defaultName number ss).push number i :: ss.tail)

/-- A line with a statement goes on with the latest section. -/
theorem readLine_statement {line : TokenLine} {w : TokenKind × String}
    {ws : List (TokenKind × String)} (hline : line.words = w :: ws)
    (hw : w.1 ≠ .lineEnd ∧ w.1 ≠ .program ∧ w.1 ≠ .function) :
    readLine defaultName ss line =
      (fun i => (current defaultName line.number ss).push line.number i :: ss.tail) <$>
        line.reader.readStatement (current defaultName line.number ss).labels := by
  have hkind : line.reader.next.kind = w.1 := by
    obtain ⟨number, tokens, width⟩ := line
    obtain ⟨t, ts, rfl, rfl, -⟩ := List.map_eq_cons_iff.1 hline
    rfl
  rw [readLine]
  dsimp only
  rw [hkind]
  split
  · rename_i hend
    exact absurd hend hw.1
  · rename_i hprogram
    exact absurd hprogram hw.2.1
  · rename_i hfunction
    exact absurd hfunction hw.2.2
  · rfl

/-- A header that is read consists of a keyword and a name. -/
private theorem exists_words_of_readHeader {line : TokenLine}
    (hline : ∀ w ∈ line.words, w.1 ≠ .lineEnd) {kind : TokenKind} {name : String}
    (hkind : line.reader.next.kind = kind) (hne : kind ≠ .lineEnd)
    (hread : line.reader.skip.readHeader = .ok name) :
    ∃ w, line.words = [line.reader.next.word, w] ∧ w.1 = .identifier ∧ w.2 = name := by
  have hwords : line.words = line.reader.next.word :: line.reader.skip.words :=
    LineReader.words_of_next hkind hne
  rw [hwords, List.forall_mem_cons] at hline
  obtain ⟨w, hw, hname⟩ := LineReader.words_of_readHeader hline.2 hread
  exact ⟨w, by rw [hwords, hw], hname⟩

/-- A line that is read says something. -/
private theorem denotes_of_readLine {line : TokenLine} (hline : ∀ w ∈ line.words, w.1 ≠ .lineEnd)
    (h : readLine defaultName ss line = .ok ss') :
    ∃ m, Denotes Argument.FewDigits line.words m ∧ Steps defaultName line.number ss m ss' := by
  dsimp only [readLine] at h
  split at h
  · rename_i hend
    obtain rfl := Except.ok.inj h
    have hwords : line.words = [] := LineReader.words_eq_nil (r := line.reader) hline hend
    exact ⟨.blank, hwords ▸ .blank, .blank⟩
  · rename_i hprogram
    obtain ⟨name, hread, h⟩ := Bounded.bind_eq_ok.1 h
    obtain rfl := Except.ok.inj h
    obtain ⟨w, hwords, hw, rfl⟩ := exists_words_of_readHeader hline hprogram (by decide) hread
    exact ⟨_, hwords ▸ .program hprogram hw, .header⟩
  · rename_i hfunction
    obtain ⟨name, hread, h⟩ := Bounded.bind_eq_ok.1 h
    obtain rfl := Except.ok.inj h
    obtain ⟨w, hwords, hw, rfl⟩ := exists_words_of_readHeader hline hfunction (by decide) hread
    exact ⟨_, hwords ▸ .function hfunction hw, .header⟩
  · obtain ⟨i, hread, h⟩ := Bounded.bind_eq_ok.1 h
    obtain rfl := Except.ok.inj h
    obtain ⟨hdenotes, hnew⟩ := LineReader.denotes_of_readStatement (r := line.reader) hline hread
    exact ⟨.statement i, hdenotes, .statement hnew⟩

/-- A line that says something is read. -/
private theorem readLine_of_denotes {line : TokenLine}
    (hdenotes : Denotes Argument.FewDigits line.words m)
    (hsteps : Steps defaultName line.number ss m ss') : readLine defaultName ss line = .ok ss' := by
  obtain ⟨number, tokens, width⟩ := line
  cases hsteps with
  | statement hnew =>
    have hread := LineReader.readStatement_of_denotes (r := ⟨number, width, tokens⟩) hdenotes hnew
    obtain ⟨w, ws, hwords, hw⟩ := hdenotes.exists_cons
    have hkinds : ∀ kind ∈ [TokenKind.leftBracket, .identifier, .ifWord, .goto],
        kind ≠ .lineEnd ∧ kind ≠ .program ∧ kind ≠ .function := by decide
    rw [readLine_statement hwords (hkinds _ hw)]
    exact Bounded.map_eq_ok.2 ⟨_, hread, rfl⟩
  | blank =>
    generalize hwords : TokenLine.words ⟨number, tokens, width⟩ = ws at hdenotes
    cases hdenotes
    obtain rfl := List.map_eq_nil_iff.1 hwords
    rfl
  | header =>
    have hread : ∀ {k n : TokenKind × String}, tokens.map Token.word = [k, n] →
        n.1 = .identifier → (LineReader.next ⟨number, width, tokens⟩).kind = k.1 ∧
          LineReader.readHeader (LineReader.skip ⟨number, width, tokens⟩) = .ok n.2 := by
      intro k n htokens hn
      obtain ⟨t, ts, rfl, rfl, hts⟩ := List.map_eq_cons_iff.1 htokens
      exact ⟨rfl, LineReader.readHeader_of_words hts hn⟩
    generalize hwords : TokenLine.words ⟨number, tokens, width⟩ = ws at hdenotes
    cases hdenotes with
    | program hk hn | function hk hn =>
      obtain ⟨hnext, hname⟩ := hread hwords hn
      rw [readLine]
      dsimp only [TokenLine.reader]
      rw [hnext, hk, hname]
      rfl

/-- A line is read if and only if it says something, and declares no label again. -/
theorem readLine_eq_ok_iff {line : TokenLine} (hline : ∀ w ∈ line.words, w.1 ≠ .lineEnd) :
    readLine defaultName ss line = .ok ss' ↔
      ∃ m, Denotes Argument.FewDigits line.words m ∧ Steps defaultName line.number ss m ss' :=
  ⟨denotes_of_readLine hline, fun ⟨_, hdenotes, hsteps⟩ => readLine_of_denotes hdenotes hsteps⟩

/-- Sections keep the labels that their instructions declare. -/
theorem Steps.sound (h : Steps defaultName number ss m ss') (hss : ∀ s ∈ ss, s.Sound)
    (hm : ∀ i, m = .statement i → i.declared? = i.label) : ∀ s ∈ ss', s.Sound := by
  cases h with
  | blank => exact hss
  | header => exact List.forall_mem_cons.2 ⟨Section.sound_new .., hss⟩
  | @statement i hnew =>
    have hcurrent : (current defaultName number ss).Sound := by
      cases ss with
      | nil => exact Section.sound_new ..
      | cons s ss => exact hss s List.mem_cons_self
    refine List.forall_mem_cons.2 ⟨?_, fun s hs => hss s (List.mem_of_mem_tail hs)⟩
    generalize current defaultName number ss = s at hnew hcurrent
    have hlabels : declaredLabels (s.code ++ [i]) = s.labels.map Prod.fst ++ i.label.toList := by
      rw [declaredLabels_append, declaredLabels_cons, declaredLabels_nil, List.append_nil,
        hm i rfl, hcurrent.labels]
    have hfst : (i.label.toList.map (·, number)).map Prod.fst = i.label.toList := by
      rw [List.map_map]
      exact List.map_id' _
    constructor
    · rw [Section.push, hlabels, List.map_append, hfst]
    · rw [Section.push, hlabels, hcurrent.labels]
      cases hlabel : i.label with
      | none =>
        rw [Option.toList_none, List.append_nil]
        exact hcurrent.nodup
      | some l =>
        have hl : l ∉ declaredLabels s.code := by
          rw [← hcurrent.labels]
          exact lookup_eq_none_iff.1 (hnew l hlabel)
        exact List.concat_eq_append ▸ hcurrent.nodup.concat hl

/-- A line takes its part of what is said from there on. -/
theorem Steps.continued_eq (h : Steps defaultName number ss m ss') (ms : List Meaning) :
    continued defaultName (m :: ms) (ss.map Section.part) =
      continued defaultName ms (ss'.map Section.part) := by
  cases h with
  | blank => rfl
  | header =>
    cases ss with
    | nil => rfl
    | cons s ss =>
      simp only [List.map_cons, continued, leading, headed, List.append_nil, List.reverse_cons,
        List.append_assoc, List.singleton_append]
      rfl
  | statement _ =>
    cases ss with
    | nil => rfl
    | cons s ss =>
      simp [continued, leading, headed, Section.part, current, Section.push]

/-- A line can be taken if the sections that come of it declare no label twice. -/
theorem exists_steps (hss : ∀ s ∈ ss, s.Sound) (hm : ∀ i, m = .statement i → i.declared? = i.label)
    (number : Nat) {ms : List Meaning}
    (hnodup : ∀ p ∈ continued defaultName (m :: ms) (ss.map Section.part),
      (declaredLabels p.code).Nodup) :
    ∃ ss', Steps defaultName number ss m ss' := by
  cases m with
  | blank => exact ⟨_, .blank⟩
  | header isMain name => exact ⟨_, .header⟩
  | statement i =>
    refine ⟨_, .statement fun l hl => ?_⟩
    cases ss with
    | nil => rfl
    | cons s ss =>
      have hcode : (declaredLabels (s.code ++ i :: leading ms)).Nodup :=
        hnodup ⟨s.name, s.isMain, s.code ++ i :: leading ms⟩
          (List.mem_append_right _ List.mem_cons_self)
      rw [declaredLabels_append, declaredLabels_cons, hm i rfl, hl] at hcode
      have hnew : l ∉ declaredLabels s.code := fun hmem =>
        List.disjoint_of_nodup_append hcode hmem List.mem_cons_self
      rw [← (hss s List.mem_cons_self).labels] at hnew
      exact lookup_eq_none_iff.2 hnew

end Line

/-! ### All lines -/

section Lines

variable {defaultName : String} {ss ss' : List Section} {lines : List TokenLine} {ms : List Meaning}

/-- Lines that are read say something, and what they say makes up the sections. -/
theorem exists_meanings_of_foldlM (hlines : ∀ line ∈ lines, ∀ w ∈ line.words, w.1 ≠ .lineEnd)
    (hss : ∀ s ∈ ss, s.Sound) (h : lines.foldlM (readLine defaultName) ss = .ok ss') :
    ∃ ms, List.Forall₂ (fun line m => Denotes Argument.FewDigits line.words m) lines ms ∧
      (ss'.map Section.part).reverse = continued defaultName ms (ss.map Section.part) ∧
      ∀ s ∈ ss', s.Sound := by
  induction lines generalizing ss with
  | nil =>
    obtain rfl := Except.ok.inj h
    exact ⟨[], .nil, (continued_nil ..).symm, hss⟩
  | cons line lines ih =>
    rw [List.forall_mem_cons] at hlines
    rw [List.foldlM_cons] at h
    obtain ⟨ss₁, hread, h⟩ := Bounded.bind_eq_ok.1 h
    obtain ⟨m, hdenotes, hsteps⟩ := (readLine_eq_ok_iff hlines.1).1 hread
    have hm : ∀ i, m = .statement i → i.declared? = i.label := by
      rintro i rfl
      exact hdenotes.declared?_eq
    obtain ⟨ms, hms, hparts, hsound⟩ := ih hlines.2 (hsteps.sound hss hm) h
    exact ⟨m :: ms, .cons hdenotes hms, by rw [hparts, hsteps.continued_eq], hsound⟩

/-- Lines that say something are read if the sections that they make up declare no label twice. -/
theorem exists_foldlM_readLine
    (hms : List.Forall₂ (fun line m => Denotes Argument.FewDigits line.words m) lines ms)
    (hlines : ∀ line ∈ lines, ∀ w ∈ line.words, w.1 ≠ .lineEnd) (hss : ∀ s ∈ ss, s.Sound)
    (hnodup : ∀ p ∈ continued defaultName ms (ss.map Section.part), (declaredLabels p.code).Nodup) :
    ∃ ss', lines.foldlM (readLine defaultName) ss = .ok ss' ∧
      (ss'.map Section.part).reverse = continued defaultName ms (ss.map Section.part) := by
  induction hms generalizing ss with
  | nil => exact ⟨ss, rfl, (continued_nil ..).symm⟩
  | @cons line m lines ms hdenotes _ ih =>
    rw [List.forall_mem_cons] at hlines
    have hm : ∀ i, m = .statement i → i.declared? = i.label := by
      rintro i rfl
      exact hdenotes.declared?_eq
    obtain ⟨ss₁, hsteps⟩ := exists_steps hss hm line.number hnodup
    have hread := (readLine_eq_ok_iff hlines.1).2 ⟨m, hdenotes, hsteps⟩
    rw [hsteps.continued_eq] at hnodup ⊢
    obtain ⟨ss', hfold, hparts⟩ := ih hlines.2 (hsteps.sound hss hm) hnodup
    refine ⟨ss', ?_, hparts⟩
    rw [List.foldlM_cons, hread]
    exact hfold

/-- The sections of lines are those that the lines make up. -/
theorem sections_eq_ok_iff {ps : List Part}
    (hlines : ∀ line ∈ lines, ∀ w ∈ line.words, w.1 ≠ .lineEnd) :
    (∃ ss, sections defaultName lines = .ok ss ∧ ss.map Section.part = ps) ↔
      (∃ ms, List.Forall₂ (fun line m => Denotes Argument.FewDigits line.words m) lines ms ∧
        ps = parts defaultName ms) ∧ ∀ p ∈ ps, (declaredLabels p.code).Nodup := by
  constructor
  · rintro ⟨ss, h, rfl⟩
    obtain ⟨ss', hfold, rfl⟩ := Bounded.map_eq_ok.1 h
    obtain ⟨ms, hms, hparts, hsound⟩ :=
      exists_meanings_of_foldlM hlines (List.forall_mem_nil _) hfold
    refine ⟨⟨ms, hms, ?_⟩, ?_⟩
    · rw [List.map_reverse, hparts]
      rfl
    · rw [List.forall_mem_map]
      exact fun s hs => (hsound s (List.mem_reverse.1 hs)).nodup
  · rintro ⟨⟨ms, hms, rfl⟩, hnodup⟩
    obtain ⟨ss', hfold, hparts⟩ :=
      exists_foldlM_readLine hms hlines (List.forall_mem_nil _) hnodup
    refine ⟨ss'.reverse, by rw [sections, hfold]; rfl, ?_⟩
    rw [List.map_reverse, hparts]
    rfl

end Lines

end Assembly

/-! ### Programs of sections -/

namespace Program

theorem ofDistinct?_eq_ok (p : Program) : ofDistinct? p.name p.code = .ok p := by
  rw [ofDistinct?]
  split
  · rename_i hduplicate
    cases hduplicate.symm.trans (duplicateLabel?_eq_none_iff.2 p.nodup_labels)
  · rfl

/-- The instructions of a program are read if no name in them is too long. -/
theorem ofCode?_eq_ok_iff {name : String} {code : List Instruction} {p : Program} :
    ofCode? name code = .ok p ↔
      (p.name, p.code) = (name, code) ∧ ∀ i ∈ p.code, i.hasOverlongName = false := by
  rw [ofCode?]
  constructor
  · intro h
    split at h
    · rename_i hnames
      rw [ofDistinct?] at h
      split at h
      · cases h
      · obtain rfl := Except.ok.inj h
        exact ⟨rfl, List.findIdx?_eq_none_iff.1 hnames⟩
    · obtain ⟨-, -, h⟩ := Bounded.bind_eq_ok.1 h
      cases h
  · rintro ⟨h, hnames⟩
    obtain ⟨rfl, rfl⟩ := Prod.mk.inj h
    rw [List.findIdx?_eq_none_iff.2 hnames]
    exact p.ofDistinct?_eq_ok

end Program

namespace Assembly

section Programs

variable {lineCount : Nat} {ss : List Section} {a : Assembly}

/-- No section has the name of an earlier one if and only if the names are distinct. -/
theorem repeatedSection?_eq_none_iff {seen : List String} :
    repeatedSection? seen ss = none ↔
      (ss.map Section.name).Nodup ∧ ∀ s ∈ ss, s.name ∉ seen := by
  induction ss generalizing seen with
  | nil => simp [repeatedSection?]
  | cons s ss ih =>
    rw [repeatedSection?, List.map_cons, List.nodup_cons, List.forall_mem_cons]
    by_cases hs : s.name ∈ seen
    · simp [hs]
    · have hcontains : seen.contains s.name = false := by simpa using hs
      rw [hcontains, if_neg Bool.false_ne_true, ih]
      simp only [List.mem_cons, List.mem_map, not_or, forall_and, not_exists, not_and]
      exact ⟨fun ⟨hnodup, hne, hseen⟩ => ⟨⟨hne, hnodup⟩, hs, hseen⟩,
        fun ⟨⟨hne, hnodup⟩, _, hseen⟩ => ⟨hnodup, hne, hseen⟩⟩

theorem mainSection_eq_ok_iff {s : Section} :
    mainSection lineCount ss = .ok s ↔ ss.filter Section.isMain = [s] := by
  rw [mainSection]
  rcases ss.filter Section.isMain with _ | ⟨s₁, _ | ⟨s₂, ss'⟩⟩ <;> simp

/-- A program with the mark of the main one, as a section. -/
def partOf (x : Bool × Program) : Part :=
  ⟨x.2.name, x.1, x.2.code⟩

theorem map_partOf {marked : List (Bool × Program)}
    (h : ss.mapM (fun s => (s.isMain, ·) <$> s.program) = .ok marked) :
    marked.map partOf = ss.map Section.part ∧
      ∀ s ∈ ss, ∀ i ∈ s.code, i.hasOverlongName = false := by
  have hprograms := Bounded.forall₂_of_mapM h
  clear h
  induction hprograms with
  | nil => exact ⟨rfl, List.forall_mem_nil _⟩
  | @cons s _ _ _ hread _ ih =>
    obtain ⟨p, hp, rfl⟩ := Bounded.map_eq_ok.1 hread
    obtain ⟨heq, hshort⟩ := Program.ofCode?_eq_ok_iff.1 hp
    obtain ⟨hname, hcode⟩ := Prod.mk.inj heq
    have hpart : partOf (s.isMain, p) = s.part := by rw [partOf, Section.part, hname, hcode]
    refine ⟨?_, List.forall_mem_cons.2 ⟨hcode ▸ hshort, ih.2⟩⟩
    rw [List.map_cons, List.map_cons, hpart, ih.1]

theorem exists_mapM_program (hss : ∀ s ∈ ss, (declaredLabels s.code).Nodup)
    (hnames : ∀ s ∈ ss, ∀ i ∈ s.code, i.hasOverlongName = false) :
    ∃ marked, ss.mapM (fun s => (s.isMain, ·) <$> s.program) = .ok marked := by
  induction ss with
  | nil => exact ⟨[], rfl⟩
  | cons s ss ih =>
    rw [List.forall_mem_cons] at hss hnames
    obtain ⟨marked, hmarked⟩ := ih hss.2 hnames.2
    have hread : s.program = .ok ⟨s.name, s.code, hss.1⟩ :=
      Program.ofCode?_eq_ok_iff.2 ⟨rfl, hnames.1⟩
    refine ⟨(s.isMain, ⟨s.name, s.code, hss.1⟩) :: marked, ?_⟩
    rw [List.mapM_cons, hread, hmarked]
    rfl

theorem filter_map_partOf {marked : List (Bool × Program)} :
    (marked.map partOf).filter Part.isMain = (marked.filter Prod.fst).map partOf ∧
      (marked.map partOf).filter (!·.isMain) = (marked.filter (!·.1)).map partOf := by
  rw [List.filter_map, List.filter_map]
  exact ⟨rfl, rfl⟩

/-- Sections determine the programs of their assembly. -/
theorem Holds.unique {a' : Assembly} {ps : List Part} (h : a.Holds ps) (h' : a'.Holds ps) :
    a = a' := by
  have hext : ∀ p q : Program, (p.name, p.code) = (q.name, q.code) → p = q := by
    intro p q hpq
    obtain ⟨hname, hcode⟩ := Prod.mk.inj hpq
    exact Program.ext hname hcode
  have hmain := hext _ _ (List.singleton_inj.1 (h.main.symm.trans h'.main))
  have hfunctions : a.functions = a'.functions :=
    (List.map_inj_right hext).1 (h.functions.symm.trans h'.functions)
  obtain ⟨main, functions⟩ := a
  obtain ⟨main', functions'⟩ := a'
  rw [Assembly.mk.injEq]
  exact ⟨hmain, hfunctions⟩

/-- Sections in which no label is declared twice are programs. -/
theorem exists_programs {ps : List Part} (h : ∀ p ∈ ps, (declaredLabels p.code).Nodup) :
    ∃ qs : List Program, ps.map (fun p => (p.name, p.code)) = qs.map fun q => (q.name, q.code) := by
  refine ⟨ps.pmap (fun p hp => ⟨p.name, p.code, hp⟩) h, ?_⟩
  rw [List.map_pmap]
  exact (List.pmap_eq_map h).symm

/-- There is an assembly of well-formed sections. -/
theorem WellFormed.exists_holds {ps : List Part} (h : WellFormed ps) :
    ∃ a : Assembly, a.Holds ps := by
  obtain ⟨p, hp⟩ := h.main
  have hmem : p ∈ ps := List.mem_of_mem_filter (hp ▸ List.mem_cons_self : p ∈ ps.filter Part.isMain)
  have hfunctions : ∀ q ∈ ps.filter (!·.isMain), (declaredLabels q.code).Nodup :=
    fun q hq => h.labels q (List.mem_of_mem_filter hq)
  obtain ⟨qs, hqs⟩ := exists_programs hfunctions
  exact ⟨⟨⟨p.name, p.code, h.labels p hmem⟩, qs⟩, by rw [hp]; rfl, hqs⟩

/-- Sections that are read make up an assembly. -/
theorem holds_of_ofSections (h : ofSections lineCount ss = .ok a) :
    (∃ s, ss.filter Section.isMain = [s]) ∧ (ss.map Section.name).Nodup ∧
      (∀ s ∈ ss, ∀ i ∈ s.code, i.hasOverlongName = false) ∧ a.Holds (ss.map Section.part) := by
  obtain ⟨s, hmain, h⟩ := Bounded.bind_eq_ok.1 h
  have hmain := mainSection_eq_ok_iff.1 hmain
  dsimp only at h
  split at h
  · cases h
  · rename_i hrepeated
    have hnames := (repeatedSection?_eq_none_iff.1 (Option.eq_none_iff_forall_ne_some.2
      fun s hs => hrepeated s hs)).1
    obtain ⟨marked, hmarked, h⟩ := Bounded.bind_eq_ok.1 h
    obtain ⟨hparts, hshort⟩ := map_partOf hmarked
    refine ⟨⟨s, hmain⟩, hnames, hshort, ?_⟩
    have hone : (marked.filter Prod.fst).map partOf = [s.part] := by
      rw [← filter_map_partOf.1, hparts, List.filter_map, ← List.map_singleton, ← hmain]
      rfl
    split at h
    · rename_i isMain main rest hfilter
      obtain rfl := Except.ok.inj h
      rw [hfilter] at hone
      obtain rfl := List.map_eq_nil_iff.1 (List.cons.inj hone).2
      rw [← hparts]
      constructor
      · rw [filter_map_partOf.1, hfilter]
        rfl
      · rw [filter_map_partOf.2, List.map_map, List.map_map]
        rfl
    · cases h

/-- Sections make up an assembly if and only if one of them is the main program, their names are
distinct, and each of them is a program. -/
theorem ofSections_eq_ok_iff (hss : ∀ s ∈ ss, (declaredLabels s.code).Nodup) :
    ofSections lineCount ss = .ok a ↔ WellFormed (ss.map Section.part) ∧
      (∀ s ∈ ss, ∀ i ∈ s.code, i.hasOverlongName = false) ∧ a.Holds (ss.map Section.part) := by
  have hnames : (ss.map Section.part).map Part.name = ss.map Section.name := List.map_map
  constructor
  · intro h
    obtain ⟨⟨s, hmain⟩, hdistinct, hshort, hholds⟩ := holds_of_ofSections h
    refine ⟨⟨⟨s.part, ?_⟩, hnames ▸ hdistinct, List.forall_mem_map.2 hss⟩, hshort, hholds⟩
    rw [List.filter_map, ← List.map_singleton, ← hmain]
    rfl
  · rintro ⟨hwell, hshort, hholds⟩
    obtain ⟨marked, hmarked⟩ := exists_mapM_program hss hshort
    obtain ⟨p, hp⟩ := hwell.main
    have hfilter : (ss.filter Section.isMain).map Section.part = [p] := by
      rw [← hp, List.filter_map]
      rfl
    obtain ⟨s, hs, -⟩ := List.map_eq_singleton_iff.1 hfilter
    have hrepeated : repeatedSection? [] ss = none :=
      repeatedSection?_eq_none_iff.2 ⟨hnames ▸ hwell.names, fun _ _ => List.not_mem_nil⟩
    have hfirst : (marked.filter Prod.fst).map partOf = [p] := by
      rw [← filter_map_partOf.1, (map_partOf hmarked).1, hp]
    obtain ⟨x, hx, -⟩ := List.map_eq_singleton_iff.1 hfirst
    have hread : ofSections lineCount ss =
        .ok ⟨x.2, (marked.filter (!·.1)).map Prod.snd⟩ := by
      rw [ofSections, mainSection_eq_ok_iff.2 hs, hrepeated]
      simp only [Bounded.ok_bind, hmarked, hx]
      rfl
    rw [hread, hholds.unique (holds_of_ofSections hread).2.2.2]

end Programs

/-! ### Texts -/

section Texts

variable {source : String} {lines : List TokenLine} {css : List (List Char)} {ms : List Meaning}

/-- The tokens of a text are the words of its lines. -/
theorem splits_of_tokenLines (h : tokenLines source = .ok lines) :
    List.Forall₂ (fun cs line => Splits (stripComment cs) line.words)
      (splitLines source.toList) lines := by
  have hlines := Bounded.forall₂_of_mapM h
  rw [← List.zipIdx_map_fst 1 (splitLines source.toList), List.forall₂_map_left_iff]
  refine hlines.imp fun (cs, number) line hread => ?_
  obtain ⟨ts, hts, hread⟩ := Bounded.bind_eq_ok.1 hread
  obtain rfl := Except.ok.inj hread
  exact splits_of_lineTokensFrom hts

theorem exists_mapM_ofChars {wss : List (List (TokenKind × String))}
    (h : List.Forall₂ (fun cs ws => Lexes (stripComment cs) ws) css wss) (number : Nat) :
    ∃ lines, (css.zipIdx number).mapM (fun (cs, number) => TokenLine.ofChars number cs) =
      .ok lines ∧ lines.map TokenLine.words = wss := by
  induction h generalizing number with
  | nil => exact ⟨[], rfl, rfl⟩
  | @cons cs _ css _ hlexes _ ih =>
    obtain ⟨ts, hts, rfl⟩ := hlexes number 0
    obtain ⟨lines, hlines, rfl⟩ := ih (number + 1)
    have hread : TokenLine.ofChars number cs = .ok ⟨number, ts, (stripComment cs).length⟩ := by
      rw [TokenLine.ofChars, lineTokens, hts]
      rfl
    refine ⟨⟨number, ts, (stripComment cs).length⟩ :: lines, ?_, rfl⟩
    rw [List.zipIdx_cons, List.mapM_cons, hlines]
    simp [hread]

/-- A text whose lines are made of words is cut into them. -/
theorem exists_tokenLines {wss : List (List (TokenKind × String))}
    (h : List.Forall₂ (fun cs ws => Lexes (stripComment cs) ws) (splitLines source.toList) wss) :
    ∃ lines, tokenLines source = .ok lines ∧ lines.map TokenLine.words = wss :=
  exists_mapM_ofChars h 1

/-- All words of a text are what they are called. -/
theorem sound_of_tokenLines (h : tokenLines source = .ok lines) :
    ∀ line ∈ lines, ∀ w ∈ line.words, Sound w := by
  intro line hline
  obtain ⟨cs, -, hsplits⟩ := Bounded.exists_left_of_forall₂ (splits_of_tokenLines h) hline
  exact hsplits.sound

/-- A line says what its words say. -/
theorem forall₂_means_iff {Fits : String → Prop} :
    List.Forall₂ (Means Fits) css ms ↔
      (∃ wss, List.Forall₂ (fun cs ws => Splits (stripComment cs) ws) css wss ∧
        List.Forall₂ (Denotes Fits) wss ms) ∧ ∀ m ∈ ms, m.NamesFit Fits := by
  constructor
  · intro h
    induction h with
    | nil => exact ⟨⟨[], .nil, .nil⟩, List.forall_mem_nil _⟩
    | cons hmeans _ ih =>
      obtain ⟨ws, hsplits, hdenotes, hnames⟩ := hmeans
      obtain ⟨⟨wss, hcss, hms⟩, hfit⟩ := ih
      exact ⟨⟨ws :: wss, .cons hsplits hcss, .cons hdenotes hms⟩,
        List.forall_mem_cons.2 ⟨hnames, hfit⟩⟩
  · rintro ⟨⟨wss, hcss, hms⟩, hfit⟩
    induction hcss generalizing ms with
    | nil =>
      cases hms
      exact .nil
    | cons hsplits _ ih =>
      cases hms with
      | cons hdenotes hms =>
        rw [List.forall_mem_cons] at hfit
        exact .cons ⟨_, hsplits, hdenotes, hfit.1⟩ (ih hfit.2 hms)

/-- No name in an instruction is too long if the numbers in them are short enough. -/
theorem hasOverlongName_eq_false_iff {i : Instruction} :
    i.hasOverlongName = false ↔ (Meaning.statement i).NamesFit Argument.FewDigits := by
  have hname : ∀ {s : String}, (Argument.name s).isOverlong = false ↔
      (Variable.isName s = true → Argument.FewDigits s) := by
    intro s
    rw [Argument.isOverlong, Bool.and_eq_false_imp]
    refine forall_congr' fun hs => ?_
    obtain ⟨v, hv⟩ := Option.isSome_iff_exists.1 hs
    exact Variable.isOverlong_eq_false_iff hv
  rw [Instruction.hasOverlongName, List.any_eq_false]
  constructor
  · intro h s hs
    exact hname.1 (Bool.not_eq_true _ ▸ h _ hs)
  · intro h n hn
    rw [Bool.not_eq_true]
    cases n with
    | name s => exact hname.2 (h s hn)
    | call | constant => rfl

/-- No name in a text is too long if the numbers in the lines are short enough. -/
theorem forall_hasOverlongName_iff (defaultName : String) :
    (∀ p ∈ parts defaultName ms, ∀ i ∈ p.code, i.hasOverlongName = false) ↔
      ∀ m ∈ ms, m.NamesFit Argument.FewDigits := by
  have hcode : (∀ p ∈ parts defaultName ms, ∀ i ∈ p.code, i.hasOverlongName = false) ↔
      ∀ i ∈ ms.filterMap Meaning.instruction?, i.hasOverlongName = false := by
    rw [← flatMap_code_parts defaultName, List.forall_mem_flatMap]
  rw [hcode]
  constructor
  · intro h m hm
    cases m with
    | blank | header => trivial
    | statement i =>
      exact hasOverlongName_eq_false_iff.1 (h i (List.mem_filterMap.2 ⟨_, hm, rfl⟩))
  · intro h i hi
    obtain ⟨m, hm, hmi⟩ := List.mem_filterMap.1 hi
    cases m with
    | blank | header => cases hmi
    | statement j =>
      obtain rfl := Option.some.inj hmi
      exact hasOverlongName_eq_false_iff.2 (h _ hm)

/-- A text can be read if and only if its lines say something and what they say makes up an
assembly, and the programs of the text are those of this assembly. -/
theorem parse_eq_ok_iff {defaultName : String} {a : Assembly} :
    parse source defaultName = .ok a ↔
      ∃ ms, List.Forall₂ (Means Argument.FewDigits) (splitLines source.toList) ms ∧
        WellFormed (parts defaultName ms) ∧ a.Holds (parts defaultName ms) := by
  constructor
  · intro h
    obtain ⟨lines, hlines, h⟩ := Bounded.bind_eq_ok.1 h
    obtain ⟨ss, hss, h⟩ := Bounded.bind_eq_ok.1 h
    have hsplits := splits_of_tokenLines hlines
    have hinLine := fun line hline w hw => (sound_of_tokenLines hlines line hline w hw).inLine
    obtain ⟨⟨ms, hms, hparts⟩, hnodup⟩ := (sections_eq_ok_iff hinLine).1 ⟨ss, hss, rfl⟩
    rw [List.forall_mem_map] at hnodup
    obtain ⟨hwell, hnames, hholds⟩ := (ofSections_eq_ok_iff hnodup).1 h
    refine ⟨ms, forall₂_means_iff.2 ⟨⟨lines.map TokenLine.words, ?_, ?_⟩, ?_⟩, hparts ▸ hwell,
      hparts ▸ hholds⟩
    · rwa [List.forall₂_map_right_iff]
    · rwa [List.forall₂_map_left_iff]
    · rw [← forall_hasOverlongName_iff defaultName, ← hparts,
        List.forall_mem_map]
      exact hnames
  · rintro ⟨ms, hmeans, hwell, hholds⟩
    obtain ⟨⟨wss, hsplits, hms⟩, hfit⟩ := forall₂_means_iff.1 hmeans
    obtain ⟨lines, hlines, rfl⟩ := exists_tokenLines (hsplits.imp fun _ _ h => h.lexes)
    rw [List.forall₂_map_left_iff] at hms
    have hinLine := fun line hline w hw => (sound_of_tokenLines hlines line hline w hw).inLine
    obtain ⟨ss, hss, hparts⟩ := (sections_eq_ok_iff hinLine).2 ⟨⟨ms, hms, rfl⟩, hwell.labels⟩
    have hlabels : ∀ s ∈ ss, (declaredLabels s.part.code).Nodup := by
      rw [← List.forall_mem_map (P := fun p : Part => (declaredLabels p.code).Nodup), hparts]
      exact hwell.labels
    have hshort : ∀ s ∈ ss, ∀ i ∈ s.part.code, i.hasOverlongName = false := by
      rw [← List.forall_mem_map (P := fun p : Part => ∀ i ∈ p.code, i.hasOverlongName = false),
        hparts]
      exact (forall_hasOverlongName_iff defaultName).2 hfit
    rw [parse, hlines, Bounded.ok_bind, hss, Bounded.ok_bind, ofSections_eq_ok_iff hlabels, hparts]
    exact ⟨hwell, hshort, hholds⟩

end Texts

end Assembly

end RegisterMachine
