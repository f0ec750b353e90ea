import RegisterMachine.Proofs.ProgramText
import RegisterMachine.Proofs.TokenStream

/-!
# Assembly is line by line

A line says one thing only, and what it says does not depend on the comment behind it. So the lines
of a text, each on its own, decide whether the text can be read and which programs it has. Lines
that say nothing can be put in anywhere, and comments behind any line.

* `Assembly.Means.unique` — what a line says;
* `Assembly.Padded` — more blank lines and more comments;
* `Assembly.assemble_line_by_line` — the programs of a text.
-/

namespace RegisterMachine.Assembly

/-! ### One meaning -/

/-- In front of all lines, any line can be taken. -/
theorem exists_steps_nil (defaultName : String) (number : Nat) (m : Meaning) :
    ∃ ss, Steps defaultName number [] m ss := by
  cases m with
  | blank => exact ⟨_, .blank⟩
  | header isMain name => exact ⟨_, .header⟩
  | statement i => exact ⟨_, .statement fun _ _ => rfl⟩

/-- The first section shows what the first line says. -/
theorem Steps.unique_of_nil {defaultName : String} {number : Nat} {m m' : Meaning}
    {ss : List Section} (h : Steps defaultName number [] m ss)
    (h' : Steps defaultName number [] m' ss) : m = m' := by
  have hparts : parts defaultName [m] = parts defaultName [m'] :=
    (h.continued_eq []).trans (h'.continued_eq []).symm
  cases m <;> cases m' <;> simp_all [parts, leading, headed]

/-- The words of a line say one thing. -/
theorem Denotes.unique {ws : List (TokenKind × String)} {m m' : Meaning}
    (hws : ∀ w ∈ ws, w.1 ≠ .lineEnd) (h : Denotes Argument.FewDigits ws m)
    (h' : Denotes Argument.FewDigits ws m') : m = m' := by
  -- What is said is what a reader finds, and it finds one thing.
  let line : TokenLine := ⟨0, ws.map fun w => ⟨w.1, w.2, 0⟩, 0⟩
  have hwords : line.words = ws := by
    rw [TokenLine.words, List.map_map]
    exact List.map_id' _
  rw [← hwords] at hws h h'
  obtain ⟨ss, hss⟩ := exists_steps_nil "" 0 m
  obtain ⟨ss', hss'⟩ := exists_steps_nil "" 0 m'
  have hread := (readLine_eq_ok_iff hws).2 ⟨m, h, hss⟩
  have hread' := (readLine_eq_ok_iff hws).2 ⟨m', h', hss'⟩
  obtain rfl := Except.ok.inj (hread.symm.trans hread')
  exact hss.unique_of_nil hss'

section Means

variable {cs : List Char} {m m' : Meaning} {css : List (List Char)} {ms ms' : List Meaning}

/-- A line says one thing. -/
theorem Means.unique (h : Means Argument.FewDigits cs m) (h' : Means Argument.FewDigits cs m') :
    m = m' := by
  obtain ⟨ws, hsplits, hdenotes, -⟩ := h
  obtain ⟨ws', hsplits', hdenotes', -⟩ := h'
  obtain rfl := hsplits.unique hsplits'
  exact hdenotes.unique (fun w hw => (hsplits.sound w hw).inLine) hdenotes'

/-- Lines say one thing each. -/
theorem unique_of_means (h : List.Forall₂ (Means Argument.FewDigits) css ms)
    (h' : List.Forall₂ (Means Argument.FewDigits) css ms') : ms = ms' :=
  List.right_unique_forall₂' (fun _ _ _ hm hm' => hm.unique hm') h h'

end Means

/-! ### Comments -/

/-- A comment, from its sign on. -/
def IsComment (cs : List Char) : Prop :=
  ∃ text, cs = '#' :: text ∨ cs = '/' :: '/' :: text

/-- A comment behind a line is cut off, unless a slash in front of it is taken for its sign. -/
theorem stripComment_append {cs comment : List Char} (h : IsComment comment)
    (hslash : (stripComment cs).getLast? ≠ some '/') :
    stripComment (cs ++ comment) = stripComment cs := by
  have hcomment : stripComment comment = [] := by
    obtain ⟨text, rfl | rfl⟩ := h <;> rfl
  fun_induction stripComment cs with
  | case1 => exact hcomment
  | case2 | case3 => rfl
  | case4 c cs hhash hdouble ih =>
    rw [List.getLast?_cons] at hslash
    have htail : (stripComment cs).getLast? ≠ some '/' := by
      intro hlast
      rw [hlast] at hslash
      exact hslash rfl
    rw [List.cons_append, stripComment, ih htail]
    · exact hhash
    · rintro tail rfl happend
      cases cs with
      | nil => exact hslash rfl
      | cons d cs => exact hdouble cs rfl (congrArg (· :: cs) (List.cons.inj happend).1)

/-- Nothing is on a line but blanks and a comment. -/
def IsBlank (cs : List Char) : Prop :=
  (stripComment cs).all isSpace = true

instance : DecidablePred IsBlank := fun cs =>
  inferInstanceAs (Decidable ((stripComment cs).all isSpace = true))

theorem IsBlank.means {Fits : String → Prop} {cs : List Char} (h : IsBlank cs) :
    Means Fits cs .blank := by
  have hsplits : Splits (stripComment cs) [] := by
    rw [IsBlank, List.all_eq_true] at h
    generalize stripComment cs = cs at h
    induction cs with
    | nil => exact .nil
    | cons c cs ih =>
      rw [List.forall_mem_cons] at h
      exact .space h.1 (ih h.2)
  exact ⟨[], hsplits, .blank, trivial⟩

/-- Further blank lines are put in between lines, and comments behind lines. -/
inductive Padded : List (List Char) → List (List Char) → Prop
  | nil : Padded [] []
  | line {cs comment : List Char} {css css' : List (List Char)}
      (hcomment : comment = [] ∨ IsComment comment) (h : Padded css css') :
      Padded (cs :: css) ((cs ++ comment) :: css')
  | blank {cs : List Char} {css css' : List (List Char)} (hcs : IsBlank cs) (h : Padded css css') :
      Padded css (cs :: css')

/-- What lines say, the blank ones left out. -/
def spoken (ms : List Meaning) : List Meaning :=
  ms.filter fun
    | .blank => false
    | _ => true

theorem spoken_cons (m : Meaning) {ms ms' : List Meaning} (h : spoken ms' = spoken ms) :
    spoken (m :: ms') = spoken (m :: ms) := by
  cases m with
  | blank => exact h
  | header | statement => exact congrArg (_ :: ·) h

/-- Blank lines make up nothing. -/
theorem parts_spoken (defaultName : String) (ms : List Meaning) :
    parts defaultName (spoken ms) = parts defaultName ms := by
  have hspoken : leading (spoken ms) = leading ms ∧ headed (spoken ms) = headed ms := by
    induction ms with
    | nil => exact ⟨rfl, rfl⟩
    | cons m ms ih =>
      obtain ⟨hleading, hheaded⟩ := ih
      cases m with
      | blank => exact ⟨hleading, hheaded⟩
      | header isMain name =>
        have hheader : spoken (.header isMain name :: ms) = .header isMain name :: spoken ms := rfl
        rw [hheader, headed, headed, hleading, hheaded]
        exact ⟨rfl, rfl⟩
      | statement i => exact ⟨congrArg (i :: ·) hleading, hheaded⟩
  rw [parts, parts, hspoken.1, hspoken.2]

/-- What is said but for blank lines settles the sections. -/
theorem parts_congr (defaultName : String) {ms ms' : List Meaning} (h : spoken ms' = spoken ms) :
    parts defaultName ms' = parts defaultName ms := by
  rw [← parts_spoken defaultName ms', h, parts_spoken]

section Padded

variable {Fits : String → Prop} {cs comment : List Char} {css css' : List (List Char)}
  {m : Meaning} {ms ms' : List Meaning}

/-- With a comment behind it, a line says the same. -/
theorem means_append_iff (hcomment : comment = [] ∨ IsComment comment)
    (hslash : (stripComment cs).getLast? ≠ some '/') :
    Means Fits (cs ++ comment) m ↔ Means Fits cs m := by
  rcases hcomment with rfl | hcomment
  · rw [List.append_nil]
  · rw [Means, Means, stripComment_append hcomment hslash]

/-- A line that says something does not end in a slash. -/
theorem Means.getLast?_ne (h : Means Fits cs m) : (stripComment cs).getLast? ≠ some '/' := by
  obtain ⟨ws, hsplits, -⟩ := h
  exact hsplits.getLast?_ne

/-- The lines of a padded text say what the lines of the text say, and nothing else. -/
theorem Padded.exists_means (h : Padded css css') (hms : List.Forall₂ (Means Fits) css ms) :
    ∃ ms', List.Forall₂ (Means Fits) css' ms' ∧ spoken ms' = spoken ms := by
  induction h generalizing ms with
  | nil => exact ⟨ms, hms, rfl⟩
  | line hcomment _ ih =>
    obtain ⟨m, ms, hm, htail, rfl⟩ := List.forall₂_cons_left_iff.1 hms
    obtain ⟨ms', hms', hspoken⟩ := ih htail
    have hline := (means_append_iff hcomment hm.getLast?_ne).2 hm
    exact ⟨m :: ms', .cons hline hms', spoken_cons m hspoken⟩
  | blank hcs _ ih =>
    obtain ⟨ms', hms', hspoken⟩ := ih hms
    exact ⟨.blank :: ms', .cons hcs.means hms', hspoken⟩

/-- The lines of a text say what the lines of a padded text say, if no comment starts too early. -/
theorem Padded.exists_means_of_padded (h : Padded css css')
    (hslash : ∀ cs ∈ css, (stripComment cs).getLast? ≠ some '/')
    (hms' : List.Forall₂ (Means Argument.FewDigits) css' ms') :
    ∃ ms, List.Forall₂ (Means Argument.FewDigits) css ms ∧ spoken ms' = spoken ms := by
  induction h generalizing ms' with
  | nil => exact ⟨ms', hms', rfl⟩
  | line hcomment _ ih =>
    rw [List.forall_mem_cons] at hslash
    obtain ⟨m, ms', hm, htail, rfl⟩ := List.forall₂_cons_left_iff.1 hms'
    obtain ⟨ms, hms, hspoken⟩ := ih hslash.2 htail
    have hline := (means_append_iff hcomment hslash.1).1 hm
    exact ⟨m :: ms, .cons hline hms, spoken_cons m hspoken⟩
  | blank hcs _ ih =>
    obtain ⟨m, ms', hm, htail, rfl⟩ := List.forall₂_cons_left_iff.1 hms'
    obtain ⟨ms, hms, hspoken⟩ := ih hslash htail
    obtain rfl := hm.unique hcs.means
    exact ⟨ms, hms, hspoken⟩

end Padded

/-! ### Texts -/

theorem assemble_false (source defaultName : String) :
    assemble source defaultName false = parse source defaultName := by
  rw [assemble]
  cases parse source defaultName <;> rfl

section Texts

variable {source source' defaultName : String} {a : Assembly}

/-- Padding a text changes nothing of its programs. -/
theorem Padded.parse_eq_ok (h : Padded (splitLines source.toList) (splitLines source'.toList))
    (hparse : parse source defaultName = .ok a) : parse source' defaultName = .ok a := by
  obtain ⟨ms, hms, hwell, hholds⟩ := parse_eq_ok_iff.1 hparse
  obtain ⟨ms', hms', hspoken⟩ := h.exists_means hms
  rw [← parts_congr defaultName hspoken] at hwell hholds
  exact parse_eq_ok_iff.2 ⟨ms', hms', hwell, hholds⟩

theorem Padded.parse_eq_ok_of_padded
    (h : Padded (splitLines source.toList) (splitLines source'.toList))
    (hslash : ∀ cs ∈ splitLines source.toList, (stripComment cs).getLast? ≠ some '/')
    (hparse : parse source' defaultName = .ok a) : parse source defaultName = .ok a := by
  obtain ⟨ms', hms', hwell, hholds⟩ := parse_eq_ok_iff.1 hparse
  obtain ⟨ms, hms, hspoken⟩ := h.exists_means_of_padded hslash hms'
  rw [parts_congr defaultName hspoken] at hwell hholds
  exact parse_eq_ok_iff.2 ⟨ms, hms, hwell, hholds⟩

end Texts

/-- A statement and a header. -/
def counter : String := "[L1] x1 <- x1 + 1\nFUNCTION f"

/-- The same with comments and blank lines. -/
def commentedCounter : String := "# count\n[L1] x1 <- x1 + 1// up\nFUNCTION f#\n"

theorem padded_counter :
    Padded (splitLines counter.toList) (splitLines commentedCounter.toList) := by
  have hlines : splitLines counter.toList =
      ["[L1] x1 <- x1 + 1".toList, "FUNCTION f".toList] := by decide +kernel
  have hlines' : splitLines commentedCounter.toList =
      ["# count".toList, "[L1] x1 <- x1 + 1".toList ++ "// up".toList, "FUNCTION f".toList ++ ['#'],
        []] := by decide +kernel
  have hup : IsComment "// up".toList := ⟨_, .inr rfl⟩
  have hend : IsComment ['#'] := ⟨_, .inl rfl⟩
  rw [hlines, hlines']
  exact .blank (by decide) (.line (.inr hup) (.line (.inr hend) (.blank (by decide) .nil)))

/-- The first line of the example is a statement with a label. -/
theorem means_labelled : Means Argument.FewDigits "[L1] x1 <- x1 + 1".toList
    (.statement (.plain (some (.numbered 0)) (.increase (.input 0)))) := by
  have hstrip : stripComment "[L1] x1 <- x1 + 1".toList = "[L1] x1 <- x1 + 1".toList := by
    decide +kernel
  have hsum : Splits (['x', '1'] ++ (' ' :: '+' :: ' ' :: (['1'] ++ []))) _ :=
    .word (by decide +kernel) (by decide +kernel) (.space rfl (.symbol rfl (.space rfl
      (.number (by decide) (List.all_eq_true.1 (by decide +kernel)) rfl .nil))))
  have hassignment : Splits (['x', '1'] ++ (' ' :: '<' :: '-' :: ' ' :: _)) _ :=
    .word (by decide +kernel) (by decide +kernel) (.space rfl (.arrow (.space rfl hsum)))
  have hsplits : Splits ('[' :: (['L', '1'] ++ (']' :: ' ' :: _))) _ :=
    .symbol rfl (.word (by decide +kernel) (by decide +kernel) (.symbol rfl
      (.space rfl hassignment)))
  have hvariable : SpellsVariable Argument.FewDigits (wordKind ['x', '1'], String.ofList ['x', '1'])
      (.input 0) := ⟨by decide +kernel, by decide +kernel, by decide +kernel⟩
  have hlabel : SpellsLabel Argument.FewDigits (wordKind ['L', '1'], String.ofList ['L', '1'])
      (.numbered 0) := ⟨by decide +kernel, rfl, by decide +kernel⟩
  have hone : SpellsNumber Argument.FewDigits (.number, String.ofList ['1']) 1 :=
    ⟨rfl, List.all_eq_true.1 (by decide +kernel), by decide +kernel, by decide +kernel⟩
  rw [Means, hstrip]
  refine ⟨_, hsplits, .labelled rfl hlabel rfl rfl ?_, nofun⟩
  exact .increase hvariable rfl hvariable rfl hone

/-- The second line of the example is a header. -/
theorem means_function : Means Argument.FewDigits "FUNCTION f".toList (.header false "f") := by
  have hstrip : stripComment "FUNCTION f".toList = "FUNCTION f".toList := by decide +kernel
  have hsplits : Splits (['F', 'U', 'N', 'C', 'T', 'I', 'O', 'N'] ++ (' ' :: (['f'] ++ []))) _ :=
    .word (by decide +kernel) (by decide +kernel) (.space rfl
      (.word (by decide +kernel) (by decide +kernel) .nil))
  rw [Means, hstrip]
  exact ⟨_, hsplits, .function (by decide +kernel) (by decide +kernel), trivial⟩

theorem means_counter : List.Forall₂ (Means Argument.FewDigits) (splitLines counter.toList)
    [.statement (.plain (some (.numbered 0)) (.increase (.input 0))), .header false "f"] := by
  have hlines : splitLines counter.toList =
      ["[L1] x1 <- x1 + 1".toList, "FUNCTION f".toList] := by decide +kernel
  rw [hlines]
  exact .cons means_labelled (.cons means_function .nil)

/-- Assembly is line by line. A text can be read if and only if each of its lines says something on
its own and what the lines say makes up an assembly. What they say is settled then: the programs are
the sections in their order, which hold the instructions of the lines, each of them once. Further
blank lines and comments change nothing, unless the text could not be read because of a slash that a
comment then takes away. And a reader that goes through one stream of the tokens of all lines has
the same answer, refusals included. -/
theorem assemble_line_by_line (source defaultName : String) :
    ((∃ a, assemble source defaultName false = .ok a) ↔
      ∃ ms, List.Forall₂ (Means Argument.FewDigits) (splitLines source.toList) ms ∧
        WellFormed (parts defaultName ms)) ∧
    (∀ ms, List.Forall₂ (Means Argument.FewDigits) (splitLines source.toList) ms →
      (∀ ms', List.Forall₂ (Means Argument.FewDigits) (splitLines source.toList) ms' → ms' = ms) ∧
      (∀ a, assemble source defaultName false = .ok a → a.Holds (parts defaultName ms)) ∧
      (parts defaultName ms).flatMap Part.code = ms.filterMap Meaning.instruction?) ∧
    (∀ source', Padded (splitLines source.toList) (splitLines source'.toList) → ∀ a,
      (assemble source defaultName false = .ok a → assemble source' defaultName false = .ok a) ∧
      ((∀ cs ∈ splitLines source.toList, (stripComment cs).getLast? ≠ some '/') →
        assemble source' defaultName false = .ok a → assemble source defaultName false = .ok a)) ∧
    scan source defaultName = (assemble source defaultName false).mapError .refused := by
  simp only [assemble_false]
  refine ⟨⟨?_, ?_⟩, fun ms hms => ⟨?_, ?_, flatMap_code_parts defaultName ms⟩,
    fun source' hpadded a => ⟨hpadded.parse_eq_ok, hpadded.parse_eq_ok_of_padded⟩,
    scan_eq source defaultName⟩
  · rintro ⟨a, hparse⟩
    obtain ⟨ms, hms, hwell, -⟩ := parse_eq_ok_iff.1 hparse
    exact ⟨ms, hms, hwell⟩
  · rintro ⟨ms, hms, hwell⟩
    obtain ⟨a, hholds⟩ := hwell.exists_holds
    exact ⟨a, parse_eq_ok_iff.2 ⟨ms, hms, hwell, hholds⟩⟩
  · exact fun ms' hms' => unique_of_means hms' hms
  · intro a hparse
    obtain ⟨ms', hms', -, hholds⟩ := parse_eq_ok_iff.1 hparse
    rwa [unique_of_means hms' hms] at hholds

theorem counter_assemble_line_by_line :
    Padded (splitLines counter.toList) (splitLines commentedCounter.toList) ∧
      ∃ a, assemble commentedCounter "main" false = .ok a ∧
        a.Holds [⟨"main", true, [.plain (some (.numbered 0)) (.increase (.input 0))]⟩,
          ⟨"f", false, []⟩] := by
  have hwell : WellFormed [⟨"main", true, [.plain (some (.numbered 0)) (.increase (.input 0))]⟩,
      ⟨"f", false, []⟩] := ⟨⟨_, rfl⟩, by decide, by decide⟩
  obtain ⟨⟨-, hsucceeds⟩, hholds, hcomments, -⟩ := assemble_line_by_line counter "main"
  obtain ⟨a, ha⟩ := hsucceeds ⟨_, means_counter, hwell⟩
  have ha' := (hcomments commentedCounter padded_counter a).1 ha
  exact ⟨padded_counter, a, ha', (hholds _ means_counter).2.1 a ha⟩

/-! ### Numbers that are too long -/

section Constant

variable {digits : List Char}

/-- The assignment of a constant to the first input. -/
def constantLine (digits : List Char) : List Char :=
  "x1 <- ".toList ++ digits

theorem isPlain_constantLine (hdigits : ∀ c ∈ digits, c = '1') :
    ∀ c ∈ constantLine digits, isPlain c = true := by
  refine List.forall_mem_append.2 ⟨List.all_eq_true.1 (by decide), fun c hc => ?_⟩
  rw [hdigits c hc]
  decide

theorem isDecimal_of_digits (hdigits : ∀ c ∈ digits, c = '1') :
    ∀ c ∈ digits, Text.isDecimal c = true := by
  intro c hc
  rw [hdigits c hc]
  decide

theorem splits_constantLine (hne : digits ≠ []) (hdigits : ∀ c ∈ digits, c = '1') :
    Splits (stripComment (constantLine digits))
      [(.identifier, "x1"), (.arrow, "<-"), (.number, String.ofList digits)] := by
  have hword : (wordKind ['x', '1'], String.ofList ['x', '1']) = (.identifier, "x1") := by
    decide +kernel
  have hstops : Text.stopsAt (fun c => Text.isWordChar c || c == '(') [' '] = true := by
    decide +kernel
  have hsplits : Splits (['x', '1'] ++ (' ' :: '<' :: '-' :: ' ' :: (digits ++ []))) _ :=
    .word (by decide +kernel) hstops (.space rfl (.arrow (.space rfl
      (.number hne (isDecimal_of_digits hdigits) rfl .nil))))
  rw [stripComment_eq_self (isPlain_constantLine hdigits)]
  rwa [hword, List.append_nil] at hsplits

/-- An assignment of a constant is a statement if the length of numbers does not matter. -/
theorem exists_means_constantLine (hne : digits ≠ []) (hdigits : ∀ c ∈ digits, c = '1') :
    ∃ o, Means (fun _ => True) (constantLine digits) (.statement (.plain none o)) := by
  have hvariable : SpellsVariable (fun _ => True) (.identifier, "x1") (.input 0) :=
    ⟨rfl, by decide +kernel, trivial⟩
  have hnumber : SpellsNumber (fun _ => True) (.number, String.ofList digits)
      (Text.decimalValue digits) := by
    rw [SpellsNumber, String.toList_ofList]
    exact ⟨rfl, isDecimal_of_digits hdigits, rfl, trivial⟩
  have hsplits := splits_constantLine hne hdigits
  by_cases hzero : Text.decimalValue digits = 0
  · rw [hzero] at hnumber
    exact ⟨_, _, hsplits, .plain (.zeroVariable hvariable rfl hnumber), fun _ _ _ => trivial⟩
  · exact ⟨_, _, hsplits, .plain (.constantAssignment hvariable rfl hnumber hzero),
      fun _ _ _ => trivial⟩

/-- An assignment of a constant is read only if the constant has few digits. -/
theorem fewDigits_of_means_constantLine (hne : digits ≠ []) (hdigits : ∀ c ∈ digits, c = '1')
    {m : Meaning} (h : Means Argument.FewDigits (constantLine digits) m) :
    Argument.FewDigits (String.ofList digits) := by
  obtain ⟨ws, hsplits, hdenotes, -⟩ := h
  obtain rfl := hsplits.unique (splits_constantLine hne hdigits)
  cases hdenotes with
  | labelled hl => cases hl
  | plain hspells =>
    cases hspells with
    | zeroVariable _ _ hn | constantAssignment _ _ hn _ => exact hn.2.2.2
    | neutral _ _ hw | assignment _ _ hw _ => cases hw.1
    | quotation _ _ hc => cases hc.1

end Constant

/-- The assignment of a constant that has one digit more than can be read. -/
def longConstant : String :=
  String.ofList (constantLine (List.replicate 4301 '1') ++ ['\n'])

/-- A text whose lines are complete statements is refused because of a number that is too long. -/
theorem longConstant_refused :
    (∃ ms, List.Forall₂ (Means fun _ => True) (splitLines longConstant.toList) ms ∧
      WellFormed (parts "main" ms)) ∧
    ∀ a, assemble longConstant "main" false ≠ .ok a := by
  have hdigits : ∀ c ∈ List.replicate 4301 '1', c = '1' := fun _ => List.eq_of_mem_replicate
  have hne : List.replicate 4301 '1' ≠ [] := nofun
  have hlines : splitLines longConstant.toList =
      [constantLine (List.replicate 4301 '1'), []] := by
    rw [longConstant, String.toList_ofList, splitLines_append (isPlain_constantLine hdigits)]
    rfl
  have hlong : ¬ Argument.FewDigits (String.ofList (List.replicate 4301 '1')) := by
    rw [Argument.FewDigits, String.toList_ofList, List.countP_replicate]
    decide
  rw [hlines]
  constructor
  · obtain ⟨o, hmeans⟩ := exists_means_constantLine hne hdigits
    have hempty : Means (fun _ => True) [] .blank := ⟨[], .nil, .blank, trivial⟩
    refine ⟨_, .cons hmeans (.cons hempty .nil), ⟨_, rfl⟩, List.nodup_singleton _, ?_⟩
    exact List.forall_mem_singleton.2 List.nodup_nil
  · intro a ha
    rw [assemble_false] at ha
    obtain ⟨ms, hms, -⟩ := parse_eq_ok_iff.1 ha
    rw [hlines] at hms
    obtain ⟨m, -, hmeans, -, -⟩ := List.forall₂_cons_left_iff.1 hms
    exact hlong (fewDigits_of_means_constantLine hne hdigits hmeans)

end RegisterMachine.Assembly
