import RegisterMachine.Proofs.LineGrammar

/-!
# Printed statements

A printed statement is read back as the instruction that it was printed from, with one exception:
`v <- 0` is the text of an assignment of the constant zero as well, and it is read as the operation
that has no constant. What has to be known of the instruction is that nothing of it stays out of the
text, that its text is not the text of some other operation too, and that its numbers are not too
long to be read.

* `Instruction.Printable`, `Instruction.Brief` — what can be printed, and read back;
* `Operation.asRead`, `Instruction.asRead` — what is read;
* `Instruction.denotes_words` — what the words of a statement say.
-/

namespace RegisterMachine

/-! ### Names of variables and labels -/

theorem Variable.fewDigits_name {v : Variable} (h : v.Brief) : Argument.FewDigits v.name := by
  have hletter : ∀ c ∈ ['x', 'z'], ¬ Text.isDecimal c = true := by
    simp only [List.forall_mem_cons, List.not_mem_nil, false_imp_iff, implies_true, and_true]
    decide
  rcases v.toList_name with hname | ⟨c, hc, hname⟩
  · rw [Argument.FewDigits, hname]
    decide
  · rw [Argument.FewDigits, hname, List.countP_cons_of_neg (hletter c hc)]
    exact List.countP_le_length.trans h

/-- The name of a variable spells the variable. -/
theorem Variable.spells_word {v : Variable} (h : v.Brief) :
    Assembly.SpellsVariable Argument.FewDigits v.word v :=
  ⟨rfl, ofName?_name v, fewDigits_name h⟩

/-- No word that starts with an `L` is `EXIT`. -/
theorem Label.toKeyword_ne_exit {c : Char} (hc : c = 'l' ∨ c = 'L') (cs : List Char) :
    Text.toKeyword (c :: cs) ≠ "EXIT" := by
  intro h
  have hchars := congrArg String.toList h
  rcases hc with rfl | rfl <;> simp [Text.toKeyword, Text.capital] at hchars

/-- The name of a label spells the label. -/
theorem Label.spells_word {l : Label} (h : l.Brief) :
    Assembly.SpellsLabel Argument.FewDigits l.word l := by
  cases l with
  | exit => exact ⟨rfl, rfl, by decide⟩
  | numbered k =>
    have hkeyword := toKeyword_ne_exit (.inr rfl) (Nat.toDigits 10 (k + 1))
    refine ⟨rfl, ?_, ?_⟩
    · rw [word, Spelled, toList_name_numbered, Variable.trim_cons_toDigits (by decide),
        spellingOfTrimmed, if_neg (by simpa using hkeyword),
        Variable.isNameNumber_toDigits (Nat.succ_pos k), Text.decimalValue_toDigits]
      rfl
    · rw [word, Argument.FewDigits, toList_name_numbered, List.countP_cons_of_neg (by decide)]
      exact List.countP_le_length.trans h

/-- The numeral of a number spells the number. -/
theorem spells_constantWord {n : Nat} (h : Text.Short n) :
    Assembly.SpellsNumber Argument.FewDigits (constantWord n) n := by
  have hdigits : (toString n).toList = Nat.toDigits 10 n := Nat.toList_repr
  refine ⟨rfl, ?_, ?_, ?_⟩
  · rw [constantWord, hdigits]
    exact fun _ => Text.isDecimal_of_mem_toDigits
  · rw [constantWord, hdigits, Text.decimalValue_toDigits]
  · rw [constantWord, Argument.FewDigits, hdigits]
    exact List.countP_le_length.trans h

/-- The text of a call spells the call. -/
theorem Call.spells_word {c : Call} (h : Argument.LegibleIn [c.toArgument]) :
    Assembly.SpellsCall Argument.FewDigits c.word c :=
  ⟨rfl, Call.parse_eq_ok_iff.1 (Call.parse_render h.readable)⟩

/-! ### Operations -/

namespace Operation

/-- The numbers of an operation are not too long to be read. -/
structure Brief (o : Operation) : Prop where
  subject : ∀ v ∈ o.subject?, v.Brief
  source : ∀ v ∈ o.source?, v.Brief
  target : ∀ l ∈ o.target?, l.Brief
  constant : ∀ k ∈ o.constant?, Text.Short k
  call : ∀ c ∈ o.call?, ∀ n ∈ Argument.walk [c.toArgument], n.Brief

instance (o : Operation) : Decidable o.Brief :=
  decidable_of_iff
    ((∀ v ∈ o.subject?, v.Brief) ∧ (∀ v ∈ o.source?, v.Brief) ∧ (∀ l ∈ o.target?, l.Brief) ∧
      (∀ k ∈ o.constant?, Text.Short k) ∧
      ∀ c ∈ o.call?, ∀ n ∈ Argument.walk [c.toArgument], n.Brief)
    ⟨fun ⟨subject, source, target, constant, call⟩ => ⟨subject, source, target, constant, call⟩,
      fun h => ⟨h.subject, h.source, h.target, h.constant, h.call⟩⟩

instance (o : Operation) : Decidable o.Worded :=
  inferInstanceAs (Decidable (∀ c ∈ o.call?, ∀ n ∈ Argument.walk [c.toArgument], n.Worded))

/-- The text of an operation is the text of no other one, the assignment of zero apart: it copies no
variable into itself, which reads as doing nothing, and compares with no constant zero, which reads
as a test for zero. -/
def Distinct : Operation → Prop
  | assignment v source => source ≠ v
  | jumpEqualConstant _ k _ => k ≠ 0
  | _ => True

instance : DecidablePred Distinct
  | assignment v source => inferInstanceAs (Decidable (source ≠ v))
  | jumpEqualConstant _ k _ => inferInstanceAs (Decidable (k ≠ 0))
  | neutral _ | increase _ | decrease _ | jumpNotZero _ _ | zeroVariable _ | gotoLabel _
  | constantAssignment _ _ | jumpZero _ _ | jumpEqualVariable _ _ _ | quotation _ _
  | jumpEqualFunction _ _ _ => inferInstanceAs (Decidable True)

/-- What the text of an operation is read as. -/
def asRead : Operation → Operation
  | constantAssignment v 0 => zeroVariable v
  | o => o

/-- Only the assignment of zero is read as something else. -/
theorem asRead_eq_self_iff {o : Operation} :
    o.asRead = o ↔ ∀ v, o ≠ constantAssignment v 0 := by
  unfold asRead
  split
  · rename_i v
    exact ⟨nofun, fun h => absurd rfl (h v)⟩
  · rename_i hne
    exact ⟨fun _ v h => hne v h, fun _ => rfl⟩

theorem call?_asRead (o : Operation) : o.asRead.call? = o.call? := by
  unfold asRead
  split <;> rfl

end Operation

namespace Instruction

/-- The line of an instruction says all that there is to it: it has no spare operands, its label is
one that a line can carry, and its statement is that of no other operation. -/
structure Printable (i : Instruction) : Prop where
  plain : i = plain i.label i.operation
  label : i.label ≠ some .exit
  worded : i.operation.Worded
  distinct : i.operation.Distinct

/-- The numbers of an instruction are not too long to be read. -/
structure Brief (i : Instruction) : Prop where
  label : ∀ l ∈ i.label, l.Brief
  operation : i.operation.Brief

instance (i : Instruction) : Decidable i.Printable :=
  decidable_of_iff (i = .plain i.label i.operation ∧ i.label ≠ some .exit ∧
      i.operation.Worded ∧ i.operation.Distinct)
    ⟨fun ⟨plain, label, worded, distinct⟩ => ⟨plain, label, worded, distinct⟩,
      fun h => ⟨h.plain, h.label, h.worded, h.distinct⟩⟩

instance (i : Instruction) : Decidable i.Brief :=
  decidable_of_iff ((∀ l ∈ i.label, l.Brief) ∧ i.operation.Brief)
    ⟨fun ⟨label, operation⟩ => ⟨label, operation⟩, fun h => ⟨h.label, h.operation⟩⟩

/-- What the line of an instruction is read as. -/
def asRead (i : Instruction) : Instruction :=
  { i with operation := i.operation.asRead }

theorem asRead_eq_self_iff {i : Instruction} :
    i.asRead = i ↔ ∀ v, i.operation ≠ .constantAssignment v 0 := by
  rw [← Operation.asRead_eq_self_iff]
  exact ⟨fun h => congrArg operation h, fun h => by rw [asRead, h]⟩

end Instruction

/-- The words of an operation spell what it is read as. -/
theorem Operation.spells_words {o : Operation} (hworded : o.Worded) (hbrief : o.Brief)
    (hdistinct : o.Distinct) :
    Assembly.SpellsOperation Argument.FewDigits o.words o.asRead := by
  have hsubject : ∀ v ∈ o.subject?, Assembly.SpellsVariable Argument.FewDigits v.word v :=
    fun v hv => v.spells_word (hbrief.subject v hv)
  have hsource : ∀ v ∈ o.source?, Assembly.SpellsVariable Argument.FewDigits v.word v :=
    fun v hv => v.spells_word (hbrief.source v hv)
  have htarget : ∀ l ∈ o.target?, Assembly.SpellsLabel Argument.FewDigits l.word l :=
    fun l hl => l.spells_word (hbrief.target l hl)
  have hcall : ∀ c ∈ o.call?, Assembly.SpellsCall Argument.FewDigits c.word c :=
    fun c hc => c.spells_word fun n hn => ⟨hworded c hc n hn, hbrief.call c hc n hn⟩
  have hzero := spells_constantWord (n := 0) (by decide)
  have hone := spells_constantWord (n := 1) (by decide)
  cases o with
  | neutral v => exact .neutral (hsubject v rfl) rfl (hsubject v rfl)
  | increase v => exact .increase (hsubject v rfl) rfl (hsubject v rfl) rfl hone
  | decrease v => exact .decrease (hsubject v rfl) rfl (hsubject v rfl) rfl hone
  | zeroVariable v => exact .zeroVariable (hsubject v rfl) rfl hzero
  | constantAssignment v k =>
    rcases Nat.eq_zero_or_pos k with rfl | hk
    · exact .zeroVariable (hsubject v rfl) rfl hzero
    · have hread : (constantAssignment v k).asRead = constantAssignment v k :=
        asRead_eq_self_iff.2 fun _ he => hk.ne' (Operation.constantAssignment.inj he).2
      rw [hread]
      exact .constantAssignment (hsubject v rfl) rfl (spells_constantWord (hbrief.constant k rfl))
        hk.ne'
  | assignment v source =>
    exact .assignment (hsubject v rfl) rfl (hsource source rfl) hdistinct
  | quotation v c => exact .quotation (hsubject v rfl) rfl (hcall c rfl)
  | gotoLabel l => exact .gotoLabel rfl (htarget l rfl)
  | jumpNotZero v l =>
    exact .jumpNotZero rfl (hsubject v rfl) rfl hzero rfl (htarget l rfl)
  | jumpZero v l => exact .jumpZero rfl (hsubject v rfl) rfl hzero rfl (htarget l rfl)
  | jumpEqualConstant v k l =>
    exact .jumpEqualConstant rfl (hsubject v rfl) rfl (spells_constantWord (hbrief.constant k rfl))
      hdistinct rfl (htarget l rfl)
  | jumpEqualVariable v source l =>
    exact .jumpEqualVariable rfl (hsubject v rfl) rfl (hsource source rfl) rfl (htarget l rfl)
  | jumpEqualFunction v c l =>
    exact .jumpEqualFunction rfl (hsubject v rfl) rfl (hcall c rfl) rfl (htarget l rfl)

/-- The words of an instruction say what it is read as. -/
theorem Instruction.denotes_words {i : Instruction} (hi : i.Printable) (hbrief : i.Brief) :
    Assembly.Denotes Argument.FewDigits i.words (.statement i.asRead) := by
  have hspells := Operation.spells_words hi.worded hbrief.operation hi.distinct
  have hread : i.asRead = .plain i.label i.operation.asRead := by
    rw [asRead, hi.plain]
    rfl
  rw [hread, words]
  rcases hlabel : i.label with _ | _ | k
  · exact .plain hspells
  · exact absurd hlabel hi.label
  · exact .labelled rfl (Label.spells_word (hbrief.label _ hlabel)) rfl rfl hspells

end RegisterMachine
