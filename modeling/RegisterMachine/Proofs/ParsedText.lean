import RegisterMachine.Proofs.ProgramText

/-!
# What has been read can be printed

The programs of a text can be printed without loss. Whatever the lexers call an identifier is one,
so the names of programs and everything in the arguments of calls are identifiers. The rules tell
`v <- w` from `v <- v` and a comparison with zero from one with another constant, and put no label
on an instruction that is no numbered one.

* `Call.worded_of_parse` — the names in a call;
* `Assembly.Means.printable` — what a line says;
* `Assembly.printable_of_parse` — the programs of a text.
-/

namespace RegisterMachine

/-- The names and functions in the call that a text spells are identifiers. -/
theorem Call.worded_of_parse {s : String} {c : Call} (h : parse s = .ok c) :
    ∀ n ∈ Argument.walk [c.toArgument], n.Worded :=
  fun n hn => (readable_of_parse h n hn).worded

theorem Operation.worded_of_call?_eq_none {o : Operation} (h : o.call? = none) : o.Worded := by
  intro c hc
  rw [h] at hc
  cases hc

theorem Operation.worded_of_call?_eq_some {o : Operation} {c : Call} (h : o.call? = some c)
    (hc : ∀ n ∈ Argument.walk [c.toArgument], n.Worded) : o.Worded := by
  intro c' hc'
  obtain rfl := Option.some.inj (h.symm.trans hc')
  exact hc

namespace Assembly

/-! ### Lines -/

section Lines

variable {ws : List (TokenKind × String)} {cs : List Char} {m : Meaning}

theorem SpellsCall.worded {w : TokenKind × String} {c : Call}
    (h : SpellsCall Argument.FewDigits w c) : ∀ n ∈ Argument.walk [c.toArgument], n.Worded :=
  Call.worded_of_parse (Call.parse_eq_ok_iff.2 h.2)

/-- A statement is the text of no other operation. -/
theorem SpellsOperation.printable {o : Operation} (h : SpellsOperation Argument.FewDigits ws o) :
    o.Worded ∧ o.Distinct := by
  cases h with
  | quotation _ _ hc | jumpEqualFunction _ _ _ hc =>
    exact ⟨Operation.worded_of_call?_eq_some rfl hc.worded, trivial⟩
  | assignment _ _ _ hne => exact ⟨Operation.worded_of_call?_eq_none rfl, hne⟩
  | jumpEqualConstant _ _ _ _ hk => exact ⟨Operation.worded_of_call?_eq_none rfl, hk⟩
  | neutral | increase | decrease | zeroVariable | constantAssignment | gotoLabel | jumpNotZero
  | jumpZero | jumpEqualVariable => exact ⟨Operation.worded_of_call?_eq_none rfl, trivial⟩

/-- What a line says can be printed. -/
def Meaning.Printable : Meaning → Prop
  | blank => True
  | header _ name => IsName name
  | statement i => i.Printable

theorem Means.printable (h : Means Argument.FewDigits cs m) : m.Printable := by
  obtain ⟨ws, hsplits, hdenotes, -⟩ := h
  have hsound := hsplits.sound
  cases hdenotes with
  | blank => trivial
  | program _ hn | function _ hn =>
    rw [List.forall_mem_cons, List.forall_mem_singleton] at hsound
    exact hsound.2.identifier hn
  | plain hspells =>
    obtain ⟨hworded, hdistinct⟩ := hspells.printable
    exact ⟨rfl, nofun, hworded, hdistinct⟩
  | labelled _ _ hlabel _ hspells =>
    obtain ⟨hworded, hdistinct⟩ := hspells.printable
    refine ⟨rfl, ?_, hworded, hdistinct⟩
    rintro ⟨⟩
    cases hlabel

theorem printable_of_means {css : List (List Char)} {ms : List Meaning}
    (h : List.Forall₂ (Means Argument.FewDigits) css ms) : ∀ m ∈ ms, m.Printable := by
  induction h with
  | nil => exact List.forall_mem_nil _
  | cons hmeans _ ih => exact List.forall_mem_cons.2 ⟨hmeans.printable, ih⟩

end Lines

/-! ### Programs -/

section Programs

variable {a : Assembly} {ps : List Part} {ms : List Meaning} {defaultName : String}

/-- Sections can be printed if what the lines say can be. -/
theorem printable_parts (hdefault : IsName defaultName) (hms : ∀ m ∈ ms, m.Printable) :
    ∀ p ∈ parts defaultName ms, IsName p.name ∧ ∀ i ∈ p.code, i.Printable := by
  have hheaded : (∀ i ∈ leading ms, i.Printable) ∧
      ∀ p ∈ headed ms, IsName p.name ∧ ∀ i ∈ p.code, i.Printable := by
    induction ms with
    | nil => exact ⟨List.forall_mem_nil _, List.forall_mem_nil _⟩
    | cons m ms ih =>
      rw [List.forall_mem_cons] at hms
      obtain ⟨hleading, hheaded⟩ := ih hms.2
      cases m with
      | blank => exact ⟨hleading, hheaded⟩
      | header isMain name =>
        exact ⟨List.forall_mem_nil _, List.forall_mem_cons.2 ⟨⟨hms.1, hleading⟩, hheaded⟩⟩
      | statement i => exact ⟨List.forall_mem_cons.2 ⟨hms.1, hleading⟩, hheaded⟩
  rw [parts]
  split
  · exact hheaded.2
  · rename_i hleading
    exact List.forall_mem_cons.2 ⟨⟨hdefault, hleading ▸ hheaded.1⟩, hheaded.2⟩

/-- The names and instructions of the programs are those of the sections, in some order. -/
theorem Holds.perm (h : a.Holds ps) :
    (a.programs.map fun p => (p.name, p.code)).Perm (ps.map fun p => (p.name, p.code)) := by
  have hperm := (List.filter_append_perm Part.isMain ps).map fun p => (p.name, p.code)
  rw [List.map_append, h.main, h.functions] at hperm
  exact hperm

/-- The programs of a text can be printed. -/
theorem printable_of_parse {source : String} (hdefault : IsName defaultName)
    (h : parse source defaultName = .ok a) : a.Printable := by
  obtain ⟨ms, hms, hwell, hholds⟩ := parse_eq_ok_iff.1 h
  constructor
  · intro p hp
    have hmem := hholds.perm.mem_iff.1 (List.mem_map_of_mem hp)
    obtain ⟨part, hpart, heq⟩ := List.mem_map.1 hmem
    obtain ⟨hname, hcode⟩ := Prod.mk.inj heq
    have hparts := printable_parts hdefault (printable_of_means hms) part hpart
    rw [hname, hcode] at hparts
    exact ⟨hparts.1, hparts.2⟩
  · have hnames := hholds.perm.map Prod.fst
    rw [List.map_map, List.map_map] at hnames
    exact hnames.nodup_iff.2 hwell.names

end Programs

end Assembly

end RegisterMachine
