import RegisterMachine.Proofs.ArgumentWords

/-!
# The grammar of arguments

A text spells arguments if and only if the grammar derives them from its words. The reader descends
with the grammar: whatever it passes on its way to an argument is derived as that argument, and what
is derived is found, in front of a sign that may stand behind it. The fuel of the descent is enough,
since two words of a derivation pay for every step. The parentheses that the lexer counts balance in
everything that is derived.

* `Argument.Derives` — the grammar;
* `Argument.passes_of_readItem`, `Argument.passes_of_readItems` — what is read is derived;
* `Argument.Derives.finds` — what is derived is read;
* `Argument.ofText_eq_ok_iff` — from texts to arguments.
-/

namespace RegisterMachine.Argument

/-! ### The grammar -/

/-- What the grammar has names for. -/
inductive Nonterminal where
  /-- A list of arguments, which may be empty. -/
  | arguments
  /-- One argument. -/
  | argument
  /-- Any number of arguments, each behind a comma. -/
  | further

/-- The grammar of arguments, with the arguments that are derived. -/
inductive Derives : Nonterminal → List (TokenKind × String) → List Argument → Prop
  | empty : Derives .arguments [] []
  | list {ws ws' : List (TokenKind × String)} {a : Argument} {as : List Argument}
      (first : Derives .argument ws [a]) (others : Derives .further ws' as) :
      Derives .arguments (ws ++ ws') (a :: as)
  | stop : Derives .further [] []
  | comma {w : TokenKind × String} {ws ws' : List (TokenKind × String)} {a : Argument}
      {as : List Argument} (hw : w.1 = .comma) (first : Derives .argument ws [a])
      (others : Derives .further ws' as) : Derives .further (w :: (ws ++ ws')) (a :: as)
  | number {w : TokenKind × String} (hw : w.1 = .number) :
      Derives .argument [w] [.constant (integerValue w.2.toList)]
  | name {w : TokenKind × String} (hw : w.1 = .identifier) : Derives .argument [w] [.name w.2]
  /-- A call with the function inside the parentheses. -/
  | inside {l f r : TokenKind × String} {ws : List (TokenKind × String)} {as : List Argument}
      (hl : l.1 = .leftParen) (hf : f.1 = .identifier) (arguments : Derives .further ws as)
      (hr : r.1 = .rightParen) : Derives .argument (l :: f :: (ws ++ [r])) [.call f.2 as]
  /-- A call with the function in front of the parentheses. -/
  | before {f l r : TokenKind × String} {ws : List (TokenKind × String)} {as : List Argument}
      (hf : f.1 = .identifier) (hl : l.1 = .leftParen) (arguments : Derives .arguments ws as)
      (hr : r.1 = .rightParen) : Derives .argument (f :: l :: (ws ++ [r])) [.call f.2 as]

section Derives

variable {n : Nonterminal} {w : TokenKind × String} {ws rest : List (TokenKind × String)}
  {as : List Argument} {depth : Nat}

/-- Parentheses balance in what is derived. -/
theorem Derives.closes (h : Derives n ws as) (hrest : Closes depth rest) :
    Closes depth (ws ++ rest) := by
  induction h generalizing depth rest with
  | empty | stop => exact hrest
  | list _ _ first others =>
    rw [List.append_assoc]
    exact first (others hrest)
  | comma hw _ _ first others =>
    rw [List.cons_append, List.append_assoc, Closes, hw]
    exact first (others hrest)
  | number hw | name hw =>
    rw [List.singleton_append, Closes, hw]
    exact hrest
  | inside hl hf _ hr arguments =>
    rw [List.cons_append, List.cons_append, List.append_assoc, List.singleton_append, Closes, hl,
      Closes, hf]
    refine arguments ?_
    rw [Closes, hr]
    exact ⟨Nat.succ_pos depth, hrest⟩
  | before hf hl _ hr arguments =>
    rw [List.cons_append, List.cons_append, List.append_assoc, List.singleton_append, Closes, hf]
    dsimp only
    rw [Closes, hl]
    refine arguments ?_
    rw [Closes, hr]
    exact ⟨Nat.succ_pos depth, hrest⟩

end Derives

/-! ### From tokens to arguments -/

/-- No number among some words has too many digits. -/
def FewDigitsIn (ws : List (TokenKind × String)) : Prop :=
  ∀ w ∈ ws, w.1 = .number → FewDigits w.2

instance : DecidablePred FewDigitsIn := fun ws =>
  inferInstanceAs (Decidable (∀ w ∈ ws, w.1 = .number → FewDigits w.2))

theorem fewDigitsIn_append {ws ws' : List (TokenKind × String)} :
    FewDigitsIn (ws ++ ws') ↔ FewDigitsIn ws ∧ FewDigitsIn ws' :=
  List.forall_mem_append

theorem fewDigitsIn_cons {w : TokenKind × String} {ws : List (TokenKind × String)} :
    FewDigitsIn (w :: ws) ↔ (w.1 = .number → FewDigits w.2) ∧ FewDigitsIn ws :=
  List.forall_mem_cons

theorem fewDigitsIn_nil : FewDigitsIn [] :=
  List.forall_mem_nil _

/-- The kind of the first of some words, or of the end. -/
def nextKind : List (TokenKind × String) → TokenKind
  | [] => .atEnd
  | w :: _ => w.1

namespace Reader

variable {r r' : Reader} {t : Token} {kind : TokenKind} {w : TokenKind × String}
  {ws : List (TokenKind × String)}

/-- The words in front of a reader. -/
def words (r : Reader) : List (TokenKind × String) :=
  r.left.map Token.word

theorem words_of_next (h : r.next.kind ≠ .atEnd) : r.words = r.next.word :: r.skip.words := by
  obtain ⟨stop, _ | ⟨t, ts⟩⟩ := r
  · exact absurd rfl h
  · rfl

theorem words_of_next_eq (h : r.next.kind = kind) (hkind : kind ≠ .atEnd) :
    r.words = r.next.word :: r.skip.words :=
  words_of_next (h ▸ hkind)

theorem kind_next (r : Reader) : r.next.kind = nextKind r.words := by
  obtain ⟨stop, _ | ⟨t, ts⟩⟩ := r <;> rfl

/-- A reader in front of a word. -/
theorem next_of_words (h : r.words = w :: ws) :
    r.next.kind = w.1 ∧ r.next.text = w.2 ∧ r.skip.words = ws := by
  obtain ⟨stop, _ | ⟨t, ts⟩⟩ := r
  · cases h
  · obtain ⟨rfl, rfl⟩ := List.cons.inj h
    exact ⟨rfl, rfl, rfl⟩

theorem expect_eq_ok (h : r.expect kind = .ok (t, r')) :
    r.next.kind = kind ∧ t = r.next ∧ r' = r.skip := by
  rw [expect] at h
  split at h
  · rename_i hkind
    obtain ⟨rfl, rfl⟩ := Prod.mk.inj (Except.ok.inj h)
    exact ⟨hkind, rfl, rfl⟩
  · cases h

theorem expect_of_words (h : r.words = w :: ws) (hkind : w.1 = kind) :
    r.expect kind = .ok (r.next, r.skip) := by
  rw [expect, if_pos ((next_of_words h).1.trans hkind)]

end Reader

/-- What the reader passes on its way is derived by the grammar, and no number in it is too long. -/
def Reader.Passes (r : Reader) (n : Nonterminal) (as : List Argument) (r' : Reader) : Prop :=
  ∃ ws, r.words = ws ++ r'.words ∧ Derives n ws as ∧ FewDigitsIn ws

namespace Reader.Passes

variable {r r₁ r₂ : Reader} {a : Argument} {as : List Argument}

theorem nil {n : Nonterminal} (h : Derives n [] []) : r.Passes n [] r :=
  ⟨[], rfl, h, fewDigitsIn_nil⟩

theorem list (ha : r.Passes .argument [a] r₁) (has : r₁.Passes .further as r₂) :
    r.Passes .arguments (a :: as) r₂ := by
  obtain ⟨ws, hr, hws, hfew⟩ := ha
  obtain ⟨ws', hr₁, hws', hfew'⟩ := has
  refine ⟨ws ++ ws', ?_, .list hws hws', fewDigitsIn_append.2 ⟨hfew, hfew'⟩⟩
  rw [hr, hr₁, List.append_assoc]

theorem comma (hr : r.next.kind = .comma) (ha : r.skip.Passes .argument [a] r₁)
    (has : r₁.Passes .further as r₂) : r.Passes .further (a :: as) r₂ := by
  obtain ⟨ws, hskip, hws, hfew⟩ := ha
  obtain ⟨ws', hr₁, hws', hfew'⟩ := has
  refine ⟨r.next.word :: (ws ++ ws'), ?_, .comma hr hws hws', ?_⟩
  · rw [words_of_next_eq hr (by decide), hskip, hr₁, List.cons_append, List.append_assoc]
  · refine fewDigitsIn_cons.2 ⟨fun hnumber => ?_, fewDigitsIn_append.2 ⟨hfew, hfew'⟩⟩
    cases hr.symm.trans hnumber

/-- A call is passed with its function, its arguments and both parentheses. -/
private theorem enclose {n : Nonterminal} {f : String}
    (hnext : r.next.kind ∈ [.leftParen, .identifier])
    (hskip : r.skip.next.kind ∈ [.leftParen, .identifier])
    (has : r.skip.skip.Passes n as r₁) (hright : r₁.next.kind = .rightParen)
    (hderives : ∀ {ws : List (TokenKind × String)}, Derives n ws as →
      Derives .argument (r.next.word :: r.skip.next.word :: (ws ++ [r₁.next.word])) [call f as]) :
    r.Passes .argument [call f as] r₁.skip := by
  have hkind : ∀ kind ∈ [TokenKind.leftParen, .identifier], kind ≠ .atEnd ∧ kind ≠ .number := by
    decide
  obtain ⟨ws, hskip₂, hws, hfew⟩ := has
  refine ⟨r.next.word :: r.skip.next.word :: (ws ++ [r₁.next.word]), ?_, hderives hws, ?_⟩
  · rw [words_of_next (hkind _ hnext).1, words_of_next (hkind _ hskip).1, hskip₂,
      words_of_next_eq hright (by decide)]
    simp
  · refine fewDigitsIn_cons.2 ⟨fun h => absurd h (hkind _ hnext).2, fewDigitsIn_cons.2
      ⟨fun h => absurd h (hkind _ hskip).2, fewDigitsIn_append.2 ⟨hfew, ?_⟩⟩⟩
    exact List.forall_mem_singleton.2 fun h => by cases hright.symm.trans h

theorem inside (hleft : r.next.kind = .leftParen) (hname : r.skip.next.kind = .identifier)
    (has : r.skip.skip.Passes .further as r₁) (hright : r₁.next.kind = .rightParen) :
    r.Passes .argument [call r.skip.next.text as] r₁.skip :=
  has.enclose (by simp [hleft]) (by simp [hname]) hright fun hws => .inside hleft hname hws hright

theorem before (hname : r.next.kind = .identifier) (hleft : r.skip.next.kind = .leftParen)
    (has : r.skip.skip.Passes .arguments as r₁) (hright : r₁.next.kind = .rightParen) :
    r.Passes .argument [call r.next.text as] r₁.skip :=
  has.enclose (by simp [hname]) (by simp [hleft]) hright fun hws => .before hname hleft hws hright

end Reader.Passes

/-- A call is put together from its function and arguments at the closing parenthesis. -/
private theorem eq_of_close {head : String} {arguments : List Argument} {r r' : Reader}
    {a : Argument}
    (h : (do let (_, r) ← r.expect .rightParen; return (call head arguments, r)) = .ok (a, r')) :
    r.next.kind = .rightParen ∧ a = call head arguments ∧ r' = r.skip := by
  obtain ⟨⟨close, r₁⟩, hclose, h⟩ := Bounded.bind_eq_ok.1 h
  obtain ⟨rfl, rfl⟩ := Prod.mk.inj (Except.ok.inj h)
  obtain ⟨hkind, -, rfl⟩ := Reader.expect_eq_ok hclose
  exact ⟨hkind, rfl, rfl⟩

mutual

/-- An argument that is read is derived from the words that are passed. -/
theorem passes_of_readItem : ∀ {fuel : Nat} {r r' : Reader} {a : Argument},
    readItem fuel r = .ok (a, r') → r.Passes .argument [a] r'
  | 0, _, _, _, h => by
    rw [readItem] at h
    cases h
  | fuel + 1, r, r', a, h => by
    rw [readItem] at h
    -- A constant, a call with the parenthesis in front of its function or behind it, or a name.
    split at h
    · rename_i hkind
      obtain ⟨value, hvalue, h⟩ := Bounded.bind_eq_ok.1 h
      obtain ⟨rfl, rfl⟩ := Prod.mk.inj (Except.ok.inj h)
      obtain ⟨hfew, rfl, -⟩ := integer_eq_ok (Bounded.mapError_eq_ok.1 hvalue)
      refine ⟨[r.next.word], r.words_of_next_eq hkind (by decide), .number hkind, ?_⟩
      exact List.forall_mem_singleton.2 fun _ => hfew
    · rename_i hleft
      obtain ⟨⟨head, r₁⟩, hhead, h⟩ := Bounded.bind_eq_ok.1 h
      obtain ⟨hname, rfl, rfl⟩ := Reader.expect_eq_ok hhead
      dsimp only at h
      split at h
      · rename_i hcomma
        obtain ⟨⟨arguments, r₂⟩, harguments, h⟩ := Bounded.bind_eq_ok.1 h
        obtain ⟨hright, rfl, rfl⟩ := eq_of_close h
        obtain ⟨b, bs, r₃, rfl, hb, hbs, -⟩ := passes_of_readItems harguments
        exact .inside hleft hname (.comma hcomma hb hbs) hright
      · obtain ⟨hright, rfl, rfl⟩ := eq_of_close h
        exact .inside hleft hname (.nil .stop) hright
    · rename_i hname
      split at h
      · rename_i hleft
        dsimp only at h
        split at h
        · obtain ⟨hright, rfl, rfl⟩ := eq_of_close h
          exact .before hname hleft (.nil .empty) hright
        · obtain ⟨⟨arguments, r₂⟩, harguments, h⟩ := Bounded.bind_eq_ok.1 h
          obtain ⟨hright, rfl, rfl⟩ := eq_of_close h
          obtain ⟨b, bs, r₃, rfl, hb, hbs, -⟩ := passes_of_readItems harguments
          exact .before hname hleft (.list hb hbs) hright
      · obtain ⟨rfl, rfl⟩ := Prod.mk.inj (Except.ok.inj h)
        refine ⟨[r.next.word], r.words_of_next_eq hname (by decide), .name hname, ?_⟩
        exact List.forall_mem_singleton.2 fun h => by cases hname.symm.trans h
    · cases h

/-- Arguments that are read are derived from the words that are passed, up to the closer. -/
theorem passes_of_readItems : ∀ {fuel : Nat} {closer : TokenKind} {r r' : Reader}
    {as : List Argument}, readItems fuel closer r = .ok (as, r') →
    ∃ a as' r₁, as = a :: as' ∧ r.Passes .argument [a] r₁ ∧ r₁.Passes .further as' r' ∧
      r'.next.kind = closer
  | 0, _, _, _, _, h => by
    rw [readItems] at h
    cases h
  | fuel + 1, closer, r, r', as, h => by
    rw [readItems] at h
    obtain ⟨⟨a, r₁⟩, ha, h⟩ := Bounded.bind_eq_ok.1 h
    dsimp only at h
    split at h
    · rename_i hcomma
      obtain ⟨⟨as, r₂⟩, has, h⟩ := Bounded.bind_eq_ok.1 h
      obtain ⟨rfl, rfl⟩ := Prod.mk.inj (Except.ok.inj h)
      obtain ⟨b, bs, r₃, rfl, hb, hbs, hcloser⟩ := passes_of_readItems has
      exact ⟨a, b :: bs, r₁, rfl, passes_of_readItem ha, .comma hcomma hb hbs, hcloser⟩
    · split at h
      · rename_i hcloser
        obtain ⟨rfl, rfl⟩ := Prod.mk.inj (Except.ok.inj h)
        exact ⟨a, [], r₁, rfl, passes_of_readItem ha, .nil .stop, hcloser⟩
      · cases h

end

/-! ### From derivations to arguments -/

/-- One argument is found in front of anything but an opening parenthesis. -/
def FindsItem (ws : List (TokenKind × String)) (a : Argument) : Prop :=
  ∀ (fuel : Nat) {r : Reader} {rest : List (TokenKind × String)}, 2 * ws.length ≤ fuel + 2 →
    r.words = ws ++ rest → nextKind rest ≠ .leftParen →
    ∃ r', readItem (fuel + 1) r = .ok (a, r') ∧ r'.words = rest

/-- Arguments are found in front of their closer. -/
def FindsList (ws : List (TokenKind × String)) (as : List Argument) : Prop :=
  ∀ (fuel : Nat) {closer : TokenKind} {r : Reader} {rest : List (TokenKind × String)},
    2 * ws.length ≤ fuel → r.words = ws ++ rest → nextKind rest = closer →
    (closer = .rightParen ∨ closer = .atEnd) →
    ∃ r', readItems fuel closer r = .ok (as, r') ∧ r'.words = rest

/-- What the reader finds where the grammar has a name for something. -/
def Finds : Nonterminal → List (TokenKind × String) → List Argument → Prop
  | .arguments, ws, as =>
    ws = [] ∧ as = [] ∨ nextKind ws ∉ [.atEnd, .rightParen] ∧ FindsList ws as
  | .argument, ws, as => nextKind ws ∉ [.atEnd, .rightParen] ∧ ∃ a, as = [a] ∧ FindsItem ws a
  | .further, ws, as =>
    ws = [] ∧ as = [] ∨ ∃ w ws', ws = w :: ws' ∧ w.1 = .comma ∧ FindsList ws' as

theorem nextKind_append {ws ws' : List (TokenKind × String)} (h : nextKind ws ≠ .atEnd) :
    nextKind (ws ++ ws') = nextKind ws := by
  cases ws with
  | nil => exact absurd rfl h
  | cons w ws => rfl

/-- An argument and what is behind it. -/
theorem FindsItem.list {ws ws' : List (TokenKind × String)} {a : Argument} {as : List Argument}
    (ha : FindsItem ws a) (hnext : nextKind ws ∉ [.atEnd, .rightParen])
    (has : Finds .further ws' as) : FindsList (ws ++ ws') (a :: as) := by
  intro fuel closer r rest hfuel hr hrest hcloser
  have hpos : 0 < ws.length := by
    refine List.length_pos_of_ne_nil ?_
    rintro rfl
    exact hnext List.mem_cons_self
  rw [List.length_append] at hfuel
  rw [List.append_assoc] at hr
  obtain ⟨fuel, rfl⟩ : ∃ k, fuel = k + 2 := Nat.exists_eq_add_of_le' (by omega)
  have hsigns : closer ≠ .leftParen ∧ closer ≠ .comma := by
    rcases hcloser with rfl | rfl <;> decide
  obtain ⟨rfl, rfl⟩ | ⟨w, ws', rfl, hw, hlist⟩ := has
  · obtain ⟨r₁, hread, hr₁⟩ := ha fuel (by omega) hr (hrest ▸ hsigns.1)
    have hkind : r₁.next.kind = closer := by rw [r₁.kind_next, hr₁, List.nil_append, hrest]
    refine ⟨r₁, ?_, hr₁⟩
    rw [readItems]
    refine Bounded.bind_eq_ok.2 ⟨(a, r₁), hread, ?_⟩
    dsimp only
    rw [if_neg (hkind ▸ hsigns.2), if_pos hkind]
    rfl
  · rw [List.length_cons] at hfuel
    have hcomma : nextKind (w :: ws' ++ rest) = .comma := hw
    obtain ⟨r₁, hread, hr₁⟩ := ha fuel (by omega) hr (by rw [hcomma]; decide)
    have hkind : r₁.next.kind = .comma := by rw [r₁.kind_next, hr₁, hcomma]
    have hskip : r₁.skip.words = ws' ++ rest := (Reader.next_of_words hr₁).2.2
    obtain ⟨r₂, hread', hr₂⟩ := hlist (fuel + 1) (by omega) hskip hrest hcloser
    refine ⟨r₂, ?_, hr₂⟩
    rw [readItems]
    refine Bounded.bind_eq_ok.2 ⟨(a, r₁), hread, ?_⟩
    dsimp only
    rw [if_pos hkind]
    exact Bounded.bind_eq_ok.2 ⟨(as, r₂), hread', rfl⟩

/-- A call is put together at the closing parenthesis. -/
private theorem close_eq_ok {head : String} {arguments : List Argument} {r : Reader}
    {w : TokenKind × String} {rest : List (TokenKind × String)} (hr : r.words = w :: rest)
    (hw : w.1 = .rightParen) :
    (do let (_, r) ← r.expect .rightParen; return (call head arguments, r)) =
      .ok (call head arguments, r.skip) :=
  Bounded.bind_eq_ok.2 ⟨(r.next, r.skip), r.expect_of_words hr hw, rfl⟩

section FindsItem

variable {w l f e : TokenKind × String} {ws : List (TokenKind × String)} {as : List Argument}

theorem findsItem_number (hw : w.1 = .number) (hinteger : isInteger w.2.toList = true)
    (hfew : FewDigits w.2) : FindsItem [w] (.constant (integerValue w.2.toList)) := by
  intro fuel r rest _ hr _
  obtain ⟨hkind, htext, hskip⟩ := r.next_of_words hr
  refine ⟨r.skip, ?_, hskip⟩
  rw [readItem, hkind, hw]
  dsimp only
  rw [htext, integer_of_isInteger hinteger hfew]
  rfl

theorem findsItem_name (hw : w.1 = .identifier) : FindsItem [w] (.name w.2) := by
  intro fuel r rest _ hr hrest
  obtain ⟨hkind, htext, hskip⟩ := r.next_of_words hr
  refine ⟨r.skip, ?_, hskip⟩
  rw [readItem, hkind, hw]
  dsimp only
  rw [if_neg (by rwa [Reader.kind_next, hskip]), htext]

/-- A call with the function inside the parentheses. -/
theorem Finds.inside (h : Finds .further ws as) (hl : l.1 = .leftParen) (hf : f.1 = .identifier)
    (he : e.1 = .rightParen) : FindsItem (l :: f :: (ws ++ [e])) (.call f.2 as) := by
  intro fuel r rest hfuel hr _
  simp only [List.length_cons, List.length_append, List.length_nil] at hfuel
  rw [List.cons_append, List.cons_append, List.append_assoc] at hr
  obtain ⟨hkind, -, hskip⟩ := r.next_of_words hr
  obtain ⟨-, htext, hskip₂⟩ := r.skip.next_of_words hskip
  rw [readItem, hkind, hl]
  obtain ⟨rfl, rfl⟩ | ⟨w, ws, rfl, hw, hlist⟩ := h
  · obtain ⟨hright, -, hskip₃⟩ := r.skip.skip.next_of_words hskip₂
    refine ⟨r.skip.skip.skip, ?_, hskip₃⟩
    refine Bounded.bind_eq_ok.2 ⟨_, r.skip.expect_of_words hskip hf, ?_⟩
    dsimp only
    rw [if_neg (by rw [hright, he]; decide), htext]
    exact close_eq_ok hskip₂ he
  · obtain ⟨hcomma, -, hskip₃⟩ := r.skip.skip.next_of_words hskip₂
    rw [List.length_cons] at hfuel
    obtain ⟨r₁, hread, hr₁⟩ := hlist fuel (by omega) hskip₃ he (.inl rfl)
    refine ⟨r₁.skip, ?_, (Reader.next_of_words hr₁).2.2⟩
    refine Bounded.bind_eq_ok.2 ⟨_, r.skip.expect_of_words hskip hf, ?_⟩
    dsimp only
    rw [if_pos (hcomma.trans hw), htext]
    exact Bounded.bind_eq_ok.2 ⟨(_, r₁), hread, close_eq_ok hr₁ he⟩

/-- A call with the function in front of the parentheses. -/
theorem Finds.before (h : Finds .arguments ws as) (hf : f.1 = .identifier) (hl : l.1 = .leftParen)
    (he : e.1 = .rightParen) : FindsItem (f :: l :: (ws ++ [e])) (.call f.2 as) := by
  intro fuel r rest hfuel hr _
  simp only [List.length_cons, List.length_append, List.length_nil] at hfuel
  rw [List.cons_append, List.cons_append, List.append_assoc] at hr
  obtain ⟨hkind, htext, hskip⟩ := r.next_of_words hr
  obtain ⟨hleft, -, hskip₂⟩ := r.skip.next_of_words hskip
  rw [readItem, hkind, hf]
  dsimp only
  rw [if_pos (hleft.trans hl), htext]
  obtain ⟨rfl, rfl⟩ | ⟨hnext, hlist⟩ := h
  · obtain ⟨hright, -, hskip₃⟩ := r.skip.skip.next_of_words hskip₂
    refine ⟨r.skip.skip.skip, ?_, hskip₃⟩
    rw [if_pos (hright.trans he)]
    exact close_eq_ok hskip₂ he
  · obtain ⟨r₁, hread, hr₁⟩ := hlist fuel (by omega) hskip₂ he (.inl rfl)
    have hright : r.skip.skip.next.kind ≠ .rightParen := by
      rw [Reader.kind_next, hskip₂, nextKind_append fun h => hnext (h ▸ List.mem_cons_self)]
      exact fun h => hnext (h ▸ List.mem_cons_of_mem _ List.mem_cons_self)
    refine ⟨r₁.skip, ?_, (Reader.next_of_words hr₁).2.2⟩
    rw [if_neg hright]
    exact Bounded.bind_eq_ok.2 ⟨(_, r₁), hread, close_eq_ok hr₁ he⟩

end FindsItem

/-- What the grammar derives is found, if the numbers in it can be read. -/
theorem Derives.finds {n : Nonterminal} {ws : List (TokenKind × String)} {as : List Argument}
    (h : Derives n ws as)
    (hnumbers : ∀ w ∈ ws, w.1 = .number → isInteger w.2.toList = true ∧ FewDigits w.2) :
    Finds n ws as := by
  induction h with
  | empty | stop => exact .inl ⟨rfl, rfl⟩
  | list _ _ first others =>
    rw [List.forall_mem_append] at hnumbers
    obtain ⟨hnext, _, ha, hitem⟩ := first hnumbers.1
    obtain rfl := List.singleton_inj.1 ha
    refine .inr ⟨?_, hitem.list hnext (others hnumbers.2)⟩
    rwa [nextKind_append fun h => hnext (h ▸ List.mem_cons_self)]
  | comma hw _ _ first others =>
    rw [List.forall_mem_cons, List.forall_mem_append] at hnumbers
    obtain ⟨hnext, _, ha, hitem⟩ := first hnumbers.2.1
    obtain rfl := List.singleton_inj.1 ha
    exact .inr ⟨_, _, rfl, hw, hitem.list hnext (others hnumbers.2.2)⟩
  | @number w hw =>
    obtain ⟨hinteger, hfew⟩ := hnumbers w List.mem_cons_self hw
    exact ⟨by rw [nextKind, hw]; decide, _, rfl, findsItem_number hw hinteger hfew⟩
  | name hw => exact ⟨by rw [nextKind, hw]; decide, _, rfl, findsItem_name hw⟩
  | inside hl hf _ he ih =>
    simp only [List.forall_mem_cons, List.forall_mem_append] at hnumbers
    exact ⟨by rw [nextKind, hl]; decide, _, rfl, (ih hnumbers.2.2.1).inside hl hf he⟩
  | before hf hl _ he ih =>
    simp only [List.forall_mem_cons, List.forall_mem_append] at hnumbers
    exact ⟨by rw [nextKind, hf]; decide, _, rfl, (ih hnumbers.2.2.1).before hf hl he⟩

/-! ### Argument text -/

/-- The arguments of a text are derived from its words, and its numbers are not too long. -/
theorem ofText_eq_ok_iff {s : String} {as : List Argument} :
    ofText s = .ok as ↔
      ∃ ws, Splits s.toList ws ∧ Derives .arguments ws as ∧ FewDigitsIn ws := by
  constructor
  · intro h
    obtain ⟨ts, hts, h⟩ := Bounded.bind_eq_ok.1 h
    obtain ⟨hsplits, -⟩ := splits_of_tokensFrom hts
    refine ⟨ts.map Token.word, hsplits, ?_⟩
    rw [ofTokens] at h
    split at h
    · rename_i hempty
      obtain rfl := Except.ok.inj h
      rw [List.isEmpty_iff.1 hempty]
      exact ⟨.empty, fewDigitsIn_nil⟩
    · obtain ⟨⟨_, r⟩, hread, h⟩ := Bounded.bind_eq_ok.1 h
      obtain rfl := Except.ok.inj h
      obtain ⟨a, as, r₁, rfl, ha, has, hend⟩ := passes_of_readItems hread
      obtain ⟨ws, hws, hderives, hfew⟩ := Reader.Passes.list ha has
      have hwords : ts.map Token.word = ws ++ r.words := hws
      have hnil : r.words = [] := by
        rw [Reader.kind_next] at hend
        cases hr : r.words with
        | nil => rfl
        | cons w rest =>
          -- No word of a text is its end.
          rw [hr] at hwords hend
          have hw : w ∈ ts.map Token.word :=
            hwords ▸ List.mem_append_right ws List.mem_cons_self
          exact absurd hend (hsplits.sound w hw).1
      rw [hnil, List.append_nil] at hwords
      rw [hwords]
      exact ⟨hderives, hfew⟩
  · rintro ⟨ws, hsplits, hderives, hfew⟩
    have hcloses : Closes 0 (ws ++ []) := hderives.closes rfl
    rw [List.append_nil] at hcloses
    obtain ⟨ts, hts, rfl⟩ := hsplits.exists_tokensFrom hcloses 0
    have hnumbers : ∀ w ∈ ts.map Token.word,
        w.1 = .number → isInteger w.2.toList = true ∧ FewDigits w.2 := fun w hw hnumber =>
      ⟨(hsplits.sound w hw).2.2 hnumber, hfew w hw hnumber⟩
    refine Bounded.bind_eq_ok.2 ⟨ts, hts, ?_⟩
    rw [ofTokens]
    obtain ⟨hts, rfl⟩ | ⟨hnext, hlist⟩ := hderives.finds hnumbers
    · rw [if_pos (List.isEmpty_iff.2 (List.map_eq_nil_iff.1 hts))]
    · have hne : ¬ ts.isEmpty := by
        rw [List.isEmpty_iff]
        rintro rfl
        exact hnext List.mem_cons_self
      have hwords : Reader.words ⟨s.toList.length, ts⟩ = ts.map Token.word ++ [] :=
        (List.append_nil _).symm
      obtain ⟨r, hread, -⟩ := hlist (2 * ts.length + 2)
        (by rw [List.length_map]; exact Nat.le_add_right _ 2) hwords rfl (.inr rfl)
      rw [if_neg hne]
      exact Bounded.bind_eq_ok.2 ⟨_, hread, rfl⟩

end RegisterMachine.Argument
