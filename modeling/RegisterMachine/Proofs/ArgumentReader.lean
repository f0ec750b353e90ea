import RegisterMachine.Proofs.ArgumentGrammar

/-!
# The reader of arguments

A text that spells no arguments is refused as malformed at some position. The only other failure is
an integer with too many digits.

The reader never looks beyond the end of a text. A reader with an index into a list of tokens, the
end among them, would have to stop where the index points to no token. Such a reader finds the same
arguments and the same refusals, so it never has to: at the end of a text nothing is taken but the
end itself, and after that nothing is looked at.

* `Argument.FailsWithin`, `Argument.misplaced_of_ofText` — how a text is refused;
* `Argument.not_isUnbalanced_of_ofText` — it is not for its parentheses if they balance;
* `Argument.Cursor`, `Argument.scan` — reading with an index;
* `Argument.Follows`, `Argument.scan_eq` — it is the same as reading;
* `Argument.parseList_grammar` — texts and the grammar.
-/

namespace RegisterMachine.Argument

/-! ### Refusals -/

/-- A text is refused at a position, for its grammar and not for its parentheses, or because of a
number that is among some words. -/
def Failure.Within (ws : List (TokenKind × String)) : Failure → Prop
  | .misplaced fault _ => ¬ fault.IsUnbalanced
  | .numeral fault => ∃ w ∈ ws, w.1 = .number ∧ integer w.2 = .error fault

/-- If a computation fails, it is at a position or because of a number that is among some words. -/
def FailsWithin {α : Type} (ws : List (TokenKind × String)) (x : Except Failure α) : Prop :=
  ∀ failure, x = .error failure → failure.Within ws

section FailsWithin

variable {α β : Type} {r r' : Reader} {ws ws' : List (TokenKind × String)} {x : Except Failure α}

theorem FailsWithin.mono (h : FailsWithin ws x) (hws : ws ⊆ ws') : FailsWithin ws' x := by
  intro failure hx
  have hfailure := h failure hx
  cases failure with
  | misplaced fault position => exact hfailure
  | numeral fault =>
    obtain ⟨w, hw, hnumber⟩ := hfailure
    exact ⟨w, hws hw, hnumber⟩

theorem failsWithin_ok (a : α) : FailsWithin ws (.ok a) :=
  Bounded.failsAs_ok a

theorem failsWithin_refuse {fault : TokenKind → Fault}
    (hfault : ¬ (fault r.next.kind).IsUnbalanced) :
    FailsWithin ws (r.refuse fault : Except Failure α) :=
  Bounded.failsAs_error hfault

theorem FailsWithin.bind {f : α → Except Failure β} (hx : FailsWithin ws x)
    (hf : ∀ a, x = .ok a → FailsWithin ws (f a)) : FailsWithin ws (x >>= f) :=
  Bounded.FailsAs.bind hx hf

theorem failsWithin_expect {kind : TokenKind} : FailsWithin ws (r.expect kind) := by
  rw [Reader.expect]
  split
  · exact failsWithin_ok _
  · exact failsWithin_refuse not_false

/-- What is behind a word or an argument is part of what was in front of the reader. -/
theorem Reader.words_skip_subset (r : Reader) : r.skip.words ⊆ r.words :=
  List.map_subset _ fun _ => List.mem_of_mem_tail

theorem Reader.Passes.subset {n : Nonterminal} {as : List Argument} (h : r.Passes n as r') :
    r'.words ⊆ r.words := by
  obtain ⟨ws, hr, -⟩ := h
  rw [hr]
  exact List.subset_append_right _ _

private theorem failsWithin_close {head : String} {arguments : List Argument} :
    FailsWithin ws (do let (_, r) ← r.expect .rightParen; return (call head arguments, r)) :=
  failsWithin_expect.bind fun _ _ => failsWithin_ok _

end FailsWithin

mutual

/-- An argument is refused where it stands, or because of a number in front of the reader. -/
theorem failsWithin_readItem : ∀ (fuel : Nat) (r : Reader), FailsWithin r.words (readItem fuel r)
  | 0, r => by
    rw [readItem]
    exact failsWithin_refuse not_false
  | fuel + 1, r => by
    rw [readItem]
    split
    · rename_i hkind
      refine FailsWithin.bind ?_ fun _ _ => failsWithin_ok _
      intro failure hfailure
      cases hinteger : integer r.next.text with
      | ok value =>
        rw [hinteger] at hfailure
        cases hfailure
      | error fault =>
        rw [hinteger] at hfailure
        obtain rfl := Except.error.inj hfailure
        have hwords := r.words_of_next_eq hkind (by decide)
        exact ⟨r.next.word, hwords ▸ List.mem_cons_self, hkind, hinteger⟩
    · refine failsWithin_expect.bind fun ⟨head, r₁⟩ hhead => ?_
      obtain ⟨hname, rfl, rfl⟩ := Reader.expect_eq_ok hhead
      dsimp only
      split
      · refine FailsWithin.bind ?_ fun _ _ => failsWithin_close
        refine (failsWithin_readItems fuel .rightParen _).mono ?_
        have hskip : r.skip.skip.words ⊆ r.words :=
          List.Subset.trans r.skip.words_skip_subset r.words_skip_subset
        exact List.Subset.trans r.skip.skip.words_skip_subset hskip
      · exact failsWithin_close
    · dsimp only
      split
      · split
        · exact failsWithin_close
        · refine FailsWithin.bind ?_ fun _ _ => failsWithin_close
          refine (failsWithin_readItems fuel .rightParen _).mono ?_
          exact List.Subset.trans r.skip.words_skip_subset r.words_skip_subset
      · exact failsWithin_ok _
    · exact failsWithin_refuse not_false

theorem failsWithin_readItems : ∀ (fuel : Nat) (closer : TokenKind) (r : Reader),
    FailsWithin r.words (readItems fuel closer r)
  | 0, closer, r => by
    rw [readItems]
    exact failsWithin_refuse not_false
  | fuel + 1, closer, r => by
    rw [readItems]
    refine (failsWithin_readItem fuel r).bind fun ⟨a, r₁⟩ ha => ?_
    dsimp only
    split
    · refine FailsWithin.bind ?_ fun _ _ => failsWithin_ok _
      refine (failsWithin_readItems fuel closer _).mono ?_
      exact List.Subset.trans r₁.words_skip_subset (passes_of_readItem ha).subset
    · split
      · exact failsWithin_ok _
      · exact failsWithin_refuse not_false

end

/-- A list of tokens is refused at a position, or because of one of its numbers. -/
theorem failsWithin_ofTokens (stop : Nat) (ts : List Token) :
    FailsWithin (ts.map Token.word) (ofTokens stop ts) := by
  rw [ofTokens]
  split
  · exact failsWithin_ok _
  · exact (failsWithin_readItems (2 * ts.length + 2) .atEnd ⟨stop, ts⟩).bind
      fun _ _ => failsWithin_ok _

/-- A text is refused at a position, if none of its numbers is too long. -/
theorem misplaced_of_ofText {s : String} {failure : Failure}
    (hfew : ∀ ws, Splits s.toList ws → FewDigitsIn ws) (h : ofText s = .error failure) :
    ∃ fault position, failure = .misplaced fault position := by
  cases hts : tokens s.toList with
  | error failure' =>
    rw [ofText, hts] at h
    obtain rfl := Except.error.inj h
    exact misplaced_of_tokensFrom hts
  | ok ts =>
    obtain ⟨hsplits, -⟩ := splits_of_tokensFrom hts
    rw [ofText, hts] at h
    have hfailure := failsWithin_ofTokens s.toList.length ts failure h
    cases failure with
    | misplaced fault position => exact ⟨fault, position, rfl⟩
    | numeral fault =>
      obtain ⟨w, hw, hnumber, hinteger⟩ := hfailure
      rw [integer_of_isInteger ((hsplits.sound w hw).2.2 hnumber)
        (hfew _ hsplits w hw hnumber)] at hinteger
      cases hinteger

/-- A text is not refused for parentheses that balance. -/
theorem not_isUnbalanced_of_ofText {s : String} {fault : Fault} {position : Nat}
    (hshuts : Shuts 0 s.toList) (h : ofText s = .error (.misplaced fault position)) :
    ¬ fault.IsUnbalanced := by
  cases hts : tokens s.toList with
  | error failure =>
    rw [ofText, hts] at h
    obtain rfl := Except.error.inj h
    exact not_isUnbalanced_of_tokensFrom hshuts hts
  | ok ts =>
    rw [ofText, hts] at h
    exact failsWithin_ofTokens s.toList.length ts _ h

/-- A single call is refused as any text, or for being something else. -/
theorem callOfText_eq_error {s : String} {failure : Failure} (h : callOfText s = .error failure) :
    ofText s = .error failure ∨ failure = .misplaced .expectedCall 0 := by
  rw [callOfText] at h
  cases has : ofText s with
  | error failure' =>
    rw [has, Bounded.error_bind] at h
    exact .inl (congrArg Except.error (Except.error.inj h))
  | ok as =>
    rw [has, Bounded.ok_bind] at h
    split at h
    · cases h
    · exact .inr (Except.error.inj h).symm

/-! ### Reading with an index -/

/-- Why reading with an index stops. -/
inductive Halt where
  /-- The text is refused. -/
  | refused (failure : Failure)
  /-- There is no token where the index points to. -/
  | pastEnd
  deriving DecidableEq, Repr

/-- A place in a list of tokens. -/
structure Cursor where
  /-- All tokens of a text, with its end. -/
  tokens : List Token
  /-- The number of tokens that have been taken. -/
  index : Nat

namespace Cursor

/-- The token at the index. -/
def peek (c : Cursor) : Except Halt Token :=
  match c.tokens[c.index]? with
  | some t => .ok t
  | none => .error .pastEnd

/-- The token at the index, and the place behind it. -/
def advance (c : Cursor) : Except Halt (Token × Cursor) := do
  return (← c.peek, { c with index := c.index + 1 })

/-- The refusal of a token. -/
def refuse {α : Type} (t : Token) (fault : TokenKind → Fault) : Except Halt α :=
  .error (.refused (.misplaced (fault t.kind) t.position))

/-- The token at the index is taken, and has to be of a kind. -/
def expect (c : Cursor) (kind : TokenKind) : Except Halt (Token × Cursor) := do
  let (t, c) ← c.advance
  if t.kind = kind then return (t, c) else refuse t (.expected kind)

mutual

/-- Reads one argument. -/
def readItem : Nat → Cursor → Except Halt (Argument × Cursor)
  | 0, c => do refuse (← c.peek) .expectedArgument
  | fuel + 1, c => do
    let t ← c.peek
    match t.kind with
    | .number =>
      let (_, c) ← c.advance
      let value ← (integer t.text).mapError fun fault => .refused (.numeral fault)
      return (.constant value, c)
    | .leftParen =>
      let (_, c) ← c.advance
      let (head, c) ← c.expect .identifier
      let (arguments, c) ←
        if (← c.peek).kind = .comma then do
          let (_, c) ← c.advance
          readItems fuel .rightParen c
        else .ok ([], c)
      let (_, c) ← c.expect .rightParen
      return (.call head.text arguments, c)
    | .identifier =>
      let (_, c) ← c.advance
      if (← c.peek).kind = .leftParen then
        let (_, c) ← c.advance
        let (arguments, c) ←
          if (← c.peek).kind = .rightParen then .ok ([], c) else readItems fuel .rightParen c
        let (_, c) ← c.expect .rightParen
        return (.call t.text arguments, c)
      else return (.name t.text, c)
    | _ => refuse t .expectedArgument

/-- Reads arguments separated by commas, up to the closer. -/
def readItems : Nat → TokenKind → Cursor → Except Halt (List Argument × Cursor)
  | 0, _, c => do refuse (← c.peek) .expectedArgument
  | fuel + 1, closer, c => do
    let (a, c) ← readItem fuel c
    let t ← c.peek
    if t.kind = .comma then
      let (_, c) ← c.advance
      let (as, c) ← readItems fuel closer c
      return (a :: as, c)
    else if t.kind = closer then return ([a], c)
    else refuse t (.expectedSeparator closer)

end

/-- Reads all tokens of a text as arguments, and takes the end of the text. -/
def readAll (stop : Nat) (ts : List Token) : Except Halt (List Argument) := do
  let c : Cursor := ⟨ts ++ [Token.atEnd stop], 0⟩
  if (← c.peek).kind = .atEnd then return []
  else
    let (arguments, c) ← readItems (2 * ts.length + 2) .atEnd c
    let _ ← c.expect .atEnd
    return arguments

end Cursor

/-- The arguments that a text spells, read with an index. -/
def scan (s : String) : Except Halt (List Argument) := do
  Cursor.readAll s.toList.length (← (tokens s.toList).mapError .refused)

/-- A cursor and a reader are at the same place of the same text. -/
def Cursor.At (c : Cursor) (r : Reader) : Prop :=
  ∃ taken, c.tokens = taken ++ (r.left ++ [Token.atEnd r.stop]) ∧ c.index = taken.length

/-- Reading with an index is refused where reading is, and otherwise finds the same and gets to the
same place. -/
def Follows {α : Type} : Except Halt (α × Cursor) → Except Failure (α × Reader) → Prop
  | x, .error failure => x = .error (.refused failure)
  | x, .ok (a, r) => ∃ c, x = .ok (a, c) ∧ c.At r

section Follows

variable {α β : Type} {c : Cursor} {r : Reader} {x : Except Halt (α × Cursor)}
  {y : Except Failure (α × Reader)}

theorem Cursor.At.peek (h : c.At r) : c.peek = .ok r.next := by
  obtain ⟨taken, htokens, hindex⟩ := h
  rw [Cursor.peek, htokens, hindex, List.getElem?_append_right (Nat.le_refl _), Nat.sub_self]
  obtain ⟨stop, _ | ⟨t, ts⟩⟩ := r <;> rfl

theorem Cursor.At.advance (h : c.At r) (hne : r.next.kind ≠ .atEnd) :
    ∃ c', c.advance = .ok (r.next, c') ∧ c'.At r.skip := by
  refine ⟨{ c with index := c.index + 1 }, by rw [Cursor.advance, h.peek]; rfl, ?_⟩
  obtain ⟨taken, htokens, hindex⟩ := h
  obtain ⟨stop, _ | ⟨t, ts⟩⟩ := r
  · exact absurd rfl hne
  · refine ⟨taken ++ [t], ?_, ?_⟩
    · rw [htokens, List.append_assoc]
      rfl
    · rw [List.length_append, hindex]
      rfl

theorem Follows.bind {f : α × Cursor → Except Halt (β × Cursor)}
    {g : α × Reader → Except Failure (β × Reader)} (h : Follows x y)
    (hf : ∀ a c r, y = .ok (a, r) → c.At r → Follows (f (a, c)) (g (a, r))) :
    Follows (x >>= f) (y >>= g) := by
  rcases y with failure | ⟨a, r⟩
  · obtain rfl : x = _ := h
    exact rfl
  · obtain ⟨c, rfl, hc⟩ := h
    exact hf a c r rfl hc

theorem follows_ok (h : c.At r) (a : α) : Follows (.ok (a, c)) (.ok (a, r)) :=
  ⟨c, rfl, h⟩

theorem follows_refuse (r : Reader) (fault : TokenKind → Fault) :
    Follows (Cursor.refuse r.next fault : Except Halt (α × Cursor)) (r.refuse fault) :=
  rfl

theorem follows_expect (h : c.At r) {kind : TokenKind} (hkind : kind ≠ .atEnd) :
    Follows (c.expect kind) (r.expect kind) := by
  rw [Reader.expect]
  split
  · rename_i hnext
    obtain ⟨c', hadvance, hc'⟩ := h.advance (hnext ▸ hkind)
    refine ⟨c', ?_, hc'⟩
    rw [Cursor.expect, hadvance, Bounded.ok_bind]
    exact if_pos hnext
  · rename_i hnext
    change c.expect kind = .error _
    rw [Cursor.expect, Cursor.advance, h.peek, Bounded.ok_bind, Bounded.pure_eq_ok, Bounded.ok_bind]
    exact if_neg hnext

/-- A call is put together from its function and arguments at the closing parenthesis. -/
private theorem follows_close (h : c.At r) (head : String) (arguments : List Argument) :
    Follows (do let (_, c) ← c.expect .rightParen; return (call head arguments, c))
      (do let (_, r) ← r.expect .rightParen; return (call head arguments, r)) :=
  (follows_expect h (by decide)).bind fun _ _ _ _ hr => follows_ok hr _

end Follows

mutual

/-- With an index, the same argument is read. -/
theorem follows_readItem : ∀ (fuel : Nat) {c : Cursor} {r : Reader}, c.At r →
    Follows (c.readItem fuel) (readItem fuel r)
  | 0, c, r, h => by
    rw [Cursor.readItem, readItem, h.peek]
    exact follows_refuse r .expectedArgument
  | fuel + 1, c, r, h => by
    rw [Cursor.readItem, readItem, h.peek, Bounded.ok_bind]
    cases hkind : r.next.kind with
    | number =>
      obtain ⟨c', hadvance, hc'⟩ := h.advance (by rw [hkind]; decide)
      dsimp only
      rw [hadvance, Bounded.ok_bind]
      cases integer r.next.text with
      | error fault => exact rfl
      | ok value => exact follows_ok hc' _
    | leftParen =>
      obtain ⟨c₁, hadvance, h₁⟩ := h.advance (by rw [hkind]; decide)
      dsimp only
      rw [hadvance, Bounded.ok_bind]
      refine (follows_expect h₁ (by decide : TokenKind.identifier ≠ .atEnd)).bind
        fun head c₂ r₂ _ h₂ => ?_
      dsimp only
      rw [h₂.peek, Bounded.ok_bind]
      split
      · rename_i hcomma
        obtain ⟨c₃, hadvance, h₃⟩ := h₂.advance (by rw [hcomma]; decide)
        rw [hadvance, Bounded.ok_bind]
        exact (follows_readItems fuel .rightParen h₃).bind fun _ _ _ _ h₄ => follows_close h₄ _ _
      · exact follows_close h₂ _ _
    | identifier =>
      obtain ⟨c₁, hadvance, h₁⟩ := h.advance (by rw [hkind]; decide)
      dsimp only
      rw [hadvance, Bounded.ok_bind]
      dsimp only
      rw [h₁.peek, Bounded.ok_bind]
      split
      · rename_i hleft
        obtain ⟨c₂, hadvance, h₂⟩ := h₁.advance (by rw [hleft]; decide)
        rw [hadvance, Bounded.ok_bind]
        dsimp only
        rw [h₂.peek, Bounded.ok_bind]
        split
        · exact follows_close h₂ _ _
        · exact (follows_readItems fuel .rightParen h₂).bind fun _ _ _ _ h₃ => follows_close h₃ _ _
      · exact follows_ok h₁ _
    | rightParen | comma | atEnd => exact follows_refuse r .expectedArgument

theorem follows_readItems : ∀ (fuel : Nat) (closer : TokenKind) {c : Cursor} {r : Reader}, c.At r →
    Follows (c.readItems fuel closer) (readItems fuel closer r)
  | 0, closer, c, r, h => by
    rw [Cursor.readItems, readItems, h.peek]
    exact follows_refuse r .expectedArgument
  | fuel + 1, closer, c, r, h => by
    rw [Cursor.readItems, readItems]
    refine (follows_readItem fuel h).bind fun a c₁ r₁ _ h₁ => ?_
    dsimp only
    rw [h₁.peek, Bounded.ok_bind]
    split
    · rename_i hcomma
      obtain ⟨c₂, hadvance, h₂⟩ := h₁.advance (by rw [hcomma]; decide)
      rw [hadvance, Bounded.ok_bind]
      exact (follows_readItems fuel closer h₂).bind fun _ _ _ _ hr => follows_ok hr _
    · split
      · exact follows_ok h₁ _
      · exact follows_refuse r₁ _

end

/-- With an index, the tokens of a text spell the same arguments. -/
theorem readAll_eq {stop : Nat} {ts : List Token} (hts : ∀ t ∈ ts, t.kind ≠ .atEnd) :
    Cursor.readAll stop ts = (ofTokens stop ts).mapError .refused := by
  have hstart : Cursor.At ⟨ts ++ [Token.atEnd stop], 0⟩ ⟨stop, ts⟩ := ⟨[], rfl, rfl⟩
  rw [Cursor.readAll, ofTokens]
  dsimp only
  rw [hstart.peek, Bounded.ok_bind]
  cases ts with
  | nil => rfl
  | cons t ts =>
    have hnext : (Reader.next ⟨stop, t :: ts⟩).kind ≠ .atEnd := hts t List.mem_cons_self
    rw [if_neg hnext, if_neg (by simp)]
    have hread := follows_readItems (2 * (t :: ts).length + 2) .atEnd hstart
    cases hresult : readItems (2 * (t :: ts).length + 2) .atEnd ⟨stop, t :: ts⟩ with
    | error failure =>
      rw [hresult] at hread
      have hrefused : Cursor.readItems _ .atEnd _ = _ := hread
      rw [hrefused]
      rfl
    | ok result =>
      obtain ⟨as, r⟩ := result
      rw [hresult] at hread
      obtain ⟨c, hc, hat⟩ := hread
      obtain ⟨-, -, -, -, -, -, hend⟩ := passes_of_readItems hresult
      rw [hc, Bounded.ok_bind]
      dsimp only
      rw [Cursor.expect, Cursor.advance, hat.peek, Bounded.ok_bind, Bounded.pure_eq_ok,
        Bounded.ok_bind]
      dsimp only
      rw [if_pos hend]
      rfl

/-- With an index, a text spells the same arguments, and the index never points behind its end. -/
theorem scan_eq (s : String) : scan s = (ofText s).mapError .refused := by
  rw [scan, ofText]
  cases hts : tokens s.toList with
  | error failure => rfl
  | ok ts =>
    have hkinds : ∀ t ∈ ts, t.kind ≠ .atEnd := fun t ht =>
      ((splits_of_tokensFrom hts).1.sound t.word (List.mem_map_of_mem ht)).1
    exact readAll_eq hkinds

/-! ### Reading and the grammar -/

/-- The arguments of a text are those that the grammar derives from its words. Any other text is
refused as malformed, and no reader with an index would ever look behind the end. -/
theorem parseList_grammar {s : String} (hfew : ∀ ws, Splits s.toList ws → FewDigitsIn ws) :
    (∀ as, parseList s = .ok as ↔ ∃ ws, Splits s.toList ws ∧ Derives .arguments ws as) ∧
      ((∀ ws as, Splits s.toList ws → ¬ Derives .arguments ws as) →
        ∃ fault position, parseList s = .error (.argumentSyntax fault s position)) ∧
      scan s = (ofText s).mapError .refused ∧ scan s ≠ .error .pastEnd := by
  have hiff : ∀ as, parseList s = .ok as ↔
      ∃ ws, Splits s.toList ws ∧ Derives .arguments ws as := by
    intro as
    rw [parseList, Bounded.mapError_eq_ok, ofText_eq_ok_iff]
    constructor
    · rintro ⟨ws, hsplits, hderives, -⟩
      exact ⟨ws, hsplits, hderives⟩
    · rintro ⟨ws, hsplits, hderives⟩
      exact ⟨ws, hsplits, hderives, hfew ws hsplits⟩
  refine ⟨hiff, fun hnone => ?_, scan_eq s, ?_⟩
  · cases hs : ofText s with
    | error failure =>
      obtain ⟨fault, position, rfl⟩ := misplaced_of_ofText hfew hs
      exact ⟨fault, position, by rw [parseList, hs]; rfl⟩
    | ok as =>
      obtain ⟨ws, hsplits, hderives⟩ := (hiff as).1 (by rw [parseList, hs]; rfl)
      exact absurd hderives (hnone ws as hsplits)
  · rw [scan_eq]
    cases ofText s <;> exact nofun

theorem calls_parseList_grammar :
    (∀ ws, Splits "F(+2), x1".toList ws → FewDigitsIn ws) ∧
      parseList "F(+2), x1" = .ok [.call "F" [.constant 2], .name "x1"] ∧
      scan "F(+2), x1" ≠ .error .pastEnd := by
  have hfew : ∀ ws, Splits "F(+2), x1".toList ws → FewDigitsIn ws := by
    intro ws hsplits w hw _
    exact List.countP_le_length.trans ((hsplits.length_le w hw).trans (by decide))
  have hsplits : Splits (['F'] ++ '(' :: (['+', '2'] ++ ')' :: ',' :: ' ' :: (['x', '1'] ++ [])))
      [(.identifier, "F"), (.leftParen, "("), (.number, "+2"), (.rightParen, ")"), (.comma, ","),
        (.identifier, "x1")] := by
    refine .identifier (by decide +kernel) (by decide +kernel) (.leftParen (.number (by decide)
      (by decide) (.rightParen (.comma (.blank (by decide) (.identifier (by decide +kernel)
      (by decide +kernel) .nil))))))
  have hnumber : Derives .argument [(.number, "+2")] [.constant 2] := .number rfl
  have hcall : Derives .argument
      ((.identifier, "F") :: (.leftParen, "(") :: ([(.number, "+2")] ++ [] ++ [(.rightParen, ")")]))
      [.call "F" [.constant 2]] := .before rfl rfl (.list hnumber .stop) rfl
  have hname : Derives .argument [(.identifier, "x1")] [.name "x1"] := .name rfl
  have hcomma : Derives .further ((.comma, ",") :: ([(.identifier, "x1")] ++ [])) [.name "x1"] :=
    .comma rfl hname .stop
  obtain ⟨hiff, -, -, hend⟩ := parseList_grammar hfew
  exact ⟨hfew, (hiff _).2 ⟨_, hsplits, .list hcall hcomma⟩, hend⟩

end RegisterMachine.Argument
