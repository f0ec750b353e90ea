import RegisterMachine.Proofs.Sections

/-!
# One stream of tokens

A text can be read from one stream of the tokens of all lines, in which only a token for the end of
a line separates it from the next one, and a last token stands for the end of the text. A reader of
the stream has nothing that keeps it from going on into the next line, or from looking behind the
last token. It never does: it takes the tokens of a line, and the end of the line only as the end of
a statement. So it reads what the reader of lines reads, and has the same complaints.

* `Assembly.TokenStream`, `Assembly.scan` — reading from a stream;
* `Assembly.Follows` — reading inside of a line;
* `Assembly.readNext_spots` — what comes next in a stream is what the next line says;
* `Assembly.scan_eq` — reading from a stream is the same as reading the lines.
-/

namespace RegisterMachine.Assembly

/-- A token with the number of its line. -/
structure Spot where
  line : Nat
  token : Token

/-- The tokens that are left of a text. -/
abbrev TokenStream := List Spot

/-- Why reading from a stream stops. -/
inductive Halt where
  /-- The text is refused. -/
  | refused (e : Error)
  /-- There is no token left. -/
  | pastEnd
  /-- The rounds are used up. -/
  | unfinished

namespace Spot

variable {α : Type}

/-- The complaint about a token. -/
def complain (t : Spot) (fault : Fault) : Except Halt α :=
  .error (.refused (.assembly fault t.line t.token.column))

/-- A reader of nothing but the token. -/
def reader (t : Spot) : LineReader :=
  ⟨t.line, 0, [t.token]⟩

/-- The variable that a token spells. -/
def variableOf (t : Spot) : Except Halt Variable :=
  (t.reader.variableOf t.token).mapError .refused

/-- The label that a token spells, if it spells one. -/
def labelOf (t : Spot) : Except Halt (Option Label) :=
  (t.reader.labelOf t.token).mapError .refused

/-- The call that a token spells. -/
def callOf (t : Spot) : Except Halt Call :=
  (t.reader.callOf t.token).mapError .refused

/-- The number that a token spells. -/
def numberOf (t : Spot) : Except Halt Nat :=
  (LineReader.numberOf t.token).mapError .refused

end Spot

/-! ### Reading from a stream -/

namespace TokenStream

/-- The next token. -/
def peek : TokenStream → Except Halt Spot
  | [] => .error .pastEnd
  | t :: _ => .ok t

/-- Takes the next token, whatever it is. -/
def advance : TokenStream → Except Halt (Spot × TokenStream)
  | [] => .error .pastEnd
  | t :: s => .ok (t, s)

/-- Takes the next token, which has to be of a kind. -/
def expect (s : TokenStream) (kind : TokenKind) : Except Halt (Spot × TokenStream) := do
  let (t, s) ← s.advance
  if t.token.kind = kind then return (t, s)
  else t.complain (.expected kind t.token.kind)

/-- Takes the end of a line. -/
def finish (s : TokenStream) : Except Halt TokenStream := do
  let t ← s.peek
  if t.token.kind = .lineEnd then do
    let (_, s) ← s.advance
    return s
  else if t.token.kind = .atEnd then return s
  else t.complain (.trailing t.token.text)

/-- Reads the label that a jump leads to. -/
def readTarget (s : TokenStream) : Except Halt (Label × TokenStream) := do
  let (t, s) ← s.expect .identifier
  match ← t.labelOf with
  | some label => return (label, s)
  | none => t.complain (.notLabel t.token.text)

/-- Reads `GOTO L`. -/
def readGoto (s : TokenStream) : Except Halt (Label × TokenStream) := do
  let (_, s) ← s.expect .goto
  s.readTarget

/-- Reads `IF v …`. -/
def readCondition (s : TokenStream) : Except Halt (Operation × TokenStream) := do
  let (_, s) ← s.expect .ifWord
  let (t, s) ← s.expect .identifier
  let v ← t.variableOf
  let (comparison, s) ← s.advance
  match comparison.token.kind with
  | .notEqual => do
    let (t, s) ← s.expect .number
    if (← t.numberOf) ≠ 0 then t.complain .onlyZero
    let (target, s) ← s.readGoto
    return (.jumpNotZero v target, s)
  | .equal => do
    let (operand, s) ← s.advance
    match operand.token.kind with
    | .number => do
      let k ← operand.numberOf
      let (target, s) ← s.readGoto
      return (if k = 0 then .jumpZero v target else .jumpEqualConstant v k target, s)
    | .identifier => do
      let source ← operand.variableOf
      let (target, s) ← s.readGoto
      return (.jumpEqualVariable v source target, s)
    | .call => do
      let call ← operand.callOf
      let (target, s) ← s.readGoto
      return (.jumpEqualFunction v call target, s)
    | _ => operand.complain .expectedOperand
  | _ => comparison.complain .expectedComparison

/-- Reads the rest of `v <- source + 1` or `v <- source - 1`, from the sign on. -/
def readCount (s : TokenStream) (v source : Variable) : Except Halt (Operation × TokenStream) := do
  let (sign, s) ← s.advance
  let (t, s) ← s.expect .number
  if source ≠ v then sign.complain (.onlyOne v sign.token.text)
  if (← t.numberOf) ≠ 1 then sign.complain (.onlyOne v sign.token.text)
  return (if sign.token.kind = .plus then .increase v else .decrease v, s)

/-- Reads `v <- …`. -/
def readAssignment (s : TokenStream) : Except Halt (Operation × TokenStream) := do
  let (t, s) ← s.advance
  let v ← t.variableOf
  let (_, s) ← s.expect .arrow
  let (operand, s) ← s.advance
  match operand.token.kind with
  | .number => do
    let k ← operand.numberOf
    return (if k = 0 then .zeroVariable v else .constantAssignment v k, s)
  | .call => do
    let call ← operand.callOf
    return (.quotation v call, s)
  | .identifier => do
    let source ← operand.variableOf
    let next ← s.peek
    if next.token.kind = .plus ∨ next.token.kind = .minus then s.readCount v source
    else return (if source = v then .neutral v else .assignment v source, s)
  | _ => operand.complain .expectedOperand

/-- Reads what a statement does. -/
def readOperation (s : TokenStream) : Except Halt (Operation × TokenStream) := do
  let t ← s.peek
  match t.token.kind with
  | .goto => do
    let (_, s) ← s.advance
    let (target, s) ← s.readTarget
    return (.gotoLabel target, s)
  | .ifWord => s.readCondition
  | .identifier => s.readAssignment
  | kind => t.complain (.expectedStatement kind)

/-- Reads the label in front of a statement, if there is one, with its line. -/
def readLabel (s : TokenStream) (declared : List (Label × Nat)) :
    Except Halt (Option (Label × Nat) × TokenStream) := do
  let t ← s.peek
  if t.token.kind = .leftBracket then do
    let (_, s) ← s.advance
    let (t, s) ← s.expect .identifier
    match (← t.labelOf).filter Label.isNumbered with
    | none => t.complain (.notInstructionLabel t.token.text)
    | some label =>
      match declared.lookup label with
      | some firstLine => t.complain (.duplicateLabel label firstLine)
      | none => do
        let (_, s) ← s.expect .rightBracket
        return (some (label, t.line), s)
  else return (none, s)

/-- Reads a statement as part of a section. -/
def readStatement (s : TokenStream) (current : Section) : Except Halt (Section × TokenStream) := do
  let (label, s) ← s.readLabel current.labels
  let (operation, s) ← s.readOperation
  let s ← s.finish
  return ({ current with
    code := current.code ++ [.plain (label.map Prod.fst) operation]
    labels := current.labels ++ label.toList }, s)

/-- Reads a header, with the word that it starts with. -/
def readHeader (s : TokenStream) : Except Halt (Section × TokenStream) := do
  let (t, s) ← s.advance
  let (name, s) ← s.expect .identifier
  let s ← s.finish
  return (.new name.token.text (t.token.kind = .program) t.line, s)

/-- Reads what comes next: the end of a line, a header or a statement. -/
def readNext (defaultName : String) (ss : List Section) (s : TokenStream) :
    Except Halt (List Section × TokenStream) := do
  let t ← s.peek
  match t.token.kind with
  | .lineEnd => do
    let (_, s) ← s.advance
    return (ss, s)
  | .program | .function => do
    let (new, s) ← s.readHeader
    return (new :: ss, s)
  | _ => do
    let (current, s) ← s.readStatement (ss.headD (.new defaultName true t.line))
    return (current :: ss.tail, s)

/-- Reads up to the end of a text in a number of rounds; the sections, latest first, and the number
of the last line. -/
def readAll (defaultName : String) : Nat → List Section → TokenStream →
    Except Halt (List Section × Nat)
  | 0, _, _ => .error .unfinished
  | rounds + 1, ss, s => do
    let t ← s.peek
    if t.token.kind = .atEnd then return (ss, t.line)
    else do
      let (ss, s) ← readNext defaultName ss s
      readAll defaultName rounds ss s

end TokenStream

/-- The tokens in front of a reader, up to the end of the line. -/
def LineReader.spots (r : LineReader) : TokenStream :=
  r.left.map (⟨r.number, ·⟩) ++ [⟨r.number, .lineEnd, "", r.width⟩]

/-- The tokens of all lines, and the end of the text. -/
def stream (lines : List TokenLine) : TokenStream :=
  lines.flatMap (·.reader.spots) ++ [⟨lines.length, .atEnd, "", 0⟩]

/-- The programs of a text, read from one stream of tokens. -/
def scan (source defaultName : String) : Except Halt Assembly := do
  let lines ← (tokenLines source).mapError .refused
  let (ss, lineCount) ← (stream lines).readAll defaultName (stream lines).length []
  (ofSections lineCount ss.reverse).mapError .refused

/-! ### Inside of a line -/

/-- No token in front of the reader is the end of a line or of the text. -/
def LineReader.Inside (r : LineReader) : Prop :=
  ∀ t ∈ r.left, t.kind ≠ .lineEnd ∧ t.kind ≠ .atEnd

/-- Reading from a stream is refused where reading the line in front is, and otherwise it finds the
same and gets to the same place of the line, with everything behind the line still ahead. -/
def Follows {α : Type} (behind : TokenStream) :
    Except Halt (α × TokenStream) → Except Error (α × LineReader) → Prop
  | x, .error e => x = .error (.refused e)
  | x, .ok (a, r) => x = .ok (a, r.spots ++ behind) ∧ r.Inside

section Follows

variable {α β : Type} {r : LineReader} {behind : TokenStream}

theorem LineReader.Inside.skip (h : r.Inside) : r.skip.Inside :=
  fun t ht => h t (List.mem_of_mem_tail ht)

theorem LineReader.Inside.next_ne (h : r.Inside) : r.next.kind ≠ .atEnd := by
  obtain ⟨number, width, _ | ⟨t, ts⟩⟩ := r
  · exact nofun
  · exact (h t List.mem_cons_self).2

/-- The end of a line is behind all of its tokens. -/
theorem LineReader.Inside.left_eq_nil (h : r.Inside) (hnext : r.next.kind = .lineEnd) :
    r.left = [] := by
  obtain ⟨number, width, _ | ⟨t, ts⟩⟩ := r
  · rfl
  · exact absurd hnext (h t List.mem_cons_self).1

theorem peek_spots : TokenStream.peek (r.spots ++ behind) = .ok ⟨r.number, r.next⟩ := by
  obtain ⟨number, width, _ | ⟨t, ts⟩⟩ := r <;> rfl

/-- The next token is taken in front of the end of the line. -/
theorem advance_spots (hnext : r.next.kind ≠ .lineEnd) :
    TokenStream.advance (r.spots ++ behind) = .ok (⟨r.number, r.next⟩, r.skip.spots ++ behind) := by
  obtain ⟨number, width, _ | ⟨t, ts⟩⟩ := r
  · exact absurd rfl hnext
  · rfl

/-- If the end of a line is taken, it is looked at as well. -/
theorem exists_advance_spots (r : LineReader) (behind : TokenStream) :
    ∃ s, TokenStream.advance (r.spots ++ behind) = .ok (⟨r.number, r.next⟩, s) := by
  obtain ⟨number, width, _ | ⟨t, ts⟩⟩ := r <;> exact ⟨_, rfl⟩

theorem follows_ok (hr : r.Inside) (a : α) :
    Follows behind (.ok (a, r.spots ++ behind)) (.ok (a, r)) :=
  ⟨rfl, hr⟩

theorem follows_complain (t : Token) (fault : Fault) :
    Follows behind (Spot.complain ⟨r.number, t⟩ fault : Except Halt (α × TokenStream))
      (r.complain t fault) :=
  rfl

theorem Follows.bind {x : Except Halt (α × TokenStream)} {y : Except Error (α × LineReader)}
    {f : α × TokenStream → Except Halt (β × TokenStream)}
    {g : α × LineReader → Except Error (β × LineReader)} (h : Follows behind x y)
    (hf : ∀ a r', r'.Inside → Follows behind (f (a, r'.spots ++ behind)) (g (a, r'))) :
    Follows behind (x >>= f) (y >>= g) := by
  rcases y with e | ⟨a, r'⟩
  · obtain rfl : x = _ := h
    exact rfl
  · obtain ⟨rfl, hr⟩ := h
    exact hf a r' hr

/-- A token spells the same for both. -/
theorem follows_mapError_bind {x : Except Error α} {f : α → Except Halt (β × TokenStream)}
    {g : α → Except Error (β × LineReader)} (hf : ∀ a, Follows behind (f a) (g a)) :
    Follows behind (x.mapError .refused >>= f) (x >>= g) := by
  cases x with
  | error e => exact rfl
  | ok a => exact hf a

theorem expect_spots {kind : TokenKind} (hnext : r.next.kind = kind) (hkind : kind ≠ .lineEnd) :
    TokenStream.expect (r.spots ++ behind) kind =
      .ok (⟨r.number, r.next⟩, r.skip.spots ++ behind) := by
  rw [TokenStream.expect, advance_spots (hnext ▸ hkind), Bounded.ok_bind]
  exact if_pos hnext

/-- A token of another kind is refused, be it the end of the line. -/
theorem expect_spots_ne {kind : TokenKind} (hnext : r.next.kind ≠ kind) :
    TokenStream.expect (r.spots ++ behind) kind =
      Spot.complain ⟨r.number, r.next⟩ (.expected kind r.next.kind) := by
  obtain ⟨s, hs⟩ := exists_advance_spots r behind
  rw [TokenStream.expect, hs, Bounded.ok_bind]
  exact if_neg hnext

theorem follows_expect_bind (hr : r.Inside) {kind : TokenKind} (hkind : kind ≠ .lineEnd)
    {f : Spot × TokenStream → Except Halt (β × TokenStream)}
    {g : Token × LineReader → Except Error (β × LineReader)}
    (hf : r.skip.Inside → r.next.kind = kind →
      Follows behind (f (⟨r.number, r.next⟩, r.skip.spots ++ behind)) (g (r.next, r.skip))) :
    Follows behind (TokenStream.expect (r.spots ++ behind) kind >>= f) (r.expect kind >>= g) := by
  rw [LineReader.expect]
  split
  · rename_i hnext
    rw [expect_spots hnext hkind]
    exact hf hr.skip hnext
  · rename_i hnext
    rw [expect_spots_ne hnext]
    exact rfl

/-- The target of a jump is in its line. -/
theorem follows_readTarget (hr : r.Inside) :
    Follows behind (TokenStream.readTarget (r.spots ++ behind)) r.readTarget := by
  refine follows_expect_bind hr (by decide) fun hskip _ => ?_
  refine follows_mapError_bind fun label => ?_
  cases label with
  | none => exact follows_complain r.next _
  | some label => exact follows_ok hskip label

theorem follows_readGoto (hr : r.Inside) :
    Follows behind (TokenStream.readGoto (r.spots ++ behind)) r.readGoto :=
  follows_expect_bind hr (by decide) fun hskip _ => follows_readTarget hskip

theorem follows_readCondition (hr : r.Inside) (hnext : r.next.kind = .ifWord) :
    Follows behind (TokenStream.readCondition (r.spots ++ behind)) r.skip.readCondition := by
  rw [TokenStream.readCondition, expect_spots hnext (by decide), Bounded.ok_bind]
  refine follows_expect_bind hr.skip (by decide) fun hcomparison _ => ?_
  refine follows_mapError_bind fun v => ?_
  cases hkind : r.skip.skip.next.kind with
  | notEqual =>
    rw [advance_spots (by rw [hkind]; decide), Bounded.ok_bind]
    dsimp only
    rw [hkind]
    refine follows_expect_bind hcomparison.skip (by decide) fun hnumber _ => ?_
    refine follows_mapError_bind fun n => ?_
    dsimp only
    split
    · exact follows_complain (r := r.skip.skip.skip) _ _
    · exact (follows_readGoto hnumber).bind fun _ _ hr' => follows_ok hr' _
  | equal =>
    rw [advance_spots (by rw [hkind]; decide), Bounded.ok_bind]
    dsimp only
    rw [hkind]
    have hoperand := hcomparison.skip
    cases hkind : r.skip.skip.skip.next.kind with
    | number | identifier | call =>
      rw [advance_spots (by rw [hkind]; decide), Bounded.ok_bind]
      dsimp only
      rw [hkind]
      refine follows_mapError_bind fun operand => ?_
      exact (follows_readGoto hoperand.skip).bind fun _ _ hr' => follows_ok hr' _
    | _ =>
      obtain ⟨s, hs⟩ := exists_advance_spots r.skip.skip.skip behind
      rw [hs, Bounded.ok_bind]
      dsimp only
      rw [hkind]
      exact follows_complain (r := r.skip.skip.skip) _ _
  | _ =>
    obtain ⟨s, hs⟩ := exists_advance_spots r.skip.skip behind
    rw [hs, Bounded.ok_bind]
    dsimp only
    rw [hkind]
    exact follows_complain (r := r.skip.skip) _ _

/-- A change by one is in the line of its sign. -/
theorem follows_readCount (hr : r.Inside) (hsign : r.next.kind = .plus ∨ r.next.kind = .minus)
    (v source : Variable) :
    Follows behind (TokenStream.readCount (r.spots ++ behind) v source) (r.readCount v source) := by
  have hnext : r.next.kind ≠ .lineEnd := by
    rintro hend
    rw [hend] at hsign
    exact hsign.elim nofun nofun
  rw [TokenStream.readCount, advance_spots hnext, Bounded.ok_bind]
  refine follows_expect_bind hr.skip (by decide) fun hskip _ => ?_
  dsimp only
  split
  · exact follows_complain r.next _
  · refine follows_mapError_bind fun n => ?_
    split
    · exact follows_complain r.next _
    · exact follows_ok hskip _

/-- A source of an assignment that ends the line is looked at, and nothing behind it taken. -/
theorem follows_readAssignment (hr : r.Inside) (hnext : r.next.kind = .identifier) :
    Follows behind (TokenStream.readAssignment (r.spots ++ behind)) r.readAssignment := by
  rw [TokenStream.readAssignment, advance_spots (by rw [hnext]; decide), Bounded.ok_bind]
  refine follows_mapError_bind fun v => ?_
  refine follows_expect_bind hr.skip (by decide) fun hoperand _ => ?_
  dsimp only
  cases hkind : r.skip.skip.next.kind with
  | number | call =>
    rw [advance_spots (by rw [hkind]; decide), Bounded.ok_bind]
    dsimp only
    rw [hkind]
    exact follows_mapError_bind fun _ => follows_ok hoperand.skip _
  | identifier =>
    rw [advance_spots (by rw [hkind]; decide), Bounded.ok_bind]
    dsimp only
    rw [hkind]
    refine follows_mapError_bind fun source => ?_
    rw [peek_spots, Bounded.ok_bind]
    split
    · rename_i hsign
      exact follows_readCount hoperand.skip hsign v source
    · exact follows_ok hoperand.skip _
  | _ =>
    obtain ⟨s, hs⟩ := exists_advance_spots r.skip.skip behind
    rw [hs, Bounded.ok_bind]
    dsimp only
    rw [hkind]
    exact follows_complain (r := r.skip.skip) _ _

theorem follows_readOperation (hr : r.Inside) :
    Follows behind (TokenStream.readOperation (r.spots ++ behind)) r.readOperation := by
  rw [TokenStream.readOperation, LineReader.readOperation, peek_spots, Bounded.ok_bind]
  dsimp only
  cases hkind : r.next.kind with
  | goto =>
    dsimp only
    rw [advance_spots (by rw [hkind]; decide), Bounded.ok_bind]
    exact (follows_readTarget hr.skip).bind fun _ _ hr' => follows_ok hr' _
  | ifWord => exact follows_readCondition hr hkind
  | identifier => exact follows_readAssignment hr hkind
  | _ => exact follows_complain r.next _

/-- A label is in the line of its statement. -/
theorem follows_readLabel (hr : r.Inside) (declared : List (Label × Nat)) :
    Follows behind (TokenStream.readLabel (r.spots ++ behind) declared)
      ((fun (label, r') => (label.map (·, r.number), r')) <$> r.readLabel declared) := by
  rw [TokenStream.readLabel, LineReader.readLabel, peek_spots, Bounded.ok_bind]
  dsimp only
  split
  · rename_i hbracket
    rw [advance_spots (by rw [hbracket]; decide), Bounded.ok_bind, map_bind]
    refine follows_expect_bind hr.skip (by decide) fun hname _ => ?_
    dsimp only
    rw [map_bind]
    refine follows_mapError_bind fun label => ?_
    cases label.filter Label.isNumbered with
    | none => exact rfl
    | some l =>
      cases hlookup : declared.lookup l with
      | some firstLine =>
        dsimp only
        rw [hlookup]
        exact rfl
      | none =>
        dsimp only
        rw [hlookup, map_bind]
        exact follows_expect_bind hname (by decide) fun hstatement _ => follows_ok hstatement _
  · exact follows_ok hr none

/-! ### Line by line -/

/-- The end of a line is taken as the end of a statement. -/
theorem finish_spots (hr : r.Inside) :
    TokenStream.finish (r.spots ++ behind) =
      ((fun _ => behind) <$> r.finish).mapError .refused := by
  rw [TokenStream.finish, LineReader.finish, peek_spots, Bounded.ok_bind]
  dsimp only
  by_cases hend : r.next.kind = .lineEnd
  · have hspots : r.spots = [⟨r.number, r.next⟩] := by
      rw [LineReader.spots, LineReader.next, hr.left_eq_nil hend]
      rfl
    rw [if_pos hend, if_pos hend, hspots]
    rfl
  · rw [if_neg hend, if_neg hend, if_neg hr.next_ne]
    rfl

/-- A statement is read up to the end of its line. -/
theorem readStatement_spots (hr : r.Inside) (current : Section) :
    TokenStream.readStatement (r.spots ++ behind) current =
      ((fun i => (current.push r.number i, behind)) <$>
        r.readStatement current.labels).mapError .refused := by
  have hlabel : Follows behind _ _ := follows_readLabel hr current.labels
  rw [TokenStream.readStatement, LineReader.readStatement]
  rcases hread : r.readLabel current.labels with e | ⟨label, r₁⟩
  · rw [hread] at hlabel
    have hrefused : TokenStream.readLabel (r.spots ++ behind) current.labels = _ := hlabel
    rw [hrefused]
    rfl
  · rw [hread] at hlabel
    obtain ⟨hlabel, hr₁⟩ := hlabel
    have hoperation : Follows behind _ _ := follows_readOperation hr₁
    rw [hlabel, Bounded.ok_bind, Bounded.ok_bind]
    dsimp only
    rcases hread : r₁.readOperation with e | ⟨o, r₂⟩
    · rw [hread] at hoperation
      have hrefused : TokenStream.readOperation (r₁.spots ++ behind) = _ := hoperation
      rw [hrefused]
      rfl
    · rw [hread] at hoperation
      obtain ⟨hoperation, hr₂⟩ := hoperation
      rw [hoperation, Bounded.ok_bind, Bounded.ok_bind]
      dsimp only
      rw [finish_spots hr₂]
      cases r₂.finish with
      | error e => rfl
      | ok _ => cases label <;> rfl

theorem readHeader_spots (hr : r.Inside) (hnext : r.next.kind ≠ .lineEnd) :
    TokenStream.readHeader (r.spots ++ behind) =
      ((fun name => (.new name (r.next.kind = .program) r.number, behind)) <$>
        r.skip.readHeader).mapError .refused := by
  rw [TokenStream.readHeader, LineReader.readHeader, advance_spots hnext, Bounded.ok_bind,
    LineReader.expect]
  dsimp only
  split
  · rename_i hname
    rw [expect_spots hname (by decide), Bounded.ok_bind]
    dsimp only
    rw [finish_spots hr.skip.skip, Bounded.ok_bind]
    cases r.skip.skip.finish <;> rfl
  · rename_i hname
    rw [expect_spots_ne hname]
    rfl

/-- What comes next in a stream is what the next line says, and what follows then is the rest of
the lines. -/
theorem readNext_spots (defaultName : String) (ss : List Section) {line : TokenLine}
    (hline : line.reader.Inside) :
    TokenStream.readNext defaultName ss (line.reader.spots ++ behind) =
      ((fun ss => (ss, behind)) <$> readLine defaultName ss line).mapError .refused := by
  rw [TokenStream.readNext, readLine, peek_spots, Bounded.ok_bind]
  dsimp only
  cases hkind : line.reader.next.kind with
  | lineEnd =>
    have hspots : line.reader.spots = [⟨line.number, line.reader.next⟩] := by
      rw [LineReader.spots, LineReader.next, hline.left_eq_nil hkind]
      rfl
    rw [hspots]
    rfl
  | program | function =>
    dsimp only
    rw [readHeader_spots hline (by rw [hkind]; decide), hkind]
    cases line.reader.skip.readHeader <;> rfl
  | _ =>
    dsimp only
    rw [readStatement_spots hline]
    dsimp only [TokenLine.reader]
    cases LineReader.readStatement _ _ <;> rfl

end Follows

/-! ### All lines -/

/-- A stream of lines is read as the lines are, one in each round. -/
theorem readAll_flatMap_spots (defaultName : String) {lines : List TokenLine}
    (hlines : ∀ line ∈ lines, line.reader.Inside) (lineCount : Nat) {rounds : Nat}
    (hrounds : lines.length < rounds) (ss : List Section) :
    TokenStream.readAll defaultName rounds ss
        (lines.flatMap (·.reader.spots) ++ [⟨lineCount, .atEnd, "", 0⟩]) =
      ((fun ss => (ss, lineCount)) <$>
        lines.foldlM (readLine defaultName) ss).mapError .refused := by
  induction lines generalizing rounds ss with
  | nil =>
    obtain _ | rounds := rounds
    · cases hrounds
    · rfl
  | cons line lines ih =>
    obtain _ | rounds := rounds
    · cases hrounds
    rw [List.forall_mem_cons] at hlines
    have hnext := hlines.1.next_ne
    rw [List.flatMap_cons, List.append_assoc, TokenStream.readAll, peek_spots, Bounded.ok_bind]
    dsimp only
    rw [if_neg hnext, readNext_spots defaultName ss hlines.1, List.foldlM_cons]
    cases readLine defaultName ss line with
    | error e => rfl
    | ok ss₁ => exact ih hlines.2 (Nat.lt_of_succ_lt_succ hrounds) ss₁

/-- No token of a line is the end of a line or of the text. -/
theorem inside_of_tokenLines {source : String} {lines : List TokenLine}
    (h : tokenLines source = .ok lines) : ∀ line ∈ lines, line.reader.Inside := by
  intro line hline t ht
  have hsound : Sound t.word := sound_of_tokenLines h line hline t.word (List.mem_map_of_mem ht)
  exact ⟨hsound.inLine, hsound.inText⟩

/-- There are as many tokens as lines, the ends of the lines alone. -/
theorem length_le_flatMap_spots (lines : List TokenLine) :
    lines.length ≤ (lines.flatMap (·.reader.spots)).length := by
  induction lines with
  | nil => exact Nat.le_refl _
  | cons line lines ih =>
    have hspots : 1 ≤ line.reader.spots.length := by
      rw [LineReader.spots, List.length_append]
      exact Nat.le_add_left _ _
    rw [List.flatMap_cons, List.length_append, List.length_cons]
    omega

/-- Read from one stream of tokens, a text has the same programs, or is refused for the same reason;
there is always a token to look at, and the rounds suffice. -/
theorem scan_eq (source defaultName : String) :
    scan source defaultName = (parse source defaultName).mapError .refused := by
  rw [scan, parse]
  cases hlines : tokenLines source with
  | error e => rfl
  | ok lines =>
    have hinside : ∀ line ∈ lines, line.reader.Inside := inside_of_tokenLines hlines
    have hlength : lines.length < (stream lines).length := by
      rw [stream, List.length_append]
      exact Nat.lt_succ_of_le (length_le_flatMap_spots lines)
    have hread := readAll_flatMap_spots defaultName hinside lines.length hlength []
    change (TokenStream.readAll _ _ _ (stream lines) >>= _) = _
    rw [stream] at hread ⊢
    rw [hread, Bounded.ok_bind, sections]
    cases lines.foldlM (readLine defaultName) [] <;> rfl

end RegisterMachine.Assembly
