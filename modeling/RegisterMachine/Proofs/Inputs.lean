import Mathlib.Data.List.TakeWhile
import Mathlib.Data.Nat.Digits.Defs
import RegisterMachine.Machine.Input
import RegisterMachine.Proofs.LineGrammar

/-!
# What is accepted as an input

A list of values is accepted if each of them denotes a number: it is a non-negative integer, or a
text of digits with nothing but blanks around them. Otherwise the first value that is not accepted
decides about the failure.

As a rule that is a refusal with the value and its position. There are exceptions, where a
conversion between integers and texts fails before a refusal is thought of or while it is put into
words: a text of digits that holds an ornate one, or more digits than a conversion takes, and a
value that holds an integer of more digits than are written out.

* `InputValue.HoldsDigits`, `InputValue.Denotes` — texts of digits, and the numbers of values;
* `InputValue.Escapes` — the exceptions;
* `InputValue.toNat_eq_ok_iff`, `InputValue.toNat_eq_error_iff` — single values;
* `acceptInputs_spec` — lists of values.
-/

namespace RegisterMachine

/-! ### Texts of digits -/

namespace Text

/-- No digit is a blank, not even an ornate one. -/
theorem isBlank_of_isDigit {c : Char} (h : isDigit c = true) : isBlank c = false := by
  rw [isDigit, Bool.or_eq_true] at h
  rcases h with h | h
  · exact isBlank_of_isDecimal h
  · have hapart : ∀ ornate ∈ ornateDigitRuns, ∀ blank ∈ blankRuns,
        ornate.2 < blank.1 ∨ blank.2 < ornate.1 := by decide
    obtain ⟨ornate, hornate, hin⟩ := List.any_eq_true.1 h
    rw [isBlank, inRuns, List.any_eq_false]
    intro blank hblank
    have hout := hapart ornate hornate blank hblank
    simp only [Bool.and_eq_true, decide_eq_true_eq, not_and] at hin ⊢
    omega

/-- Blanks are cut off at both ends. -/
theorem exists_trim (cs : List Char) :
    ∃ before after, cs = before ++ trim cs ++ after ∧ (∀ c ∈ before, isBlank c = true) ∧
      ∀ c ∈ after, isBlank c = true := by
  let rest := cs.dropWhile isBlank
  refine ⟨cs.takeWhile isBlank, (rest.reverse.takeWhile isBlank).reverse, ?_,
    fun c hc => List.mem_takeWhile_imp hc, fun c hc => ?_⟩
  · have hrest : trim cs ++ (rest.reverse.takeWhile isBlank).reverse = rest := by
      rw [trim, ← List.reverse_append, List.takeWhile_append_dropWhile, List.reverse_reverse]
    rw [List.append_assoc, hrest, List.takeWhile_append_dropWhile]
  · exact List.mem_takeWhile_imp (List.mem_reverse.1 hc)

/-- What is left is what stood between them. -/
theorem trim_append {before cs after : List Char} (hbefore : ∀ c ∈ before, isBlank c = true)
    (hafter : ∀ c ∈ after, isBlank c = true) (hne : cs ≠ [])
    (hcs : ∀ c ∈ cs, isBlank c = false) : trim (before ++ cs ++ after) = cs := by
  have hstart : (cs ++ after).dropWhile isBlank = cs ++ after := by
    obtain _ | ⟨c, cs⟩ := cs
    · exact absurd rfl hne
    · rw [List.cons_append, List.dropWhile_cons_of_neg (by simp [hcs c List.mem_cons_self])]
  have hend : cs.reverse.dropWhile isBlank = cs.reverse := by
    rcases hreverse : cs.reverse with _ | ⟨c, ds⟩
    · rfl
    · have hc : c ∈ cs := List.mem_reverse.1 (hreverse ▸ List.mem_cons_self)
      rw [List.dropWhile_cons_of_neg (by simp [hcs c hc])]
  rw [trim, List.append_assoc, List.dropWhile_append_of_pos hbefore, hstart, List.reverse_append,
    List.dropWhile_append_of_pos fun c hc => hafter c (List.mem_reverse.1 hc), hend,
    List.reverse_reverse]

theorem exists_forall₂_decimal?_iff {cs : List Char} :
    (∃ ds, List.Forall₂ (fun c d => decimal? c = some d) cs ds) ↔
      ∀ c ∈ cs, isDecimal c = true := by
  induction cs with
  | nil => simp
  | cons c cs ih =>
    rw [List.forall_mem_cons, ← ih, isDecimal, Option.isSome_iff_exists]
    simp only [List.forall₂_cons_left_iff]
    constructor
    · rintro ⟨-, d, ds, hd, hds, rfl⟩
      exact ⟨⟨d, hd⟩, ds, hds⟩
    · rintro ⟨⟨d, hd⟩, ds, hds⟩
      exact ⟨d :: ds, d, ds, hd, hds, rfl⟩

/-- A numeral has no value if it is too long or holds an ornate digit. -/
theorem numeral_eq_error_iff {cs : List Char} {fault : NumeralFault} :
    numeral cs = .error fault ↔
      (fault = .tooLong ∧ maxDigits < cs.length) ∨
        (fault = .notDecimal ∧ cs.length ≤ maxDigits ∧ ∃ c ∈ cs, decimal? c = none) := by
  have hall : cs.all isDecimal = true ↔ ¬ ∃ c ∈ cs, decimal? c = none := by
    simp [isDecimal, Option.isSome_iff_ne_none]
  rw [numeral]
  split
  · rename_i hlong
    constructor
    · intro h
      exact .inl ⟨(Except.error.inj h).symm, hlong⟩
    · rintro (⟨rfl, -⟩ | ⟨-, hshort, -⟩)
      · rfl
      · exact absurd hlong (Nat.not_lt.2 hshort)
  · rename_i hshort
    split
    · rename_i hdecimal
      constructor
      · intro h
        cases h
      · rintro (⟨-, hlong⟩ | ⟨-, -, hornate⟩)
        · exact absurd hlong hshort
        · exact absurd hornate (hall.1 hdecimal)
    · rename_i hdecimal
      constructor
      · intro h
        exact .inr ⟨(Except.error.inj h).symm, Nat.not_lt.1 hshort, not_not.1 (mt hall.2 hdecimal)⟩
      · rintro (⟨-, hlong⟩ | ⟨rfl, -⟩)
        · exact absurd hlong hshort
        · rfl

/-- The value of a numeral is that of its digits in the decimal system. -/
theorem decimalValue_eq_ofDigits {cs : List Char} {ds : List Nat}
    (h : List.Forall₂ (fun c d => decimal? c = some d) cs ds) :
    decimalValue cs = Nat.ofDigits 10 ds.reverse := by
  have hds : ds = cs.map fun c => (decimal? c).getD 0 := by
    induction h with
    | nil => rfl
    | cons hc _ ih => rw [List.map_cons, hc, Option.getD_some, ← ih]
  subst hds
  clear h
  induction cs using List.reverseRecOn with
  | nil => rfl
  | append_singleton cs c ih =>
    rw [decimalValue_concat, ih, List.map_append, List.map_singleton, List.reverse_concat,
      Nat.ofDigits_cons, Nat.add_comm]

end Text

/-! ### Single values -/

namespace InputValue

/-- A value is a text of digits of any sort, with blanks around them. -/
inductive HoldsDigits : InputValue → List Char → Prop
  | text {s : String} {before digits after : List Char}
      (toList_eq : s.toList = before ++ digits ++ after)
      (before_blank : ∀ c ∈ before, Text.isBlank c = true)
      (after_blank : ∀ c ∈ after, Text.isBlank c = true) (ne_nil : digits ≠ [])
      (digit : ∀ c ∈ digits, Text.isDigit c = true) : HoldsDigits (.text s) digits

/-- The number that a value stands for: an integer that is not negative for itself, and a text of
decimal digits for the number that they make up. -/
inductive Denotes : InputValue → Nat → Prop
  | integer (n : Nat) : Denotes (.integer n) n
  | text {value : InputValue} {digits : List Char} {ds : List Nat}
      (holds : value.HoldsDigits digits)
      (decimal : List.Forall₂ (fun c d => Text.decimal? c = some d) digits ds) :
      Denotes value (Nat.ofDigits 10 ds.reverse)

/-- How a value at a position fails, if it is not accepted. -/
inductive FailsAt (position : Nat) : InputValue → Error → Prop
  | invalid {value : InputValue} (undenoted : ∀ n, ¬ value.Denotes n)
      (no_digits : ∀ digits, ¬ value.HoldsDigits digits) (shown : value.isOverlong = false) :
      FailsAt position value (.invalidInput value position)
  | unshown {value : InputValue} (undenoted : ∀ n, ¬ value.Denotes n)
      (no_digits : ∀ digits, ¬ value.HoldsDigits digits) (overlong : value.isOverlong = true) :
      FailsAt position value (.numeral .tooLong)
  | tooLong {value : InputValue} {digits : List Char} (holds : value.HoldsDigits digits)
      (long : Text.maxDigits < digits.length) : FailsAt position value (.numeral .tooLong)
  | ornate {value : InputValue} {digits : List Char} (holds : value.HoldsDigits digits)
      (short : digits.length ≤ Text.maxDigits) {c : Char} (mem : c ∈ digits)
      (not_decimal : Text.decimal? c = none) : FailsAt position value (.numeral .notDecimal)

/-- A value for which a conversion between integers and texts fails. -/
def Escapes (value : InputValue) : Prop :=
  ((∀ n, ¬ value.Denotes n) ∧ value.isOverlong = true) ∨
    ∃ digits, value.HoldsDigits digits ∧
      (Text.maxDigits < digits.length ∨ ∃ c ∈ digits, Text.decimal? c = none)

/-- A value is accepted for the number that it denotes, unless it escapes. -/
def Accepted (value : InputValue) (n : Nat) : Prop :=
  value.Denotes n ∧ ¬ value.Escapes

theorem holdsDigits_iff {s : String} {digits : List Char} :
    HoldsDigits (.text s) digits ↔
      Text.trim s.toList = digits ∧ digits ≠ [] ∧ ∀ c ∈ digits, Text.isDigit c = true := by
  constructor
  · rintro ⟨hsplit, hbefore, hafter, hne, hdigits⟩
    rw [hsplit, Text.trim_append hbefore hafter hne fun c hc =>
      Text.isBlank_of_isDigit (hdigits c hc)]
    exact ⟨rfl, hne, hdigits⟩
  · rintro ⟨rfl, hne, hdigits⟩
    obtain ⟨before, after, hsplit, hbefore, hafter⟩ := Text.exists_trim s.toList
    exact .text hsplit hbefore hafter hne hdigits

theorem HoldsDigits.unique {value : InputValue} {digits digits' : List Char}
    (h : value.HoldsDigits digits) (h' : value.HoldsDigits digits') : digits = digits' := by
  cases value with
  | text s => exact (holdsDigits_iff.1 h).1.symm.trans (holdsDigits_iff.1 h').1
  | _ => cases h

/-- A text of digits denotes a number if all of them are decimal. -/
theorem HoldsDigits.denotes_iff {value : InputValue} {digits : List Char} {n : Nat}
    (h : value.HoldsDigits digits) :
    value.Denotes n ↔ (∀ c ∈ digits, Text.isDecimal c = true) ∧ Text.decimalValue digits = n := by
  constructor
  · intro hn
    cases hn with
    | integer n => cases h
    | text holds decimal =>
      obtain rfl := holds.unique h
      exact ⟨Text.exists_forall₂_decimal?_iff.1 ⟨_, decimal⟩,
        Text.decimalValue_eq_ofDigits decimal⟩
  · rintro ⟨hdecimal, rfl⟩
    obtain ⟨ds, hds⟩ := Text.exists_forall₂_decimal?_iff.2 hdecimal
    rw [Text.decimalValue_eq_ofDigits hds]
    exact .text h hds

theorem denotes_integer_iff {k : Int} {n : Nat} : Denotes (.integer k) n ↔ k = n := by
  constructor
  · intro h
    cases h with
    | integer => rfl
    | text holds _ => cases holds
  · rintro rfl
    exact .integer n

/-- A value without digits that is no integer denotes nothing. -/
theorem not_denotes {value : InputValue} (hdigits : ∀ digits, ¬ value.HoldsDigits digits)
    (hinteger : ∀ n : Nat, value ≠ .integer n) (n : Nat) : ¬ value.Denotes n := by
  intro h
  cases h with
  | integer => exact hinteger n rfl
  | text holds _ => exact hdigits _ holds

/-- A text of digits is accepted for the value of a numeral. -/
theorem HoldsDigits.accepted_iff {value : InputValue} {digits : List Char} {n : Nat}
    (h : value.HoldsDigits digits) : value.Accepted n ↔ Text.numeral digits = .ok n := by
  rw [Text.numeral_eq_ok_iff, Accepted, h.denotes_iff, and_assoc]
  refine and_congr_right fun hdecimal => and_congr_right fun hvalue => ?_
  rw [List.countP_eq_length.2 hdecimal]
  constructor
  · exact fun hescapes => Nat.not_lt.1 fun hlong => hescapes (.inr ⟨digits, h, .inl hlong⟩)
  · rintro hshort (⟨hundenoted, -⟩ | ⟨digits', h', hfault⟩)
    · exact hundenoted n (h.denotes_iff.2 ⟨hdecimal, hvalue⟩)
    · obtain rfl := h'.unique h
      rcases hfault with hlong | ⟨c, hc, hnone⟩
      · exact absurd hlong (Nat.not_lt.2 hshort)
      · have hsome := hdecimal c hc
        rw [Text.isDecimal, hnone] at hsome
        cases hsome

variable {position : Nat} {value : InputValue}

/-- A text of digits is read as a numeral. -/
theorem HoldsDigits.toNat {digits : List Char} (h : value.HoldsDigits digits) :
    value.toNat position = (Text.numeral digits).mapError .numeral := by
  cases value with
  | text s =>
    obtain ⟨htrim, hne, hdigits⟩ := holdsDigits_iff.1 h
    rw [InputValue.toNat, htrim]
    refine if_pos ?_
    rw [Bool.and_eq_true, Bool.not_eq_true', List.isEmpty_eq_false_iff, List.all_eq_true]
    exact ⟨hne, hdigits⟩
  | _ => cases h

theorem toNat_natCast (n : Nat) : toNat position (.integer n) = .ok n := by
  rw [InputValue.toNat, if_neg (Int.not_lt.2 (Int.natCast_nonneg n)), Int.toNat_natCast]

/-- A value that denotes no number and holds no digits is refused. -/
theorem toNat_of_refused (hvalue : ∀ n, ¬ value.Denotes n)
    (hdigits : ∀ digits, ¬ value.HoldsDigits digits) :
    value.toNat position = .error (value.refusal position) := by
  cases value with
  | integer k =>
    have hneg : k < 0 := by
      by_contra hnonneg
      exact hvalue k.toNat (denotes_integer_iff.2 (Int.toNat_of_nonneg (Int.not_lt.1 hnonneg)).symm)
    exact if_pos hneg
  | text s =>
    refine if_neg fun h => ?_
    rw [Bool.and_eq_true, Bool.not_eq_true', List.isEmpty_eq_false_iff, List.all_eq_true] at h
    exact hdigits _ (holdsDigits_iff.2 ⟨rfl, h⟩)
  | _ => rfl

/-- A value is a number, a text of digits, or neither. -/
theorem cases_of_toNat (value : InputValue) :
    (∃ n : Nat, value = .integer n) ∨ (∃ digits, value.HoldsDigits digits) ∨
      ((∀ n, ¬ value.Denotes n) ∧ ∀ digits, ¬ value.HoldsDigits digits) := by
  by_cases hdigits : ∃ digits, value.HoldsDigits digits
  · exact .inr (.inl hdigits)
  · by_cases hinteger : ∃ n : Nat, value = .integer n
    · exact .inl hinteger
    · have hnone : ∀ digits, ¬ value.HoldsDigits digits := fun digits h => hdigits ⟨digits, h⟩
      exact .inr (.inr ⟨not_denotes hnone fun n h => hinteger ⟨n, h⟩, hnone⟩)

/-- A value has the number that it is accepted for. -/
theorem toNat_eq_ok_iff {n : Nat} : value.toNat position = .ok n ↔ value.Accepted n := by
  rcases cases_of_toNat value with ⟨k, rfl⟩ | ⟨digits, hdigits⟩ | ⟨hvalue, hdigits⟩
  · have hstays : ¬ Escapes (.integer k) := by
      rintro (⟨hundenoted, -⟩ | ⟨digits, hdigits, -⟩)
      · exact hundenoted k (.integer k)
      · cases hdigits
    rw [toNat_natCast, Accepted, denotes_integer_iff, Except.ok.injEq, Int.natCast_inj]
    exact (and_iff_left hstays).symm
  · rw [hdigits.toNat, Bounded.mapError_eq_ok, hdigits.accepted_iff]
  · rw [toNat_of_refused hvalue hdigits]
    exact ⟨fun h => (nomatch h), fun h => absurd h.1 (hvalue n)⟩

/-- A value fails in the one way that there is for it. -/
theorem toNat_eq_error_iff {e : Error} :
    value.toNat position = .error e ↔ FailsAt position value e := by
  rcases cases_of_toNat value with ⟨k, rfl⟩ | ⟨digits, hdigits⟩ | ⟨hvalue, hdigits⟩
  · rw [toNat_natCast]
    refine ⟨fun h => (nomatch h), fun h => ?_⟩
    cases h with
    | invalid undenoted _ _ | unshown undenoted _ _ => exact absurd (.integer k) (undenoted k)
    | tooLong holds _ | ornate holds _ _ _ => cases holds
  · rw [hdigits.toNat]
    constructor
    · intro h
      obtain ⟨fault, hfault, rfl⟩ := Bounded.mapError_eq_error.1 h
      rcases Text.numeral_eq_error_iff.1 hfault with ⟨rfl, hlong⟩ | ⟨rfl, hshort, c, hc, hnone⟩
      · exact .tooLong hdigits hlong
      · exact .ornate hdigits hshort hc hnone
    · intro h
      cases h with
      | invalid _ no_digits _ | unshown _ no_digits _ => exact absurd hdigits (no_digits digits)
      | tooLong holds long =>
        obtain rfl := holds.unique hdigits
        rw [Text.numeral_eq_error_iff.2 (.inl ⟨rfl, long⟩)]
        rfl
      | ornate holds short mem not_decimal =>
        obtain rfl := holds.unique hdigits
        rw [Text.numeral_eq_error_iff.2 (.inr ⟨rfl, short, _, mem, not_decimal⟩)]
        rfl
  · rw [toNat_of_refused hvalue hdigits, refusal, Except.error.injEq]
    constructor
    · rintro rfl
      split
      · rename_i hoverlong
        exact .unshown hvalue hdigits hoverlong
      · rename_i hshown
        exact .invalid hvalue hdigits (Bool.eq_false_iff.2 hshown)
    · intro h
      cases h with
      | invalid _ _ shown => rw [shown, if_neg Bool.false_ne_true]
      | unshown _ _ overlong => rw [overlong, if_pos rfl]
      | tooLong holds _ | ornate holds _ _ _ => exact absurd holds (hdigits _)

/-- A conversion fails for values that escape; the others are refused, and denote no number. -/
theorem FailsAt.escapes_or_refused {e : Error} (h : FailsAt position value e) :
    (value.Escapes ∧ ∃ fault, e = .numeral fault) ∨
      (¬ value.Escapes ∧ (∀ n, ¬ value.Denotes n) ∧ e = .invalidInput value position) := by
  cases h with
  | invalid undenoted no_digits shown =>
    refine .inr ⟨?_, undenoted, rfl⟩
    rintro (⟨-, hoverlong⟩ | ⟨digits, hdigits, -⟩)
    · cases shown.symm.trans hoverlong
    · exact no_digits digits hdigits
  | unshown undenoted _ overlong => exact .inl ⟨.inl ⟨undenoted, overlong⟩, _, rfl⟩
  | tooLong holds long => exact .inl ⟨.inr ⟨_, holds, .inl long⟩, _, rfl⟩
  | ornate holds _ mem not_decimal =>
    exact .inl ⟨.inr ⟨_, holds, .inr ⟨_, mem, not_decimal⟩⟩, _, rfl⟩

end InputValue

/-! ### Lists of values -/

open InputValue

/-- Numbers are accepted if every value is accepted for one of them. -/
theorem acceptInputsFrom_eq_ok_iff {position : Nat} {values : List InputValue} {ns : List Nat} :
    acceptInputsFrom position values = .ok ns ↔ List.Forall₂ Accepted values ns := by
  induction values generalizing position ns with
  | nil =>
    rw [acceptInputsFrom, List.forall₂_nil_left_iff, Except.ok.injEq, eq_comm]
  | cons value values ih =>
    rw [acceptInputsFrom, Bounded.bind_eq_ok, List.forall₂_cons_left_iff]
    simp only [toNat_eq_ok_iff, Bounded.bind_eq_ok, ih]
    constructor
    · rintro ⟨n, hn, rest, hrest, h⟩
      exact ⟨n, rest, hn, hrest, (Except.ok.inj h).symm⟩
    · rintro ⟨n, rest, hn, hrest, rfl⟩
      exact ⟨n, hn, rest, hrest, rfl⟩

/-- The first value that is not accepted decides about the failure. -/
theorem acceptInputsFrom_eq_error_iff {position : Nat} {values : List InputValue} {e : Error} :
    acceptInputsFrom position values = .error e ↔
      ∃ before value after, values = before ++ value :: after ∧
        (∀ v ∈ before, ∃ n, v.Accepted n) ∧ FailsAt (position + before.length) value e := by
  induction values generalizing position with
  | nil =>
    refine ⟨fun h => (nomatch h), ?_⟩
    rintro ⟨before, value, after, h, -⟩
    exact absurd h (by simp)
  | cons value values ih =>
    rw [acceptInputsFrom]
    rcases hvalue : value.toNat position with e' | n
    · constructor
      · intro h
        obtain rfl := Except.error.inj h
        exact ⟨[], value, values, rfl, List.forall_mem_nil _, toNat_eq_error_iff.1 hvalue⟩
      · rintro ⟨_ | ⟨v, before⟩, value', after, h, hbefore, hfails⟩
        · obtain ⟨rfl, rfl⟩ := List.cons.inj h
          obtain rfl := Except.error.inj (hvalue.symm.trans (toNat_eq_error_iff.2 hfails))
          rfl
        · obtain ⟨rfl, -⟩ := List.cons.inj h
          obtain ⟨n, hn⟩ := hbefore value List.mem_cons_self
          cases hvalue.symm.trans (toNat_eq_ok_iff.2 hn)
    · rw [Bounded.ok_bind, Bounded.bind_pure_eq_error, ih]
      constructor
      · rintro ⟨before, value', after, rfl, hbefore, hfails⟩
        refine ⟨value :: before, value', after, rfl,
          List.forall_mem_cons.2 ⟨⟨n, toNat_eq_ok_iff.1 hvalue⟩, hbefore⟩, ?_⟩
        rwa [List.length_cons, Nat.add_comm before.length, ← Nat.add_assoc]
      · rintro ⟨_ | ⟨v, before⟩, value', after, h, hbefore, hfails⟩
        · obtain ⟨rfl, rfl⟩ := List.cons.inj h
          cases hvalue.symm.trans (toNat_eq_error_iff.2 hfails)
        · obtain ⟨rfl, rfl⟩ := List.cons.inj h
          rw [List.length_cons, Nat.add_comm before.length, ← Nat.add_assoc] at hfails
          exact ⟨before, value', after, rfl, (List.forall_mem_cons.1 hbefore).2, hfails⟩

/-- **Inputs are accepted or refused.** A list of values gives a list of as many numbers if and only
if each value is accepted for its number, and it fails with an error if and only if the first value
that is not accepted fails with it. If that value escapes, the error is that of a conversion;
otherwise the value denotes no number, and the error is its refusal with its position. So a list
without escaping values is accepted for the numbers that its values denote, or the first one that
denotes none is refused. -/
theorem acceptInputs_spec (values : List InputValue) :
    (∀ ns, acceptInputs values = .ok ns ↔ List.Forall₂ Accepted values ns) ∧
    (∀ e, acceptInputs values = .error e ↔
      ∃ before value after, values = before ++ value :: after ∧
        (∀ v ∈ before, ∃ n, v.Accepted n) ∧ FailsAt before.length value e) ∧
    (∀ value position e, FailsAt position value e →
      (value.Escapes ∧ ∃ fault, e = .numeral fault) ∨
        (¬ value.Escapes ∧ (∀ n, ¬ value.Denotes n) ∧ e = .invalidInput value position)) ∧
    ((∀ v ∈ values, ¬ v.Escapes) →
      (∃ ns, acceptInputs values = .ok ns ∧ List.Forall₂ Denotes values ns) ∨
      ∃ before value after, values = before ++ value :: after ∧
        (∀ v ∈ before, ∃ n, v.Denotes n) ∧ (∀ n, ¬ value.Denotes n) ∧
        acceptInputs values = .error (.invalidInput value before.length)) := by
  have hok : ∀ ns, acceptInputs values = .ok ns ↔ List.Forall₂ Accepted values ns := fun ns =>
    acceptInputsFrom_eq_ok_iff
  have herror : ∀ e, acceptInputs values = .error e ↔
      ∃ before value after, values = before ++ value :: after ∧
        (∀ v ∈ before, ∃ n, v.Accepted n) ∧ FailsAt before.length value e := by
    intro e
    rw [acceptInputs, acceptInputsFrom_eq_error_iff]
    simp only [Nat.zero_add]
  refine ⟨hok, herror, fun value position e h => h.escapes_or_refused, fun hvalues => ?_⟩
  rcases hresult : acceptInputs values with e | ns
  · obtain ⟨before, value, after, rfl, hbefore, hfails⟩ := (herror e).1 hresult
    rcases hfails.escapes_or_refused with ⟨hescapes, -⟩ | ⟨-, hundenoted, rfl⟩
    · exact absurd hescapes (hvalues value (by simp))
    · refine .inr ⟨before, value, after, rfl, fun v hv => ?_, hundenoted, rfl⟩
      obtain ⟨n, hn⟩ := hbefore v hv
      exact ⟨n, hn.1⟩
  · exact .inl ⟨ns, rfl, ((hok ns).1 hresult).imp fun _ _ h => h.1⟩

/-- Digits between blanks are accepted. In a list with a word the word is refused. -/
theorem word_refused_by_acceptInputs :
    acceptInputs [.text " 12 "] = .ok [12] ∧
      ∃ before value after, [.text " 12 ", .text "x"] = before ++ value :: after ∧
        (∀ v ∈ before, ∃ n, Denotes v n) ∧ (∀ n, ¬ value.Denotes n) ∧
        acceptInputs [.text " 12 ", .text "x"] = .error (.invalidInput value before.length) := by
  have htwelve : HoldsDigits (.text " 12 ") ['1', '2'] :=
    holdsDigits_iff.2 ⟨rfl, List.cons_ne_nil _ _, List.forall_mem_cons.2
      ⟨by decide +kernel, List.forall_mem_singleton.2 (by decide +kernel)⟩⟩
  have haccepted : Accepted (.text " 12 ") 12 := htwelve.accepted_iff.2 rfl
  refine ⟨(acceptInputs_spec _).1 _ |>.2 (.cons haccepted .nil), ?_⟩
  refine ((acceptInputs_spec [.text " 12 ", .text "x"]).2.2.2 ?_).resolve_left ?_
  · refine List.forall_mem_cons.2 ⟨haccepted.2, List.forall_mem_singleton.2 ?_⟩
    rintro (⟨-, hoverlong⟩ | ⟨digits, hdigits, -⟩)
    · cases hoverlong
    · obtain ⟨rfl, -, hdigit⟩ := holdsDigits_iff.1 hdigits
      exact absurd (hdigit 'x' (List.mem_singleton_self _)) (by decide +kernel)
  · rintro ⟨ns, hns, -⟩
    cases hns

/-- The superscript two passes for a digit and has no value as a numeral, so the list is neither
accepted nor refused. -/
theorem superscript_not_accepted_or_refused :
    ¬ ∀ values : List InputValue, (∃ ns, acceptInputs values = .ok ns) ∨
      ∃ value position, acceptInputs values = .error (.invalidInput value position) := by
  intro h
  have hescapes : acceptInputs [.text "²"] = .error (.numeral .notDecimal) := rfl
  rcases h [.text "²"] with ⟨ns, hns⟩ | ⟨value, position, hrefused⟩
  · cases hescapes.symm.trans hns
  · cases hescapes.symm.trans hrefused

end RegisterMachine
