import RegisterMachine.Proofs.Termination
import RegisterMachine.Workbench

/-!
# Expansion needs no higher tier

The table of tiers and the blocks of expansion know nothing of each other. They fit together: every
instruction of a block needs at most the tier of the instruction that the block replaces. So what a
tier supports at some degree it supports at all higher ones, and the lowest tier that supports a
program gets no higher by expansion, until it is the basic tier at the degree of the program.

* `Tier.unsupported_eq_nil_iff_rank_minimum_le`, `Tier.mem_unsupported_iff`,
  `Tier.pairwise_unsupported` — the lowest tier of a list of instructions, and the list of those
  that a tier does not support;
* `Library.rank_le_of_mem_block` — from an instruction to its block;
* `Library.unsupported_expandRounds` — the same for any number of rounds;
* `Library.tiers_of_expansion` — the tiers of a program at two degrees.
-/

namespace RegisterMachine

open Instruction (plain)

/-! ### Tiers of instructions -/

namespace Tier

variable {tier : Tier} {code : List Instruction} {i : Instruction}

theorem one_le_rank (tier : Tier) : 1 ≤ tier.rank := by
  cases tier <;> decide

theorem rank_le_four (tier : Tier) : tier.rank ≤ 4 := by
  cases tier <;> decide

theorem rank_le_one_iff : tier.rank ≤ 1 ↔ tier = basic := by
  cases tier <;> decide

theorem rank_higher (a b : Tier) : (a.higher b).rank = max a.rank b.rank := by
  rw [higher]
  split <;> omega

theorem supports_iff {opcode : Opcode} :
    tier.supports opcode = true ↔ (ofOpcode opcode).rank ≤ tier.rank :=
  decide_eq_true_iff

theorem ofOpcode_eq_basic_iff {opcode : Opcode} :
    ofOpcode opcode = basic ↔ opcode.isBasic = true := by
  cases opcode <;> decide

private theorem rank_foldl_higher_le_iff {start : Tier} {n : Nat} :
    (code.foldl (fun tier i => tier.higher (ofOpcode i.opcode)) start).rank ≤ n ↔
      start.rank ≤ n ∧ ∀ i ∈ code, (ofOpcode i.opcode).rank ≤ n := by
  induction code generalizing start with
  | nil => simp
  | cons i code ih =>
    rw [List.foldl_cons, ih, rank_higher, Nat.max_le, and_assoc, List.forall_mem_cons]

/-- The minimum tier is the lowest one that supports every instruction. -/
theorem rank_minimum_le_iff :
    (minimum code).rank ≤ tier.rank ↔ ∀ i ∈ code, (ofOpcode i.opcode).rank ≤ tier.rank := by
  rw [minimum, rank_foldl_higher_le_iff]
  exact and_iff_right tier.one_le_rank

/-- The basic tier is enough for basic instructions, and for nothing else. -/
theorem minimum_eq_basic_iff : minimum code = basic ↔ ∀ i ∈ code, i.isBasic = true := by
  have hbasic : (minimum code).rank ≤ basic.rank ↔
      ∀ i ∈ code, (ofOpcode i.opcode).rank ≤ basic.rank := rank_minimum_le_iff
  rw [← rank_le_one_iff]
  exact hbasic.trans (forall₂_congr fun i _ => rank_le_one_iff.trans ofOpcode_eq_basic_iff)

/-- The instructions that a tier does not support are those of a higher one, with their places. -/
theorem mem_unsupported_iff {k : Nat} :
    (k, i) ∈ tier.unsupported code ↔
      code[k]? = some i ∧ tier.rank < (ofOpcode i.opcode).rank := by
  rw [unsupported, List.mem_filter, Bool.not_eq_true', ← Bool.not_eq_true, supports_iff, Nat.not_le,
    List.mem_map]
  refine and_congr_left fun _ => ?_
  constructor
  · rintro ⟨⟨i', k'⟩, h, heq⟩
    cases heq
    exact List.mem_zipIdx_iff_getElem?.1 h
  · exact fun h => ⟨(i, k), List.mem_zipIdx_iff_getElem?.2 h, rfl⟩

/-- They are listed in the order of the program. -/
theorem pairwise_unsupported (tier : Tier) (code : List Instruction) :
    (tier.unsupported code).Pairwise fun x y => x.1 < y.1 := by
  refine .sublist List.filter_sublist (List.pairwise_map.2 ?_)
  have hplaces : (code.zipIdx.map Prod.snd).Pairwise (· < ·) := by
    rw [List.zipIdx_map_snd]
    exact List.pairwise_lt_range'
  exact List.pairwise_map.1 hplaces

theorem unsupported_eq_nil_iff :
    tier.unsupported code = [] ↔ ∀ i ∈ code, (ofOpcode i.opcode).rank ≤ tier.rank := by
  rw [List.eq_nil_iff_forall_not_mem]
  constructor
  · intro h i hi
    obtain ⟨k, hk⟩ := List.getElem?_of_mem hi
    exact Nat.not_lt.1 fun hlt => h (k, i) (mem_unsupported_iff.2 ⟨hk, hlt⟩)
  · rintro h ⟨k, i⟩ hmem
    obtain ⟨hk, hlt⟩ := mem_unsupported_iff.1 hmem
    exact Nat.not_lt.2 (h i (List.mem_of_getElem? hk)) hlt

theorem unsupported_eq_nil_iff_rank_minimum_le :
    tier.unsupported code = [] ↔ (minimum code).rank ≤ tier.rank :=
  unsupported_eq_nil_iff.trans rank_minimum_le_iff.symm

end Tier

/-- A tier is accepted where it supports everything; no tier at all is accepted always. -/
theorem Workbench.checkTier_eq_ok_iff {tier : Option Tier} {code : List Instruction} :
    checkTier tier code = .ok () ↔ ∀ t, tier = some t → t.unsupported code = [] := by
  cases tier with
  | none => exact ⟨fun _ t h => (nomatch h), fun _ => rfl⟩
  | some tier =>
    rw [checkTier]
    cases h : tier.unsupported code <;> simp [h]

/-! ### Rounds -/

namespace Library

open Tier

variable {lib : Library} {e e' : Expansion}

section Blocks

variable {i : Instruction} {block : Block}

attribute [local simp] plain Instruction.opcode Operation.opcode ofOpcode rank

/-- Every instruction of a block needs at most the tier of the instruction that the block
replaces. -/
theorem rank_le_of_mem_block (hblock : lib.BlockOf i block) (s : Supply) :
    ∀ i' ∈ block.body s, (ofOpcode i'.opcode).rank ≤ (ofOpcode i.opcode).rank := by
  have hlanding : ∀ {label v}, ∀ i' ∈ Block.landing label v,
      (ofOpcode i'.opcode).rank ≤ (ofOpcode i.opcode).rank := fun i' hi' => by
    obtain ⟨-, rfl⟩ := Block.mem_landing.1 hi'
    exact one_le_rank _
  cases hblock with
  | self => rw [Block.body_ofCode, List.forall_mem_singleton]
  | zeroVariable v =>
    rw [Block.zeroVariable, Block.body_ofCode]
    exact List.forall_mem_append.2 ⟨hlanding, by simp⟩
  | selfAssignment v =>
    rw [Block.selfAssignment, Block.body_ofCode]
    exact hlanding
  | jumpEqualConstant v k target => simp [Block.jumpEqualConstant, or_imp, forall_and]
  | call hi =>
    -- A called program may need any tier, but no tier is above the one of a call.
    obtain ⟨label, operation, spares, spare⟩ := i
    cases hi <;> exact fun i' _ => rank_le_four _
  | _ =>
    simp [Block.gotoLabel, Block.constantAssignment, Block.jumpZero, Block.assignment,
      Block.jumpEqualVariable]

end Blocks

/-- A tier that supports a program supports it after a round. -/
theorem unsupported_round {tier : Tier} (hround : lib.round e = .ok e')
    (h : tier.unsupported e.code = []) : tier.unsupported e'.code = [] := by
  rw [unsupported_eq_nil_iff] at h ⊢
  refine forall_mem_round hround (fun hblock _ hi i' hi' => ?_) h
  exact (rank_le_of_mem_block hblock _ i' hi').trans hi

/-- A tier that supports a program supports it after any number of rounds. -/
theorem unsupported_expandRounds {tier : Tier} {n : Nat} (hrounds : lib.expandRounds n e = .ok e')
    (h : tier.unsupported e.code = []) : tier.unsupported e'.code = [] :=
  expandRounds_induction (P := fun e₁ => tier.unsupported e₁.code = [])
    (fun _ _ => unsupported_round) hrounds h

theorem expandFrom_eq_ok_iff {d : Int} :
    lib.expandFrom e d = .ok e' ↔ 0 ≤ d ∧ lib.expandRounds d.toNat e = .ok e' := by
  rw [expandFrom]
  split
  · rename_i hd
    refine ⟨fun h => ?_, fun h => absurd h.1 (Int.not_le.2 hd)⟩
    cases h
  · rename_i hd
    exact (and_iff_right (Int.not_lt.1 hd)).symm

/-- A program at two degrees. What a tier supports at the lower one it supports at the higher one,
so a run that is accepted stays accepted, and the lowest tier that supports the program does not get
higher; at the degree of the program it is the basic tier. For any list of instructions, a tier
supports all of them if and only if its rank is at least that of the lowest such tier, and else it
lists those of a higher rank, each once, with their places and in the order of these. -/
theorem tiers_of_expansion (lib : Library) (p : Program) :
    (∀ (d d' : Int) (e e' : Expansion), d ≤ d' → lib.expand p d = .ok e → lib.expand p d' = .ok e' →
      (∀ tier : Tier, tier.unsupported e.code = [] → tier.unsupported e'.code = []) ∧
      (∀ tier, Workbench.checkTier tier e.code = .ok () →
        Workbench.checkTier tier e'.code = .ok ()) ∧
      (minimum e'.code).rank ≤ (minimum e.code).rank) ∧
    (∀ fuel n, lib.maxDegree fuel p = .ok n →
      ∃ e, lib.expand p n = .ok e ∧ minimum e.code = basic) ∧
    ∀ (tier : Tier) (code : List Instruction),
      (tier.unsupported code = [] ↔ (minimum code).rank ≤ tier.rank) ∧
      (∀ k i, (k, i) ∈ tier.unsupported code ↔
        code[k]? = some i ∧ tier.rank < (ofOpcode i.opcode).rank) ∧
      (tier.unsupported code).Pairwise fun x y => x.1 < y.1 := by
  refine ⟨fun d d' e e' hd he he' => ?_, fun fuel n hn => ?_, fun tier code =>
    ⟨unsupported_eq_nil_iff_rank_minimum_le, fun k i => mem_unsupported_iff,
      pairwise_unsupported tier code⟩⟩
  · obtain ⟨-, hrounds⟩ := expandFrom_eq_ok_iff.1 he
    obtain ⟨-, hrounds'⟩ := expandFrom_eq_ok_iff.1 he'
    obtain ⟨j, hmore⟩ := expandRounds_split (Int.toNat_le_toNat hd) hrounds' hrounds
    have hsupported : ∀ tier : Tier, tier.unsupported e.code = [] → tier.unsupported e'.code = [] :=
      fun tier => unsupported_expandRounds hmore
    refine ⟨hsupported, fun tier h => ?_, ?_⟩
    · rw [Workbench.checkTier_eq_ok_iff] at h ⊢
      exact fun t ht => hsupported t (h t ht)
    · -- The lowest tier of the one supports the other.
      rw [← unsupported_eq_nil_iff_rank_minimum_le]
      exact hsupported _ (unsupported_eq_nil_iff_rank_minimum_le.2 le_rfl)
  · obtain ⟨e, hrounds, hbasic⟩ := exists_expandRounds_of_roundsToBasic hn
    refine ⟨e, expandFrom_eq_ok_iff.2 ⟨Int.natCast_nonneg n, hrounds⟩, ?_⟩
    exact minimum_eq_basic_iff.2 (List.all_eq_true.1 hbasic)

/-- A call needs the ultimate tier. After one round its block needs no more than the tier of its
assignments, and so does what two rounds make of it. -/
theorem echo_tiers_of_expansion :
    minimum (Expansion.ofProgram echoCaller).code = ultimate ∧
    ∃ e e', echoLibrary.expand echoCaller 1 = .ok e ∧ echoLibrary.expand echoCaller 2 = .ok e' ∧
      minimum e.code = highPerformance ∧ highPerformance.unsupported e'.code = [] ∧
      ∃ full, echoLibrary.expand echoCaller 3 = .ok full ∧ minimum full.code = basic := by
  obtain ⟨e, he, hminimum⟩ : ∃ e, echoLibrary.expand echoCaller 1 = .ok e ∧
      minimum e.code = highPerformance := ⟨_, rfl, by decide⟩
  obtain ⟨e', he'⟩ : ∃ e', echoLibrary.expand echoCaller 2 = .ok e' := ⟨_, rfl⟩
  obtain ⟨hdegrees, hfull, htier⟩ := tiers_of_expansion echoLibrary echoCaller
  obtain ⟨hsupported, -, -⟩ := hdegrees 1 2 e e' (by decide) he he'
  have hunsupported : highPerformance.unsupported e.code = [] :=
    (htier highPerformance e.code).1.2 (hminimum ▸ le_rfl)
  exact ⟨by decide, e, e', he, he', hminimum, hsupported _ hunsupported, hfull 3 3 rfl⟩

end Library

end RegisterMachine
