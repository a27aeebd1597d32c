import Mathlib
import UnitedBitcoin.Library.BinaryCounter
import UnitedBitcoin.Library.DupMerkle

/-!
# The constant-space Merkle computation

`MerkleComputation` of `consensus/merkle.cpp`, with `ComputeMerkleRoot`,
`ComputeMerkleBranch` and `ComputeMerkleRootFromBranch`. The leaves are read once, as a
binary counter: after `count` leaves, `inner[level]` is the tree over the block of `2 ^ level`
leaves that bit `level` of `count` stands for. A final sweep up the right edge pairs each odd
node with itself.

`count` is a `uint32_t` and `inner` has 32 entries. The model adds modulo `2 ^ 32`, and the
computation ends with `none` where the C++ evaluates `((uint32_t)1) << level` with
`level = 32`, which it leaves undefined. `CHash256` over two 32-byte values is the parameter
`hash`, and `uint256()` is `default`.

The results, for `0 < leaves.length ≤ 2 ^ 31` (`merkleComputation_spec`):
* the root is `levelRoot` of `Library.DupMerkle`, the level-by-level tree;
* the branch is `levelBranch`;
* `mutated` is raised exactly when two equal sibling subtrees were combined.

A root recomputed from the branch is the root (`computeMerkleRootFromBranch_treePath`). The
comment of `merkle.cpp` allows up to `2 ^ 32` leaves, but from `2 ^ 31 + 1` leaves on the sweep's
`count` passes `2 ^ 32`, and `ComputeMerkleRoot` reaches the undefined shift
(`computeMerkleRoot_wraps`).
-/

namespace UnitedBitcoin.Merkle

open UnitedBitcoin.Library

section Model

variable {α : Type} (hash : α → α → α)

/-- The locals of `MerkleComputation` that live across its main loop. -/
structure MerkleState (α : Type) where
  count : Nat
  inner : Nat → α
  mutated : Bool
  /-- `matchlevel`, with `-1` as `none`. -/
  matchlevel : Option Nat
  branch : List α

/-- The branch bookkeeping when `h` is combined with `left` on `level`:
`if (pbranch) { if (matchh) push(left); else if (matchlevel == level) { push(h); matchh = true; } }`.
Without a branch (`pbranch` null) nothing is pushed and `matchh` stays. -/
def branchStep (withBranch matchh : Bool) (matchlevel : Option Nat) (level : Nat) (left h : α)
    (branch : List α) : List α × Bool :=
  if withBranch then
    if matchh then (branch ++ [left], true)
    else if matchlevel = some level then (branch ++ [h], true)
    else (branch, false)
  else (branch, matchh)

variable [DecidableEq α]

/-- The loop `for (level = 0; !(count & (1 << level)); level++)` for the leaf just counted,
from `level` on, with `fuel = 32 - level`: `h` is combined with `inner[level]` on each level
whose bit of `count` is clear, then stored on the first level whose bit is set. -/
def combineLevels (withBranch : Bool) : Nat → Nat → α → Bool → MerkleState α → Option (MerkleState α)
  | 0, _, _, _, _ => none
  | fuel + 1, level, h, matchh, state =>
    if state.count.testBit level then
      some { state with
        inner := Function.update state.inner level h
        matchlevel := if matchh then some level else state.matchlevel }
    else
      let step := branchStep withBranch matchh state.matchlevel level (state.inner level) h state.branch
      combineLevels withBranch fuel (level + 1) (hash (state.inner level) h) step.2
        { state with mutated := state.mutated || decide (state.inner level = h), branch := step.1 }

/-- The main loop `while (count < leaves.size())`, over the leaves not read yet. -/
def processLeaves (withBranch : Bool) (branchpos : Nat) : List α → MerkleState α → Option (MerkleState α)
  | [], state => some state
  | leaf :: rest, state =>
    (combineLevels hash withBranch 32 0 leaf (decide (state.count = branchpos))
      { state with count := (state.count + 1) % 2 ^ 32 }).bind (processLeaves withBranch branchpos rest)

/-- `while (!(count & (1 << level))) level++`, from `level` on, with `fuel = 32 - level`. -/
def lowestSetBit (count : Nat) : Nat → Nat → Option Nat
  | 0, _ => none
  | fuel + 1, level => if count.testBit level then some level else lowestSetBit count fuel (level + 1)

/-- The locals of the final sweep. -/
structure Sweep (α : Type) where
  count : Nat
  level : Nat
  h : α
  matchh : Bool
  branch : List α

/-- The inner loop of the sweep, `while (!(count & (1 << level)))`, with `fuel = 32 - level`:
`h` is combined with `inner[level]` on each level whose bit of `count` is clear. -/
def sweepCombine (withBranch : Bool) (inner : Nat → α) (matchlevel : Option Nat) : Nat → Sweep α → Option (Sweep α)
  | 0, _ => none
  | fuel + 1, s =>
    if s.count.testBit s.level then some s
    else
      let step := branchStep withBranch s.matchh matchlevel s.level (inner s.level) s.h s.branch
      sweepCombine withBranch inner matchlevel fuel
        { s with level := s.level + 1, h := hash (inner s.level) s.h, matchh := step.2, branch := step.1 }

/-- The outer loop of the sweep, `while (count != (1 << level))`: pair `h` with itself, count
the missing right half, and combine upwards. Each round raises `level`, so 33 rounds are
more than the loop can run. -/
def sweepUp (withBranch : Bool) (inner : Nat → α) (matchlevel : Option Nat) : Nat → Sweep α → Option (α × List α)
  | 0, _ => none
  | fuel + 1, s =>
    if 32 ≤ s.level then none
    else if s.count = 2 ^ s.level then some (s.h, s.branch)
    else
      (sweepCombine hash withBranch inner matchlevel (32 - (s.level + 1))
        { count := (s.count + 2 ^ s.level) % 2 ^ 32
          level := s.level + 1
          h := hash s.h s.h
          matchh := s.matchh
          branch := if withBranch && s.matchh then s.branch ++ [s.h] else s.branch }).bind
        (sweepUp withBranch inner matchlevel fuel)

variable [Inhabited α]

/-- `MerkleComputation`: the root, the flag `mutated` and the branch of leaf `branchpos`,
collected when `withBranch` (a non-null `pbranch`). `inner` starts as 32 zero hashes. -/
def merkleComputation (leaves : List α) (branchpos : Nat) (withBranch : Bool) : Option (α × Bool × List α) :=
  if leaves.isEmpty then some (default, false, [])
  else
    (processLeaves hash withBranch branchpos leaves ⟨0, fun _ => default, false, none, []⟩).bind fun state =>
      (lowestSetBit state.count 32 0).bind fun level =>
        (sweepUp hash withBranch state.inner state.matchlevel 33
          ⟨state.count, level, state.inner level, decide (state.matchlevel = some level), state.branch⟩).map
          fun result => (result.1, state.mutated, result.2)

/-- `ComputeMerkleRoot`: `branchpos` is `(uint32_t)-1` and there is no branch. -/
def computeMerkleRoot (leaves : List α) : Option (α × Bool) :=
  (merkleComputation hash leaves (2 ^ 32 - 1) false).map fun result => (result.1, result.2.1)

/-- `ComputeMerkleBranch`. -/
def computeMerkleBranch (leaves : List α) (position : Nat) : Option (List α) :=
  (merkleComputation hash leaves position true).map fun result => result.2.2

end Model

/-! ## What the main loop keeps -/

section Invariants

variable {α : Type} [Inhabited α] (hash : α → α → α)

/-- `inner[level]` is the tree over the block that bit `level` of `count` stands for. -/
def InnerHolds (leaves : List α) (count : Nat) (inner : Nat → α) : Prop :=
  ∀ level, count.testBit level = true → inner level = blockRoot hash leaves level (count - count % 2 ^ (level + 1))

/-- The two sibling subtrees of `2 ^ level` leaves that end at `stop` have the same hash. -/
def PairAt (leaves : List α) (level stop : Nat) : Prop :=
  blockRoot hash leaves level (stop - 2 ^ (level + 1)) = blockRoot hash leaves level (stop - 2 ^ level)

/-- Two equal sibling subtrees, both within the first `count` leaves. -/
def PairWithin (leaves : List α) (count : Nat) : Prop :=
  ∃ level start, 2 ^ (level + 1) ∣ start ∧ start + 2 ^ (level + 1) ≤ count ∧
    blockRoot hash leaves level start = blockRoot hash leaves level (start + 2 ^ level)

/-- Before leaf `position` is read there is no match and no branch; after it, `matchlevel` is
the level of the block that holds it, and the branch is its path in that block. -/
def BranchHolds (leaves : List α) (position count : Nat) (matchlevel : Option Nat) (branch : List α) : Prop :=
  (count ≤ position → matchlevel = none ∧ branch = []) ∧
  (position < count → ∃ level, matchlevel = some level ∧ count.testBit level = true ∧
    count - count % 2 ^ (level + 1) ≤ position ∧ position < count - count % 2 ^ (level + 1) + 2 ^ level ∧
    branch = blockPath hash leaves level (count - count % 2 ^ (level + 1)) position)

/-- What the main loop keeps after reading `count` leaves. -/
structure MainInvariant (withBranch : Bool) (leaves : List α) (position count : Nat) (state : MerkleState α) :
    Prop where
  count_eq : state.count = count
  inner_holds : InnerHolds hash leaves count state.inner
  mutated_iff : state.mutated = true ↔ PairWithin hash leaves count
  branch_holds : withBranch = true → BranchHolds hash leaves position count state.matchlevel state.branch

/-- What holds at the head of the level loop for the leaf at index `count`, on `level`: `h` is
the tree over the last `2 ^ level` leaves, and it holds leaf `position` exactly when `matchh`. -/
structure LevelInvariant (withBranch : Bool) (leaves : List α) (position count level : Nat) (h : α) (matchh : Bool)
    (state : MerkleState α) : Prop where
  low : (count + 1) % 2 ^ level = 0
  count_eq : state.count = count + 1
  inner_holds : InnerHolds hash leaves count state.inner
  h_eq : h = blockRoot hash leaves level (count + 1 - 2 ^ level)
  mutated_iff : state.mutated = true ↔
    PairWithin hash leaves count ∨ ∃ below < level, PairAt hash leaves below (count + 1)
  matched : withBranch = true → matchh = true →
    count + 1 - 2 ^ level ≤ position ∧ position < count + 1 ∧
      state.branch = blockPath hash leaves level (count + 1 - 2 ^ level) position
  unmatched : withBranch = true → matchh = false →
    ¬(count + 1 - 2 ^ level ≤ position ∧ position < count + 1) ∧
      BranchHolds hash leaves position count state.matchlevel state.branch

/-- The pairs within one more leaf: those before it, and those that end at it. -/
theorem pairWithin_succ (leaves : List α) (count : Nat) :
    PairWithin hash leaves (count + 1) ↔
      PairWithin hash leaves count ∨ ∃ level, 2 ^ (level + 1) ∣ count + 1 ∧ PairAt hash leaves level (count + 1) := by
  constructor
  · rintro ⟨level, start, hdvd, hle, hequal⟩
    have hpow : 2 ^ (level + 1) = 2 * 2 ^ level := pow_succ' 2 level
    by_cases hbefore : start + 2 ^ (level + 1) ≤ count
    · exact Or.inl ⟨level, start, hdvd, hbefore, hequal⟩
    · have hstop : start + 2 ^ (level + 1) = count + 1 := by omega
      refine Or.inr ⟨level, hstop ▸ Nat.dvd_add hdvd (dvd_refl _), ?_⟩
      rw [PairAt, show count + 1 - 2 ^ (level + 1) = start by omega,
        show count + 1 - 2 ^ level = start + 2 ^ level by omega]
      exact hequal
  · rintro (⟨level, start, hdvd, hle, hequal⟩ | ⟨level, hdvd, hpair⟩)
    · exact ⟨level, start, hdvd, by omega, hequal⟩
    · have hle := Nat.le_of_dvd (Nat.succ_pos count) hdvd
      have hpow : 2 ^ (level + 1) = 2 * 2 ^ level := pow_succ' 2 level
      refine ⟨level, count + 1 - 2 ^ (level + 1), Nat.dvd_sub hdvd (dvd_refl _), by omega, ?_⟩
      rw [show count + 1 - 2 ^ (level + 1) + 2 ^ level = count + 1 - 2 ^ level by omega]
      exact hpair

end Invariants

/-! ## The main loop -/

section MainLoop

variable {α : Type} [DecidableEq α] [Inhabited α] (hash : α → α → α)
variable {withBranch : Bool} {leaves : List α} {position count : Nat}

omit [Inhabited α] in
theorem combineLevels_succ_of_testBit {fuel level : Nat} {h : α} {matchh : Bool} {state : MerkleState α}
    (hbit : state.count.testBit level = true) :
    combineLevels hash withBranch (fuel + 1) level h matchh state =
      some { state with
        inner := Function.update state.inner level h
        matchlevel := if matchh then some level else state.matchlevel } := by
  rw [combineLevels, if_pos hbit]

omit [Inhabited α] in
theorem combineLevels_succ_of_not_testBit {fuel level : Nat} {h : α} {matchh : Bool} {state : MerkleState α}
    (hbit : state.count.testBit level = false) :
    combineLevels hash withBranch (fuel + 1) level h matchh state =
      combineLevels hash withBranch fuel (level + 1) (hash (state.inner level) h)
        (branchStep withBranch matchh state.matchlevel level (state.inner level) h state.branch).2
        { state with
          mutated := state.mutated || decide (state.inner level = h)
          branch := (branchStep withBranch matchh state.matchlevel level (state.inner level) h state.branch).1 } := by
  rw [combineLevels, if_neg (by rw [hbit]; decide)]

omit [DecidableEq α] in
theorem mainInvariant_zero :
    MainInvariant hash withBranch leaves position 0 ⟨0, fun _ => default, false, none, []⟩ where
  count_eq := rfl
  inner_holds := fun level hbit => by rw [Nat.zero_testBit] at hbit; contradiction
  mutated_iff := by
    simp only [Bool.false_eq_true, false_iff]
    rintro ⟨level, start, _, hle, _⟩
    have := Nat.two_pow_pos (level + 1)
    omega
  branch_holds := fun _ => ⟨fun _ => ⟨rfl, rfl⟩, fun hlt => absurd hlt (Nat.not_lt_zero _)⟩

omit [DecidableEq α] in
/-- The leaf at index `count` enters the level loop as the tree over itself. -/
theorem levelInvariant_start {state : MerkleState α} (hmain : MainInvariant hash withBranch leaves position count state) :
    LevelInvariant hash withBranch leaves position count 0 (leaves.getD count default) (decide (count = position))
      { state with count := count + 1 } where
  low := Nat.mod_one _
  count_eq := rfl
  inner_holds := hmain.inner_holds
  h_eq := by rw [pow_zero, Nat.add_sub_cancel, blockRoot_zero]
  mutated_iff := by simp [hmain.mutated_iff]
  matched := by
    intro hwith hmatch
    have hposition : count = position := of_decide_eq_true hmatch
    refine ⟨by omega, by omega, ?_⟩
    rw [((hmain.branch_holds hwith).1 (by omega)).2]
    rfl
  unmatched := by
    intro hwith hmatch
    have hposition : count ≠ position := of_decide_eq_false hmatch
    exact ⟨by omega, hmain.branch_holds hwith⟩

/-- A carry step: `h` joins `inner[level]`, its left sibling, one level up. -/
theorem levelInvariant_carry {level : Nat} {h : α} {matchh : Bool} {state : MerkleState α}
    (hinv : LevelInvariant hash withBranch leaves position count level h matchh state)
    (hcount : count < leaves.length) (hbit : (count + 1).testBit level = false) :
    LevelInvariant hash withBranch leaves position count (level + 1) (hash (state.inner level) h)
      (branchStep withBranch matchh state.matchlevel level (state.inner level) h state.branch).2
      { state with
        mutated := state.mutated || decide (state.inner level = h)
        branch := (branchStep withBranch matchh state.matchlevel level (state.inner level) h state.branch).1 } := by
  obtain ⟨hold, hfull, hnext⟩ := counter_carry hinv.low hbit
  have hpow : 2 ^ (level + 1) = 2 * 2 ^ level := pow_succ' 2 level
  have hmodle := Nat.mod_le count (2 ^ (level + 1))
  -- the block of `inner[level]` starts where the merged block of `level + 1` does
  have hstart : count - count % 2 ^ (level + 1) = count + 1 - 2 ^ (level + 1) := by omega
  have hleft : state.inner level = blockRoot hash leaves level (count + 1 - 2 ^ (level + 1)) := by
    rw [hinv.inner_holds level hold, hstart]
  have hmid : count + 1 - 2 ^ (level + 1) + 2 ^ level = count + 1 - 2 ^ level := by omega
  have hmerge : count + 1 - 2 ^ (level + 1) + 2 ^ level < leaves.length := by omega
  refine ⟨hnext, hinv.count_eq, hinv.inner_holds, ?_, ?_, ?_, ?_⟩
  · rw [hleft, hinv.h_eq, blockRoot_merge hash leaves hmerge, hmid]
  · have hhere : state.inner level = h ↔ PairAt hash leaves level (count + 1) := by
      rw [hleft, hinv.h_eq]
      rfl
    simp only [Bool.or_eq_true, decide_eq_true_eq, hinv.mutated_iff, hhere]
    constructor
    · rintro ((hbefore | ⟨below, hlt, hpair⟩) | hpair)
      · exact Or.inl hbefore
      · exact Or.inr ⟨below, by omega, hpair⟩
      · exact Or.inr ⟨level, by omega, hpair⟩
    · rintro (hbefore | ⟨below, hlt, hpair⟩)
      · exact Or.inl (Or.inl hbefore)
      · rcases Nat.lt_succ_iff_lt_or_eq.mp hlt with hlt | rfl
        · exact Or.inl (Or.inr ⟨below, hlt, hpair⟩)
        · exact Or.inr hpair
  · intro hwith hmatch
    subst hwith
    cases matchh
    · by_cases hlevel : state.matchlevel = some level
      · -- leaf `position` is in `inner[level]`, the left sibling: `h` is pushed
        have hbranch := (hinv.unmatched rfl rfl).2
        have hbefore : position < count := by
          by_contra hge
          rw [(hbranch.1 (by omega)).1] at hlevel
          contradiction
        obtain ⟨m, hm, -, hlo, hhi, hpath⟩ := hbranch.2 hbefore
        rw [hlevel, Option.some.injEq] at hm
        subst hm
        simp only [branchStep, if_true, Bool.false_eq_true, if_false, if_pos hlevel]
        rw [hstart] at hlo hhi hpath
        refine ⟨hlo, by omega, ?_⟩
        rw [hpath, blockPath_merge_left hash leaves hmerge hhi, hinv.h_eq, hmid]
      · simp [branchStep, hlevel] at hmatch
    · -- `h` holds leaf `position`: its left sibling is pushed
      obtain ⟨hlo, hhi, hpath⟩ := hinv.matched rfl rfl
      simp only [branchStep, if_true]
      refine ⟨by omega, hhi, ?_⟩
      rw [hpath, blockPath_merge_right hash leaves hmerge (by omega), hmid, hleft]
  · intro hwith hmatch
    subst hwith
    cases matchh
    · by_cases hlevel : state.matchlevel = some level
      · simp [branchStep, hlevel] at hmatch
      · obtain ⟨hout, hbranch⟩ := hinv.unmatched rfl rfl
        simp only [branchStep, if_true, Bool.false_eq_true, if_false, if_neg hlevel]
        refine ⟨?_, hbranch⟩
        rintro ⟨hlo, hhi⟩
        by_cases hbefore : position < count
        · -- the block of leaf `position` is another set bit of `count`: not next to `h`
          obtain ⟨m, hm, hmbit, hmlo, hmhi, -⟩ := hbranch.2 hbefore
          have hne : m ≠ level := fun heq => hlevel (heq ▸ hm)
          rcases Nat.lt_or_gt_of_ne hne with hlt | hgt
          · have hround := round_le_round (x := count) (show m + 1 ≤ level by omega)
            have hlowBits := mod_add_one_of_succ_mod_eq_zero hinv.low
            exact hout ⟨by omega, by omega⟩
          · have := round_add_le_round_of_testBit hmbit hgt
            omega
        · exact hout ⟨by omega, by omega⟩
    · simp [branchStep] at hmatch

omit [DecidableEq α] in
/-- The carry stops on `level`: `h` is stored there, and `count + 1` leaves are read. -/
theorem mainInvariant_store {level : Nat} {h : α} {matchh : Bool} {state : MerkleState α}
    (hinv : LevelInvariant hash withBranch leaves position count level h matchh state)
    (hbit : (count + 1).testBit level = true) :
    MainInvariant hash withBranch leaves position (count + 1)
      { state with
        inner := Function.update state.inner level h
        matchlevel := if matchh then some level else state.matchlevel } := by
  obtain ⟨hstop, habove⟩ := counter_stop hinv.low hbit
  refine ⟨hinv.count_eq, ?_, ?_, ?_⟩
  · intro other hother
    dsimp only
    rcases lt_trichotomy other level with hlt | rfl | hgt
    · rw [testBit_of_mod_eq_zero hinv.low hlt] at hother
      contradiction
    · rw [Function.update_self, hinv.h_eq, hstop]
    · obtain ⟨hsame, hround⟩ := habove other hgt
      have := Nat.mod_le count (2 ^ (other + 1))
      rw [Function.update_of_ne (Nat.ne_of_gt hgt), hinv.inner_holds other (hsame ▸ hother), hround]
      congr 1
      omega
  · rw [hinv.mutated_iff, pairWithin_succ]
    simp only [two_pow_succ_dvd_iff_lt hinv.low hbit]
  · intro hwith
    refine ⟨fun hafter => ?_, fun hbefore => ?_⟩
    · cases matchh
      · have hbranch := (hinv.unmatched hwith rfl).2
        exact hbranch.1 (by omega)
      · have := (hinv.matched hwith rfl).2.1
        omega
    · cases matchh
      · -- leaf `position` stays in the block of a higher bit
        obtain ⟨hout, hbranch⟩ := hinv.unmatched hwith rfl
        have hpos := Nat.two_pow_pos level
        obtain ⟨m, hm, hmbit, hmlo, hmhi, hpath⟩ := hbranch.2 (by omega)
        have hlowBits := mod_add_one_of_succ_mod_eq_zero hinv.low
        rcases lt_trichotomy m level with hlt | rfl | hgt
        · have hround := round_le_round (x := count) (show m + 1 ≤ level by omega)
          exact absurd ⟨by omega, hbefore⟩ hout
        · rw [counter_stop_old hinv.low hbit] at hmbit
          contradiction
        · obtain ⟨hsame, hround⟩ := habove m hgt
          have := Nat.mod_le count (2 ^ (m + 1))
          refine ⟨m, hm, hsame ▸ hmbit, ?_⟩
          rw [hround, show count + 1 - (count % 2 ^ (m + 1) + 1) = count - count % 2 ^ (m + 1) by omega]
          exact ⟨hmlo, hmhi, hpath⟩
      · obtain ⟨hlo, hhi, hpath⟩ := hinv.matched hwith rfl
        exact ⟨level, rfl, hbit, by rw [hstop]; exact hlo, by rw [hstop]; omega, by rw [hstop]; exact hpath⟩

/-- The level loop, from any level it reaches, ends with `count + 1` leaves read. -/
theorem combineLevels_spec (hcount : count < leaves.length) (hbound : count + 1 < 2 ^ 32) (fuel : Nat) :
    ∀ (level : Nat) (h : α) (matchh : Bool) (state : MerkleState α), level + fuel = 32 →
      LevelInvariant hash withBranch leaves position count level h matchh state →
      ∃ state', combineLevels hash withBranch fuel level h matchh state = some state' ∧
        MainInvariant hash withBranch leaves position (count + 1) state' := by
  induction fuel with
  | zero =>
    -- the loop reached bit 32: `count + 1` would be a multiple of `2 ^ 32`
    intro level h matchh state hfuel hinv
    have hlow := hinv.low
    rw [show level = 32 by omega, Nat.mod_eq_of_lt hbound] at hlow
    omega
  | succ fuel ih =>
    intro level h matchh state hfuel hinv
    cases hbit : (count + 1).testBit level
    · rw [combineLevels_succ_of_not_testBit hash (by rw [hinv.count_eq, hbit])]
      exact ih (level + 1) _ _ _ (by omega) (levelInvariant_carry hash hinv hcount hbit)
    · rw [combineLevels_succ_of_testBit hash (by rw [hinv.count_eq, hbit])]
      exact ⟨_, rfl, mainInvariant_store hash hinv hbit⟩

/-- The main loop reads every leaf left, one level loop each. -/
theorem processLeaves_spec (hbound : leaves.length < 2 ^ 32) (rest : List α) :
    ∀ (count : Nat) (state : MerkleState α), leaves.drop count = rest → count ≤ leaves.length →
      MainInvariant hash withBranch leaves position count state →
      ∃ state', processLeaves hash withBranch position rest state = some state' ∧
        MainInvariant hash withBranch leaves position leaves.length state' := by
  induction rest with
  | nil =>
    intro count state hrest hcount hmain
    have hall : count = leaves.length := by
      have := List.drop_eq_nil_iff.mp hrest
      omega
    exact ⟨state, rfl, hall ▸ hmain⟩
  | cons leaf rest ih =>
    intro count state hrest hcount hmain
    have hlt : count < leaves.length := by
      by_contra hge
      rw [List.drop_eq_nil_of_le (by omega)] at hrest
      contradiction
    have hleaf : leaves.getD count default = leaf := by
      rw [List.getD_eq_getElem?_getD, ← List.head?_drop, hrest]
      rfl
    have hnext : leaves.drop (count + 1) = rest := by
      rw [← List.tail_drop, hrest]
      rfl
    have hwrap : (state.count + 1) % 2 ^ 32 = count + 1 := by
      rw [hmain.count_eq]
      exact Nat.mod_eq_of_lt (by omega)
    have hstart : LevelInvariant hash withBranch leaves position count 0 leaf (decide (state.count = position))
        { state with count := (state.count + 1) % 2 ^ 32 } := by
      rw [hwrap, hmain.count_eq, ← hleaf]
      exact levelInvariant_start hash hmain
    obtain ⟨state', hcombine, hmain'⟩ := combineLevels_spec hash hlt (by omega) 32 0 _ _ _ rfl hstart
    obtain ⟨state'', hrun, hmain''⟩ := ih (count + 1) state' hnext hlt hmain'
    exact ⟨state'', by rw [processLeaves, hcombine, Option.bind_some, hrun], hmain''⟩

end MainLoop

/-! ## The sweep -/

section Sweep

variable {α : Type} [DecidableEq α] [Inhabited α] (hash : α → α → α)
variable {withBranch : Bool} {leaves : List α} {position : Nat} {inner : Nat → α} {matchlevel : Option Nat}

omit [DecidableEq α] [Inhabited α] in
theorem sweepCombine_succ_of_testBit {fuel : Nat} {s : Sweep α} (hbit : s.count.testBit s.level = true) :
    sweepCombine hash withBranch inner matchlevel (fuel + 1) s = some s := by
  rw [sweepCombine, if_pos hbit]

omit [DecidableEq α] [Inhabited α] in
theorem sweepCombine_succ_of_not_testBit {fuel : Nat} {s : Sweep α} (hbit : s.count.testBit s.level = false) :
    sweepCombine hash withBranch inner matchlevel (fuel + 1) s =
      sweepCombine hash withBranch inner matchlevel fuel
        { s with
          level := s.level + 1
          h := hash (inner s.level) s.h
          matchh := (branchStep withBranch s.matchh matchlevel s.level (inner s.level) s.h s.branch).2
          branch := (branchStep withBranch s.matchh matchlevel s.level (inner s.level) s.h s.branch).1 } := by
  rw [sweepCombine, if_neg (by rw [hbit]; decide)]

omit [DecidableEq α] [Inhabited α] in
theorem sweepUp_succ_of_eq {fuel : Nat} {s : Sweep α} (hlevel : s.level < 32) (htop : s.count = 2 ^ s.level) :
    sweepUp hash withBranch inner matchlevel (fuel + 1) s = some (s.h, s.branch) := by
  rw [sweepUp, if_neg (by omega), if_pos htop]

omit [DecidableEq α] [Inhabited α] in
theorem sweepUp_succ_of_ne {fuel : Nat} {s : Sweep α} (hlevel : s.level < 32) (htop : s.count ≠ 2 ^ s.level) :
    sweepUp hash withBranch inner matchlevel (fuel + 1) s =
      (sweepCombine hash withBranch inner matchlevel (32 - (s.level + 1))
        { count := (s.count + 2 ^ s.level) % 2 ^ 32
          level := s.level + 1
          h := hash s.h s.h
          matchh := s.matchh
          branch := if withBranch && s.matchh then s.branch ++ [s.h] else s.branch }).bind
        (sweepUp hash withBranch inner matchlevel fuel) := by
  rw [sweepUp, if_neg (by omega), if_neg htop]

omit [DecidableEq α] in
/-- Leaf `position` during the sweep: when `matchh`, `h` is the tree that holds it and the
branch is its path there; otherwise it is in the block of a set bit `m ≥ lowest` of the leaf
count, and the branch is its path in that block. -/
def SweepMatch (leaves : List α) (position : Nat) (matchlevel : Option Nat) (lowest : Nat) (s : Sweep α) : Prop :=
  (s.matchh = true → s.count - 2 ^ s.level ≤ position ∧
    s.branch = blockPath hash leaves s.level (s.count - 2 ^ s.level) position) ∧
  (s.matchh = false → ∃ m, matchlevel = some m ∧ lowest ≤ m ∧ leaves.length.testBit m = true ∧
    leaves.length - leaves.length % 2 ^ (m + 1) ≤ position ∧
    position < leaves.length - leaves.length % 2 ^ (m + 1) + 2 ^ m ∧
    s.branch = blockPath hash leaves m (leaves.length - leaves.length % 2 ^ (m + 1)) position)

omit [DecidableEq α] in
/-- At the head of the sweep's inner loop on `level`: `count` is the leaf count rounded down
to `2 ^ level` plus one more block, and `h` is the tree over that last, partial block. -/
structure MergeHead (withBranch : Bool) (leaves : List α) (position : Nat) (matchlevel : Option Nat)
    (s : Sweep α) : Prop where
  count_eq : s.count = leaves.length - leaves.length % 2 ^ s.level + 2 ^ s.level
  rest_pos : 0 < leaves.length % 2 ^ s.level
  final : s.count = 2 ^ s.level → 2 ^ s.level < 2 * leaves.length
  h_eq : s.h = blockRoot hash leaves s.level (s.count - 2 ^ s.level)
  level_lt : s.level < 32
  branch_match : withBranch = true → SweepMatch hash leaves position matchlevel s.level s

omit [DecidableEq α] in
/-- At the head of the sweep's outer loop on `level`: bit `level` of `count` is its lowest set
bit, and `h` is the tree over the last block, which holds the last leaf. -/
structure OuterHead (withBranch : Bool) (leaves : List α) (position : Nat) (matchlevel : Option Nat)
    (s : Sweep α) : Prop where
  count_eq : s.count = leaves.length - leaves.length % 2 ^ (s.level + 1) + 2 ^ s.level
  rest_pos : 0 < leaves.length % 2 ^ (s.level + 1)
  rest_le : leaves.length % 2 ^ (s.level + 1) ≤ 2 ^ s.level
  final : s.count = 2 ^ s.level → 2 ^ s.level < 2 * leaves.length
  h_eq : s.h = blockRoot hash leaves s.level (s.count - 2 ^ s.level)
  level_lt : s.level < 32
  branch_match : withBranch = true → SweepMatch hash leaves position matchlevel (s.level + 1) s

omit [DecidableEq α] in
/-- A clear bit of `count` in the inner loop is a set bit of the leaf count: `h` joins
`inner[level]`, its left sibling. -/
theorem mergeHead_merge (hinner : InnerHolds hash leaves leaves.length inner) (hlength : leaves.length ≤ 2 ^ 31)
    {s : Sweep α} (hhead : MergeHead hash withBranch leaves position matchlevel s)
    (hbit : s.count.testBit s.level = false) :
    MergeHead hash withBranch leaves position matchlevel
      { s with
        level := s.level + 1
        h := hash (inner s.level) s.h
        matchh := (branchStep withBranch s.matchh matchlevel s.level (inner s.level) s.h s.branch).2
        branch := (branchStep withBranch s.matchh matchlevel s.level (inner s.level) s.h s.branch).1 } := by
  have hleafBit : leaves.length.testBit s.level = true := by
    have hflip := testBit_round_add leaves.length s.level
    rw [← hhead.count_eq, hbit] at hflip
    simpa using hflip
  have hsplit := mod_two_pow_succ_of_testBit hleafBit
  have hmodle := Nat.mod_le leaves.length (2 ^ (s.level + 1))
  have hpow : 2 ^ (s.level + 1) = 2 * 2 ^ s.level := pow_succ' 2 s.level
  have hcount := hhead.count_eq
  have hpos := hhead.rest_pos
  have hstart : s.count - 2 ^ (s.level + 1) = leaves.length - leaves.length % 2 ^ (s.level + 1) := by omega
  have hleft : inner s.level = blockRoot hash leaves s.level (s.count - 2 ^ (s.level + 1)) := by
    rw [hinner s.level hleafBit, hstart]
  have hmid : s.count - 2 ^ (s.level + 1) + 2 ^ s.level = s.count - 2 ^ s.level := by omega
  have hmerge : s.count - 2 ^ (s.level + 1) + 2 ^ s.level < leaves.length := by omega
  have hlevel : s.level < 31 := by
    by_contra hge
    have := Nat.pow_le_pow_right (show 0 < 2 by norm_num) (show 31 ≤ s.level by omega)
    omega
  refine ⟨by dsimp only; omega, by dsimp only; omega, fun _ => by dsimp only; omega, ?_, by dsimp only; omega, ?_⟩
  · dsimp only
    rw [hleft, hhead.h_eq, blockRoot_merge hash leaves hmerge, hmid]
  · intro hwith
    subst hwith
    obtain ⟨hmatched, hunmatched⟩ := hhead.branch_match rfl
    dsimp only
    cases hmatch : s.matchh
    · by_cases hlevelMatch : matchlevel = some s.level
      · -- leaf `position` is in `inner[level]`: `h` is pushed and matches from now on
        obtain ⟨m, hm, -, -, hlo, hhi, hpath⟩ := hunmatched hmatch
        rw [hlevelMatch, Option.some.injEq] at hm
        rw [← hm] at hlo hhi hpath
        simp only [SweepMatch, branchStep, if_true, Bool.false_eq_true, if_false, if_pos hlevelMatch]
        refine ⟨fun _ => ⟨by omega, ?_⟩, fun hfalse => absurd hfalse (by decide)⟩
        rw [hpath, ← hstart, blockPath_merge_left hash leaves hmerge (by omega), hhead.h_eq, hmid]
      · obtain ⟨m, hm, hle, hmbit, hrest⟩ := hunmatched hmatch
        have hne : m ≠ s.level := fun heq => hlevelMatch (heq ▸ hm)
        simp only [SweepMatch, branchStep, if_true, Bool.false_eq_true, if_false, if_neg hlevelMatch]
        exact ⟨fun hfalse => absurd hfalse (by decide), fun _ => ⟨m, hm, by omega, hmbit, hrest⟩⟩
    · -- `h` holds leaf `position`: its left sibling `inner[level]` is pushed
      obtain ⟨hlo, hpath⟩ := hmatched hmatch
      simp only [SweepMatch, branchStep, if_true]
      refine ⟨fun _ => ⟨by omega, ?_⟩, fun hfalse => absurd hfalse (by decide)⟩
      rw [hpath, blockPath_merge_right hash leaves hmerge (by omega), hmid, hleft]

omit [DecidableEq α] in
/-- A set bit of `count` in the inner loop is a clear bit of the leaf count: the inner loop
stops, at the head of the outer one. -/
theorem outerHead_of_stop {s : Sweep α} (hhead : MergeHead hash withBranch leaves position matchlevel s)
    (hbit : s.count.testBit s.level = true) : OuterHead hash withBranch leaves position matchlevel s := by
  have hleafBit : leaves.length.testBit s.level = false := by
    have hflip := testBit_round_add leaves.length s.level
    rw [← hhead.count_eq, hbit] at hflip
    simpa using hflip
  have hsplit := mod_two_pow_succ_of_not_testBit hleafBit
  have hlt := mod_two_pow_lt leaves.length s.level
  refine ⟨by rw [hsplit]; exact hhead.count_eq, by rw [hsplit]; exact hhead.rest_pos, by omega, hhead.final,
    hhead.h_eq, hhead.level_lt, fun hwith => ?_⟩
  obtain ⟨hmatched, hunmatched⟩ := hhead.branch_match hwith
  refine ⟨hmatched, fun hmatch => ?_⟩
  obtain ⟨m, hm, hle, hmbit, hrest⟩ := hunmatched hmatch
  have hne : m ≠ s.level := fun heq => by rw [heq, hleafBit] at hmbit; contradiction
  exact ⟨m, hm, by omega, hmbit, hrest⟩

omit [DecidableEq α] in
/-- The outer loop goes on: `h` is paired with itself, and `count` counts the missing right
half, which does not wrap below `2 ^ 31` leaves. -/
theorem mergeHead_of_dup (hlength : leaves.length ≤ 2 ^ 31) {s : Sweep α}
    (hhead : OuterHead hash withBranch leaves position matchlevel s) (htop : s.count ≠ 2 ^ s.level) :
    MergeHead hash withBranch leaves position matchlevel
      { count := (s.count + 2 ^ s.level) % 2 ^ 32
        level := s.level + 1
        h := hash s.h s.h
        matchh := s.matchh
        branch := if withBranch && s.matchh then s.branch ++ [s.h] else s.branch } := by
  have hcount := hhead.count_eq
  have hpos := hhead.rest_pos
  have hle := hhead.rest_le
  have hpow : 2 ^ (s.level + 1) = 2 * 2 ^ s.level := pow_succ' 2 s.level
  have hround := @two_pow_le_round leaves.length (s.level + 1) (by omega)
  have hmodle := Nat.mod_le leaves.length (2 ^ (s.level + 1))
  have hlevel : s.level + 1 ≤ 31 := by
    by_contra hge
    have := Nat.pow_le_pow_right (show 0 < 2 by norm_num) (show 32 ≤ s.level + 1 by omega)
    omega
  have hsmall : 2 ^ (s.level + 1) ≤ 2 ^ 31 := Nat.pow_le_pow_right (by norm_num) hlevel
  have hwrap : (s.count + 2 ^ s.level) % 2 ^ 32 = s.count + 2 ^ s.level := Nat.mod_eq_of_lt (by omega)
  have hdup : leaves.length ≤ s.count - 2 ^ s.level + 2 ^ s.level := by omega
  refine ⟨by dsimp only; omega, hpos, fun hfinal => by dsimp only at hfinal; omega, ?_, by dsimp only; omega, ?_⟩
  · dsimp only
    rw [hwrap, show s.count + 2 ^ s.level - 2 ^ (s.level + 1) = s.count - 2 ^ s.level by omega,
      blockRoot_dup hash leaves hdup, hhead.h_eq]
  · intro hwith
    subst hwith
    obtain ⟨hmatched, hunmatched⟩ := hhead.branch_match rfl
    rw [hwrap]
    cases hmatch : s.matchh
    · simp only [SweepMatch, Bool.and_false, Bool.false_eq_true, if_false]
      exact ⟨fun hfalse => absurd hfalse (by decide), fun _ => hunmatched hmatch⟩
    · -- `h` holds leaf `position`: it is pushed as its own sibling
      obtain ⟨hlo, hpath⟩ := hmatched hmatch
      simp only [SweepMatch, Bool.and_self, if_true]
      rw [show s.count + 2 ^ s.level - 2 ^ (s.level + 1) = s.count - 2 ^ s.level by omega]
      refine ⟨fun _ => ⟨hlo, ?_⟩, fun hfalse => absurd hfalse (by decide)⟩
      rw [hpath, blockPath_dup hash leaves position hdup, hhead.h_eq]

omit [DecidableEq α] in
/-- The sweep's inner loop ends at the head of the outer one, on a higher level. -/
theorem sweepCombine_spec (hinner : InnerHolds hash leaves leaves.length inner) (hlength : leaves.length ≤ 2 ^ 31)
    (fuel : Nat) :
    ∀ s : Sweep α, s.level + fuel = 32 → MergeHead hash withBranch leaves position matchlevel s →
      ∃ s', sweepCombine hash withBranch inner matchlevel fuel s = some s' ∧
        OuterHead hash withBranch leaves position matchlevel s' ∧ s.level ≤ s'.level := by
  induction fuel with
  | zero =>
    intro s hfuel hhead
    have := hhead.level_lt
    omega
  | succ fuel ih =>
    intro s hfuel hhead
    cases hbit : s.count.testBit s.level
    · rw [sweepCombine_succ_of_not_testBit hash hbit]
      obtain ⟨s', hrun, hhead', hle⟩ :=
        ih _ (by dsimp only; omega) (mergeHead_merge hash hinner hlength hhead hbit)
      exact ⟨s', hrun, hhead', by dsimp only at hle; omega⟩
    · rw [sweepCombine_succ_of_testBit hash hbit]
      exact ⟨s, rfl, outerHead_of_stop hash hhead hbit, le_refl _⟩

/-- The sweep's outer loop ends with the level-by-level root and branch. -/
theorem sweepUp_spec (hinner : InnerHolds hash leaves leaves.length inner) (hlength : leaves.length ≤ 2 ^ 31)
    (hposition : withBranch = true → position < leaves.length) (fuel : Nat) :
    ∀ s : Sweep α, 32 ≤ s.level + fuel → OuterHead hash withBranch leaves position matchlevel s →
      ∃ branch, sweepUp hash withBranch inner matchlevel fuel s = some (levelRoot hash leaves, branch) ∧
        (withBranch = true → branch = levelBranch hash leaves position) := by
  induction fuel with
  | zero =>
    intro s hfuel hhead
    have := hhead.level_lt
    omega
  | succ fuel ih =>
    intro s hfuel hhead
    by_cases htop : s.count = 2 ^ s.level
    · -- the top: every leaf is under `h`, a tree of the least height that holds them
      have hcount := hhead.count_eq
      have hpos := hhead.rest_pos
      have hle := hhead.rest_le
      have hmodle := Nat.mod_le leaves.length (2 ^ (s.level + 1))
      have hfits : leaves.length ≤ 2 ^ s.level := by omega
      have hhalf := hhead.final htop
      have hblock := block_zero_of_le leaves hfits
      refine ⟨s.branch, ?_, ?_⟩
      · rw [sweepUp_succ_of_eq hash hhead.level_lt htop, hhead.h_eq, htop, Nat.sub_self, blockRoot, hblock,
          levelRoot_eq_treeRoot hash s.level leaves (by omega) hfits hhalf]
      · intro hwith
        obtain ⟨hmatched, hunmatched⟩ := hhead.branch_match hwith
        cases hmatch : s.matchh
        · obtain ⟨m, -, hm, hmbit, -⟩ := hunmatched hmatch
          have hbig := Nat.ge_two_pow_of_testBit hmbit
          have := Nat.pow_le_pow_right (show 0 < 2 by norm_num) hm
          rw [pow_succ] at this
          omega
        · rw [(hmatched hmatch).2, htop, Nat.sub_self, blockPath, hblock, Nat.sub_zero,
            levelBranch_eq_treePath hash s.level leaves position hfits hhalf (hposition hwith)]
    · rw [sweepUp_succ_of_ne hash hhead.level_lt htop]
      obtain ⟨s', hrun, hhead', hle⟩ :=
        sweepCombine_spec hash hinner hlength (32 - (s.level + 1)) _
          (by have := hhead.level_lt; dsimp only; omega) (mergeHead_of_dup hash hlength hhead htop)
      rw [hrun, Option.bind_some]
      exact ih s' (by dsimp only at hle; omega) hhead'

end Sweep

/-- One round of `ComputeMerkleRootFromBranch`: hash with the sibling on the side that bit `0`
of `nIndex` gives, then `nIndex >>= 1`. -/
def hashWithSibling {α : Type} (hash : α → α → α) (acc : α × Nat) (sibling : α) : α × Nat :=
  (if acc.2 % 2 = 1 then hash sibling acc.1 else hash acc.1 sibling, acc.2 / 2)

/-- `ComputeMerkleRootFromBranch`: hash the leaf up the branch. -/
def computeMerkleRootFromBranch {α : Type} (hash : α → α → α) (leaf : α) (vMerkleBranch : List α)
    (nIndex : Nat) : α :=
  (vMerkleBranch.foldl (hashWithSibling hash) (leaf, nIndex)).1

/-! ## The whole computation -/

section Computation

variable {α : Type} [DecidableEq α] [Inhabited α] (hash : α → α → α)

/-- `while (!(count & (1 << level))) level++` finds the lowest set bit of a count below `2 ^ 32`. -/
theorem lowestSetBit_spec {count : Nat} (hpos : 0 < count) (hbound : count < 2 ^ 32) (fuel : Nat) :
    ∀ level, level + fuel = 32 → count % 2 ^ level = 0 →
      ∃ lowest, lowestSetBit count fuel level = some lowest ∧ count % 2 ^ lowest = 0 ∧
        count.testBit lowest = true ∧ lowest < 32 := by
  induction fuel with
  | zero =>
    intro level hfuel hlow
    rw [show level = 32 by omega, Nat.mod_eq_of_lt hbound] at hlow
    omega
  | succ fuel ih =>
    intro level hfuel hlow
    cases hbit : count.testBit level
    · rw [lowestSetBit, if_neg (by rw [hbit]; decide)]
      exact ih (level + 1) (by omega) (by rw [mod_two_pow_succ_of_not_testBit hbit, hlow])
    · rw [lowestSetBit, if_pos hbit]
      exact ⟨level, rfl, hlow, hbit, by omega⟩

omit [DecidableEq α] in
/-- The sweep starts on the lowest set bit of the leaf count, where `inner` holds the last block. -/
theorem outerHead_start {withBranch : Bool} {leaves : List α} {position lowest : Nat} {state : MerkleState α}
    (hmain : MainInvariant hash withBranch leaves position leaves.length state)
    (hposition : withBranch = true → position < leaves.length)
    (hlow : leaves.length % 2 ^ lowest = 0) (hbit : leaves.length.testBit lowest = true) (hlowest : lowest < 32) :
    OuterHead hash withBranch leaves position state.matchlevel
      ⟨state.count, lowest, state.inner lowest, decide (state.matchlevel = some lowest), state.branch⟩ := by
  have hsplit := mod_two_pow_succ_of_testBit hbit
  rw [hlow, zero_add] at hsplit
  have hmodle := Nat.mod_le leaves.length (2 ^ (lowest + 1))
  have hcount := hmain.count_eq
  refine ⟨by dsimp only; omega, by rw [hsplit]; exact Nat.two_pow_pos lowest, by rw [hsplit],
    fun htop => by dsimp only at htop ⊢; omega, ?_, hlowest, fun hwith => ?_⟩
  · dsimp only
    rw [hmain.inner_holds lowest hbit, hsplit, hcount]
  · obtain ⟨m, hm, hmbit, hlo, hhi, hpath⟩ := (hmain.branch_holds hwith).2 (hposition hwith)
    unfold SweepMatch
    dsimp only
    by_cases hsame : m = lowest
    · subst hsame
      refine ⟨fun _ => ?_, fun hfalse => by simp [hm] at hfalse⟩
      rw [hcount, ← hsplit]
      exact ⟨hlo, hpath⟩
    · -- the bits below the lowest one are clear, so the block of leaf `position` is higher
      have habove : lowest < m := by
        by_contra hle
        rw [testBit_of_mod_eq_zero hlow (show m < lowest by omega)] at hmbit
        contradiction
      refine ⟨fun htrue => by simp [hm, hsame] at htrue, fun _ => ⟨m, hm, habove, hmbit, hlo, hhi, hpath⟩⟩

/-- `MerkleComputation` over `1` to `2 ^ 31` leaves: the level-by-level root, `mutated` exactly
when two equal sibling subtrees were combined, and the level-by-level branch of leaf
`position` when one is collected. -/
theorem merkleComputation_spec (leaves : List α) (position : Nat) (withBranch : Bool) (hpos : 0 < leaves.length)
    (hlength : leaves.length ≤ 2 ^ 31) (hposition : withBranch = true → position < leaves.length) :
    ∃ mutated branch, merkleComputation hash leaves position withBranch = some (levelRoot hash leaves, mutated, branch) ∧
      (mutated = true ↔ HasEqualPair hash leaves) ∧ (withBranch = true → branch = levelBranch hash leaves position) := by
  have hbound : leaves.length < 2 ^ 32 := by omega
  have hzero : MainInvariant hash withBranch leaves position 0 _ := mainInvariant_zero hash
  obtain ⟨state, hrun, hmain⟩ := processLeaves_spec hash hbound leaves 0 _ List.drop_zero (Nat.zero_le _) hzero
  obtain ⟨lowest, hlowest, hlow, hbit, hlt⟩ :=
    lowestSetBit_spec hpos hbound 32 0 rfl (Nat.mod_one _)
  obtain ⟨branch, hsweep, hbranch⟩ := sweepUp_spec hash hmain.inner_holds hlength hposition 33 _ (by dsimp only; omega)
    (outerHead_start hash hmain hposition hlow hbit hlt)
  have hempty : leaves.isEmpty = false := List.isEmpty_eq_false_iff.mpr (List.ne_nil_of_length_pos hpos)
  refine ⟨state.mutated, branch, ?_, hmain.mutated_iff, hbranch⟩
  rw [merkleComputation, hempty, if_neg (by decide), hrun, Option.bind_some, hmain.count_eq, hlowest,
    Option.bind_some, ← hmain.count_eq, hsweep, Option.map_some]

/-- `ComputeMerkleRoot` over `1` to `2 ^ 31` leaves. -/
theorem computeMerkleRoot_spec {leaves : List α} (hpos : 0 < leaves.length) (hlength : leaves.length ≤ 2 ^ 31) :
    ∃ mutated, computeMerkleRoot hash leaves = some (levelRoot hash leaves, mutated) ∧
      (mutated = true ↔ HasEqualPair hash leaves) := by
  obtain ⟨mutated, branch, hrun, hmutated, -⟩ :=
    merkleComputation_spec hash leaves (2 ^ 32 - 1) false hpos hlength
      (fun hfalse => absurd hfalse Bool.false_ne_true)
  exact ⟨mutated, by rw [computeMerkleRoot, hrun, Option.map_some], hmutated⟩

/-- `ComputeMerkleBranch` of a leaf among at most `2 ^ 31`. -/
theorem computeMerkleBranch_spec {leaves : List α} {position : Nat} (hposition : position < leaves.length)
    (hlength : leaves.length ≤ 2 ^ 31) :
    computeMerkleBranch hash leaves position = some (levelBranch hash leaves position) := by
  obtain ⟨mutated, branch, hrun, -, hbranch⟩ :=
    merkleComputation_spec hash leaves position true (by omega) hlength (fun _ => hposition)
  rw [computeMerkleBranch, hrun, Option.map_some, hbranch rfl]

omit [DecidableEq α] in
/-- Hashing up the path of leaf `index` in the tree of height `k` reaches its root; `nIndex`
agrees with `index` on its low `k` bits, which choose the sides. -/
theorem foldl_hashWithSibling_treePath (k : Nat) :
    ∀ (leaves : List α) (index nIndex : Nat), leaves.length ≤ 2 ^ k → index < leaves.length →
      nIndex % 2 ^ k = index →
      (treePath hash k leaves index).foldl (hashWithSibling hash) (leaves.getD index default, nIndex) =
        (treeRoot hash k leaves, nIndex / 2 ^ k) := by
  induction k with
  | zero =>
    intro leaves index nIndex hle hindex _
    have hzero : index = 0 := by simp at hle; omega
    subst hzero
    rw [treePath, List.foldl_nil, treeRoot_zero, List.getD_eq_getElem?_getD, List.headD_eq_head?_getD,
      List.head?_eq_getElem?, pow_zero, Nat.div_one]
  | succ k ih =>
    intro leaves index nIndex hle hindex hlow
    have hpow : 2 ^ (k + 1) = 2 * 2 ^ k := pow_succ' 2 k
    have hhalf : nIndex / 2 ^ k / 2 = nIndex / 2 ^ (k + 1) := by rw [Nat.div_div_eq_div_mul, pow_succ]
    have hbitDiv := Nat.testBit_eq_decide_div_mod_eq (x := nIndex) (i := k)
    have hbitMod := testBit_eq_decide_le_mod nIndex k
    have hlowBits := mod_mod_two_pow (x := nIndex) (show k ≤ k + 1 by omega)
    rw [hlow] at hbitMod hlowBits
    by_cases hsmall : leaves.length ≤ 2 ^ k
    · -- the right half copies the left one: bit `k` of `nIndex` is clear
      have hclear : nIndex / 2 ^ k % 2 = 0 := by
        have : decide (nIndex / 2 ^ k % 2 = 1) = false := by rw [← hbitDiv, hbitMod]; simp; omega
        simp at this; omega
      rw [treePath_succ_of_le hash index hsmall, List.foldl_append,
        ih leaves index nIndex hsmall hindex (by rw [← hlowBits]; exact Nat.mod_eq_of_lt (by omega))]
      simp only [List.foldl_cons, List.foldl_nil, hashWithSibling, hclear, zero_ne_one, if_false, hhalf,
        treeRoot_succ_of_le hash hsmall]
    have hsplit : 2 ^ k < leaves.length := by omega
    have hfirst : (leaves.take (2 ^ k)).length = 2 ^ k := by rw [List.length_take]; omega
    have hsecond : (leaves.drop (2 ^ k)).length = leaves.length - 2 ^ k := List.length_drop
    by_cases hleft : index < 2 ^ k
    · -- the leaf is in the left half: bit `k` of `nIndex` is clear
      have hclear : nIndex / 2 ^ k % 2 = 0 := by
        have : decide (nIndex / 2 ^ k % 2 = 1) = false := by rw [← hbitDiv, hbitMod]; simp; omega
        simp at this; omega
      have hleaf : (leaves.take (2 ^ k)).getD index default = leaves.getD index default := by
        rw [List.getD_eq_getElem?_getD, List.getD_eq_getElem?_getD, List.getElem?_take, if_pos hleft]
      rw [treePath_succ_left hash hsplit hleft, List.foldl_append, ← hleaf,
        ih _ index nIndex (by omega) (by omega) (by rw [← hlowBits]; exact Nat.mod_eq_of_lt (by omega))]
      simp only [List.foldl_cons, List.foldl_nil, hashWithSibling, hclear, zero_ne_one, if_false, hhalf,
        treeRoot_succ_of_lt hash hsplit]
    · -- the leaf is in the right half: bit `k` of `nIndex` is set
      have hset : nIndex / 2 ^ k % 2 = 1 := by
        have : decide (nIndex / 2 ^ k % 2 = 1) = true := by rw [← hbitDiv, hbitMod]; simp; omega
        simpa using this
      have hleaf : (leaves.drop (2 ^ k)).getD (index - 2 ^ k) default = leaves.getD index default := by
        rw [List.getD_eq_getElem?_getD, List.getD_eq_getElem?_getD, List.getElem?_drop]
        congr 2
        omega
      have hrest : nIndex % 2 ^ k = index - 2 ^ k := by
        have := @mod_two_pow_succ_of_testBit nIndex k (by rw [hbitMod]; simp; omega)
        omega
      rw [treePath_succ_right hash hsplit (by omega), List.foldl_append, ← hleaf,
        ih _ (index - 2 ^ k) nIndex (by omega) (by omega) hrest]
      simp only [List.foldl_cons, List.foldl_nil, hashWithSibling, hset, if_true, hhalf,
        treeRoot_succ_of_lt hash hsplit]

omit [DecidableEq α] in
/-- The root recomputed from the level-by-level branch of a leaf is the level-by-level root. -/
theorem computeMerkleRootFromBranch_levelBranch {leaves : List α} {position : Nat} (hposition : position < leaves.length) :
    computeMerkleRootFromBranch hash (leaves.getD position default) (levelBranch hash leaves position) position =
      levelRoot hash leaves := by
  obtain ⟨k, hle, hlt⟩ := exists_height (show 0 < leaves.length by omega)
  rw [computeMerkleRootFromBranch, levelBranch_eq_treePath hash k leaves position hle hlt hposition,
    foldl_hashWithSibling_treePath hash k leaves position position hle hposition (Nat.mod_eq_of_lt (by omega)),
    levelRoot_eq_treeRoot hash k leaves (by omega) hle hlt]

/-- Over at most `2 ^ 31` leaves, `ComputeMerkleRoot` is the level-by-level root (the zero hash
for no leaves), `ComputeMerkleBranch` of a leaf is its level-by-level branch, and the root
recomputed from that branch is the root. -/
theorem computeMerkleRoot_refines_levelRoot (leaves : List α) (hlength : leaves.length ≤ 2 ^ 31) :
    (∃ mutated, computeMerkleRoot hash leaves = some (levelRoot hash leaves, mutated)) ∧
      ∀ position < leaves.length,
        computeMerkleBranch hash leaves position = some (levelBranch hash leaves position) ∧
          computeMerkleRootFromBranch hash (leaves.getD position default) (levelBranch hash leaves position) position =
            levelRoot hash leaves := by
  rcases Nat.eq_zero_or_pos leaves.length with hzero | hpos
  · -- no leaves: the zero hash, and no position
    rw [List.length_eq_zero_iff.mp hzero]
    exact ⟨⟨false, by rw [levelRoot_nil]; rfl⟩, fun position hposition => absurd hposition (Nat.not_lt_zero _)⟩
  · obtain ⟨mutated, hroot, -⟩ := computeMerkleRoot_spec hash hpos hlength
    exact ⟨⟨mutated, hroot⟩, fun position hposition =>
      ⟨computeMerkleBranch_spec hash hposition hlength, computeMerkleRootFromBranch_levelBranch hash hposition⟩⟩

omit [DecidableEq α] [Inhabited α] in
/-- With `2 ^ 31 + 2 ^ level` counted on a level up to 30, the sweep doubles its way to
`count = 2 ^ 32`, which wraps to `0`, and its inner loop then reaches bit 32. -/
theorem sweepUp_wraps {withBranch : Bool} {inner : Nat → α} {matchlevel : Option Nat} (fuel : Nat) :
    ∀ s : Sweep α, s.count = 2 ^ 31 + 2 ^ s.level → s.level ≤ 30 →
      sweepUp hash withBranch inner matchlevel fuel s = none := by
  induction fuel with
  | zero => intro s _ _; rfl
  | succ fuel ih =>
    intro s hcount hlevel
    have hpos := Nat.two_pow_pos s.level
    have hlarge : 2 ^ s.level ≤ 2 ^ 30 := Nat.pow_le_pow_right (by norm_num) hlevel
    rw [sweepUp_succ_of_ne hash (by omega) (by omega)]
    rcases Nat.lt_or_ge s.level 30 with hlow | htop
    · -- the doubled count has bit `level + 1` set, under bit 31: the inner loop stops at once
      have hnext : (s.count + 2 ^ s.level) % 2 ^ 32 = 2 ^ 31 + 2 ^ (s.level + 1) := by
        have : 2 ^ (s.level + 1) ≤ 2 ^ 30 := Nat.pow_le_pow_right (by norm_num) (by omega)
        rw [Nat.mod_eq_of_lt (by rw [pow_succ] at this ⊢; omega), hcount, pow_succ]
        ring
      have hbit : (2 ^ 31 + 2 ^ (s.level + 1)).testBit (s.level + 1) = true := by
        rw [Nat.testBit_two_pow_add_gt (by omega), Nat.testBit_two_pow_self]
      rw [hnext, show 32 - (s.level + 1) = (30 - s.level) + 1 by omega,
        sweepCombine_succ_of_testBit hash hbit, Option.bind_some]
      exact ih _ rfl (by dsimp only; omega)
    · -- `2 ^ 31 + 2 ^ 31` wraps to `0`, which has no bit 31
      have hwrap : (s.count + 2 ^ s.level) % 2 ^ 32 = 0 := by
        rw [hcount, show s.level = 30 by omega]
        rfl
      rw [hwrap, show 32 - (s.level + 1) = 0 + 1 by omega,
        sweepCombine_succ_of_not_testBit hash (by rw [Nat.zero_testBit])]
      rfl

/-- Over `2 ^ 31 + 1` leaves `MerkleComputation` shifts by 32 in its sweep. -/
theorem merkleComputation_wraps {leaves : List α} (hlength : leaves.length = 2 ^ 31 + 1) (position : Nat)
    (withBranch : Bool) : merkleComputation hash leaves position withBranch = none := by
  have hbound : leaves.length < 2 ^ 32 := by omega
  have hzero : MainInvariant hash withBranch leaves position 0 _ := mainInvariant_zero hash
  obtain ⟨state, hrun, hmain⟩ := processLeaves_spec hash hbound leaves 0 _ List.drop_zero (Nat.zero_le _) hzero
  have hempty : leaves.isEmpty = false := List.isEmpty_eq_false_iff.mpr (List.ne_nil_of_length_pos (by omega))
  have hbit : (2 ^ 31 + 1).testBit 0 = true := by rw [Nat.testBit_two_pow_add_gt (by norm_num)]; rfl
  rw [merkleComputation, hempty, if_neg (by decide), hrun, Option.bind_some, hmain.count_eq, hlength,
    lowestSetBit, if_pos hbit, Option.bind_some, sweepUp_wraps hash 33 _ rfl (by dsimp only; omega), Option.map_none]

/-- `ComputeMerkleRoot` of `2 ^ 31 + 1` leaves, fewer than `2 ^ 32`, has no defined result:
the sweep's `count` wraps to `0` and `1 << 32` is evaluated. -/
theorem computeMerkleRoot_replicate_wraps (leaf : α) :
    computeMerkleRoot hash (List.replicate (2 ^ 31 + 1) leaf) = none := by
  rw [computeMerkleRoot, merkleComputation_wraps hash List.length_replicate, Option.map_none]

/-- The same at the leaves `0`, with addition as the hash. -/
theorem computeMerkleRoot_wraps : computeMerkleRoot Nat.add (List.replicate (2 ^ 31 + 1) 0) = none :=
  computeMerkleRoot_replicate_wraps Nat.add 0

/-- Over `1` to `2 ^ 31` leaves, with a hash that is injective on pairs and never a leaf, two
different leaf lists with the same root have `mutated` raised for one of them. -/
theorem computeMerkleRoot_mutated_of_same_root (hinj : ∀ a b c d, hash a b = hash c d → a = c ∧ b = d)
    {first second : List α} {root : α} {mutatedFirst mutatedSecond : Bool}
    (hfirst : first ≠ []) (hsecond : second ≠ []) (hne : first ≠ second)
    (hfirstLength : first.length ≤ 2 ^ 31) (hsecondLength : second.length ≤ 2 ^ 31)
    (hleaf : ∀ x ∈ first ++ second, ∀ a b, hash a b ≠ x)
    (hfirstRoot : computeMerkleRoot hash first = some (root, mutatedFirst))
    (hsecondRoot : computeMerkleRoot hash second = some (root, mutatedSecond)) :
    mutatedFirst = true ∨ mutatedSecond = true := by
  obtain ⟨mutated₁, hrun₁, hiff₁⟩ := computeMerkleRoot_spec hash (List.length_pos_of_ne_nil hfirst) hfirstLength
  obtain ⟨mutated₂, hrun₂, hiff₂⟩ := computeMerkleRoot_spec hash (List.length_pos_of_ne_nil hsecond) hsecondLength
  rw [hrun₁, Option.some.injEq, Prod.mk.injEq] at hfirstRoot
  rw [hrun₂, Option.some.injEq, Prod.mk.injEq] at hsecondRoot
  obtain ⟨hroot₁, rfl⟩ := hfirstRoot
  obtain ⟨hroot₂, rfl⟩ := hsecondRoot
  rcases hasEqualPair_of_levelRoot_eq hash hinj hfirst hsecond hne (fun x hx => hleaf x (List.mem_append_left _ hx))
      (fun x hx => hleaf x (List.mem_append_right _ hx)) (hroot₁.trans hroot₂.symm) with hpair | hpair
  · exact Or.inl (hiff₁.mpr hpair)
  · exact Or.inr (hiff₂.mpr hpair)

theorem computeMerkleRoot_mutated_of_duplicated_leaf :
    computeMerkleRoot (BinaryTree.node 0) [.node 1 .nil .nil, .node 2 .nil .nil, .node 3 .nil .nil] =
        some (.node 0 (.node 0 (.node 1 .nil .nil) (.node 2 .nil .nil)) (.node 0 (.node 3 .nil .nil) (.node 3 .nil .nil)),
          false) ∧
      computeMerkleRoot (BinaryTree.node 0) [.node 1 .nil .nil, .node 2 .nil .nil, .node 3 .nil .nil, .node 3 .nil .nil] =
        some (.node 0 (.node 0 (.node 1 .nil .nil) (.node 2 .nil .nil)) (.node 0 (.node 3 .nil .nil) (.node 3 .nil .nil)),
          true) ∧
      (false = true ∨ true = true) := by
  have hfirst : computeMerkleRoot (BinaryTree.node 0) [.node 1 .nil .nil, .node 2 .nil .nil, .node 3 .nil .nil] =
      some (.node 0 (.node 0 (.node 1 .nil .nil) (.node 2 .nil .nil)) (.node 0 (.node 3 .nil .nil) (.node 3 .nil .nil)),
        false) := by decide
  have hsecond :
      computeMerkleRoot (BinaryTree.node 0) [.node 1 .nil .nil, .node 2 .nil .nil, .node 3 .nil .nil, .node 3 .nil .nil] =
        some (.node 0 (.node 0 (.node 1 .nil .nil) (.node 2 .nil .nil)) (.node 0 (.node 3 .nil .nil) (.node 3 .nil .nil)),
          true) := by decide
  refine ⟨hfirst, hsecond, computeMerkleRoot_mutated_of_same_root (BinaryTree.node 0)
    (fun a b c d heq => by cases heq; exact ⟨rfl, rfl⟩) (by simp) (by simp) (by simp) (by simp) (by simp) ?_ hfirst hsecond⟩
  intro x hx a b heq
  simp only [List.mem_append, List.mem_cons, List.not_mem_nil, or_false] at hx
  rcases hx with (rfl | rfl | rfl) | (rfl | rfl | rfl | rfl) <;> cases heq

/-- No leaves and the one leaf `uint256()` give the same root, the zero hash, and neither is
flagged as mutated, whatever the hash. -/
theorem computeMerkleRoot_nil_eq_singleton_default :
    computeMerkleRoot hash ([] : List α) = some (default, false) ∧ computeMerkleRoot hash [default] = some (default, false) := by
  refine ⟨rfl, ?_⟩
  obtain ⟨mutated, hroot, hmutated⟩ :=
    computeMerkleRoot_spec hash (show 0 < [(default : α)].length by simp) (by simp)
  -- one leaf has no pair of sibling subtrees
  have hunmutated : mutated = false := by
    cases mutated
    · rfl
    · obtain ⟨level, start, -, hle, -⟩ := hmutated.mp rfl
      have := Nat.one_lt_two_pow (show level + 1 ≠ 0 by omega)
      simp at hle
      omega
  rw [hroot, levelRoot_singleton, hunmutated]

/-- With a hash that is injective and never a leaf, the empty list and the list of the one leaf
`.nil` are two lists with the same root, neither flagged as mutated. -/
theorem computeMerkleRoot_empty_collision :
    computeMerkleRoot (BinaryTree.node 0) ([] : List (BinaryTree Nat)) = some (.nil, false) ∧
      computeMerkleRoot (BinaryTree.node 0) [.nil] = some (.nil, false) :=
  computeMerkleRoot_nil_eq_singleton_default (BinaryTree.node 0)

end Computation

end UnitedBitcoin.Merkle
