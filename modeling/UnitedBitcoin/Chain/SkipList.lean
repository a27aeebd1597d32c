import Mathlib

/-!
# The skip list of the block index

`CBlockIndex` (`chain.h`, `chain.cpp`) links every block to its parent through `pprev` and to
one further ancestor through `pskip`, at the height `GetSkipHeight(nHeight)`. `GetAncestor`
walks down with both pointers; `BuildSkip` sets a new entry's `pskip` with `GetAncestor` of its
parent, as `AddToBlockIndex` (`validation.cpp`) does for every block it links.

The block index is a list of entries and a pointer is a position in it. The walk of
`GetAncestor` counts with `heightWalk`, which `GetSkipHeight(k) < k` lowers on every pass
(`getSkipHeight_lt`): that is its termination measure. `LinkedBelow` is the invariant of the
entries below a bound: parents come first and sit one lower, and each skip pointer is the
ancestor at the skip height. Under it the walk returns the ancestor that following `pprev` gives
(`getAncestor_eq`), so `BuildSkip` keeps the invariant (`linkedBelow_addToBlockIndex`) and every
tree that `AddToBlockIndex` builds has it (`skipList_getAncestor`).
-/

namespace UnitedBitcoin.Chain

/-- The fields of `CBlockIndex` that the skip list reads and writes. A pointer is a position in
the block index; `none` is `nullptr`. -/
structure BlockIndex where
  pprev : Option Nat
  pskip : Option Nat
  nHeight : Nat
  deriving DecidableEq, Repr

/-- The block index: the entries in the order they were created. -/
abbrev BlockTree := List BlockIndex

namespace BlockTree

def pprev (t : BlockTree) (i : Nat) : Option Nat := t[i]?.bind BlockIndex.pprev

def pskip (t : BlockTree) (i : Nat) : Option Nat := t[i]?.bind BlockIndex.pskip

def height (t : BlockTree) (i : Nat) : Nat := (t[i]?.map BlockIndex.nHeight).getD 0

/-- The entry reached from `i` by following `pprev` `k` times. -/
def ancestorAt (t : BlockTree) (i k : Nat) : Option Nat := (fun o : Option Nat => o.bind (pprev t))^[k] (some i)

/-- Write `pskip` of the entry `i`. -/
def setSkip (t : BlockTree) (i : Nat) (pskip : Option Nat) : BlockTree :=
  t.modify i fun b => { b with pskip := pskip }

end BlockTree

open BlockTree

/-! ## Skip heights -/

/-- `InvertLowestOne(n)`: `n & (n - 1)` clears the lowest set bit. -/
def invertLowestOne (n : Nat) : Nat := n &&& (n - 1)

/-- `GetSkipHeight(height)`. -/
def getSkipHeight (height : Nat) : Nat :=
  if height < 2 then 0
  else if height &&& 1 ≠ 0 then invertLowestOne (invertLowestOne (height - 1)) + 1
  else invertLowestOne height

theorem invertLowestOne_le (n : Nat) : invertLowestOne n ≤ n := Nat.and_le_left

theorem invertLowestOne_lt {n : Nat} (hn : 1 ≤ n) : invertLowestOne n < n :=
  lt_of_le_of_lt Nat.and_le_right (by omega)

/-- Every skip height above zero jumps strictly down. -/
theorem getSkipHeight_lt {height : Nat} (hh : 1 ≤ height) : getSkipHeight height < height := by
  unfold getSkipHeight
  split_ifs with hsmall hodd
  · omega
  · -- an odd height: `height - 1` is even and at least two
    have hlow := invertLowestOne_lt (n := height - 1) (by omega)
    have htwice := invertLowestOne_le (invertLowestOne (height - 1))
    omega
  · exact invertLowestOne_lt hh

example : getSkipHeight 6 = 4 ∧ getSkipHeight 7 = 1 ∧ getSkipHeight 1024 = 0 := by decide

/-! ## The walk of `GetAncestor` -/

/-- The test of the loop of `GetAncestor` at `heightWalk`: follow `pskip` when it lands on
`height`, or above it unless `pprev->pskip` would be the better jump. -/
def followSkip (height heightWalk : Nat) : Bool :=
  let heightSkip := getSkipHeight heightWalk
  let heightSkipPrev := getSkipHeight (heightWalk - 1)
  heightSkip == height ||
    (decide (heightSkip > height) && !(decide (heightSkipPrev + 2 < heightSkip) && decide (heightSkipPrev ≥ height)))

/-- The `while (heightWalk > height)` loop of `CBlockIndex::GetAncestor` from `pindexWalk`;
`none` is the failed `assert(pindexWalk->pprev)`. -/
def getAncestorWalk (t : BlockTree) (height : Nat) (pindexWalk heightWalk : Nat) : Option Nat :=
  if _hwalk : heightWalk > height then
    match (if followSkip height heightWalk then pskip t pindexWalk else none) with
    | some pskip => getAncestorWalk t height pskip (getSkipHeight heightWalk)
    | none =>
      match pprev t pindexWalk with
      | some pprev => getAncestorWalk t height pprev (heightWalk - 1)
      | none => none
  else some pindexWalk
termination_by heightWalk
decreasing_by
  · exact getSkipHeight_lt (by omega)
  · omega

/-- `CBlockIndex::GetAncestor(height)` of the entry `i`. -/
def getAncestor (t : BlockTree) (i : Nat) (height : Int) : Option Nat :=
  if height > BlockTree.height t i ∨ height < 0 then none
  else getAncestorWalk t height.toNat i (BlockTree.height t i)

/-- `CBlockIndex::BuildSkip()` on the entry `i`. -/
def buildSkip (t : BlockTree) (i : Nat) : BlockTree :=
  match pprev t i with
  | some p => setSkip t i (getAncestor t p (getSkipHeight (BlockTree.height t i)))
  | none => t

/-- The skip-list part of `CChainState::AddToBlockIndex`: a new entry, with `nHeight` one above
its parent's and its skip pointer built when the parent is in the index, and a root at height
zero otherwise. -/
def addToBlockIndex (t : BlockTree) (parent : Option Nat) : BlockTree :=
  match parent with
  | some p => buildSkip (t ++ [{ pprev := some p, pskip := none, nHeight := BlockTree.height t p + 1 }]) t.length
  | none => t ++ [{ pprev := none, pskip := none, nHeight := 0 }]

/-! ## Following `pprev` -/

namespace BlockTree

theorem ancestorAt_zero (t : BlockTree) (i : Nat) : ancestorAt t i 0 = some i := rfl

theorem ancestorAt_succ (t : BlockTree) (i k : Nat) : ancestorAt t i (k + 1) = (ancestorAt t i k).bind (pprev t) :=
  Function.iterate_succ_apply' _ k (some i)

theorem ancestorAt_one {t : BlockTree} {i p : Nat} (hp : pprev t i = some p) : ancestorAt t i 1 = some p := hp

/-- A walk of `k` steps to `j` followed by `m` more steps from `j`. -/
theorem ancestorAt_add {t : BlockTree} {i j k : Nat} (hj : ancestorAt t i k = some j) (m : Nat) :
    ancestorAt t i (m + k) = ancestorAt t j m := by
  rw [ancestorAt, Function.iterate_add_apply]
  exact congrArg _ hj

/-- Entries that agree below `n`, parents below their children, give the same ancestors. -/
theorem ancestorAt_congr {t t' : BlockTree} {n : Nat} (hagree : ∀ j < n, pprev t' j = pprev t j)
    (hlt : ∀ j < n, ∀ p, pprev t j = some p → p < j) {i : Nat} (hi : i < n) :
    ∀ k, ancestorAt t' i k = ancestorAt t i k ∧ ∀ j, ancestorAt t i k = some j → j < n
  | 0 => ⟨rfl, fun j hj => by simp only [ancestorAt_zero, Option.some.injEq] at hj; omega⟩
  | k + 1 => by
    obtain ⟨heq, hbelow⟩ := ancestorAt_congr hagree hlt hi k
    rw [ancestorAt_succ, ancestorAt_succ, heq]
    cases hk : ancestorAt t i k with
    | none => exact ⟨rfl, fun j hj => by simp at hj⟩
    | some j =>
      -- the next step leaves from `j < n`, where both trees agree
      have hj := hbelow j hk
      rw [Option.bind_some, Option.bind_some, hagree j hj]
      exact ⟨rfl, fun p hp => lt_trans (hlt j hj p hp) hj⟩

theorem getElem?_setSkip_of_ne (t : BlockTree) {i j : Nat} (hij : j ≠ i) (s : Option Nat) :
    (setSkip t j s)[i]? = t[i]? := by
  rw [setSkip, List.getElem?_modify]
  cases t[i]? <;> simp [hij]

theorem pprev_setSkip (t : BlockTree) (i j : Nat) (s : Option Nat) : pprev (setSkip t j s) i = pprev t i := by
  rw [pprev, pprev, setSkip, List.getElem?_modify]
  cases t[i]? <;> simp only [Option.map_eq_map, Option.map_none, Option.map_some, Option.bind_none, Option.bind_some]
  split_ifs <;> rfl

theorem height_setSkip (t : BlockTree) (i j : Nat) (s : Option Nat) :
    height (setSkip t j s) i = height t i := by
  rw [height, height, setSkip, List.getElem?_modify]
  cases t[i]? <;> simp only [Option.map_eq_map, Option.map_none, Option.map_some]
  split_ifs <;> rfl

theorem pskip_setSkip_self {t : BlockTree} {j : Nat} (hj : j < t.length) (s : Option Nat) :
    pskip (setSkip t j s) j = s := by
  rw [pskip, setSkip, List.getElem?_modify, List.getElem?_eq_getElem hj]
  simp

theorem length_setSkip (t : BlockTree) (j : Nat) (s : Option Nat) : (setSkip t j s).length = t.length :=
  List.length_modify _ t j

end BlockTree

/-! ## The invariant -/

/-- The links of the entries below `n`: a parent comes first and sits one lower, an entry without
one is at height zero, and `pskip` is the ancestor at the skip height. -/
structure LinkedBelow (t : BlockTree) (n : Nat) : Prop where
  within : n ≤ t.length
  pprev_lt : ∀ i < n, ∀ p, pprev t i = some p → p < i
  height_pprev : ∀ i < n, ∀ p, pprev t i = some p → BlockTree.height t i = BlockTree.height t p + 1
  height_root : ∀ i < n, pprev t i = none → BlockTree.height t i = 0
  pskip_eq : ∀ i < n, pskip t i =
    if BlockTree.height t i = 0 then none
    else ancestorAt t i (BlockTree.height t i - getSkipHeight (BlockTree.height t i))

namespace LinkedBelow

variable {t : BlockTree} {n : Nat}

/-- An entry above height zero has a parent, one lower. -/
theorem exists_pprev (hl : LinkedBelow t n) {i : Nat} (hi : i < n) (hh : 1 ≤ BlockTree.height t i) :
    ∃ p, pprev t i = some p ∧ p < i ∧ BlockTree.height t i = BlockTree.height t p + 1 := by
  cases hp : pprev t i with
  | none => have := hl.height_root i hi hp; omega
  | some p => exact ⟨p, rfl, hl.pprev_lt i hi p hp, hl.height_pprev i hi p hp⟩

/-- Following `pprev` at most `height` times from an entry below `n` reaches an entry below it,
`k` lower. -/
theorem ancestorAt_spec (hl : LinkedBelow t n) {i : Nat} (hi : i < n) :
    ∀ k ≤ BlockTree.height t i,
      ∃ j, ancestorAt t i k = some j ∧ j ≤ i ∧ BlockTree.height t j + k = BlockTree.height t i
  | 0, _ => ⟨i, rfl, le_rfl, rfl⟩
  | k + 1, hk => by
    obtain ⟨j, hj, hji, hjh⟩ := ancestorAt_spec hl hi k (by omega)
    obtain ⟨p, hp, hpj, hph⟩ := hl.exists_pprev (by omega : j < n) (by omega)
    refine ⟨p, ?_, by omega, by omega⟩
    rw [ancestorAt_succ, hj, Option.bind_some, hp]

/-- Following `pprev` `k` times from an entry below `n` reaches, if anything, an entry below `n`
that is `k` lower. -/
theorem ancestorAt_some (hl : LinkedBelow t n) {i : Nat} (hi : i < n) :
    ∀ k j, ancestorAt t i k = some j → j < n ∧ BlockTree.height t j + k = BlockTree.height t i
  | 0, j, h => by
    rw [ancestorAt_zero, Option.some.injEq] at h
    subst h
    exact ⟨hi, rfl⟩
  | k + 1, j, h => by
    rw [ancestorAt_succ] at h
    cases hk : ancestorAt t i k with
    | none => rw [hk] at h; cases h
    | some a =>
      rw [hk, Option.bind_some] at h
      obtain ⟨ha, hah⟩ := ancestorAt_some hl hi k a hk
      have hheight := hl.height_pprev a ha j h
      exact ⟨lt_trans (hl.pprev_lt a ha j h) ha, by omega⟩

/-- Entries that agree with a linked tree below `n` are linked below `n`. -/
theorem of_agree {t' : BlockTree} (hl : LinkedBelow t n) (hlen : n ≤ t'.length)
    (hagree : ∀ i < n, t'[i]? = t[i]?) : LinkedBelow t' n := by
  have hpprev : ∀ i < n, pprev t' i = pprev t i := fun i hi => by rw [pprev, pprev, hagree i hi]
  have hheight : ∀ i < n, BlockTree.height t' i = BlockTree.height t i := fun i hi => by
    rw [BlockTree.height, BlockTree.height, hagree i hi]
  have hanc : ∀ i < n, ∀ k, ancestorAt t' i k = ancestorAt t i k := fun i hi k =>
    (ancestorAt_congr hpprev hl.pprev_lt hi k).1
  refine ⟨hlen, fun i hi p hp => ?_, fun i hi p hp => ?_, fun i hi hp => ?_, fun i hi => ?_⟩
  · exact hl.pprev_lt i hi p (by rwa [← hpprev i hi])
  · rw [hpprev i hi] at hp
    rw [hheight i hi, hheight p (lt_trans (hl.pprev_lt i hi p hp) hi)]
    exact hl.height_pprev i hi p hp
  · rw [hheight i hi]
    exact hl.height_root i hi (by rwa [← hpprev i hi])
  · rw [pskip, hagree i hi, ← pskip, hl.pskip_eq i hi, hheight i hi, hanc i hi]

/-- One more linked entry, at position `n`. -/
theorem succ (hl : LinkedBelow t n) (hlen : n < t.length)
    (hpprev : ∀ p, pprev t n = some p → p < n ∧ BlockTree.height t n = BlockTree.height t p + 1)
    (hroot : pprev t n = none → BlockTree.height t n = 0)
    (hskip : pskip t n =
      if BlockTree.height t n = 0 then none
      else ancestorAt t n (BlockTree.height t n - getSkipHeight (BlockTree.height t n))) :
    LinkedBelow t (n + 1) := by
  refine ⟨hlen, fun i hi p hp => ?_, fun i hi p hp => ?_, fun i hi hp => ?_, fun i hi => ?_⟩
  all_goals rcases Nat.lt_succ_iff_lt_or_eq.mp hi with hi | rfl
  · exact hl.pprev_lt i hi p hp
  · exact (hpprev p hp).1
  · exact hl.height_pprev i hi p hp
  · exact (hpprev p hp).2
  · exact hl.height_root i hi hp
  · exact hroot hp
  · exact hl.pskip_eq i hi
  · exact hskip

theorem append {x : BlockIndex} (hl : LinkedBelow t t.length) : LinkedBelow (t ++ [x]) t.length :=
  hl.of_agree (by simp) fun _ hi => List.getElem?_append_left hi

end LinkedBelow

/-! ## `GetAncestor` finds the ancestor -/

theorem followSkip_le {height heightWalk : Nat} (hfollow : followSkip height heightWalk = true) :
    height ≤ getSkipHeight heightWalk := by
  simp only [followSkip, Bool.or_eq_true, beq_iff_eq, Bool.and_eq_true, decide_eq_true_eq] at hfollow
  omega

/-- The loop of `GetAncestor`, started at an entry of height `heightWalk`, ends at its ancestor
at `height`. The induction is on `heightWalk`, which both kinds of step lower; a step along
`pskip` lands at the skip height by the invariant. -/
theorem getAncestorWalk_eq {t : BlockTree} {n : Nat} (hl : LinkedBelow t n) {height : Nat} (heightWalk : Nat) :
    ∀ i < n, BlockTree.height t i = heightWalk → height ≤ heightWalk →
      getAncestorWalk t height i heightWalk = ancestorAt t i (heightWalk - height) := by
  induction heightWalk using Nat.strong_induction_on with
  | _ heightWalk ih =>
  intro i hi hheight hle
  rw [getAncestorWalk]
  by_cases hwalk : heightWalk > height
  · rw [dif_pos hwalk]
    have hskipLt := getSkipHeight_lt (by omega : 1 ≤ heightWalk)
    by_cases hfollow : followSkip height heightWalk = true
    · -- along `pskip`, which is the ancestor at the skip height
      have hfar := followSkip_le hfollow
      obtain ⟨s, hs, hsi, hsh⟩ := hl.ancestorAt_spec hi (heightWalk - getSkipHeight heightWalk) (by omega)
      have hpskip : pskip t i = some s := by rw [hl.pskip_eq i hi, if_neg (by omega), hheight, hs]
      rw [if_pos hfollow, hpskip]
      dsimp only
      rw [ih _ hskipLt s (by omega) (by omega) hfar,
        show heightWalk - height = getSkipHeight heightWalk - height + (heightWalk - getSkipHeight heightWalk) by omega,
        ancestorAt_add hs]
    · -- along `pprev`, which an entry above height zero has
      obtain ⟨p, hp, hpi, hph⟩ := hl.exists_pprev hi (by omega)
      rw [if_neg hfollow]
      dsimp only
      rw [hp]
      dsimp only
      rw [ih (heightWalk - 1) (by omega) p (by omega) (by omega) (by omega),
        show heightWalk - height = heightWalk - 1 - height + 1 by omega, ancestorAt_add (ancestorAt_one hp)]
  · rw [dif_neg hwalk, show heightWalk - height = 0 by omega, ancestorAt_zero]

/-- `GetAncestor(height)` of a linked entry, for `0 <= height <= nHeight`, is the entry that
following `pprev` `nHeight - height` times reaches. -/
theorem getAncestor_eq {t : BlockTree} {n : Nat} (hl : LinkedBelow t n) {i : Nat} (hi : i < n) {height : Nat}
    (hh : height ≤ BlockTree.height t i) :
    getAncestor t i height = ancestorAt t i (BlockTree.height t i - height) := by
  rw [getAncestor, if_neg (by omega), Int.toNat_natCast]
  exact getAncestorWalk_eq hl _ i hi rfl hh

/-- `GetAncestor(nHeight - k)` of a linked entry, for `k <= nHeight`. -/
theorem getAncestor_sub {t : BlockTree} {n : Nat} (hl : LinkedBelow t n) {i : Nat} (hi : i < n) {k : Nat}
    (hk : k ≤ BlockTree.height t i) :
    getAncestor t i ((BlockTree.height t i : Int) - k) = ancestorAt t i k := by
  rw [show (BlockTree.height t i : Int) - k = ((BlockTree.height t i - k : Nat) : Int) by omega,
    getAncestor_eq hl hi (Nat.sub_le _ _), Nat.sub_sub_self hk]

/-- `GetAncestor` below height zero is `nullptr`. -/
theorem getAncestor_of_neg (t : BlockTree) (i : Nat) {height : Int} (hh : height < 0) :
    getAncestor t i height = none := by
  rw [getAncestor, if_pos (Or.inr hh)]

/-! ## `AddToBlockIndex` keeps the links -/

namespace LinkedBelow

variable {t : BlockTree}

/-- A block whose parent is not in the index becomes a root at height zero. -/
theorem addToBlockIndex_none (hl : LinkedBelow t t.length) :
    LinkedBelow (addToBlockIndex t none) (t.length + 1) := by
  refine hl.append.succ (by simp) (fun p hp => ?_) (fun _ => ?_) ?_
  · simp [pprev] at hp
  · simp [BlockTree.height]
  · simp [pskip, BlockTree.height]

/-- A block linked to its parent gets from `BuildSkip` the ancestor at its skip height: the walk
from the parent runs on the old, linked entries. -/
theorem addToBlockIndex_some (hl : LinkedBelow t t.length) {p : Nat} (hp : p < t.length) :
    LinkedBelow (addToBlockIndex t (some p)) (t.length + 1) := by
  let node : BlockIndex := { pprev := some p, pskip := none, nHeight := BlockTree.height t p + 1 }
  have hl1 : LinkedBelow (t ++ [node]) t.length := hl.append
  have hpprev1 : pprev (t ++ [node]) t.length = some p := by simp [pprev, node]
  have hheight1 : BlockTree.height (t ++ [node]) t.length = BlockTree.height t p + 1 := by
    simp [BlockTree.height, node]
  have hheightp : BlockTree.height (t ++ [node]) p = BlockTree.height t p := by
    rw [BlockTree.height, BlockTree.height, List.getElem?_append_left hp]
  have hskipLt := getSkipHeight_lt (by omega : 1 ≤ BlockTree.height t p + 1)
  -- the pointer `BuildSkip` writes
  have hsk : getAncestor (t ++ [node]) p (getSkipHeight (BlockTree.height t p + 1)) =
      ancestorAt (t ++ [node]) p (BlockTree.height t p - getSkipHeight (BlockTree.height t p + 1)) := by
    rw [getAncestor_eq hl1 hp (by omega), hheightp]
  set sk := ancestorAt (t ++ [node]) p (BlockTree.height t p - getSkipHeight (BlockTree.height t p + 1))
  have hbuild : addToBlockIndex t (some p) = setSkip (t ++ [node]) t.length sk := by
    rw [addToBlockIndex, buildSkip, hpprev1]
    dsimp only
    rw [hheight1, hsk]
  rw [hbuild]
  have hlen : t.length < (t ++ [node]).length := by simp
  have hl2 : LinkedBelow (setSkip (t ++ [node]) t.length sk) t.length :=
    hl1.of_agree (by rw [length_setSkip]; omega) fun i hi => getElem?_setSkip_of_ne _ (by omega) sk
  refine hl2.succ (by rw [length_setSkip]; exact hlen) (fun q hq => ?_) (fun hq => ?_) ?_
  · rw [pprev_setSkip, hpprev1, Option.some.injEq] at hq
    subst hq
    rw [height_setSkip, height_setSkip, hheight1, hheightp]
    exact ⟨hp, rfl⟩
  · rw [pprev_setSkip, hpprev1] at hq
    cases hq
  · -- one step to the parent, then the walk that `BuildSkip` asked for
    have hsame : ∀ j < t.length, pprev (setSkip (t ++ [node]) t.length sk) j = pprev (t ++ [node]) j :=
      fun j _ => pprev_setSkip _ j _ sk
    rw [pskip_setSkip_self hlen, height_setSkip, hheight1, if_neg (by omega),
      show BlockTree.height t p + 1 - getSkipHeight (BlockTree.height t p + 1) =
        BlockTree.height t p - getSkipHeight (BlockTree.height t p + 1) + 1 by omega,
      ancestorAt_add (ancestorAt_one (by rw [pprev_setSkip]; exact hpprev1)),
      (ancestorAt_congr hsame hl1.pprev_lt hp _).1]

end LinkedBelow

/-- The block indexes that `AddToBlockIndex` builds, one block at a time, each linked to a parent
already in the index or to none. -/
inductive Built : BlockTree → Prop
  | empty : Built []
  | add {t : BlockTree} {parent : Option Nat} : Built t → (∀ p ∈ parent, p < t.length) →
      Built (addToBlockIndex t parent)

theorem length_addToBlockIndex (t : BlockTree) (parent : Option Nat) :
    (addToBlockIndex t parent).length = t.length + 1 := by
  cases parent with
  | none => simp [addToBlockIndex]
  | some p =>
    simp only [addToBlockIndex, buildSkip]
    split <;> simp [length_setSkip]

/-- Every entry of a built block index is linked. -/
theorem Built.linked {t : BlockTree} (hbuilt : Built t) : LinkedBelow t t.length := by
  induction hbuilt with
  | empty => exact ⟨le_rfl, nofun, nofun, nofun, nofun⟩
  | @add t parent _ hparent ih =>
    rw [length_addToBlockIndex]
    cases parent with
    | none => exact ih.addToBlockIndex_none
    | some p => exact ih.addToBlockIndex_some (hparent p rfl)

theorem skipList_getAncestor :
    (∀ k, 1 ≤ k → getSkipHeight k < k) ∧
    ∀ t : BlockTree, Built t → ∀ i < t.length,
      (1 ≤ BlockTree.height t i →
        pskip t i = ancestorAt t i (BlockTree.height t i - getSkipHeight (BlockTree.height t i))) ∧
      ∀ h ≤ BlockTree.height t i,
        getAncestor t i h = ancestorAt t i (BlockTree.height t i - h) ∧
        (ancestorAt t i (BlockTree.height t i - h)).isSome := by
  refine ⟨fun k hk => getSkipHeight_lt hk, fun t hbuilt i hi => ?_⟩
  have hl := hbuilt.linked
  refine ⟨fun hh => by rw [hl.pskip_eq i hi, if_neg (by omega)], fun h hh => ⟨getAncestor_eq hl hi hh, ?_⟩⟩
  obtain ⟨j, hj, -, -⟩ := hl.ancestorAt_spec hi _ (Nat.sub_le _ h)
  rw [hj]
  rfl

end UnitedBitcoin.Chain
