import Mathlib

/-!
# Merkle trees that pair an odd last node with itself

One level of such a tree is built from the one below by hashing adjacent nodes in pairs, a
last node without a partner hashed with itself; the root is reached when one node is left.
Read from the top, the tree of height `k` over at most `2 ^ k` leaves splits them after the
first `2 ^ (k - 1)`, and a right half with no leaves is a copy of the left one.

* `pairLevel` is one level up and `levelRoot` the root of the level-by-level construction;
  `treeRoot` is the tree read from the top. `levelRoot_eq_treeRoot` says that they agree at
  the least height that holds the leaves.
* `levelBranch` is the sibling of a leaf on each level, read level by level, and `treePath`
  the same path read from the top (`levelBranch_eq_treePath`).
* `blockRoot` and `blockPath` are the tree and the path of the `2 ^ level` leaves from a
  position on. `blockRoot_merge`, `blockRoot_dup` and their path counterparts are the two
  ways a constant-space computation goes one level up.
* `HasEqualPair` says that two adjacent complete subtrees, the first aligned at twice their
  size, have the same hash. `hasEqualPair_of_levelRoot_eq` shows that two different lists of
  leaves with the same root have such a pair, when the hash is injective and no leaf is the
  hash of a pair.
-/

namespace UnitedBitcoin.Library

/-- The sibling index on one level. -/
theorem xor_one_eq (index : Nat) : index ^^^ 1 = if index % 2 = 0 then index + 1 else index - 1 := by
  split_ifs with heven
  · exact Nat.xor_one_of_even (Nat.even_iff.mpr heven)
  · exact Nat.xor_one_of_odd (Nat.odd_iff.mpr (by omega))

section Tree

variable {α : Type} (combine : α → α → α)

/-- One level up: adjacent nodes in pairs, an odd last node paired with itself. -/
def pairLevel : List α → List α
  | [] => []
  | [x] => [combine x x]
  | x :: y :: rest => combine x y :: pairLevel rest

theorem length_pairLevel (nodes : List α) : (pairLevel combine nodes).length = (nodes.length + 1) / 2 := by
  fun_induction pairLevel combine nodes with
  | case1 => simp
  | case2 x => simp
  | case3 x y rest ih =>
    simp only [List.length_cons, ih]
    omega

/-- Pairing a list whose first part has even length pairs the parts apart. -/
theorem pairLevel_append (first second : List α) (heven : first.length % 2 = 0) :
    pairLevel combine (first ++ second) = pairLevel combine first ++ pairLevel combine second := by
  fun_induction pairLevel combine first with
  | case1 => rfl
  | case2 x => simp at heven
  | case3 x y rest ih =>
    simp only [List.length_cons] at heven
    simp only [List.cons_append, pairLevel, ih (by omega)]

theorem pairLevel_take (nodes : List α) (half : Nat) (hle : 2 * half ≤ nodes.length) :
    (pairLevel combine nodes).take half = pairLevel combine (nodes.take (2 * half)) := by
  have hsplit := pairLevel_append combine (nodes.take (2 * half)) (nodes.drop (2 * half))
    (by rw [List.length_take, Nat.min_eq_left hle]; omega)
  rw [List.take_append_drop] at hsplit
  rw [hsplit, List.take_left' (by rw [length_pairLevel, List.length_take, Nat.min_eq_left hle]; omega)]

theorem pairLevel_drop (nodes : List α) (half : Nat) (hle : 2 * half ≤ nodes.length) :
    (pairLevel combine nodes).drop half = pairLevel combine (nodes.drop (2 * half)) := by
  have hsplit := pairLevel_append combine (nodes.take (2 * half)) (nodes.drop (2 * half))
    (by rw [List.length_take, Nat.min_eq_left hle]; omega)
  rw [List.take_append_drop] at hsplit
  rw [hsplit, List.drop_left' (by rw [length_pairLevel, List.length_take, Nat.min_eq_left hle]; omega)]

/-! ## Blocks of leaves -/

/-- The `2 ^ level` leaves from position `start` on, fewer at the end of the list. -/
def block (leaves : List α) (level start : Nat) : List α := (leaves.drop start).take (2 ^ level)

theorem length_block (leaves : List α) (level start : Nat) :
    (block leaves level start).length = min (2 ^ level) (leaves.length - start) := by
  simp [block]

theorem block_succ_take (leaves : List α) (level start : Nat) :
    (block leaves (level + 1) start).take (2 ^ level) = block leaves level start := by
  rw [block, block, List.take_take, Nat.min_eq_left (Nat.pow_le_pow_right (by norm_num) (by omega))]

theorem block_succ_drop (leaves : List α) (level start : Nat) :
    (block leaves (level + 1) start).drop (2 ^ level) = block leaves level (start + 2 ^ level) := by
  rw [block, block, List.drop_take, List.drop_drop, pow_succ]
  congr 1
  omega

theorem block_succ_of_le (leaves : List α) {level start : Nat} (hdup : leaves.length ≤ start + 2 ^ level) :
    block leaves (level + 1) start = block leaves level start := by
  have hpow : 2 ^ (level + 1) = 2 ^ level * 2 := pow_succ 2 level
  rw [block, block, List.take_of_length_le (by simp; omega), List.take_of_length_le (by simp; omega)]

/-- The block from the first leaf, when it holds them all, is the whole tree. -/
theorem block_zero_of_le (leaves : List α) {level : Nat} (hle : leaves.length ≤ 2 ^ level) :
    block leaves level 0 = leaves := by
  rw [block, List.drop_zero, List.take_of_length_le hle]

variable [Inhabited α]

/-- The tree of height `k` over at most `2 ^ k` leaves, split after the first half; a right
half without leaves is a copy of the left one. -/
def treeRoot : Nat → List α → α
  | 0, leaves => leaves.headD default
  | k + 1, leaves =>
    if leaves.length ≤ 2 ^ k then
      let half := treeRoot k leaves
      combine half half
    else combine (treeRoot k (leaves.take (2 ^ k))) (treeRoot k (leaves.drop (2 ^ k)))

/-- The siblings of leaf `index` in the tree of height `k`, from the leaves up. -/
def treePath : Nat → List α → Nat → List α
  | 0, _, _ => []
  | k + 1, leaves, index =>
    if leaves.length ≤ 2 ^ k then treePath k leaves index ++ [treeRoot combine k leaves]
    else if index < 2 ^ k then
      treePath k (leaves.take (2 ^ k)) index ++ [treeRoot combine k (leaves.drop (2 ^ k))]
    else treePath k (leaves.drop (2 ^ k)) (index - 2 ^ k) ++ [treeRoot combine k (leaves.take (2 ^ k))]

theorem treeRoot_zero (leaves : List α) : treeRoot combine 0 leaves = leaves.headD default := rfl

theorem treeRoot_succ_of_le {k : Nat} {leaves : List α} (hle : leaves.length ≤ 2 ^ k) :
    treeRoot combine (k + 1) leaves = combine (treeRoot combine k leaves) (treeRoot combine k leaves) := by
  rw [treeRoot, if_pos hle]

theorem treeRoot_succ_of_lt {k : Nat} {leaves : List α} (hlt : 2 ^ k < leaves.length) :
    treeRoot combine (k + 1) leaves =
      combine (treeRoot combine k (leaves.take (2 ^ k))) (treeRoot combine k (leaves.drop (2 ^ k))) := by
  rw [treeRoot, if_neg (by omega)]

theorem treePath_succ_of_le {k : Nat} {leaves : List α} (index : Nat) (hle : leaves.length ≤ 2 ^ k) :
    treePath combine (k + 1) leaves index = treePath combine k leaves index ++ [treeRoot combine k leaves] := by
  rw [treePath, if_pos hle]

theorem treePath_succ_left {k : Nat} {leaves : List α} {index : Nat} (hlt : 2 ^ k < leaves.length)
    (hindex : index < 2 ^ k) :
    treePath combine (k + 1) leaves index =
      treePath combine k (leaves.take (2 ^ k)) index ++ [treeRoot combine k (leaves.drop (2 ^ k))] := by
  rw [treePath, if_neg (by omega), if_pos hindex]

theorem treePath_succ_right {k : Nat} {leaves : List α} {index : Nat} (hlt : 2 ^ k < leaves.length)
    (hindex : 2 ^ k ≤ index) :
    treePath combine (k + 1) leaves index =
      treePath combine k (leaves.drop (2 ^ k)) (index - 2 ^ k) ++ [treeRoot combine k (leaves.take (2 ^ k))] := by
  rw [treePath, if_neg (by omega), if_neg (by omega)]

/-- One split from the top is one level up from the bottom. -/
theorem treeRoot_succ (k : Nat) :
    ∀ nodes : List α, 0 < nodes.length → nodes.length ≤ 2 ^ (k + 1) →
      treeRoot combine (k + 1) nodes = treeRoot combine k (pairLevel combine nodes) := by
  induction k with
  | zero =>
    intro nodes hpos hle
    match nodes, hpos, hle with
    | [x], _, _ => rfl
    | [x, y], _, _ => rfl
    | _ :: _ :: _ :: _, _, hle => simp at hle
  | succ k ih =>
    intro nodes hpos hle
    have hpow : 2 ^ (k + 1 + 1) = 2 * 2 ^ (k + 1) := pow_succ' 2 (k + 1)
    have hpow' : 2 ^ (k + 1) = 2 * 2 ^ k := pow_succ' 2 k
    have hpaired := length_pairLevel combine nodes
    by_cases hsmall : nodes.length ≤ 2 ^ (k + 1)
    · -- both trees copy their left half
      have hsmall' : (pairLevel combine nodes).length ≤ 2 ^ k := by omega
      rw [treeRoot_succ_of_le combine hsmall, treeRoot_succ_of_le combine hsmall', ih nodes hpos hsmall]
    · -- both trees split, and pairing commutes with the split at an even position
      have hfirst : (nodes.take (2 ^ (k + 1))).length = 2 ^ (k + 1) := by
        rw [List.length_take]
        omega
      have hsecond : (nodes.drop (2 ^ (k + 1))).length = nodes.length - 2 ^ (k + 1) := List.length_drop
      have hsplit : 2 ^ (k + 1) < nodes.length := by omega
      have hsplit' : 2 ^ k < (pairLevel combine nodes).length := by omega
      rw [treeRoot_succ_of_lt combine hsplit, treeRoot_succ_of_lt combine hsplit',
        ih (nodes.take (2 ^ (k + 1))) (by omega) (by omega), ih (nodes.drop (2 ^ (k + 1))) (by omega) (by omega),
        pairLevel_take combine nodes (2 ^ k) (by omega), pairLevel_drop combine nodes (2 ^ k) (by omega), ← hpow']

/-- The root the level-by-level construction reaches: pair levels until one node is left;
no leaves give the default hash. -/
def levelRoot (nodes : List α) : α :=
  if nodes.length ≤ 1 then nodes.headD default
  else levelRoot (pairLevel combine nodes)
termination_by nodes.length
decreasing_by
  rw [length_pairLevel]
  omega

theorem levelRoot_nil : levelRoot combine [] = default := by
  rw [levelRoot, if_pos (by simp)]
  rfl

theorem levelRoot_singleton (leaf : α) : levelRoot combine [leaf] = leaf := by
  rw [levelRoot, if_pos (by simp)]
  rfl

/-- The level-by-level root is the tree of the least height that holds the leaves. -/
theorem levelRoot_eq_treeRoot (k : Nat) :
    ∀ nodes : List α, 0 < nodes.length → nodes.length ≤ 2 ^ k → 2 ^ k < 2 * nodes.length →
      levelRoot combine nodes = treeRoot combine k nodes := by
  induction k with
  | zero =>
    intro nodes hpos hle _
    rw [levelRoot, if_pos (by simpa using hle)]
    rfl
  | succ k ih =>
    intro nodes hpos hle hlt
    have hpow : 2 ^ (k + 1) = 2 * 2 ^ k := pow_succ' 2 k
    have hone : 1 ≤ 2 ^ k := Nat.one_le_two_pow
    have hpaired := length_pairLevel combine nodes
    rw [levelRoot, if_neg (by omega), ih _ (by omega) (by omega) (by omega),
      treeRoot_succ combine k nodes hpos hle]

/-- The siblings of leaf `index` as the level-by-level construction finds them: node
`index ^^^ 1` of each level, or the node itself when that is past the end. -/
def levelBranch (nodes : List α) (index : Nat) : List α :=
  if nodes.length ≤ 1 then []
  else nodes.getD (min (index ^^^ 1) (nodes.length - 1)) default ::
    levelBranch (pairLevel combine nodes) (index / 2)
termination_by nodes.length
decreasing_by
  rw [length_pairLevel]
  omega

/-- The sibling of leaf `index` on the bottom level, then the path one level up. -/
theorem treePath_succ (k : Nat) :
    ∀ (nodes : List α) (index : Nat), nodes.length ≤ 2 ^ (k + 1) → index < nodes.length →
      treePath combine (k + 1) nodes index =
        nodes.getD (min (index ^^^ 1) (nodes.length - 1)) default ::
          treePath combine k (pairLevel combine nodes) (index / 2) := by
  induction k with
  | zero =>
    intro nodes index hle hindex
    match nodes, index, hle, hindex with
    | [x], 0, _, _ => simp [treePath, treeRoot]
    | [x, y], 0, _, _ => simp [treePath, treeRoot]
    | [x, y], 1, _, _ =>
      simp [treePath, treeRoot]
      rfl
    | _ :: _ :: _ :: _, _, hle, _ => simp at hle
  | succ k ih =>
    intro nodes index hle hindex
    have hpow : 2 ^ (k + 1) = 2 * 2 ^ k := pow_succ' 2 k
    have hone : 1 ≤ 2 ^ k := Nat.one_le_two_pow
    have hpaired := length_pairLevel combine nodes
    have hsibling := xor_one_eq index
    by_cases hsmall : nodes.length ≤ 2 ^ (k + 1)
    · -- the right half copies the left one on both sides
      rw [treePath_succ_of_le combine index hsmall, ih nodes index hsmall hindex,
        treePath_succ_of_le combine (index / 2) (show (pairLevel combine nodes).length ≤ 2 ^ k by omega),
        treeRoot_succ combine k nodes (by omega) hsmall, List.cons_append]
    have hsplit : 2 ^ (k + 1) < nodes.length := by omega
    have hsplit' : 2 ^ k < (pairLevel combine nodes).length := by omega
    have hfirst : (nodes.take (2 ^ (k + 1))).length = 2 ^ (k + 1) := by
      rw [List.length_take]
      omega
    have hsecond : (nodes.drop (2 ^ (k + 1))).length = nodes.length - 2 ^ (k + 1) := List.length_drop
    by_cases hleft : index < 2 ^ (k + 1)
    · -- the leaf is in the left half, whose sibling on the bottom level is in it too
      rw [treePath_succ_left combine hsplit hleft, ih _ index (by omega) (by omega),
        treePath_succ_left combine hsplit' (show index / 2 < 2 ^ k by omega),
        treeRoot_succ combine k _ (by omega) (by omega),
        pairLevel_take combine nodes (2 ^ k) (by omega), pairLevel_drop combine nodes (2 ^ k) (by omega), ← hpow,
        List.cons_append, hfirst]
      congr 1
      rw [List.getD_eq_getElem?_getD, List.getD_eq_getElem?_getD, List.getElem?_take, hsibling,
        if_pos (by split_ifs <;> omega)]
      congr 2
      split_ifs <;> omega
    · -- the leaf is in the right half, which starts at an even position
      rw [treePath_succ_right combine hsplit (by omega), ih _ _ (by omega) (by omega),
        treePath_succ_right combine hsplit' (show 2 ^ k ≤ index / 2 by omega),
        treeRoot_succ combine k _ (by omega) (by omega),
        pairLevel_take combine nodes (2 ^ k) (by omega), pairLevel_drop combine nodes (2 ^ k) (by omega), ← hpow,
        List.cons_append, hsecond, xor_one_eq (index - 2 ^ (k + 1)), hsibling]
      congr 1
      · rw [List.getD_eq_getElem?_getD, List.getD_eq_getElem?_getD, List.getElem?_drop]
        congr 2
        split_ifs <;> omega
      · congr 2
        omega

/-- The level-by-level branch is the path in the tree of the least height that holds the
leaves. -/
theorem levelBranch_eq_treePath (k : Nat) :
    ∀ (nodes : List α) (index : Nat), nodes.length ≤ 2 ^ k → 2 ^ k < 2 * nodes.length → index < nodes.length →
      levelBranch combine nodes index = treePath combine k nodes index := by
  induction k with
  | zero =>
    intro nodes index hle _ _
    rw [levelBranch, if_pos (by simpa using hle)]
    rfl
  | succ k ih =>
    intro nodes index hle hlt hindex
    have hpow : 2 ^ (k + 1) = 2 * 2 ^ k := pow_succ' 2 k
    have hone : 1 ≤ 2 ^ k := Nat.one_le_two_pow
    have hpaired := length_pairLevel combine nodes
    rw [levelBranch, if_neg (by omega), ih _ (index / 2) (by omega) (by omega) (by omega),
      treePath_succ combine k nodes index hle hindex]

/-- The tree of height `level` over a block. -/
def blockRoot (leaves : List α) (level start : Nat) : α := treeRoot combine level (block leaves level start)

/-- The path of leaf `index` in the tree over a block. -/
def blockPath (leaves : List α) (level start index : Nat) : List α :=
  treePath combine level (block leaves level start) (index - start)

theorem blockRoot_zero (leaves : List α) (start : Nat) : blockRoot combine leaves 0 start = leaves.getD start default := by
  rw [blockRoot, block, treeRoot_zero, List.getD_eq_getElem?_getD, List.headD_eq_head?_getD, List.head?_take,
    List.head?_drop]
  rfl

/-- A block whose second half holds a leaf is the pair of its halves. -/
theorem blockRoot_merge (leaves : List α) {level start : Nat} (hmerge : start + 2 ^ level < leaves.length) :
    blockRoot combine leaves (level + 1) start =
      combine (blockRoot combine leaves level start) (blockRoot combine leaves level (start + 2 ^ level)) := by
  have hone : 1 ≤ 2 ^ level := Nat.one_le_two_pow
  have hlength : 2 ^ level < (block leaves (level + 1) start).length := by
    rw [length_block, pow_succ]
    omega
  rw [blockRoot, treeRoot_succ_of_lt combine hlength, block_succ_take, block_succ_drop]
  rfl

/-- A block whose second half holds no leaf is its first half paired with itself. -/
theorem blockRoot_dup (leaves : List α) {level start : Nat} (hdup : leaves.length ≤ start + 2 ^ level) :
    blockRoot combine leaves (level + 1) start =
      combine (blockRoot combine leaves level start) (blockRoot combine leaves level start) := by
  have hlength : (block leaves (level + 1) start).length ≤ 2 ^ level := by
    rw [length_block]
    omega
  rw [blockRoot, treeRoot_succ_of_le combine hlength, block_succ_of_le leaves hdup]
  rfl

theorem blockPath_merge_left (leaves : List α) {level start index : Nat}
    (hmerge : start + 2 ^ level < leaves.length) (hindex : index < start + 2 ^ level) :
    blockPath combine leaves (level + 1) start index =
      blockPath combine leaves level start index ++ [blockRoot combine leaves level (start + 2 ^ level)] := by
  have hone : 1 ≤ 2 ^ level := Nat.one_le_two_pow
  have hlength : 2 ^ level < (block leaves (level + 1) start).length := by
    rw [length_block, pow_succ]
    omega
  rw [blockPath, treePath_succ_left combine hlength (by omega), block_succ_take, block_succ_drop]
  rfl

theorem blockPath_merge_right (leaves : List α) {level start index : Nat}
    (hmerge : start + 2 ^ level < leaves.length) (hindex : start + 2 ^ level ≤ index) :
    blockPath combine leaves (level + 1) start index =
      blockPath combine leaves level (start + 2 ^ level) index ++ [blockRoot combine leaves level start] := by
  have hone : 1 ≤ 2 ^ level := Nat.one_le_two_pow
  have hlength : 2 ^ level < (block leaves (level + 1) start).length := by
    rw [length_block, pow_succ]
    omega
  rw [blockPath, treePath_succ_right combine hlength (by omega), block_succ_take, block_succ_drop, blockPath,
    Nat.sub_sub]
  rfl

theorem blockPath_dup (leaves : List α) {level start : Nat} (index : Nat) (hdup : leaves.length ≤ start + 2 ^ level) :
    blockPath combine leaves (level + 1) start index =
      blockPath combine leaves level start index ++ [blockRoot combine leaves level start] := by
  have hlength : (block leaves (level + 1) start).length ≤ 2 ^ level := by
    rw [length_block]
    omega
  rw [blockPath, treePath_succ_of_le combine _ hlength, block_succ_of_le leaves hdup]
  rfl

/-! ## Equal pairs -/

/-- Two adjacent complete blocks of `2 ^ level` leaves, the first starting at a multiple of
`2 ^ (level + 1)`, have trees with the same hash. -/
def HasEqualPair (leaves : List α) : Prop :=
  ∃ level start, 2 ^ (level + 1) ∣ start ∧ start + 2 ^ (level + 1) ≤ leaves.length ∧
    blockRoot combine leaves level start = blockRoot combine leaves level (start + 2 ^ level)

omit [Inhabited α] in
theorem block_take (leaves : List α) {m level start : Nat} (hle : start + 2 ^ level ≤ m) :
    block (leaves.take m) level start = block leaves level start := by
  rw [block, block, List.drop_take, List.take_take, Nat.min_eq_left (by omega)]

omit [Inhabited α] in
theorem block_drop (leaves : List α) (offset level start : Nat) :
    block (leaves.drop offset) level start = block leaves level (offset + start) := by
  rw [block, block, List.drop_drop]

/-- A pair in a prefix is a pair in the list. -/
theorem hasEqualPair_of_take (leaves : List α) (m : Nat) (hpair : HasEqualPair combine (leaves.take m)) :
    HasEqualPair combine leaves := by
  obtain ⟨level, start, hdvd, hle, hequal⟩ := hpair
  have hpow : 2 ^ (level + 1) = 2 * 2 ^ level := pow_succ' 2 level
  rw [List.length_take] at hle
  refine ⟨level, start, hdvd, by omega, ?_⟩
  rw [blockRoot, blockRoot, ← block_take leaves (show start + 2 ^ level ≤ m by omega),
    ← block_take leaves (show start + 2 ^ level + 2 ^ level ≤ m by omega)]
  exact hequal

/-- A pair in the part after the first `2 ^ k` leaves, when that part has at most `2 ^ k`
leaves, is a pair in the list: its alignment divides `2 ^ k`. -/
theorem hasEqualPair_of_drop (leaves : List α) (k : Nat) (hshort : (leaves.drop (2 ^ k)).length ≤ 2 ^ k)
    (hpair : HasEqualPair combine (leaves.drop (2 ^ k))) : HasEqualPair combine leaves := by
  obtain ⟨level, start, hdvd, hle, hequal⟩ := hpair
  have hone : 1 ≤ 2 ^ (level + 1) := Nat.one_le_two_pow
  have hlevel : level + 1 ≤ k :=
    (Nat.pow_le_pow_iff_right (show 1 < 2 by norm_num)).mp (show 2 ^ (level + 1) ≤ 2 ^ k by omega)
  rw [List.length_drop] at hle
  refine ⟨level, 2 ^ k + start, dvd_add (pow_dvd_pow 2 hlevel) hdvd, by omega, ?_⟩
  rw [blockRoot, blockRoot, ← block_drop, Nat.add_assoc, ← block_drop]
  exact hequal

omit [Inhabited α] in
theorem headD_mem {leaves : List α} (hne : leaves ≠ []) (fallback : α) : leaves.headD fallback ∈ leaves := by
  cases leaves with
  | nil => exact absurd rfl hne
  | cons x rest => exact List.mem_cons_self

theorem treeRoot_succ_eq_combine (k : Nat) (leaves : List α) :
    ∃ right, treeRoot combine (k + 1) leaves = combine (treeRoot combine k (leaves.take (2 ^ k))) right := by
  by_cases hle : leaves.length ≤ 2 ^ k
  · exact ⟨_, by rw [treeRoot_succ_of_le combine hle, List.take_of_length_le hle]⟩
  · exact ⟨_, treeRoot_succ_of_lt combine (by omega)⟩

section Collisions

variable {combine}

/-- With leaves that are no hash of a pair, equal trees have equal heights: a tree of height
zero is a leaf, any other one is a hash of a pair, and the left halves have the same tree. -/
theorem height_eq_of_treeRoot_eq (hinj : ∀ a b c d, combine a b = combine c d → a = c ∧ b = d) (k : Nat) :
    ∀ (k' : Nat) (first second : List α), first ≠ [] → second ≠ [] →
      (∀ x ∈ first, ∀ a b, combine a b ≠ x) → (∀ x ∈ second, ∀ a b, combine a b ≠ x) →
      treeRoot combine k first = treeRoot combine k' second → k = k' := by
  induction k with
  | zero =>
    intro k' first second hfirst hsecond hleafFirst _ hroot
    cases k' with
    | zero => rfl
    | succ k' =>
      obtain ⟨right, hright⟩ := treeRoot_succ_eq_combine combine k' second
      rw [treeRoot_zero, hright] at hroot
      exact absurd hroot.symm (hleafFirst _ (headD_mem hfirst default) _ _)
  | succ k ih =>
    intro k' first second hfirst hsecond hleafFirst hleafSecond hroot
    obtain ⟨right, hright⟩ := treeRoot_succ_eq_combine combine k first
    cases k' with
    | zero =>
      rw [treeRoot_zero, hright] at hroot
      exact absurd hroot (hleafSecond _ (headD_mem hsecond default) _ _)
    | succ k' =>
      obtain ⟨right', hright'⟩ := treeRoot_succ_eq_combine combine k' second
      rw [hright, hright'] at hroot
      have htake : ∀ (leaves : List α) (n : Nat), leaves ≠ [] → leaves.take (2 ^ n) ≠ [] := by
        intro leaves n hne
        simp [List.take_eq_nil_iff, hne]
      congr 1
      exact ih k' _ _ (htake first k hfirst) (htake second k' hsecond)
        (fun x hx => hleafFirst x (List.mem_of_mem_take hx)) (fun x hx => hleafSecond x (List.mem_of_mem_take hx))
        (hinj _ _ _ _ hroot).1

/-- Two lists of one length with the same tree are equal. -/
theorem eq_of_treeRoot_eq (hinj : ∀ a b c d, combine a b = combine c d → a = c ∧ b = d) (k : Nat) :
    ∀ first second : List α, first.length = second.length → first.length ≤ 2 ^ k →
      treeRoot combine k first = treeRoot combine k second → first = second := by
  induction k with
  | zero =>
    intro first second hlength hle hroot
    match first, second, hlength, hle with
    | [], [], _, _ => rfl
    | [x], [y], _, _ => exact congrArg (· :: []) hroot
  | succ k ih =>
    intro first second hlength hle hroot
    have hpow : 2 ^ (k + 1) = 2 * 2 ^ k := pow_succ' 2 k
    by_cases hsmall : first.length ≤ 2 ^ k
    · rw [treeRoot_succ_of_le combine hsmall, treeRoot_succ_of_le combine (by omega)] at hroot
      exact ih first second hlength hsmall (hinj _ _ _ _ hroot).1
    · rw [treeRoot_succ_of_lt combine (by omega), treeRoot_succ_of_lt combine (by omega)] at hroot
      obtain ⟨hleft, hright⟩ := hinj _ _ _ _ hroot
      rw [← List.take_append_drop (2 ^ k) first, ← List.take_append_drop (2 ^ k) second,
        ih _ _ (by simp [hlength]) (by simp) hleft, ih _ _ (by simp [hlength]) (by simp; omega) hright]

/-- Two lists of different lengths with the same tree of one height: the shorter or the
longer one has an equal pair. -/
theorem hasEqualPair_of_treeRoot_eq (hinj : ∀ a b c d, combine a b = combine c d → a = c ∧ b = d) (k : Nat) :
    ∀ shorter longer : List α, 0 < shorter.length → shorter.length < longer.length → longer.length ≤ 2 ^ k →
      treeRoot combine k shorter = treeRoot combine k longer →
        HasEqualPair combine shorter ∨ HasEqualPair combine longer := by
  induction k with
  | zero =>
    intro shorter longer hpos hlt hle _
    simp at hle
    omega
  | succ k ih =>
    intro shorter longer hpos hlt hle hroot
    have hone : 1 ≤ 2 ^ k := Nat.one_le_two_pow
    have hpow : 2 ^ (k + 1) = 2 * 2 ^ k := pow_succ' 2 k
    by_cases hlonger : longer.length ≤ 2 ^ k
    · -- both copy their left half: the same trees one level down
      rw [treeRoot_succ_of_le combine (show shorter.length ≤ 2 ^ k by omega),
        treeRoot_succ_of_le combine hlonger] at hroot
      exact ih shorter longer hpos hlt hlonger (hinj _ _ _ _ hroot).1
    have hfirst : (longer.take (2 ^ k)).length = 2 ^ k := by
      rw [List.length_take]
      omega
    have hsecond : (longer.drop (2 ^ k)).length = longer.length - 2 ^ k := List.length_drop
    rw [treeRoot_succ_of_lt combine (show 2 ^ k < longer.length by omega)] at hroot
    by_cases hshorter : shorter.length ≤ 2 ^ k
    · rw [treeRoot_succ_of_le combine hshorter] at hroot
      obtain ⟨hleft, hright⟩ := hinj _ _ _ _ hroot
      rcases Nat.lt_or_eq_of_le hshorter with hsmall | hfull
      · -- the shorter list is less than the longer one's complete left half
        rcases ih shorter (longer.take (2 ^ k)) hpos (by omega) (by omega) hleft with hpair | hpair
        · exact .inl hpair
        · exact .inr (hasEqualPair_of_take combine longer _ hpair)
      · rcases Nat.lt_or_eq_of_le (show (longer.drop (2 ^ k)).length ≤ 2 ^ k by omega) with hpart | hwhole
        · -- the longer list's right half is shorter than its left one and has the same tree
          rcases ih (longer.drop (2 ^ k)) (longer.take (2 ^ k)) (by omega) (by omega) (by omega)
              (hright.symm.trans hleft) with hpair | hpair
          · exact .inr (hasEqualPair_of_drop combine longer k (by omega) hpair)
          · exact .inr (hasEqualPair_of_take combine longer _ hpair)
        · -- two complete halves with the same tree: an equal pair at the top
          refine .inr ⟨k, 0, dvd_zero _, by omega, ?_⟩
          rw [blockRoot, blockRoot, block, block, List.drop_zero, Nat.zero_add,
            List.take_of_length_le (show (longer.drop (2 ^ k)).length ≤ 2 ^ k by omega)]
          exact hleft.symm.trans hright
    · -- both split: the right halves have the same tree
      rw [treeRoot_succ_of_lt combine (show 2 ^ k < shorter.length by omega)] at hroot
      have hright := (hinj _ _ _ _ hroot).2
      rcases ih (shorter.drop (2 ^ k)) (longer.drop (2 ^ k)) (by simp; omega) (by simp; omega) (by simp; omega)
          hright with hpair | hpair
      · exact .inl (hasEqualPair_of_drop combine shorter k (by simp; omega) hpair)
      · exact .inr (hasEqualPair_of_drop combine longer k (by omega) hpair)

end Collisions

/-- Every positive number of leaves has a least height: `n ≤ 2 ^ k < 2 * n`. -/
theorem exists_height {n : Nat} (hn : 0 < n) : ∃ k, n ≤ 2 ^ k ∧ 2 ^ k < 2 * n := by
  refine ⟨Nat.clog 2 n, Nat.le_pow_clog (by norm_num) n, ?_⟩
  rcases Nat.lt_or_eq_of_le (show 1 ≤ n from hn) with hbig | hone
  · have hpred := Nat.pow_pred_clog_lt_self (b := 2) (by norm_num) hbig
    have hpos : 0 < Nat.clog 2 n := Nat.clog_pos (by norm_num) hbig
    have hsucc : Nat.clog 2 n = (Nat.clog 2 n).pred + 1 := (Nat.succ_pred_eq_of_pos hpos).symm
    rw [hsucc, pow_succ]
    omega
  · subst hone
    simp

/-- Two different non-empty lists of leaves with the same level-by-level root, where the hash
of a pair is injective and never a leaf of either list: one of them has an equal pair. -/
theorem hasEqualPair_of_levelRoot_eq (hinj : ∀ a b c d, combine a b = combine c d → a = c ∧ b = d)
    {first second : List α} (hfirst : first ≠ []) (hsecond : second ≠ []) (hne : first ≠ second)
    (hleafFirst : ∀ x ∈ first, ∀ a b, combine a b ≠ x) (hleafSecond : ∀ x ∈ second, ∀ a b, combine a b ≠ x)
    (hroot : levelRoot combine first = levelRoot combine second) :
    HasEqualPair combine first ∨ HasEqualPair combine second := by
  have hposFirst := List.length_pos_iff.mpr hfirst
  have hposSecond := List.length_pos_iff.mpr hsecond
  obtain ⟨k, hle, hlt⟩ := exists_height hposFirst
  obtain ⟨k', hle', hlt'⟩ := exists_height hposSecond
  rw [levelRoot_eq_treeRoot combine k first hposFirst hle hlt,
    levelRoot_eq_treeRoot combine k' second hposSecond hle' hlt'] at hroot
  obtain rfl := height_eq_of_treeRoot_eq hinj k k' first second hfirst hsecond hleafFirst hleafSecond hroot
  rcases lt_trichotomy first.length second.length with hshorter | hsame | hlonger
  · exact hasEqualPair_of_treeRoot_eq hinj k first second hposFirst hshorter hle' hroot
  · exact absurd (eq_of_treeRoot_eq hinj k first second hsame hle hroot) hne
  · exact (hasEqualPair_of_treeRoot_eq hinj k second first hposSecond hlonger hle hroot.symm).symm

end Tree

end UnitedBitcoin.Library
