import Mathlib
import UnitedBitcoin.Library.BitPack
import UnitedBitcoin.Library.DupMerkle
import UnitedBitcoin.Consensus.Merkle
import UnitedBitcoin.Validation.CheckBlock

/-!
# Partial merkle trees

`CPartialMerkleTree` of `merkleblock.cpp`: the proof that some transactions are in a block,
as `gettxoutproof` writes it and `verifytxoutproof` and `importprunedfunds` read it. The
constructor walks the merkle tree depth first; on each node it stores one flag bit, whether a
matched transaction lies below, and it stores the node's hash where it stops: at a leaf, or
where nothing below is matched. `ExtractMatches` walks the same tree from the bits and hashes
alone, recomputes the root, and collects the matched transactions with their positions.

The tree is the one of `Library.DupMerkle`: the node `pos` at `height` is `blockRoot` of the
`2 ^ height` transactions from `pos * 2 ^ height`, and `CalcTreeWidth` counts the nodes of a
level. `Hash` of two `uint256` is the parameter `hash`, `uint256()` is `default`. An `assert`
that fails and an index past the end of a vector are `none`.

The serialized form stores `nTransactions`, `vHash` and the bits packed eight to a byte
(`Library.BitPack`); reading it back pads the bits to whole bytes and clears `fBad`.

* `nodeEncoding_of_lt` is the invariant of both traversals: the bits and hashes that
  `TraverseAndBuild` writes for a node, read back by `TraverseAndExtract` from any position,
  give the node's hash and the matched transactions below it.
* `extractMatches_construct` reads a constructed tree back: the root is the block's
  `levelRoot` and the matches are the transactions the mask selects, in order, when no node on
  the way has two children with the same hash.
-/

namespace UnitedBitcoin.PartialMerkle

open UnitedBitcoin.Library
open UnitedBitcoin.Validation (ConsensusParams maxBlockSize maxUInt64)

/-- `MIN_TRANSACTION_WEIGHT`: `WITNESS_SCALE_FACTOR * 60`. -/
def minTransactionWeight : Nat := 4 * 60

section Model

variable {α : Type} (hash : α → α → α)

/-- `CPartialMerkleTree`. -/
structure CPartialMerkleTree (α : Type) where
  nTransactions : Nat
  /-- Node-is-parent-of-matched-txid bits. -/
  vBits : List Bool
  /-- Txids and internal hashes. -/
  vHash : List α
  /-- Set when `TraverseAndExtract` meets invalid data. -/
  fBad : Bool
  deriving Repr

/-- `CPartialMerkleTree::CalcTreeWidth`: the number of nodes at `height`. -/
def calcTreeWidth (nTransactions height : Nat) : Nat :=
  (nTransactions + (1 <<< height) - 1) >>> height

/-- `CPartialMerkleTree::CalcHash`: the hash of node `pos` at `height`, a missing right child
replaced by the left one. Every path ends at height `0`, where an empty `vTxid` (the `assert`)
and a position past its end are both `none`. -/
def calcHash (nTransactions : Nat) (vTxid : List α) : Nat → Nat → Option α
  | 0, pos => vTxid[pos]?
  | height + 1, pos => do
    let left ← calcHash nTransactions vTxid height (pos * 2)
    let right ← if pos * 2 + 1 < calcTreeWidth nTransactions height then
        calcHash nTransactions vTxid height (pos * 2 + 1)
      else pure left
    pure (hash left right)

/-- The loop at the start of `TraverseAndBuild`: `fParentOfMatch |= vMatch[p]` over the
transactions `p` below node `pos` at `height`. -/
def parentOfMatch (nTransactions : Nat) (vMatch : List Bool) (height pos : Nat) : Option Bool :=
  (List.range' (pos <<< height) (min ((pos + 1) <<< height) nTransactions - pos <<< height)).foldlM
    (fun fParentOfMatch p => (fParentOfMatch || ·) <$> vMatch[p]?) false

/-- `CPartialMerkleTree::TraverseAndBuild`: the flag bit of node `pos` at `height`, then its
hash where the walk stops (height `0`, or no match below) and both subtrees where it descends. -/
def traverseAndBuild (vTxid : List α) (vMatch : List Bool) :
    Nat → Nat → CPartialMerkleTree α → Option (CPartialMerkleTree α)
  | 0, pos, tree => do
    let fParentOfMatch ← parentOfMatch tree.nTransactions vMatch 0 pos
    let h ← calcHash hash tree.nTransactions vTxid 0 pos
    pure { tree with vBits := tree.vBits ++ [fParentOfMatch], vHash := tree.vHash ++ [h] }
  | height + 1, pos, tree => do
    let fParentOfMatch ← parentOfMatch tree.nTransactions vMatch (height + 1) pos
    let flagged := { tree with vBits := tree.vBits ++ [fParentOfMatch] }
    if fParentOfMatch then
      let left ← traverseAndBuild vTxid vMatch height (pos * 2) flagged
      if pos * 2 + 1 < calcTreeWidth tree.nTransactions height then
        traverseAndBuild vTxid vMatch height (pos * 2 + 1) left
      else pure left
    else
      let h ← calcHash hash tree.nTransactions vTxid (height + 1) pos
      pure { flagged with vHash := flagged.vHash ++ [h] }

/-- `CPartialMerkleTree::TraverseAndExtract` takes `nBitsUsed`, `nHashUsed`, `vMatch` and
`vnIndex` by reference and may set the member `fBad`. -/
structure ExtractState (α : Type) where
  nBitsUsed : Nat
  nHashUsed : Nat
  vMatch : List α
  vnIndex : List Nat
  fBad : Bool
  deriving Repr

variable [Inhabited α]

/-- The branch of `TraverseAndExtract` that uses the next stored hash: a matched transaction
when `fMatched` (height `0` with its flag set). -/
def useHash (tree : CPartialMerkleTree α) (pos : Nat) (fMatched : Bool) (s : ExtractState α) :
    α × ExtractState α :=
  match tree.vHash[s.nHashUsed]? with
  | none => (default, { s with fBad := true })
  | some h =>
    let s := { s with nHashUsed := s.nHashUsed + 1 }
    if fMatched then (h, { s with vMatch := s.vMatch ++ [h], vnIndex := s.vnIndex ++ [pos] }) else (h, s)

variable [DecidableEq α]

/-- `CPartialMerkleTree::TraverseAndExtract`: the hash of node `pos` at `height`, read from the
next flag bit and hashes. Where the bits or the hashes run out it raises `fBad` and goes on with
`uint256()`; two children with the same hash raise it too. -/
def traverseAndExtract (tree : CPartialMerkleTree α) : Nat → Nat → ExtractState α → α × ExtractState α
  | 0, pos, s =>
    match tree.vBits[s.nBitsUsed]? with
    | none => (default, { s with fBad := true })
    | some fParentOfMatch => useHash tree pos fParentOfMatch { s with nBitsUsed := s.nBitsUsed + 1 }
  | height + 1, pos, s =>
    match tree.vBits[s.nBitsUsed]? with
    | none => (default, { s with fBad := true })
    | some false => useHash tree pos false { s with nBitsUsed := s.nBitsUsed + 1 }
    | some true =>
      let (left, s) := traverseAndExtract tree height (pos * 2) { s with nBitsUsed := s.nBitsUsed + 1 }
      if pos * 2 + 1 < calcTreeWidth tree.nTransactions height then
        let (right, s) := traverseAndExtract tree height (pos * 2 + 1) s
        (hash left right, if right = left then { s with fBad := true } else s)
      else (hash left left, s)

end Model

section Width

variable {n height p : Nat}

theorem calcTreeWidth_eq (n height : Nat) : calcTreeWidth n height = (n + 2 ^ height - 1) / 2 ^ height := by
  rw [calcTreeWidth, Nat.one_shiftLeft, Nat.shiftRight_eq_div_pow]

/-- Node `p` exists at `height` when its first transaction does. -/
theorem lt_calcTreeWidth_iff : p < calcTreeWidth n height ↔ p * 2 ^ height < n := by
  have hpos : 0 < 2 ^ height := Nat.two_pow_pos height
  rw [calcTreeWidth_eq, ← Nat.add_one_le_iff, Nat.le_div_iff_mul_le hpos, Nat.add_mul, one_mul]
  omega

end Width

/-- The loop `while (CalcTreeWidth(nHeight) > 1) nHeight++` of the constructor and of
`ExtractMatches`, from `nHeight`. It stops once `2 ^ nHeight` reaches `nTransactions`. -/
def treeHeightFrom (nTransactions nHeight : Nat) : Nat :=
  if hwide : calcTreeWidth nTransactions nHeight > 1 then treeHeightFrom nTransactions (nHeight + 1)
  else nHeight
termination_by nTransactions - nHeight
decreasing_by
  have hlt : 1 * 2 ^ nHeight < nTransactions := lt_calcTreeWidth_iff.mp hwide
  have hpow : nHeight < 2 ^ nHeight := Nat.lt_two_pow_self
  omega

/-- The loop stops at the least height that holds every transaction: the height of
`levelRoot_eq_treeRoot`. -/
theorem treeHeightFrom_spec {n : Nat} (hn : 0 < n) (nHeight : Nat) (hstart : nHeight = 0 ∨ 2 ^ (nHeight - 1) < n) :
    n ≤ 2 ^ treeHeightFrom n nHeight ∧ 2 ^ treeHeightFrom n nHeight < 2 * n := by
  fun_induction treeHeightFrom n nHeight with
  | case1 nHeight hwide ih =>
    -- one more level: this one had two nodes, so `2 ^ nHeight < n`
    have hlt : 1 * 2 ^ nHeight < n := lt_calcTreeWidth_iff.mp hwide
    exact ih (.inr (by simpa using hlt))
  | case2 nHeight hnarrow =>
    have hle : n ≤ 1 * 2 ^ nHeight := Nat.le_of_not_lt fun hlt => hnarrow (lt_calcTreeWidth_iff.mpr hlt)
    refine ⟨by simpa using hle, ?_⟩
    rcases hstart with rfl | hbelow
    · simp only [pow_zero]
      omega
    · have hpow : 2 ^ nHeight = 2 * 2 ^ (nHeight - 1) := by
        rcases Nat.eq_zero_or_pos nHeight with rfl | hpos
        · simp at hbelow ⊢
          omega
        · rw [← pow_succ', Nat.sub_add_cancel hpos]
      omega

section Extract

variable {α : Type} (hash : α → α → α)

/-- `CPartialMerkleTree(vTxid, vMatch)`: the walk from the root, at the least height whose one
node covers every transaction. -/
def CPartialMerkleTree.construct (vTxid : List α) (vMatch : List Bool) : Option (CPartialMerkleTree α) :=
  traverseAndBuild hash vTxid vMatch (treeHeightFrom vTxid.length 0) 0 ⟨vTxid.length, [], [], false⟩

variable [Inhabited α] [DecidableEq α]

/-- `CPartialMerkleTree::ExtractMatches`: the root, or `uint256()` on failure, with what the
walk left in `vMatch` (cleared first) and `vnIndex` (not cleared), and the tree with its `fBad`. -/
def extractMatches (params : ConsensusParams) (tree : CPartialMerkleTree α) (vnIndex : List Nat) :
    α × List α × List Nat × CPartialMerkleTree α :=
  if tree.nTransactions = 0 then (default, [], vnIndex, tree)
  -- check for excessively high numbers of transactions
  else if maxBlockSize params maxUInt64 / minTransactionWeight < tree.nTransactions then (default, [], vnIndex, tree)
  -- there can never be more hashes provided than one for every txid
  else if tree.nTransactions < tree.vHash.length then (default, [], vnIndex, tree)
  -- there must be at least one bit per node in the partial tree, and at least one node per hash
  else if tree.vBits.length < tree.vHash.length then (default, [], vnIndex, tree)
  else
    let (hashMerkleRoot, s) :=
      traverseAndExtract hash tree (treeHeightFrom tree.nTransactions 0) 0 ⟨0, 0, [], vnIndex, tree.fBad⟩
    let tree := { tree with fBad := s.fBad }
    if s.fBad then (default, s.vMatch, s.vnIndex, tree)
    -- all bits consumed, but for the padding of the last byte
    else if (s.nBitsUsed + 7) / 8 ≠ (tree.vBits.length + 7) / 8 then (default, s.vMatch, s.vnIndex, tree)
    else if s.nHashUsed ≠ tree.vHash.length then (default, s.vMatch, s.vnIndex, tree)
    else (hashMerkleRoot, s.vMatch, s.vnIndex, tree)

end Extract

section Hash

variable {α : Type} [Inhabited α] (hash : α → α → α) (vTxid : List α)

/-- A node is the hash of its two children, the left one paired with itself where the right
one would start past the last transaction. -/
theorem blockRoot_node (height pos : Nat) :
    blockRoot hash vTxid (height + 1) (pos * 2 ^ (height + 1)) =
      hash (blockRoot hash vTxid height (pos * 2 * 2 ^ height))
        (if pos * 2 + 1 < calcTreeWidth vTxid.length height then
          blockRoot hash vTxid height ((pos * 2 + 1) * 2 ^ height)
        else blockRoot hash vTxid height (pos * 2 * 2 ^ height)) := by
  have hstart : pos * 2 ^ (height + 1) = pos * 2 * 2 ^ height := by rw [pow_succ]; ring
  have hright : (pos * 2 + 1) * 2 ^ height = pos * 2 * 2 ^ height + 2 ^ height := by ring
  rw [hstart]
  split_ifs with hwidth
  · rw [lt_calcTreeWidth_iff, hright] at hwidth
    rw [blockRoot_merge hash vTxid hwidth, hright]
  · rw [lt_calcTreeWidth_iff, hright, not_lt] at hwidth
    exact blockRoot_dup hash vTxid hwidth

/-- `CalcHash` of every node of the tree is its `blockRoot`. The induction is on the height. -/
theorem calcHash_eq : ∀ (height pos : Nat), pos * 2 ^ height < vTxid.length →
    calcHash hash vTxid.length vTxid height pos = some (blockRoot hash vTxid height (pos * 2 ^ height))
  | 0, pos, hpos => by
    rw [pow_zero, mul_one] at hpos ⊢
    rw [calcHash, blockRoot_zero, List.getD_eq_getElem?_getD, List.getElem?_eq_getElem hpos, Option.getD_some]
  | height + 1, pos, hpos => by
    have hleft : pos * 2 * 2 ^ height < vTxid.length := by rwa [pow_succ, ← mul_assoc, mul_right_comm] at hpos
    rw [calcHash, calcHash_eq height (pos * 2) hleft, blockRoot_node]
    split_ifs with hwidth
    · rw [calcHash_eq height (pos * 2 + 1) (lt_calcTreeWidth_iff.mp hwidth)]
      rfl
    · rfl

/-- The root node of the walk is the level-by-level root of the transactions. -/
theorem blockRoot_treeHeightFrom (hpos : 0 < vTxid.length) :
    blockRoot hash vTxid (treeHeightFrom vTxid.length 0) 0 = levelRoot hash vTxid := by
  obtain ⟨hle, hlt⟩ := treeHeightFrom_spec hpos 0 (.inl rfl)
  rw [blockRoot, block_zero_of_le vTxid hle, levelRoot_eq_treeRoot hash _ vTxid hpos hle hlt]

end Hash

section Matches

variable (vMatch : List Bool)

/-- The matched transactions below node `pos` at `height`, in order. -/
def matchedUnder (height pos : Nat) : List Nat :=
  (List.range' (pos * 2 ^ height) (2 ^ height)).filter (vMatch.getD · false)

theorem matchedUnder_zero (pos : Nat) : matchedUnder vMatch 0 pos = if vMatch.getD pos false then [pos] else [] := by
  simp [matchedUnder, List.filter_cons]

theorem matchedUnder_succ (height pos : Nat) :
    matchedUnder vMatch (height + 1) pos = matchedUnder vMatch height (pos * 2) ++ matchedUnder vMatch height (pos * 2 + 1) := by
  have hstart : pos * 2 ^ (height + 1) = pos * 2 * 2 ^ height := by rw [pow_succ]; ring
  have hright : (pos * 2 + 1) * 2 ^ height = pos * 2 * 2 ^ height + 1 * 2 ^ height := by ring
  have hsize : 2 ^ (height + 1) = 2 ^ height + 2 ^ height := by rw [pow_succ]; ring
  rw [matchedUnder, matchedUnder, matchedUnder, ← List.filter_append, hright, List.range'_append, hstart, hsize]

/-- Past the last transaction nothing is matched. -/
theorem matchedUnder_of_le {height pos : Nat} (hle : vMatch.length ≤ pos * 2 ^ height) :
    matchedUnder vMatch height pos = [] := by
  rw [matchedUnder, List.filter_eq_nil_iff]
  intro p hp
  rw [List.mem_range'_1] at hp
  rw [List.getD_eq_default _ _ (by omega)]
  decide

/-- The whole tree's matches are the positions the mask selects. -/
theorem matchedUnder_top {height : Nat} (hle : vMatch.length ≤ 2 ^ height) :
    matchedUnder vMatch height 0 = (List.range vMatch.length).filter (vMatch.getD · false) := by
  have hsplit : List.range' 0 (2 ^ height) = List.range vMatch.length ++ List.range' vMatch.length (2 ^ height - vMatch.length) := by
    have happend := @List.range'_append 0 vMatch.length (2 ^ height - vMatch.length) 1
    rw [Nat.zero_add, one_mul, Nat.add_sub_cancel' hle] at happend
    rw [List.range_eq_range', happend]
  have hpast : (List.range' vMatch.length (2 ^ height - vMatch.length)).filter (vMatch.getD · false) = [] := by
    rw [List.filter_eq_nil_iff]
    intro p hp
    rw [List.mem_range'_1] at hp
    rw [List.getD_eq_default _ _ (by omega)]
    decide
  rw [matchedUnder, zero_mul, hsplit, List.filter_append, hpast, List.append_nil]

/-- The `|=` loop, over positions inside `vMatch`, is an `any`. -/
theorem foldlM_parentOfMatch : ∀ (ps : List Nat) (acc : Bool), (∀ p ∈ ps, p < vMatch.length) →
    ps.foldlM (fun fParentOfMatch p => (fParentOfMatch || ·) <$> vMatch[p]?) acc =
      some (acc || ps.any (vMatch.getD · false))
  | [], acc, _ => by simp
  | p :: ps, acc, hps => by
    have hp : p < vMatch.length := hps p List.mem_cons_self
    have ih := foldlM_parentOfMatch ps (acc || vMatch[p]) fun q hq => hps q (List.mem_cons_of_mem p hq)
    rw [List.foldlM_cons, List.getElem?_eq_getElem hp]
    simp only [Option.bind_eq_bind, Option.map_some, Option.bind_some, Functor.map] at ih ⊢
    rw [ih]
    simp [List.getD_eq_getElem?_getD, List.getElem?_eq_getElem hp, Bool.or_assoc]

/-- The positions the loop reads are those below the node that hold a transaction; past them the
mask selects nothing. -/
theorem filter_range'_min {start count : Nat} :
    (List.range' start count).filter (vMatch.getD · false) =
      (List.range' start (min (start + count) vMatch.length - start)).filter (vMatch.getD · false) := by
  have hsplit : List.range' start count = List.range' start (min (start + count) vMatch.length - start) ++
      List.range' (start + 1 * (min (start + count) vMatch.length - start)) (count - (min (start + count) vMatch.length - start)) := by
    rw [List.range'_append]
    congr 1
    omega
  have hpast : (List.range' (start + 1 * (min (start + count) vMatch.length - start))
      (count - (min (start + count) vMatch.length - start))).filter (vMatch.getD · false) = [] := by
    rw [List.filter_eq_nil_iff]
    intro p hp
    rw [List.mem_range'_1] at hp
    rw [List.getD_eq_default _ _ (by omega)]
    decide
  rw [hsplit, List.filter_append, hpast, List.append_nil]

theorem any_eq_not_isEmpty_filter (l : List Nat) (f : Nat → Bool) : l.any f = !(l.filter f).isEmpty := by
  cases hany : l.any f
  · rw [List.any_eq_false] at hany
    simp [List.filter_eq_nil_iff.mpr hany]
  · obtain ⟨p, hp, hfp⟩ := List.any_eq_true.mp hany
    have hne : l.filter f ≠ [] := List.ne_nil_of_mem (List.mem_filter.mpr ⟨hp, hfp⟩)
    simp [hne]

/-- The flag `TraverseAndBuild` stores: whether anything below the node is matched. -/
theorem parentOfMatch_eq (height pos : Nat) :
    parentOfMatch vMatch.length vMatch height pos = some !(matchedUnder vMatch height pos).isEmpty := by
  have hbounds : ∀ p ∈ List.range' (pos * 2 ^ height) (min (pos * 2 ^ height + 2 ^ height) vMatch.length - pos * 2 ^ height),
      p < vMatch.length := by
    intro p hp
    rw [List.mem_range'_1] at hp
    omega
  have hnext : (pos + 1) * 2 ^ height = pos * 2 ^ height + 2 ^ height := by ring
  rw [parentOfMatch, Nat.shiftLeft_eq, Nat.shiftLeft_eq, hnext, foldlM_parentOfMatch vMatch _ _ hbounds,
    Bool.false_or, any_eq_not_isEmpty_filter, ← filter_range'_min, matchedUnder]

end Matches

section Cursor

/-! Reading an array from a position: `l <+: xs.drop i` says that `l` stands in `xs` from `i`. -/

variable {β : Type} {xs l l₁ l₂ : List β} {x : β} {i : Nat}

theorem getElem?_of_cons_drop (h : x :: l <+: xs.drop i) : xs[i]? = some x := by
  obtain ⟨t, ht⟩ := h
  have hzero := congrArg (·[0]?) ht
  simpa [List.getElem?_drop] using hzero.symm

theorem prefix_drop_succ (h : x :: l <+: xs.drop i) : l <+: xs.drop (i + 1) := by
  obtain ⟨t, ht⟩ := h
  refine ⟨t, ?_⟩
  rw [← List.drop_drop, ← ht]
  rfl

theorem prefix_drop_left (h : l₁ ++ l₂ <+: xs.drop i) : l₁ <+: xs.drop i :=
  (List.prefix_append l₁ l₂).trans h

theorem prefix_drop_right (h : l₁ ++ l₂ <+: xs.drop i) : l₂ <+: xs.drop (i + l₁.length) := by
  obtain ⟨t, ht⟩ := h
  refine ⟨t, ?_⟩
  rw [← List.drop_drop, ← ht, List.append_assoc, List.drop_left]

end Cursor

section Steps

/-! One lemma for each way a node is walked: at height `0`, where the walk stops above a leaf,
and where it descends. -/

variable {α : Type} (hash : α → α → α) {vTxid : List α} {vMatch : List Bool} {tree : CPartialMerkleTree α}
  {height pos : Nat}

theorem traverseAndBuild_zero {b : Bool} {h : α} (hflag : parentOfMatch tree.nTransactions vMatch 0 pos = some b)
    (hhash : calcHash hash tree.nTransactions vTxid 0 pos = some h) :
    traverseAndBuild hash vTxid vMatch 0 pos tree =
      some { tree with vBits := tree.vBits ++ [b], vHash := tree.vHash ++ [h] } := by
  rw [traverseAndBuild, hflag, hhash]
  rfl

theorem traverseAndBuild_stop {h : α} (hflag : parentOfMatch tree.nTransactions vMatch (height + 1) pos = some false)
    (hhash : calcHash hash tree.nTransactions vTxid (height + 1) pos = some h) :
    traverseAndBuild hash vTxid vMatch (height + 1) pos tree =
      some { tree with vBits := tree.vBits ++ [false], vHash := tree.vHash ++ [h] } := by
  rw [traverseAndBuild, hflag]
  simp only [Option.bind_eq_bind, Option.bind_some, Bool.false_eq_true, if_false]
  rw [hhash]
  rfl

theorem traverseAndBuild_descend (hflag : parentOfMatch tree.nTransactions vMatch (height + 1) pos = some true) :
    traverseAndBuild hash vTxid vMatch (height + 1) pos tree =
      (traverseAndBuild hash vTxid vMatch height (pos * 2) { tree with vBits := tree.vBits ++ [true] }).bind
        fun left => if pos * 2 + 1 < calcTreeWidth tree.nTransactions height then
          traverseAndBuild hash vTxid vMatch height (pos * 2 + 1) left
        else some left := by
  rw [traverseAndBuild, hflag]
  rfl

variable [Inhabited α] {s : ExtractState α}

theorem useHash_of_getElem? {fMatched : Bool} {h : α} (hhash : tree.vHash[s.nHashUsed]? = some h) :
    useHash tree pos fMatched s =
      (h, { s with
        nHashUsed := s.nHashUsed + 1
        vMatch := s.vMatch ++ (if fMatched then [h] else [])
        vnIndex := s.vnIndex ++ (if fMatched then [pos] else []) }) := by
  cases fMatched <;> simp [useHash, hhash]

variable [DecidableEq α]

theorem traverseAndExtract_zero {b : Bool} (hbit : tree.vBits[s.nBitsUsed]? = some b) :
    traverseAndExtract hash tree 0 pos s = useHash tree pos b { s with nBitsUsed := s.nBitsUsed + 1 } := by
  rw [traverseAndExtract, hbit]

theorem traverseAndExtract_stop (hbit : tree.vBits[s.nBitsUsed]? = some false) :
    traverseAndExtract hash tree (height + 1) pos s = useHash tree pos false { s with nBitsUsed := s.nBitsUsed + 1 } := by
  rw [traverseAndExtract, hbit]

theorem traverseAndExtract_descend (hbit : tree.vBits[s.nBitsUsed]? = some true) :
    traverseAndExtract hash tree (height + 1) pos s =
      let (left, s) := traverseAndExtract hash tree height (pos * 2) { s with nBitsUsed := s.nBitsUsed + 1 }
      if pos * 2 + 1 < calcTreeWidth tree.nTransactions height then
        let (right, s) := traverseAndExtract hash tree height (pos * 2 + 1) s
        (hash left right, if right = left then { s with fBad := true } else s)
      else (hash left left, s) := by
  rw [traverseAndExtract, hbit]

end Steps

section Encoding

variable {α : Type} [Inhabited α] [DecidableEq α] (hash : α → α → α) (vTxid : List α) (vMatch : List Bool)

/-- Two sibling nodes of the tree over `vTxid` with the same hash, the right one holding a
transaction: what `TraverseAndExtract` rejects where it meets them. -/
def HasEqualSiblings : Prop :=
  ∃ height pos, pos * 2 + 1 < calcTreeWidth vTxid.length height ∧
    blockRoot hash vTxid height (pos * 2 * 2 ^ height) = blockRoot hash vTxid height ((pos * 2 + 1) * 2 ^ height)

/-- The flag bits and hashes that `TraverseAndBuild` writes for node `pos` at `height`, and what
`TraverseAndExtract` reads back from them wherever they stand in the two arrays: the node's
hash, with the matched transactions below it appended to `vMatch` and `vnIndex`. -/
structure NodeEncoding (height pos : Nat) (bits : List Bool) (hashes : List α) : Prop where
  hashes_le_bits : hashes.length ≤ bits.length
  hashes_le_leaves : hashes.length ≤ min (2 ^ height) (vTxid.length - pos * 2 ^ height)
  build : ∀ tree : CPartialMerkleTree α, tree.nTransactions = vTxid.length →
    traverseAndBuild hash vTxid vMatch height pos tree =
      some { tree with vBits := tree.vBits ++ bits, vHash := tree.vHash ++ hashes }
  extract : ∀ (tree : CPartialMerkleTree α) (s : ExtractState α), tree.nTransactions = vTxid.length →
    bits <+: tree.vBits.drop s.nBitsUsed → hashes <+: tree.vHash.drop s.nHashUsed →
    traverseAndExtract hash tree height pos s =
      (blockRoot hash vTxid height (pos * 2 ^ height),
        { s with
          nBitsUsed := s.nBitsUsed + bits.length
          nHashUsed := s.nHashUsed + hashes.length
          vMatch := s.vMatch ++ (matchedUnder vMatch height pos).map (vTxid.getD · default)
          vnIndex := s.vnIndex ++ matchedUnder vMatch height pos })

variable {vTxid vMatch} (hlength : vMatch.length = vTxid.length)
include hlength

/-- A leaf: its mask bit and its txid. -/
theorem nodeEncoding_leaf {pos : Nat} (hpos : pos < vTxid.length) :
    NodeEncoding hash vTxid vMatch 0 pos [vMatch.getD pos false] [vTxid.getD pos default] where
  hashes_le_bits := le_refl _
  hashes_le_leaves := by
    simp only [List.length_singleton, pow_zero, mul_one]
    omega
  build tree htree := by
    have hflag := parentOfMatch_eq vMatch 0 pos
    have hhash := calcHash_eq hash vTxid 0 pos (by simpa using hpos)
    rw [hlength, ← htree, matchedUnder_zero] at hflag
    rw [← htree, pow_zero, mul_one, blockRoot_zero] at hhash
    rw [traverseAndBuild_zero hash hflag hhash]
    cases vMatch.getD pos false <;> rfl
  extract tree s htree hbits hhashes := by
    rw [traverseAndExtract_zero hash (getElem?_of_cons_drop hbits),
      useHash_of_getElem? (s := { s with nBitsUsed := s.nBitsUsed + 1 }) (getElem?_of_cons_drop hhashes), matchedUnder_zero, pow_zero, mul_one, blockRoot_zero]
    cases vMatch.getD pos false <;> simp

/-- A node with nothing matched below: a clear flag and the node's hash. -/
theorem nodeEncoding_stop {height pos : Nat} (hpos : pos * 2 ^ (height + 1) < vTxid.length)
    (hnone : matchedUnder vMatch (height + 1) pos = []) :
    NodeEncoding hash vTxid vMatch (height + 1) pos [false] [blockRoot hash vTxid (height + 1) (pos * 2 ^ (height + 1))] where
  hashes_le_bits := le_refl _
  hashes_le_leaves := by
    have hone : 1 ≤ 2 ^ (height + 1) := Nat.one_le_two_pow
    simp only [List.length_singleton]
    omega
  build tree htree := by
    have hflag := parentOfMatch_eq vMatch (height + 1) pos
    rw [hnone, hlength, ← htree] at hflag
    have hhash := calcHash_eq hash vTxid (height + 1) pos hpos
    rw [← htree] at hhash
    exact traverseAndBuild_stop hash hflag hhash
  extract tree s htree hbits hhashes := by
    rw [traverseAndExtract_stop hash (getElem?_of_cons_drop hbits),
      useHash_of_getElem? (s := { s with nBitsUsed := s.nBitsUsed + 1 }) (getElem?_of_cons_drop hhashes), hnone]
    simp

omit [Inhabited α] [DecidableEq α] in
/-- The flag of a node with a match below, as `TraverseAndBuild` computes it. -/
theorem parentOfMatch_of_ne_nil {tree : CPartialMerkleTree α} (htree : tree.nTransactions = vTxid.length) {height pos : Nat}
    (hmatch : matchedUnder vMatch height pos ≠ []) : parentOfMatch tree.nTransactions vMatch height pos = some true := by
  rw [htree, ← hlength, parentOfMatch_eq, List.isEmpty_eq_false_iff.mpr hmatch]
  rfl

/-- A node with a match below and no right child: a set flag, then the left subtree, whose hash
is paired with itself. -/
theorem nodeEncoding_descend_last {height pos : Nat} {bitsL : List Bool} {hashesL : List α}
    (hright : ¬ pos * 2 + 1 < calcTreeWidth vTxid.length height) (hmatch : matchedUnder vMatch (height + 1) pos ≠ [])
    (hleft : NodeEncoding hash vTxid vMatch height (pos * 2) bitsL hashesL) :
    NodeEncoding hash vTxid vMatch (height + 1) pos (true :: bitsL) hashesL where
  hashes_le_bits := by
    have hL := hleft.hashes_le_bits
    simp only [List.length_cons]
    omega
  hashes_le_leaves := by
    have hL := hleft.hashes_le_leaves
    have hpow : 2 ^ (height + 1) = 2 * 2 ^ height := pow_succ' 2 height
    have hstart : pos * 2 ^ (height + 1) = pos * 2 * 2 ^ height := by rw [pow_succ]; ring
    rw [hstart, hpow]
    omega
  build tree htree := by
    rw [traverseAndBuild_descend hash (parentOfMatch_of_ne_nil hlength htree hmatch),
      hleft.build { tree with vBits := tree.vBits ++ [true] } htree, Option.bind_some, htree, if_neg hright]
    simp
  extract tree s htree hbits hhashes := by
    -- nothing is matched past the last transaction
    have hnone : matchedUnder vMatch height (pos * 2 + 1) = [] :=
      matchedUnder_of_le vMatch (by rw [hlength]; exact Nat.le_of_not_lt fun h => hright (lt_calcTreeWidth_iff.mpr h))
    rw [traverseAndExtract_descend hash (getElem?_of_cons_drop hbits),
      hleft.extract tree { s with nBitsUsed := s.nBitsUsed + 1 } htree (prefix_drop_succ hbits) hhashes]
    dsimp only
    rw [htree, if_neg hright, blockRoot_node, if_neg hright, matchedUnder_succ, hnone, List.append_nil]
    simp only [List.length_cons, Nat.add_assoc, Nat.add_comm 1]

variable (hdistinct : ¬ HasEqualSiblings hash vTxid)
include hdistinct

/-- A node with a match below and two children: a set flag, then the left subtree, then the
right one. The children's hashes differ, so `fBad` stays. -/
theorem nodeEncoding_descend {height pos : Nat} {bitsL bitsR : List Bool} {hashesL hashesR : List α}
    (hright : pos * 2 + 1 < calcTreeWidth vTxid.length height) (hmatch : matchedUnder vMatch (height + 1) pos ≠ [])
    (hleft : NodeEncoding hash vTxid vMatch height (pos * 2) bitsL hashesL)
    (hrightNode : NodeEncoding hash vTxid vMatch height (pos * 2 + 1) bitsR hashesR) :
    NodeEncoding hash vTxid vMatch (height + 1) pos (true :: (bitsL ++ bitsR)) (hashesL ++ hashesR) where
  hashes_le_bits := by
    have hL := hleft.hashes_le_bits
    have hR := hrightNode.hashes_le_bits
    simp only [List.length_append, List.length_cons]
    omega
  hashes_le_leaves := by
    have hL := hleft.hashes_le_leaves
    have hR := hrightNode.hashes_le_leaves
    have hpow : 2 ^ (height + 1) = 2 * 2 ^ height := pow_succ' 2 height
    have hstart : pos * 2 ^ (height + 1) = pos * 2 * 2 ^ height := by rw [pow_succ]; ring
    have hnext : (pos * 2 + 1) * 2 ^ height = pos * 2 * 2 ^ height + 2 ^ height := by ring
    rw [hnext] at hR
    rw [List.length_append, hstart, hpow]
    omega
  build tree htree := by
    have hwidth : pos * 2 + 1 < calcTreeWidth tree.nTransactions height := htree ▸ hright
    rw [traverseAndBuild_descend hash (parentOfMatch_of_ne_nil hlength htree hmatch),
      hleft.build { tree with vBits := tree.vBits ++ [true] } htree, Option.bind_some, if_pos hwidth,
      hrightNode.build { tree with vBits := tree.vBits ++ [true] ++ bitsL, vHash := tree.vHash ++ hashesL } htree]
    simp
  extract tree s htree hbits hhashes := by
    have hbitsL := prefix_drop_left (prefix_drop_succ hbits)
    have hbitsR := prefix_drop_right (prefix_drop_succ hbits)
    have hne : blockRoot hash vTxid height ((pos * 2 + 1) * 2 ^ height) ≠ blockRoot hash vTxid height (pos * 2 * 2 ^ height) :=
      fun heq => hdistinct ⟨height, pos, hright, heq.symm⟩
    rw [traverseAndExtract_descend hash (getElem?_of_cons_drop hbits),
      hleft.extract tree { s with nBitsUsed := s.nBitsUsed + 1 } htree hbitsL (prefix_drop_left hhashes)]
    dsimp only
    rw [htree, if_pos hright, hrightNode.extract tree _ htree hbitsR (prefix_drop_right hhashes)]
    dsimp only
    rw [if_neg hne, blockRoot_node, if_pos hright, matchedUnder_succ]
    simp only [List.length_cons, List.length_append, List.map_append, List.append_assoc, Nat.add_assoc,
      Nat.add_comm 1]

/-- **Every node of the tree has its encoding.** The induction is on the height; a node is a
leaf, a node with no match below, or a node the walk descends into, with or without a right
child. -/
theorem nodeEncoding_of_lt : ∀ (height pos : Nat), pos * 2 ^ height < vTxid.length →
    ∃ bits hashes, NodeEncoding hash vTxid vMatch height pos bits hashes
  | 0, pos, hpos => ⟨_, _, nodeEncoding_leaf hash hlength (by simpa using hpos)⟩
  | height + 1, pos, hpos => by
    by_cases hmatch : matchedUnder vMatch (height + 1) pos = []
    · exact ⟨_, _, nodeEncoding_stop hash hlength hpos hmatch⟩
    have hleftPos : pos * 2 * 2 ^ height < vTxid.length := by
      rwa [pow_succ, ← mul_assoc, mul_right_comm] at hpos
    obtain ⟨bitsL, hashesL, hleft⟩ := nodeEncoding_of_lt height (pos * 2) hleftPos
    by_cases hright : pos * 2 + 1 < calcTreeWidth vTxid.length height
    · obtain ⟨bitsR, hashesR, hrightNode⟩ :=
        nodeEncoding_of_lt height (pos * 2 + 1) (lt_calcTreeWidth_iff.mp hright)
      exact ⟨_, _, nodeEncoding_descend hash hlength hdistinct hright hmatch hleft hrightNode⟩
    · exact ⟨_, _, nodeEncoding_descend_last hash hlength hright hmatch hleft⟩

end Encoding

section Results

variable {α : Type} [Inhabited α] [DecidableEq α] (hash : α → α → α) (params : ConsensusParams)
  {vTxid : List α} {vMatch : List Bool}

/-- What `ExtractMatches` gives for any tree whose bits start with the root's encoding, padded
within the last byte, and whose hashes are the root's: the block's root and the matches. -/
theorem extractMatches_of_encoding (hlength : vMatch.length = vTxid.length) (hne : vTxid ≠ [])
    (hmax : vTxid.length ≤ maxBlockSize params maxUInt64 / minTransactionWeight) {bits : List Bool} {hashes : List α}
    (henc : NodeEncoding hash vTxid vMatch (treeHeightFrom vTxid.length 0) 0 bits hashes)
    {tree : CPartialMerkleTree α} (hn : tree.nTransactions = vTxid.length) (hbits : bits <+: tree.vBits)
    (hpadding : (bits.length + 7) / 8 = (tree.vBits.length + 7) / 8) (hhashes : tree.vHash = hashes)
    (hgood : tree.fBad = false) (vnIndex : List Nat) :
    extractMatches hash params tree vnIndex =
      (levelRoot hash vTxid, ((List.range vTxid.length).filter (vMatch.getD · false)).map (vTxid.getD · default),
        vnIndex ++ (List.range vTxid.length).filter (vMatch.getD · false), tree) := by
  have hpos : 0 < vTxid.length := List.length_pos_iff.mpr hne
  obtain ⟨hle, -⟩ := treeHeightFrom_spec hpos 0 (.inl rfl)
  have hleaves := henc.hashes_le_leaves
  have hcount := henc.hashes_le_bits
  have hprefixLength := hbits.length_le
  have hwalk := henc.extract tree ⟨0, 0, [], vnIndex, false⟩ hn hbits (by rw [hhashes]; exact List.prefix_refl hashes)
  rw [zero_mul, blockRoot_treeHeightFrom hash vTxid hpos, matchedUnder_top vMatch (hlength ▸ hle), hlength] at hwalk
  rw [extractMatches, if_neg (by omega), if_neg (by omega), if_neg (by rw [hhashes]; omega),
    if_neg (by rw [hhashes]; omega), hn, hgood, hwalk]
  simp only [hpadding, hhashes, ne_eq, not_true_eq_false, if_false, Nat.zero_add, List.nil_append,
    Bool.false_eq_true, Prod.mk.injEq, true_and]
  rw [← hn, ← hhashes, ← hgood]

/-- **A constructed partial merkle tree reads back.** For transactions `vTxid` and a mask
`vMatch` of the same length, at most as many as a block holds, where no two sibling subtrees
have the same hash, the constructor succeeds and `ExtractMatches` returns the root of the
transactions' merkle tree, the txids the mask selects and, after the `vnIndex` passed in, their
positions. -/
theorem extractMatches_construct (hlength : vMatch.length = vTxid.length) (hne : vTxid ≠ [])
    (hmax : vTxid.length ≤ maxBlockSize params maxUInt64 / minTransactionWeight)
    (hdistinct : ¬ HasEqualSiblings hash vTxid) (vnIndex : List Nat) :
    ∃ tree, CPartialMerkleTree.construct hash vTxid vMatch = some tree ∧
      extractMatches hash params tree vnIndex =
        (levelRoot hash vTxid, ((List.range vTxid.length).filter (vMatch.getD · false)).map (vTxid.getD · default),
          vnIndex ++ (List.range vTxid.length).filter (vMatch.getD · false), tree) := by
  obtain ⟨bits, hashes, henc⟩ := nodeEncoding_of_lt hash hlength hdistinct (treeHeightFrom vTxid.length 0) 0
    (by rw [zero_mul]; exact List.length_pos_iff.mpr hne)
  refine ⟨⟨vTxid.length, bits, hashes, false⟩, ?_, ?_⟩
  · rw [CPartialMerkleTree.construct, henc.build _ rfl]
    rfl
  · exact extractMatches_of_encoding hash params hlength hne hmax henc rfl (List.prefix_refl bits) rfl rfl rfl vnIndex

omit [DecidableEq α] in
/-- Two transactions, the second matched: the only two siblings are the two txids. -/
theorem not_hasEqualSiblings_pair : ¬ HasEqualSiblings Nat.add [3, 4] := by
  rintro ⟨height, pos, hwidth, hequal⟩
  rw [lt_calcTreeWidth_iff] at hwidth
  cases height with
  | zero =>
    have hpos : pos = 0 := by simp at hwidth; omega
    subst hpos
    simp [blockRoot_zero] at hequal
  | succ height =>
    have htwo : 2 ≤ 2 ^ (height + 1) := Nat.le_self_pow (by omega) 2
    have hmul : 2 ^ (height + 1) ≤ (pos * 2 + 1) * 2 ^ (height + 1) := Nat.le_mul_of_pos_left _ (by omega)
    simp only [List.length_cons, List.length_nil] at hwidth
    omega

theorem extractMatches_construct_pair :
    ∃ tree, CPartialMerkleTree.construct Nat.add [3, 4] [false, true] = some tree ∧
      extractMatches Nat.add Validation.mainParams tree [] =
        (levelRoot Nat.add [3, 4], ((List.range [3, 4].length).filter ([false, true].getD · false)).map ([3, 4].getD · default),
          [] ++ (List.range [3, 4].length).filter ([false, true].getD · false), tree) :=
  extractMatches_construct Nat.add Validation.mainParams (by decide) (by decide) (by decide) not_hasEqualSiblings_pair []

end Results

section Wire

variable {α : Type}

/-- What `CPartialMerkleTree::SerializationOp` writes: `nTransactions`, `vHash`, and the bits
packed into `vBytes`. -/
structure MerkleTreeWire (α : Type) where
  nTransactions : Nat
  vHash : List α
  vBytes : List UInt8

/-- Writing: `vBytes[p / 8] |= vBits[p] << (p % 8)` over `(vBits.size() + 7) / 8` zero bytes. -/
def CPartialMerkleTree.serialize (tree : CPartialMerkleTree α) : MerkleTreeWire α :=
  ⟨tree.nTransactions, tree.vHash, packBits tree.vBits⟩

/-- Reading: `vBits` resized to `vBytes.size() * 8` and filled bit by bit, and `fBad` cleared. -/
def CPartialMerkleTree.unserialize (wire : MerkleTreeWire α) : CPartialMerkleTree α :=
  ⟨wire.nTransactions, unpackBits wire.vBytes, wire.vHash, false⟩

/-- A tree read back holds its bits padded to whole bytes, and a clear `fBad`. -/
theorem unserialize_serialize (tree : CPartialMerkleTree α) :
    CPartialMerkleTree.unserialize tree.serialize =
      { tree with
        vBits := tree.vBits ++ List.replicate ((tree.vBits.length + 7) / 8 * 8 - tree.vBits.length) false
        fBad := false } := by
  rw [CPartialMerkleTree.serialize, CPartialMerkleTree.unserialize, unpackBits_packBits]

/-- `CMerkleBlock`: the header, which its readers use only through `GetHash()` and
`hashMerkleRoot`, and the tree. -/
structure CMerkleBlock (α : Type) where
  /-- `header.GetHash()`. -/
  hashBlock : α
  hashMerkleRoot : α
  txn : CPartialMerkleTree α

/-- `SerializationOp` of `CMerkleBlock`: the header, then the tree. -/
def CMerkleBlock.serialize (merkleBlock : CMerkleBlock α) : (α × α) × MerkleTreeWire α :=
  ((merkleBlock.hashBlock, merkleBlock.hashMerkleRoot), merkleBlock.txn.serialize)

def CMerkleBlock.unserialize (wire : (α × α) × MerkleTreeWire α) : CMerkleBlock α :=
  ⟨wire.1.1, wire.1.2, CPartialMerkleTree.unserialize wire.2⟩

variable (hash : α → α → α) [DecidableEq α]

/-- `CMerkleBlock(block, txids)` for a block with hash `hashBlock`, root `hashMerkleRoot` and
transaction hashes `vtx`: a transaction is matched when its hash is one of `txids`. -/
def CMerkleBlock.ofTxids (hashBlock hashMerkleRoot : α) (vtx txids : List α) : Option (CMerkleBlock α) :=
  (CPartialMerkleTree.construct hash vtx (vtx.map txids.contains)).map (CMerkleBlock.mk hashBlock hashMerkleRoot)

/-- `mapBlockIndex.count(hash) && chainActive.Contains(mapBlockIndex[hash])`, with the block
index as the height of each known block and the active chain as its block hashes by height:
`Contains` compares the chain's entry at the block's height with the block. -/
def chainContains (mapBlockIndex : α → Option Nat) (chainActive : List α) (hashBlock : α) : Bool :=
  match mapBlockIndex hashBlock with
  | some nHeight => chainActive[nHeight]? == some hashBlock
  | none => false

/-- `RPC_INVALID_ADDRESS_OR_KEY`. -/
def rpcInvalidAddressOrKey : Int := -5

variable [Inhabited α] (params : ConsensusParams)

/-- `verifytxoutproof` once the proof is read: no txids when `ExtractMatches` does not give the
header's root, the error "Block not found in chain" when the header's block is not in the
active chain, and the matched txids otherwise. -/
def verifyTxOutProof (mapBlockIndex : α → Option Nat) (chainActive : List α) (merkleBlock : CMerkleBlock α) :
    Except (Int × String) (List α) :=
  let (root, vMatch, _, _) := extractMatches hash params merkleBlock.txn []
  if root ≠ merkleBlock.hashMerkleRoot then .ok []
  else if chainContains mapBlockIndex chainActive merkleBlock.hashBlock then .ok vMatch
  else .error (rpcInvalidAddressOrKey, "Block not found in chain")

variable {hash params} {mapBlockIndex : α → Option Nat} {chainActive : List α} {merkleBlock : CMerkleBlock α}
  {root : α} {vMatch : List α} {vnIndex : List Nat} {tree : CPartialMerkleTree α}

/-- A proof whose tree gives the header's root, for a block of the active chain, returns the
matches. -/
theorem verifyTxOutProof_eq_ok (hextract : extractMatches hash params merkleBlock.txn [] = (root, vMatch, vnIndex, tree))
    (hroot : root = merkleBlock.hashMerkleRoot) (hchain : chainContains mapBlockIndex chainActive merkleBlock.hashBlock = true) :
    verifyTxOutProof hash params mapBlockIndex chainActive merkleBlock = .ok vMatch := by
  rw [verifyTxOutProof, hextract]
  dsimp only
  rw [if_neg (not_not.mpr hroot), if_pos hchain]

end Wire

section WireResults

variable {α : Type} [Inhabited α] [DecidableEq α] (hash : α → α → α) (params : ConsensusParams)
  {vTxid : List α} {vMatch : List Bool}

/-- **A partial merkle tree survives the wire.** The tree the constructor builds, written and
read back, gives `ExtractMatches` the same root and matches: the padding bits of the last byte
are never read, and the check on the bits used counts whole bytes. -/
theorem extractMatches_unserialize_serialize (hlength : vMatch.length = vTxid.length) (hne : vTxid ≠ [])
    (hmax : vTxid.length ≤ maxBlockSize params maxUInt64 / minTransactionWeight)
    (hdistinct : ¬ HasEqualSiblings hash vTxid) (vnIndex : List Nat) :
    ∃ tree, CPartialMerkleTree.construct hash vTxid vMatch = some tree ∧
      extractMatches hash params (CPartialMerkleTree.unserialize tree.serialize) vnIndex =
        (levelRoot hash vTxid, ((List.range vTxid.length).filter (vMatch.getD · false)).map (vTxid.getD · default),
          vnIndex ++ (List.range vTxid.length).filter (vMatch.getD · false),
          CPartialMerkleTree.unserialize tree.serialize) := by
  obtain ⟨bits, hashes, henc⟩ := nodeEncoding_of_lt hash hlength hdistinct (treeHeightFrom vTxid.length 0) 0
    (by rw [zero_mul]; exact List.length_pos_iff.mpr hne)
  refine ⟨⟨vTxid.length, bits, hashes, false⟩, ?_, ?_⟩
  · rw [CPartialMerkleTree.construct, henc.build _ rfl]
    rfl
  · have hpadding : (bits.length + 7) / 8 =
        ((bits ++ List.replicate ((bits.length + 7) / 8 * 8 - bits.length) false).length + 7) / 8 := by
      rw [List.length_append, List.length_replicate]
      omega
    rw [unserialize_serialize]
    exact extractMatches_of_encoding hash params hlength hne hmax henc rfl (List.prefix_append _ _) hpadding rfl rfl
      vnIndex

theorem extractMatches_unserialize_serialize_pair :
    ∃ tree, CPartialMerkleTree.construct Nat.add [3, 4] [false, true] = some tree ∧
      extractMatches Nat.add Validation.mainParams (CPartialMerkleTree.unserialize tree.serialize) [] =
        (levelRoot Nat.add [3, 4], ((List.range [3, 4].length).filter ([false, true].getD · false)).map ([3, 4].getD · default),
          [] ++ (List.range [3, 4].length).filter ([false, true].getD · false),
          CPartialMerkleTree.unserialize tree.serialize) :=
  extractMatches_unserialize_serialize Nat.add Validation.mainParams (by decide) (by decide) (by decide)
    not_hasEqualSiblings_pair []

omit [DecidableEq α] in
/-- The positions a mask selects, read back in the list, are the selected elements. -/
theorem map_getD_filter_range (vtx : List α) (select : α → Bool) :
    ((List.range vtx.length).filter ((vtx.map select).getD · false)).map (vtx.getD · default) = vtx.filter select := by
  have hall : (List.range vtx.length).map (vtx.getD · default) = vtx := by
    apply List.ext_getElem (by simp)
    intro i hi _
    simp [List.getD_eq_getElem?_getD, List.getElem?_eq_getElem (by simpa using hi)]
  have hselect : (List.range vtx.length).filter ((vtx.map select).getD · false) =
      (List.range vtx.length).filter (select ∘ (vtx.getD · default)) := by
    apply List.filter_congr
    intro i hi
    have hlt : i < vtx.length := List.mem_range.mp hi
    simp [List.getD_eq_getElem?_getD, List.getElem?_eq_getElem hlt]
  rw [hselect, ← List.filter_map, hall]

/-- `MaxBlockSize(UINT64_MAX) / MIN_TRANSACTION_WEIGHT` transactions have a merkle root. -/
theorem maxTransactions_le : maxBlockSize params maxUInt64 / minTransactionWeight ≤ 2 ^ 31 := by
  have hsize : maxBlockSize params maxUInt64 ≤ 32 * 1000 * 1000 := by
    unfold maxBlockSize
    split_ifs <;> norm_num
  calc maxBlockSize params maxUInt64 / minTransactionWeight ≤ maxBlockSize params maxUInt64 := Nat.div_le_self _ _
    _ ≤ 2 ^ 31 := by omega

/-- **`verifytxoutproof` returns what `gettxoutproof` proved.** For a block of the active chain
whose header holds the root `ComputeMerkleRoot` gives for its transactions, with no two sibling
subtrees of the same hash, the proof built for any set of txids, written and read back,
verifies and lists the block's transactions whose hash is in the set, in block order. -/
theorem verifyTxOutProof_ofTxids {mapBlockIndex : α → Option Nat} {chainActive vtx : List α} (txids : List α)
    {hashBlock root : α} {mutated : Bool} (hchain : chainContains mapBlockIndex chainActive hashBlock = true)
    (hroot : Merkle.computeMerkleRoot hash vtx = some (root, mutated)) (hne : vtx ≠ [])
    (hmax : vtx.length ≤ maxBlockSize params maxUInt64 / minTransactionWeight)
    (hdistinct : ¬ HasEqualSiblings hash vtx) :
    ∃ merkleBlock, CMerkleBlock.ofTxids hash hashBlock root vtx txids = some merkleBlock ∧
      verifyTxOutProof hash params mapBlockIndex chainActive (CMerkleBlock.unserialize merkleBlock.serialize) =
        .ok (vtx.filter txids.contains) := by
  have hlength : (vtx.map txids.contains).length = vtx.length := List.length_map _
  -- the header's root is the level-by-level root that the tree gives back
  obtain ⟨⟨mutated', hcompute⟩, -⟩ :=
    Merkle.computeMerkleRoot_refines_levelRoot hash vtx (hmax.trans (maxTransactions_le params))
  have hlevel : levelRoot hash vtx = root := by
    rw [hcompute] at hroot
    exact (Prod.mk.inj (Option.some.inj hroot)).1
  obtain ⟨tree, hbuild, hextract⟩ := extractMatches_unserialize_serialize hash params hlength hne hmax hdistinct []
  refine ⟨⟨hashBlock, root, tree⟩, by rw [CMerkleBlock.ofTxids, hbuild]; rfl, ?_⟩
  rw [verifyTxOutProof_eq_ok hextract hlevel hchain, map_getD_filter_range]

/-- The block `9` at height `0` of the chain. -/
def genesisIndex (hashBlock : Nat) : Option Nat := if hashBlock = 9 then some 0 else none

theorem verifyTxOutProof_ofTxids_pair :
    chainContains genesisIndex [9] 9 = true ∧
      ∃ merkleBlock, CMerkleBlock.ofTxids Nat.add 9 7 [3, 4] [4] = some merkleBlock ∧
        verifyTxOutProof Nat.add Validation.mainParams genesisIndex [9] (CMerkleBlock.unserialize merkleBlock.serialize) =
          .ok ([3, 4].filter [4].contains) :=
  ⟨by decide, verifyTxOutProof_ofTxids Nat.add Validation.mainParams [4] (by decide)
    (by decide : Merkle.computeMerkleRoot Nat.add [3, 4] = some (7, false)) (by decide) (by decide)
    not_hasEqualSiblings_pair⟩

end WireResults

section Soundness

/-! Soundness: whatever the bits and hashes of a tree with the block's transaction count, if
`ExtractMatches` returns the block's root, every match it reports is the block's transaction at
the reported position, as long as the hash of a pair is injective. -/

variable {α : Type} [Inhabited α] (hash : α → α → α) (params : ConsensusParams)
  {vtx : List α} (hinj : ∀ a b c d, hash a b = hash c d → a = c ∧ b = d)

/-- The matches a walk appended to `s`: positions of the block, with their txids. -/
def AppendsMatches (vtx : List α) (s s' : ExtractState α) : Prop :=
  ∃ positions : List Nat, s'.vnIndex = s.vnIndex ++ positions ∧
    s'.vMatch = s.vMatch ++ positions.map (vtx.getD · default) ∧ ∀ p ∈ positions, p < vtx.length

theorem AppendsMatches.trans {s s' s'' : ExtractState α} (hfirst : AppendsMatches vtx s s')
    (hsecond : AppendsMatches vtx s' s'') : AppendsMatches vtx s s'' := by
  obtain ⟨first, hindex, hmatch, hlt⟩ := hfirst
  obtain ⟨second, hindex', hmatch', hlt'⟩ := hsecond
  refine ⟨first ++ second, by rw [hindex', hindex, List.append_assoc], by rw [hmatch', hmatch, List.map_append,
    List.append_assoc], fun p hp => ?_⟩
  rcases List.mem_append.mp hp with hp | hp
  · exact hlt p hp
  · exact hlt' p hp

/-- The stored-hash branch never raises `fBad` on success, and records at most its own leaf. -/
theorem useHash_sound {tree : CPartialMerkleTree α} {pos : Nat} (hpos : pos < vtx.length) {fMatched : Bool}
    {s : ExtractState α} (hgood : (useHash tree pos fMatched s).2.fBad = false)
    (hvalue : fMatched = true → (useHash tree pos fMatched s).1 = vtx.getD pos default) :
    s.fBad = false ∧ AppendsMatches vtx s (useHash tree pos fMatched s).2 := by
  cases hhash : tree.vHash[s.nHashUsed]? with
  | none => simp [useHash, hhash] at hgood
  | some h =>
    rw [useHash_of_getElem? hhash] at hgood hvalue ⊢
    refine ⟨hgood, if fMatched then [pos] else [], by simp, ?_, ?_⟩
    · cases fMatched
      · simp
      · have hleaf : h = vtx.getD pos default := hvalue rfl
        simp [hleaf]
    · cases fMatched <;> simp [hpos]

variable [DecidableEq α] (tree : CPartialMerkleTree α) (hn : tree.nTransactions = vtx.length)
include hinj hn

/-- **A walk that reaches a node's hash reports only the node's transactions.** If the walk of
node `pos` at `height` ends without `fBad` and with the node's `blockRoot`, it started without
`fBad` and appended only positions of the block with their txids. The induction is on the
height; where the walk descends, injectivity gives each child its own `blockRoot`. -/
theorem traverseAndExtract_sound : ∀ (height pos : Nat) (s : ExtractState α), pos * 2 ^ height < vtx.length →
    (traverseAndExtract hash tree height pos s).2.fBad = false →
    (traverseAndExtract hash tree height pos s).1 = blockRoot hash vtx height (pos * 2 ^ height) →
    s.fBad = false ∧ AppendsMatches vtx s (traverseAndExtract hash tree height pos s).2
  | 0, pos, s, hpos, hgood, hvalue => by
    rw [pow_zero, mul_one] at hpos hvalue
    cases hbit : tree.vBits[s.nBitsUsed]? with
    | none => simp [traverseAndExtract, hbit] at hgood
    | some b =>
      rw [traverseAndExtract_zero hash hbit] at hgood hvalue ⊢
      rw [blockRoot_zero] at hvalue
      exact useHash_sound hpos hgood fun _ => hvalue
  | height + 1, pos, s, hpos, hgood, hvalue => by
    cases hbit : tree.vBits[s.nBitsUsed]? with
    | none => simp [traverseAndExtract, hbit] at hgood
    | some b =>
      cases b with
      | false =>
        -- a stored hash of an inner node: nothing is recorded
        rw [traverseAndExtract_stop hash hbit] at hgood ⊢
        have hpos' : pos < vtx.length := lt_of_le_of_lt (Nat.le_mul_of_pos_right pos (Nat.two_pow_pos _)) hpos
        exact useHash_sound hpos' hgood (fun h => absurd h Bool.false_ne_true)
      | true =>
        have hleftPos : pos * 2 * 2 ^ height < vtx.length := by
          rwa [pow_succ, ← mul_assoc, mul_right_comm] at hpos
        rw [traverseAndExtract_descend hash hbit] at hgood hvalue ⊢
        rw [blockRoot_node] at hvalue
        generalize hleft : traverseAndExtract hash tree height (pos * 2) { s with nBitsUsed := s.nBitsUsed + 1 } = left
          at hgood hvalue ⊢
        obtain ⟨leftHash, sLeft⟩ := left
        dsimp only at hgood hvalue ⊢
        rw [hn] at hgood hvalue ⊢
        by_cases hright : pos * 2 + 1 < calcTreeWidth vtx.length height
        · rw [if_pos hright] at hgood hvalue ⊢
          rw [if_pos hright] at hvalue
          generalize hrightWalk : traverseAndExtract hash tree height (pos * 2 + 1) sLeft = right at hgood hvalue ⊢
          obtain ⟨rightHash, sRight⟩ := right
          dsimp only at hgood hvalue ⊢
          -- equal children would have raised `fBad`
          have hne : rightHash ≠ leftHash := fun heq => by simp [heq] at hgood
          rw [if_neg hne] at hgood ⊢
          obtain ⟨hleftValue, hrightValue⟩ := hinj _ _ _ _ hvalue
          obtain ⟨hgoodLeft, hrightSound⟩ := traverseAndExtract_sound height (pos * 2 + 1) sLeft
            (lt_calcTreeWidth_iff.mp hright) (by rw [hrightWalk]; exact hgood) (by rw [hrightWalk]; exact hrightValue)
          obtain ⟨hgoodStart, hleftSound⟩ := traverseAndExtract_sound height (pos * 2) _ hleftPos
            (by rw [hleft]; exact hgoodLeft) (by rw [hleft]; exact hleftValue)
          rw [hrightWalk] at hrightSound
          rw [hleft] at hleftSound
          exact ⟨hgoodStart, hleftSound.trans hrightSound⟩
        · rw [if_neg hright] at hgood hvalue ⊢
          rw [if_neg hright] at hvalue
          obtain ⟨hleftValue, -⟩ := hinj _ _ _ _ hvalue
          obtain ⟨hgoodStart, hleftSound⟩ := traverseAndExtract_sound height (pos * 2) _ hleftPos
            (by rw [hleft]; exact hgood) (by rw [hleft]; exact hleftValue)
          rw [hleft] at hleftSound
          exact ⟨hgoodStart, hleftSound⟩

/-- **An accepted proof reports only the block's transactions.** For a tree with the block's
transaction count, whatever its bits and hashes, if `ExtractMatches` returns the block's root
(and that root is not `uint256()`, what every failure returns), the positions it appended to
`vnIndex` are positions of the block and the txids it reports are the block's txids there. -/
theorem extractMatches_sound (hdefault : levelRoot hash vtx ≠ default) (vnIndex : List Nat)
    {vMatch' : List α} {vnIndex' : List Nat} {tree' : CPartialMerkleTree α}
    (hextract : extractMatches hash params tree vnIndex = (levelRoot hash vtx, vMatch', vnIndex', tree')) :
    ∃ positions, vnIndex' = vnIndex ++ positions ∧ vMatch' = positions.map (vtx.getD · default) ∧
      ∀ p ∈ positions, p < vtx.length := by
  rw [extractMatches] at hextract
  -- each early return gives `uint256()`
  split_ifs at hextract with hzero hmany hhashes hbits <;> try exact absurd (Prod.mk.inj hextract).1.symm hdefault
  generalize hwalk : traverseAndExtract hash tree (treeHeightFrom tree.nTransactions 0) 0 ⟨0, 0, [], vnIndex, tree.fBad⟩ =
    walk at hextract
  obtain ⟨root, s⟩ := walk
  dsimp only at hextract
  split_ifs at hextract with hbad hpadding hused <;> try exact absurd (Prod.mk.inj hextract).1.symm hdefault
  simp only [Prod.mk.injEq] at hextract
  obtain ⟨hroot, hmatch, hindex, -⟩ := hextract
  have hpos : 0 < vtx.length := by omega
  rw [hn] at hwalk
  obtain ⟨-, positions, hindex', hmatch', hlt⟩ := traverseAndExtract_sound hash hinj tree hn _ 0 _
    (by rw [zero_mul]; exact hpos) (by rw [hwalk]; simpa using hbad)
    (by rw [hwalk, zero_mul, blockRoot_treeHeightFrom hash vtx hpos]; exact hroot)
  rw [hwalk] at hindex' hmatch'
  exact ⟨positions, by rw [← hindex, hindex'], by rw [← hmatch, hmatch', List.nil_append], hlt⟩

end Soundness

theorem levelRoot_two {α : Type} [Inhabited α] (hash : α → α → α) (a b : α) : levelRoot hash [a, b] = hash a b := by
  rw [levelRoot, if_neg (by simp)]
  exact levelRoot_singleton hash (hash a b)

theorem treeHeightFrom_two : treeHeightFrom 2 0 = 1 := by
  rw [treeHeightFrom, dif_pos (by decide), treeHeightFrom, dif_neg (by decide)]

theorem extractMatches_sound_pair :
    ∃ positions, [1] = [] ++ positions ∧ [4] = positions.map ([3, 4].getD · default) ∧
      ∀ p ∈ positions, p < [3, 4].length :=
  extractMatches_sound Nat.pair Validation.mainParams (fun _ _ _ _ h => Nat.pair_eq_pair.mp h)
    ⟨2, [true, false, true], [3, 4], false⟩ rfl (by rw [levelRoot_two]; decide) []
    (by rw [levelRoot_two, extractMatches]; dsimp only; rw [treeHeightFrom_two]; rfl)

section TransactionCount

/-! Soundness needs the tree's transaction count to be the block's: nothing in
`verifytxoutproof` compares them, and a tree with fewer transactions whose leaves are roots of
subtrees reaches the same root. -/

variable {α : Type} [Inhabited α] [DecidableEq α] (hash : α → α → α) (params : ConsensusParams) {vtx : List α}

/-- `MaxBlockSize(UINT64_MAX) / MIN_TRANSACTION_WEIGHT` admits two transactions. -/
theorem two_le_maxTransactions : 2 ≤ maxBlockSize params maxUInt64 / minTransactionWeight := by
  unfold maxBlockSize minTransactionWeight
  split_ifs <;> norm_num

/-- **`verifytxoutproof` accepts a subtree root as a transaction.** For every block of more than
two transactions, with distinct sibling hashes and no txid that is the hash of a pair, the proof
that commits to two transactions, the roots of the block's two halves, with the first matched,
verifies against the block's root and returns the first half's root, which is not a
transaction of the block. -/
theorem verifyTxOutProof_halves {mapBlockIndex : α → Option Nat} {chainActive : List α} {hashBlock : α}
    (hchain : chainContains mapBlockIndex chainActive hashBlock = true)
    (hleaf : ∀ x ∈ vtx, ∀ a b, hash a b ≠ x) (hmany : 2 < vtx.length)
    (hdistinct : ¬ HasEqualSiblings hash vtx) :
    blockRoot hash vtx (treeHeightFrom vtx.length 0 - 1) 0 ∉ vtx ∧
      verifyTxOutProof hash params mapBlockIndex chainActive
          ⟨hashBlock, levelRoot hash vtx, ⟨2, [true, true, false],
            [blockRoot hash vtx (treeHeightFrom vtx.length 0 - 1) 0,
              blockRoot hash vtx (treeHeightFrom vtx.length 0 - 1) (2 ^ (treeHeightFrom vtx.length 0 - 1))], false⟩⟩ =
        .ok [blockRoot hash vtx (treeHeightFrom vtx.length 0 - 1) 0] := by
  have hpos : 0 < vtx.length := by omega
  obtain ⟨hle, hlt⟩ := treeHeightFrom_spec hpos 0 (.inl rfl)
  -- the tree has at least two levels above the leaves
  have htall : 2 ≤ treeHeightFrom vtx.length 0 := by
    by_contra hshort
    have hpow : 2 ^ treeHeightFrom vtx.length 0 ≤ 2 ^ 1 := Nat.pow_le_pow_right (by norm_num) (by omega)
    omega
  obtain ⟨half, hhalf⟩ : ∃ half, treeHeightFrom vtx.length 0 = half + 1 := ⟨_, (Nat.sub_add_cancel (by omega)).symm⟩
  rw [hhalf, Nat.add_sub_cancel]
  rw [hhalf, pow_succ] at hlt
  have hsplit : 0 + 2 ^ half < vtx.length := by omega
  have hroot : levelRoot hash vtx = hash (blockRoot hash vtx half 0) (blockRoot hash vtx half (2 ^ half)) := by
    rw [← blockRoot_treeHeightFrom hash vtx hpos, hhalf, blockRoot_merge hash vtx hsplit, Nat.zero_add]
  have hne : blockRoot hash vtx half (2 ^ half) ≠ blockRoot hash vtx half 0 := fun heq =>
    hdistinct ⟨half, 0, lt_calcTreeWidth_iff.mpr (by simpa using hsplit), by simpa using heq.symm⟩
  refine ⟨?_, ?_⟩
  · -- the first half's root is the hash of a pair
    obtain ⟨k, rfl⟩ : ∃ k, half = k + 1 := ⟨half - 1, by omega⟩
    obtain ⟨right, hright⟩ := treeRoot_succ_eq_combine hash k (block vtx (k + 1) 0)
    intro hmem
    rw [blockRoot, hright] at hmem
    exact hleaf _ hmem _ _ rfl
  · have htwo := two_le_maxTransactions params
    rw [verifyTxOutProof, extractMatches]
    dsimp only
    rw [treeHeightFrom_two]
    simp [traverseAndExtract, useHash, calcTreeWidth, hne, hroot, Nat.not_lt.mpr htwo, hchain]

end TransactionCount

/-- Three transactions under a hash that never gives a txid: the siblings differ. -/
theorem not_hasEqualSiblings_three : ¬ HasEqualSiblings (fun a b => Nat.pair a b + 10) [1, 2, 3] := by
  rintro ⟨height, pos, hwidth, hequal⟩
  rw [lt_calcTreeWidth_iff] at hwidth
  simp only [List.length_cons, List.length_nil] at hwidth
  match height, hwidth with
  | 0, hwidth =>
    have hpos : pos = 0 := by omega
    subst hpos
    revert hequal
    decide
  | 1, hwidth =>
    have hpos : pos = 0 := by omega
    subst hpos
    revert hequal
    decide
  | height + 2, hwidth =>
    have hfour : 4 ≤ 2 ^ (height + 2) := by
      rw [pow_add]
      exact Nat.le_mul_of_pos_left 4 (Nat.two_pow_pos height)
    have hmul : 2 ^ (height + 2) ≤ (pos * 2 + 1) * 2 ^ (height + 2) := Nat.le_mul_of_pos_left _ (by omega)
    omega

theorem verifyTxOutProof_halves_three :
    chainContains genesisIndex [9] 9 = true ∧
      blockRoot (fun a b => Nat.pair a b + 10) [1, 2, 3] (treeHeightFrom [1, 2, 3].length 0 - 1) 0 ∉ [1, 2, 3] ∧
      verifyTxOutProof (fun a b => Nat.pair a b + 10) Validation.mainParams genesisIndex [9]
          ⟨9, levelRoot (fun a b => Nat.pair a b + 10) [1, 2, 3], ⟨2, [true, true, false],
            [blockRoot (fun a b => Nat.pair a b + 10) [1, 2, 3] (treeHeightFrom [1, 2, 3].length 0 - 1) 0,
              blockRoot (fun a b => Nat.pair a b + 10) [1, 2, 3] (treeHeightFrom [1, 2, 3].length 0 - 1)
                (2 ^ (treeHeightFrom [1, 2, 3].length 0 - 1))], false⟩⟩ =
        .ok [blockRoot (fun a b => Nat.pair a b + 10) [1, 2, 3] (treeHeightFrom [1, 2, 3].length 0 - 1) 0] :=
  ⟨by decide, verifyTxOutProof_halves (fun a b => Nat.pair a b + 10) Validation.mainParams (by decide)
    (by
      intro x hx a b
      simp only [List.mem_cons, List.not_mem_nil, or_false] at hx
      omega)
    (by decide) not_hasEqualSiblings_three⟩

end UnitedBitcoin.PartialMerkle
