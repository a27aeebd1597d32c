import Mathlib
import UnitedBitcoin.Net.CompactBlocks

/-!
# Relaying a block as a compact block

The run of BIP 152 between two nodes: the sender's `cmpctblock` for a block, the receiver's
`InitData`, its `getblocktxn` for the slots it could not fill, the sender's `blocktxn` and the
receiver's `FillBlock`. When the receiver's pools cannot mislead it (`PoolsAgree`: every pool
transaction that has the short ID of a block transaction is that transaction, and the mempool
holds each transaction once), the receiver asks for exactly the block's transactions that are in
neither pool, and rebuilds the sender's block (`relay_reconstructs`).

The scans of the pools are followed by an invariant, `RelayScan`: a slot is filled exactly when
its transaction was among the pool transactions scanned so far.

Positions are `uint16_t`s while the fork's blocks hold up to `800000` transactions: for a longer
block the receiver's request wraps past `0xffff`, and the sender refuses it
(`relay_request_refused`).
-/

namespace UnitedBitcoin.CompactBlocks

open UnitedBitcoin.Library
open UnitedBitcoin.Validation (ConsensusParams ValidationEnv NodeState checkBlock maxBlockSize maxUInt64)

section Scans

variable (cb : CTransaction) (rest : List CTransaction)

/-- The slots of the block `cb :: rest` once the pool transactions `seen` were scanned. -/
def relaySlots (seen : List CTransaction) : List (Option CTransaction) :=
  some cb :: rest.map fun tx => if tx ∈ seen then some tx else none

/-- The scan state of a compact block sent for `cb :: rest`, after the pool transactions
`seen`: the coinbase in its slot, every other slot filled exactly when its transaction was seen,
and the count of the filled ones. -/
structure RelayScan (seen : List CTransaction) (s : ScanState) : Prop where
  slots : s.txnAvailable = relaySlots cb rest seen
  haveTxn : s.haveTxn = false :: rest.map fun tx => decide (tx ∈ seen)
  count : s.mempoolCount = rest.countP fun tx => decide (tx ∈ seen)

variable {cb rest}

/-- The state depends on `seen` only through the block's transactions in it. -/
theorem RelayScan.congr {seen seen' : List CTransaction} {s : ScanState}
    (hs : RelayScan cb rest seen s) (hsame : ∀ tx ∈ rest, tx ∈ seen' ↔ tx ∈ seen) :
    RelayScan cb rest seen' s where
  slots := by
    rw [hs.slots, relaySlots, relaySlots]
    congr 1
    apply List.map_congr_left
    intro tx htx
    simp only [hsame tx htx]
  haveTxn := by
    rw [hs.haveTxn]
    congr 1
    apply List.map_congr_left
    intro tx htx
    simp only [hsame tx htx]
  count := by
    rw [hs.count]
    apply List.countP_congr
    intro tx htx
    simp only [decide_eq_true_eq, hsame tx htx]

/-- One more transaction of the block seen adds one to the count. -/
theorem countP_mem_append_singleton {seen : List CTransaction} {a : CTransaction} (hfresh : a ∉ seen) :
    ∀ {l : List CTransaction}, l.Nodup → a ∈ l →
      (l.countP fun tx => decide (tx ∈ seen ++ [a])) = (l.countP fun tx => decide (tx ∈ seen)) + 1
  | [], _, ha => absurd ha List.not_mem_nil
  | b :: l, hnodup, ha => by
    obtain ⟨hb, hl⟩ := List.nodup_cons.mp hnodup
    by_cases hba : b = a
    · subst hba
      -- `b` is the new one, and no other transaction of the list is `b`
      have hsame : (l.countP fun tx => decide (tx ∈ seen ++ [b])) = l.countP fun tx => decide (tx ∈ seen) :=
        List.countP_congr fun tx htx => by
          have hne : tx ≠ b := fun h => hb (h ▸ htx)
          simp [hne]
      have hnew : decide (b ∈ seen ++ [b]) = true := by simp
      have hold : decide (b ∈ seen) = false := by simpa using hfresh
      rw [List.countP_cons, List.countP_cons, hsame, hnew, hold]
      rfl
    · have ha' : a ∈ l := (List.mem_cons.mp ha).resolve_left (Ne.symm hba)
      have hsame : decide (b ∈ seen ++ [a]) = decide (b ∈ seen) := by simp [hba]
      rw [List.countP_cons, List.countP_cons, countP_mem_append_singleton hfresh hl ha', hsame]
      omega

/-- A transaction put into its empty slot. -/
theorem RelayScan.place {seen : List CTransaction} {s s' : ScanState} (hs : RelayScan cb rest seen s)
    (hnodup : rest.Nodup) {j : Nat} (hj : j < rest.length) (hfresh : rest[j] ∉ seen)
    (htxn : s'.txnAvailable = s.txnAvailable.set (j + 1) (some rest[j]))
    (hhave : s'.haveTxn = s.haveTxn.set (j + 1) true) (hcount : s'.mempoolCount = s.mempoolCount + 1) :
    RelayScan cb rest (seen ++ [rest[j]]) s' where
  slots := by
    rw [htxn, hs.slots, relaySlots, relaySlots, List.set_cons_succ]
    congr 1
    apply List.ext_getElem (by simp)
    intro k hk _
    have hk' : k < rest.length := by simpa using hk
    rw [List.getElem_set, List.getElem_map, List.getElem_map]
    by_cases hjk : j = k
    · subst hjk
      simp
    · -- another slot: its transaction is not `rest[j]`, the block's transactions being distinct
      have hne : rest[k] ≠ rest[j] := fun h => hjk ((hnodup.getElem_inj_iff).mp h).symm
      simp [hjk, hne]
  haveTxn := by
    rw [hhave, hs.haveTxn, List.set_cons_succ]
    congr 1
    apply List.ext_getElem (by simp)
    intro k hk _
    have hk' : k < rest.length := by simpa using hk
    rw [List.getElem_set, List.getElem_map, List.getElem_map]
    by_cases hjk : j = k
    · subst hjk
      simp
    · have hne : rest[k] ≠ rest[j] := fun h => hjk ((hnodup.getElem_inj_iff).mp h).symm
      simp [hjk, hne]
  count := by
    rw [hcount, hs.count, countP_mem_append_singleton hfresh hnodup (List.getElem_mem hj)]

theorem getD_relaySlots (seen : List CTransaction) {j : Nat} (hj : j < rest.length) :
    (relaySlots cb rest seen).getD (j + 1) none = if rest[j] ∈ seen then some rest[j] else none := by
  simp [relaySlots, List.getD_eq_getElem?_getD, hj]

theorem getD_haveTxn (seen : List CTransaction) {j : Nat} (hj : j < rest.length) :
    (false :: rest.map fun tx => decide (tx ∈ seen)).getD (j + 1) false = decide (rest[j] ∈ seen) := by
  simp [List.getD_eq_getElem?_getD, hj]

end Scans

section RelayMap

variable (shortIdOf : Nat → UInt64) (witnessHash : CTransaction → Nat)

/-- The map `InitData` builds for the compact block of `cb :: rest`: the short ID of the `j`-th
transaction after the coinbase to slot `j + 1`. -/
def relayMap (rest : List CTransaction) : List (UInt64 × UInt16) :=
  assignAll (· < ·) [] ((rest.map fun tx => shortIdOf (witnessHash tx)).zip
    ((List.range' 1 rest.length).map Nat.toUInt16))

/-- A pool transaction that has the short ID of a block transaction after the coinbase is that
transaction. -/
def NoFalseMatch (rest : List CTransaction) (tx : CTransaction) : Prop :=
  ∀ tx' ∈ rest, shortIdOf (witnessHash tx) = shortIdOf (witnessHash tx') → tx = tx'

variable {shortIdOf witnessHash} {rest : List CTransaction}

theorem lookup_relayMap (hnodup : (rest.map fun tx => shortIdOf (witnessHash tx)).Nodup) (other : UInt64) :
    (relayMap shortIdOf witnessHash rest).lookup other =
      ((rest.map fun tx => shortIdOf (witnessHash tx)).zip
        ((List.range' 1 rest.length).map Nat.toUInt16)).lookup other := by
  rw [relayMap, lookup_assignAll uint64Lt_strictTotal other [] _ (by rw [List.map_fst_zip (by simp)]; exact hnodup)]
  simp

/-- The short ID of the block's transaction after the coinbase at `j` leads to slot `j + 1`. -/
theorem lookup_relayMap_getElem (hnodup : (rest.map fun tx => shortIdOf (witnessHash tx)).Nodup)
    {j : Nat} (hj : j < rest.length) :
    (relayMap shortIdOf witnessHash rest).lookup (shortIdOf (witnessHash rest[j])) = some (j + 1).toUInt16 := by
  have hkeys : j < (rest.map fun tx => shortIdOf (witnessHash tx)).length := by simpa using hj
  have hvals : j < ((List.range' 1 rest.length).map Nat.toUInt16).length := by simpa using hj
  have h := lookup_zip_getElem hnodup hkeys hvals
  rw [lookup_relayMap hnodup]
  simp only [List.getElem_map, List.getElem_range', one_mul] at h
  rw [h, Nat.add_comm]

/-- A transaction whose short ID is no block transaction's is not in the map. -/
theorem lookup_relayMap_eq_none (hnodup : (rest.map fun tx => shortIdOf (witnessHash tx)).Nodup)
    {other : UInt64} (hother : other ∉ rest.map fun tx => shortIdOf (witnessHash tx)) :
    (relayMap shortIdOf witnessHash rest).lookup other = none := by
  rw [lookup_relayMap hnodup, lookup_zip_eq_none hother]

theorem lookup_relayMap_of_not_mem (hnodup : (rest.map fun tx => shortIdOf (witnessHash tx)).Nodup)
    {tx : CTransaction} (hmatch : NoFalseMatch shortIdOf witnessHash rest tx) (hout : tx ∉ rest) :
    (relayMap shortIdOf witnessHash rest).lookup (shortIdOf (witnessHash tx)) = none := by
  apply lookup_relayMap_eq_none hnodup
  intro hmem
  obtain ⟨tx', htx', heq⟩ := List.mem_map.mp hmem
  exact hout (hmatch tx' htx' heq.symm ▸ htx')

end RelayMap

section ScanSteps

variable {shortIdOf : Nat → UInt64} {witnessHash : CTransaction → Nat} {cb : CTransaction}
  {rest : List CTransaction}

/-- **One mempool transaction.** It fills the slot of its block transaction and changes nothing
else, as long as it was not seen before. -/
theorem scanMempoolTx_relay {seen : List CTransaction} {s : ScanState} (hs : RelayScan cb rest seen s)
    (hnodup : (rest.map fun tx => shortIdOf (witnessHash tx)).Nodup) (hlength : rest.length < 2 ^ 16)
    {entry : Nat × CTransaction} (hwitness : entry.1 = witnessHash entry.2)
    (hmatch : NoFalseMatch shortIdOf witnessHash rest entry.2) (hfresh : entry.2 ∉ seen) :
    RelayScan cb rest (seen ++ [entry.2])
      (scanMempoolTx shortIdOf (relayMap shortIdOf witnessHash rest) s entry) := by
  obtain ⟨hash, tx⟩ := entry
  simp only at hwitness hmatch hfresh ⊢
  subst hwitness
  by_cases hin : tx ∈ rest
  · obtain ⟨j, hj, rfl⟩ := List.getElem_of_mem hin
    have hidx : ((j + 1).toUInt16).toNat = j + 1 := toNat_toUInt16_of_lt (by omega)
    have hhave : s.haveTxn.getD (j + 1) false = false := by
      rw [hs.haveTxn, getD_haveTxn _ hj]
      simpa using hfresh
    simp only [scanMempoolTx, lookup_relayMap_getElem hnodup hj, hidx, hhave, Bool.not_false, if_true]
    exact hs.place (List.Nodup.of_map _ hnodup) hj hfresh rfl rfl rfl
  · simp only [scanMempoolTx, lookup_relayMap_of_not_mem hnodup hmatch hin]
    refine hs.congr fun tx' htx' => ?_
    have hne : tx' ≠ tx := fun h => hin (h ▸ htx')
    simp [hne]

/-- **One transaction of the extra pool.** It fills the slot of its block transaction if that
was not seen before, and otherwise finds the same transaction there and leaves it. -/
theorem scanExtraTx_relay (env : ShortIdEnv) (hwitnessHash : env.witnessHash = witnessHash)
    {seen : List CTransaction} {s : ScanState} (hs : RelayScan cb rest seen s)
    (hnodup : (rest.map fun tx => shortIdOf (witnessHash tx)).Nodup) (hlength : rest.length < 2 ^ 16)
    {entry : Nat × CTransaction} (hwitness : entry.1 = witnessHash entry.2)
    (hmatch : NoFalseMatch shortIdOf witnessHash rest entry.2) :
    RelayScan cb rest (seen ++ [entry.2])
      (scanExtraTx env shortIdOf (relayMap shortIdOf witnessHash rest) s entry) := by
  obtain ⟨hash, tx⟩ := entry
  simp only at hwitness hmatch ⊢
  subst hwitness
  by_cases hin : tx ∈ rest
  · obtain ⟨j, hj, rfl⟩ := List.getElem_of_mem hin
    have hidx : ((j + 1).toUInt16).toNat = j + 1 := toNat_toUInt16_of_lt (by omega)
    by_cases hseen : rest[j] ∈ seen
    · -- a second sight of the same transaction: the witness hashes agree and the slot stays
      have hhave : s.haveTxn.getD (j + 1) false = true := by
        rw [hs.haveTxn, getD_haveTxn _ hj]
        simpa using hseen
      have hslot : s.txnAvailable.getD (j + 1) none = some rest[j] := by
        rw [hs.slots, getD_relaySlots _ hj, if_pos hseen]
      simp only [scanExtraTx, lookup_relayMap_getElem hnodup hj, hidx, hhave, hslot, Bool.not_true,
        hwitnessHash, ne_eq, not_true_eq_false, if_false]
      exact hs.congr fun tx' _ => by
        simp only [List.mem_append, List.mem_singleton]
        exact ⟨fun h => h.elim id (· ▸ hseen), Or.inl⟩
    · have hhave : s.haveTxn.getD (j + 1) false = false := by
        rw [hs.haveTxn, getD_haveTxn _ hj]
        simpa using hseen
      simp only [scanExtraTx, lookup_relayMap_getElem hnodup hj, hidx, hhave, Bool.not_false, if_true]
      exact hs.place (List.Nodup.of_map _ hnodup) hj hseen rfl rfl rfl
  · simp only [scanExtraTx, lookup_relayMap_of_not_mem hnodup hmatch hin]
    refine hs.congr fun tx' htx' => ?_
    have hne : tx' ≠ tx := fun h => hin (h ▸ htx')
    simp [hne]

end ScanSteps

section ScanRuns

variable {shortIdOf : Nat → UInt64} {witnessHash : CTransaction → Nat} {cb : CTransaction}
  {rest : List CTransaction}

/-- The count reaches the number of short IDs only once every slot is filled. -/
theorem RelayScan.all_seen {seen : List CTransaction} {s : ScanState} (hs : RelayScan cb rest seen s)
    (hcount : s.mempoolCount = rest.length) : ∀ tx ∈ rest, tx ∈ seen := by
  rw [hs.count] at hcount
  intro tx htx
  simpa using List.countP_eq_length.mp hcount tx htx

theorem RelayScan.append_of_all_seen {seen : List CTransaction} {s : ScanState}
    (hs : RelayScan cb rest seen s) (hall : ∀ tx ∈ rest, tx ∈ seen) (more : List CTransaction) :
    RelayScan cb rest (seen ++ more) s :=
  hs.congr fun tx htx => by simp [hall tx htx]

/-- A pool whose entries carry their transaction's witness hash and do not falsely match. -/
def PoolAgrees (shortIdOf : Nat → UInt64) (witnessHash : CTransaction → Nat) (rest : List CTransaction)
    (pool : List (Nat × CTransaction)) : Prop :=
  ∀ entry ∈ pool, entry.1 = witnessHash entry.2 ∧ NoFalseMatch shortIdOf witnessHash rest entry.2

variable (hnodup : (rest.map fun tx => shortIdOf (witnessHash tx)).Nodup) (hlength : rest.length < 2 ^ 16)
include hnodup hlength

/-- **The mempool scan.** Over a mempool that holds each transaction once, none of them seen
before, the scan leaves the state for all of them. The induction is on the mempool; the early
exit comes once every slot is filled, when the rest could change nothing. -/
theorem scanMempool_relay : ∀ (entries : List (Nat × CTransaction)) (seen : List CTransaction)
    (s : ScanState), RelayScan cb rest seen s → PoolAgrees shortIdOf witnessHash rest entries →
    (entries.map Prod.snd).Nodup → (∀ entry ∈ entries, entry.2 ∉ seen) →
    RelayScan cb rest (seen ++ entries.map Prod.snd)
      (scanMempool shortIdOf (relayMap shortIdOf witnessHash rest) rest.length entries s)
  | [], seen, s, hs, _, _, _ => by simpa [scanMempool] using hs
  | entry :: entries, seen, s, hs, hpool, hdistinct, hfresh => by
    obtain ⟨hwitness, hmatch⟩ := hpool entry List.mem_cons_self
    have hstep := scanMempoolTx_relay hs hnodup hlength hwitness hmatch (hfresh entry List.mem_cons_self)
    obtain ⟨hentry, hentries⟩ := List.nodup_cons.mp hdistinct
    rw [scanMempool]
    split_ifs with hfull
    · simpa using hstep.append_of_all_seen (hstep.all_seen hfull) (entries.map Prod.snd)
    · have hfresh' : ∀ other ∈ entries, other.2 ∉ seen ++ [entry.2] := by
        intro other hother
        simp only [List.mem_append, List.mem_singleton, not_or]
        exact ⟨hfresh other (List.mem_cons_of_mem _ hother),
          fun h => hentry (h ▸ List.mem_map_of_mem hother)⟩
      simpa using scanMempool_relay entries (seen ++ [entry.2]) _ hstep
        (fun other hother => hpool other (List.mem_cons_of_mem _ hother)) hentries hfresh'

/-- **The extra-pool scan** leaves the state for all its transactions, whatever was seen before
and however often a transaction comes. -/
theorem scanExtra_relay (env : ShortIdEnv) (hwitnessHash : env.witnessHash = witnessHash) :
    ∀ (entries : List (Nat × CTransaction)) (seen : List CTransaction) (s : ScanState),
      RelayScan cb rest seen s → PoolAgrees shortIdOf witnessHash rest entries →
      RelayScan cb rest (seen ++ entries.map Prod.snd)
        (scanExtra env shortIdOf (relayMap shortIdOf witnessHash rest) rest.length entries s)
  | [], seen, s, hs, _ => by simpa [scanExtra] using hs
  | entry :: entries, seen, s, hs, hpool => by
    obtain ⟨hwitness, hmatch⟩ := hpool entry List.mem_cons_self
    have hstep := scanExtraTx_relay env hwitnessHash hs hnodup hlength hwitness hmatch
    rw [scanExtra]
    split_ifs with hfull
    · simpa using hstep.append_of_all_seen (hstep.all_seen hfull) (entries.map Prod.snd)
    · simpa using scanExtra_relay env hwitnessHash entries (seen ++ [entry.2]) _ hstep
        fun other hother => hpool other (List.mem_cons_of_mem _ hother)

end ScanRuns

section InitData

theorem emptyPositions_replicate : ∀ (p k : Nat), emptyPositions p (List.replicate k none) = List.range' p k
  | _, 0 => rfl
  | p, k + 1 => by rw [List.replicate_succ, emptyPositions, emptyPositions_replicate (p + 1) k, List.range'_succ]

/-- The sender's compact block: the coinbase prefilled, the short IDs of the witness hashes of the
other transactions. -/
theorem ofBlock_eq_some {env : ShortIdEnv} {block : CBlock} {nonce : UInt64} {cmpct : CBlockHeaderAndShortTxIDs}
    (hcmpct : CBlockHeaderAndShortTxIDs.ofBlock env block true nonce = some cmpct) :
    ∃ cb rest, block.vtx = cb :: rest ∧ cmpct.header = block.header ∧ cmpct.prefilledtxn = [⟨0, cb⟩] ∧
      cmpct.shorttxids = rest.map fun tx => cmpct.getShortID env (env.witnessHash tx) := by
  unfold CBlockHeaderAndShortTxIDs.ofBlock at hcmpct
  split at hcmpct
  · cases hcmpct
  · rename_i cb rest hvtx
    cases hcmpct
    exact ⟨cb, rest, hvtx, rfl, rfl, by simp [CBlockHeaderAndShortTxIDs.getShortID]⟩

theorem placePrefilled_coinbase {cb : CTransaction} (hcb : cb.isNull = false) (shortCount : Nat)
    (txn : List (Option CTransaction)) :
    placePrefilled shortCount 0 (-1) [⟨0, cb⟩] txn = (.ok, txn.set 0 (some cb)) := by
  simp [placePrefilled, hcb]

variable (params : ConsensusParams) (env : ShortIdEnv) {block : CBlock} {nonce : UInt64}
  {cmpct : CBlockHeaderAndShortTxIDs} (vTxHashes extraTxn : List (Nat × CTransaction))

/-- `InitData` on the sender's message: the coinbase in the first slot, the short IDs mapped to
the slots after it, and the two scans run from there. -/
theorem initData_ofBlock (hcmpct : CBlockHeaderAndShortTxIDs.ofBlock env block true nonce = some cmpct)
    {cb : CTransaction} {rest : List CTransaction} (hvtx : block.vtx = cb :: rest)
    (hheader : block.nBits ≠ 0) (hcb : cb.isNull = false)
    (hcount : rest.length + 1 ≤ maxBlockSize params maxUInt64 / minSerializableTransactionWeight)
    (hnodup : cmpct.shorttxids.Nodup) (hbucket : ∀ j, env.bucketSize cmpct.shorttxids j ≤ 12) :
    initData params env .empty cmpct vTxHashes extraTxn = some (.ok,
      let map := relayMap (cmpct.getShortID env) env.witnessHash rest
      let final := scanExtra env (cmpct.getShortID env) map rest.length extraTxn
        (scanMempool (cmpct.getShortID env) map rest.length vTxHashes
          ⟨some cb :: List.replicate rest.length none, List.replicate (rest.length + 1) false, 0, 0⟩)
      ⟨final.txnAvailable, cmpct.prefilledtxn.length, final.mempoolCount, final.extraCount, cmpct.header⟩) := by
  obtain ⟨cb', rest', hvtx', hhead, hprefilled, hshort⟩ := ofBlock_eq_some hcmpct
  rw [hvtx] at hvtx'
  obtain ⟨rfl, rfl⟩ := List.cons.inj hvtx'
  set shortIdOf := cmpct.getShortID env
  have hsids : (rest.map fun tx => shortIdOf (env.witnessHash tx)).Nodup := hshort ▸ hnodup
  have hblockTxCount : cmpct.blockTxCount = rest.length + 1 := by
    simp [CBlockHeaderAndShortTxIDs.blockTxCount, hshort, hprefilled]
  -- the slots after the coinbase is placed, and the short IDs mapped to the slots after it
  have hplace : placePrefilled cmpct.shorttxids.length 0 (-1) cmpct.prefilledtxn
      (List.replicate cmpct.blockTxCount none) = (.ok, some cb :: List.replicate rest.length none) := by
    rw [hprefilled, placePrefilled_coinbase hcb, hblockTxCount]
    rfl
  have hmap : mapShortIds env cmpct.shorttxids (some cb :: List.replicate rest.length none) 0 0
      cmpct.shorttxids [] = some (.ok, relayMap shortIdOf env.witnessHash rest) := by
    rw [mapShortIds_eq_assignShortIds env cmpct.shorttxids cmpct.shorttxids 0 0 []
      (by simp [List.countP_replicate]) (by simp [emptyPositions, emptyPositions_replicate, hshort]),
      assignShortIds_of_buckets env _ hbucket]
    simp only [UInt16.toNat_zero, Nat.zero_add, List.drop_zero, emptyPositions, emptyPositions_replicate, relayMap,
      hshort, List.zip_map_right]
    rfl
  have hsize : (relayMap shortIdOf env.witnessHash rest).length = cmpct.shorttxids.length := by
    rw [relayMap, (length_assignAll_nil_eq_iff uint64Lt_strictTotal _).mpr (by
      rw [List.map_fst_zip (by simp)]; exact hsids)]
    simp [hshort]
  have hnull : cmpct.header.isNull = false := by
    simpa [hhead, CBlock.isNull, CBlock.header] using hheader
  have hbound : ¬ maxBlockSize params maxUInt64 / minSerializableTransactionWeight < cmpct.blockTxCount := by
    omega
  have hpre : cmpct.prefilledtxn.isEmpty = false := by rw [hprefilled]; rfl
  have hfresh : (PartiallyDownloadedBlock.empty.header.isNull &&
      PartiallyDownloadedBlock.empty.txnAvailable.isEmpty) = true := rfl
  simp only [initData, hnull, hpre, Bool.and_false, Bool.or_false, Bool.false_eq_true, if_false, hbound,
    hfresh, Bool.not_true, hplace, hmap, hsize, ne_eq, not_true_eq_false]
  simp only [hshort, List.length_map, PartiallyDownloadedBlock.empty, List.length_cons, List.length_replicate]
  rfl

/-- **`InitData` on a compact block from an honest sender.** With no short ID shared by two of
the block's transactions, no bucket too full and pools that cannot mislead it, the receiver
lays out the block's slots and fills exactly those whose transactions are in a pool. -/
theorem initData_relay (hcmpct : CBlockHeaderAndShortTxIDs.ofBlock env block true nonce = some cmpct)
    {cb : CTransaction} {rest : List CTransaction} (hvtx : block.vtx = cb :: rest)
    (hheader : block.nBits ≠ 0) (hcb : cb.isNull = false) (hlength : rest.length < 2 ^ 16)
    (hnodup : cmpct.shorttxids.Nodup) (hbucket : ∀ j, env.bucketSize cmpct.shorttxids j ≤ 12)
    (hmempool : PoolAgrees (cmpct.getShortID env) env.witnessHash rest vTxHashes)
    (hextra : PoolAgrees (cmpct.getShortID env) env.witnessHash rest extraTxn)
    (hdistinct : (vTxHashes.map Prod.snd).Nodup) :
    ∃ pdb, initData params env .empty cmpct vTxHashes extraTxn = some (.ok, pdb) ∧
      pdb.header = block.header ∧
      pdb.txnAvailable = relaySlots cb rest (vTxHashes.map Prod.snd ++ extraTxn.map Prod.snd) := by
  obtain ⟨cb', rest', hvtx', hhead, hprefilled, hshort⟩ := ofBlock_eq_some hcmpct
  rw [hvtx] at hvtx'
  obtain ⟨rfl, rfl⟩ := List.cons.inj hvtx'
  have hsids : (rest.map fun tx => cmpct.getShortID env (env.witnessHash tx)).Nodup := hshort ▸ hnodup
  have hinit := initData_ofBlock params env vTxHashes extraTxn hcmpct hvtx hheader hcb
    (by have := (maxCompactTransactions_bounds params).1; omega) hnodup hbucket
  -- the scans keep `RelayScan` from the slots `InitData` lays out
  have hstart : RelayScan cb rest [] ⟨some cb :: List.replicate rest.length none,
      List.replicate (rest.length + 1) false, 0, 0⟩ :=
    ⟨by simp [relaySlots], by simp [List.replicate_succ], by simp⟩
  have hscan := scanExtra_relay hsids hlength env rfl extraTxn _ _
    (scanMempool_relay hsids hlength vTxHashes [] _ hstart hmempool hdistinct (by simp)) hextra
  exact ⟨_, hinit, hhead, hscan.slots⟩

end InitData

section Request

/-- The receiver's loop asks for the empty slots among the positions it walks, as `uint16_t`s. -/
theorem requestMissing_eq {pdb : PartiallyDownloadedBlock} (hheader : pdb.header.isNull = false) :
    ∀ l : List Nat, (∀ i ∈ l, i < pdb.txnAvailable.length) →
      requestMissing pdb l = some ((l.filter fun i => (pdb.txnAvailable.getD i none).isNone).map (· % 2 ^ 16))
  | [], _ => rfl
  | i :: l, hl => by
    have hi : i < pdb.txnAvailable.length := hl i List.mem_cons_self
    have havailable : pdb.isTxAvailable i = some (pdb.txnAvailable.getD i none).isSome := by
      simp [PartiallyDownloadedBlock.isTxAvailable, List.getElem?_eq_getElem hi, hheader,
        List.getD_eq_getElem?_getD]
    have ih := requestMissing_eq hheader l fun j hj => hl j (List.mem_cons_of_mem i hj)
    rw [requestMissing, havailable, ih, List.filter_cons]
    cases hslot : (pdb.txnAvailable.getD i none) with
    | none => rfl
    | some tx => rfl

/-- The sender answers with the block's transactions at the requested positions. -/
theorem mapM_getElem? {vtx : List CTransaction} : ∀ l : List Nat, (∀ i ∈ l, i < vtx.length) →
    (l.mapM fun i => vtx[i]?) = some (l.filterMap fun i => vtx[i]?)
  | [], _ => rfl
  | i :: l, hl => by
    have hi : i < vtx.length := hl i List.mem_cons_self
    simp [List.mapM_cons, List.getElem?_eq_getElem hi, mapM_getElem? l fun j hj => hl j (List.mem_cons_of_mem i hj)]

/-- The transactions at the empty slots' positions are the holes `FillBlock` fills. -/
theorem filterMap_range_isNone : ∀ (slots : List (Option CTransaction)) (vtx : List CTransaction),
    slots.length = vtx.length →
      ((List.range slots.length).filter fun i => (slots.getD i none).isNone).filterMap (fun i => vtx[i]?) =
        holes slots vtx
  | [], _, _ => rfl
  | _ :: _, [], hlen => absurd hlen (by simp)
  | slot :: slots, tx :: vtx, hlen => by
    have ih := filterMap_range_isNone slots vtx (by simpa using hlen)
    have htail : (((List.range slots.length).filter fun i => (slots.getD i none).isNone).map Nat.succ).filterMap
        (fun i => (tx :: vtx)[i]?) = holes slots vtx := by
      rw [List.filterMap_map, ← ih]
      rfl
    rw [List.length_cons, List.range_succ_eq_map, List.filter_cons, List.filter_map]
    cases slot with
    | none => simpa [Function.comp_def] using htail
    | some _ => simpa [Function.comp_def] using htail

end Request

section Relay

theorem slotsAgree_relaySlots (cb : CTransaction) (rest seen : List CTransaction) :
    SlotsAgree (relaySlots cb rest seen) (cb :: rest) := by
  refine .cons (.inr rfl) ?_
  rw [List.forall₂_map_left_iff]
  exact List.forall₂_same.mpr fun tx _ => by split_ifs <;> simp

/-- The block rebuilt from its header and its transactions. -/
theorem header_with_vtx (block : CBlock) : { block.header with vtx := block.vtx } = block := rfl

variable (params : ConsensusParams) (env : ShortIdEnv) (venv : ValidationEnv) (node : NodeState)

/-- The receiver's pools cannot mislead it about a block whose transactions after the coinbase
are `rest`: every entry carries its transaction's witness hash, a pool transaction with the
short ID of one of them is that transaction, and the mempool holds each transaction once. -/
structure PoolsAgree (shortIdOf : Nat → UInt64) (rest : List CTransaction)
    (vTxHashes extraTxn : List (Nat × CTransaction)) : Prop where
  mempool : PoolAgrees shortIdOf env.witnessHash rest vTxHashes
  extra : PoolAgrees shortIdOf env.witnessHash rest extraTxn
  distinct : (vTxHashes.map Prod.snd).Nodup

/-- **A compact block relays its block.** The sender announces a block of at most `2 ^ 16`
transactions, with a header and a coinbase that are not null, whose short IDs are distinct, to
a receiver whose hash table keeps its buckets small and whose pools cannot mislead it.
`InitData` succeeds; the receiver asks, with positions that the `getblocktxn` encoding carries,
for exactly the transactions after the coinbase that are in neither pool; the sender can answer;
and `FillBlock` rebuilds the sender's block and returns what `CheckBlock` finds of it. -/
theorem relay_reconstructs {block : CBlock} {nonce : UInt64} {cmpct : CBlockHeaderAndShortTxIDs}
    (hcmpct : CBlockHeaderAndShortTxIDs.ofBlock env block true nonce = some cmpct)
    (hheader : block.nBits ≠ 0) (hcoinbase : ∀ cb ∈ block.vtx.head?, cb.isNull = false)
    (hlength : block.vtx.length ≤ 2 ^ 16) (hnodup : cmpct.shorttxids.Nodup)
    (hbucket : ∀ j, env.bucketSize cmpct.shorttxids j ≤ 12) {vTxHashes extraTxn : List (Nat × CTransaction)}
    (hpools : PoolsAgree env (cmpct.getShortID env) block.vtx.tail vTxHashes extraTxn) (blockhash : Nat) :
    ∃ pdb req resp,
      initData params env .empty cmpct vTxHashes extraTxn = some (.ok, pdb) ∧
      blockTxnRequest blockhash cmpct pdb = some req ∧
      req.indexes.Pairwise (· < ·) ∧ (∀ i ∈ req.indexes, i < 2 ^ 16) ∧
      (∀ i, i ∈ req.indexes ↔
        0 < i ∧ ∃ tx, block.vtx[i]? = some tx ∧ tx ∉ (vTxHashes ++ extraTxn).map Prod.snd) ∧
      sendBlockTransactions block req = some resp ∧
      fillBlock params venv node pdb resp.txn =
        (checkBlockStatus (checkBlock params venv node block true true)).map
          fun status => (status, some block, { pdb with header := CBlock.null, txnAvailable := [] }) := by
  obtain ⟨cb, rest, hvtx, hhead, hprefilled, hshort⟩ := ofBlock_eq_some hcmpct
  rw [hvtx] at hcoinbase hlength hpools
  set pool := vTxHashes.map Prod.snd ++ extraTxn.map Prod.snd
  obtain ⟨pdb, hinit, hpdbHeader, hslots⟩ := initData_relay params env vTxHashes extraTxn hcmpct hvtx hheader
    (hcoinbase cb rfl) (by simpa using hlength) hnodup hbucket hpools.mempool hpools.extra hpools.distinct
  have hnull : pdb.header.isNull = false := by
    simpa [hpdbHeader, CBlock.isNull, CBlock.header] using hheader
  have hcount : cmpct.blockTxCount = rest.length + 1 := by
    simp [CBlockHeaderAndShortTxIDs.blockTxCount, hshort, hprefilled]
  have hslotsLength : pdb.txnAvailable.length = rest.length + 1 := by simp [hslots, relaySlots]
  -- the request: the empty slots, whose positions fit a `uint16_t`
  set indexes := (List.range (rest.length + 1)).filter fun i => (pdb.txnAvailable.getD i none).isNone
  have hbounds : ∀ i ∈ indexes, i < rest.length + 1 := fun i hi => List.mem_range.mp (List.mem_filter.mp hi).1
  have hrequest : blockTxnRequest blockhash cmpct pdb = some ⟨blockhash, indexes⟩ := by
    have hid : indexes.map (· % 2 ^ 16) = indexes := by
      have hlength' : rest.length + 1 ≤ 2 ^ 16 := by simpa using hlength
      conv_rhs => rw [← List.map_id indexes]
      apply List.map_congr_left
      intro i hi
      exact Nat.mod_eq_of_lt (by have := hbounds i hi; omega)
    rw [blockTxnRequest, hcount, requestMissing_eq hnull _ (by simp [hslotsLength]), hid]
    rfl
  -- the answer: the block's transactions at those positions, which are the holes of the slots
  have hsend : sendBlockTransactions block ⟨blockhash, indexes⟩ =
      some ⟨blockhash, holes pdb.txnAvailable block.vtx⟩ := by
    rw [sendBlockTransactions, mapM_getElem? _ fun i hi => by rw [hvtx]; simpa using hbounds i hi,
      ← filterMap_range_isNone pdb.txnAvailable block.vtx (by rw [hslotsLength, hvtx]; rfl), hslotsLength]
    rfl
  have hfill : fillBlock params venv node pdb (holes pdb.txnAvailable block.vtx) =
      (checkBlockStatus (checkBlock params venv node block true true)).map
        fun status => (status, some block, { pdb with header := CBlock.null, txnAvailable := [] }) := by
    have hagree : SlotsAgree pdb.txnAvailable block.vtx := by
      rw [hslots, hvtx]
      exact slotsAgree_relaySlots cb rest pool
    have hfillSlots := fillSlots_holes hagree []
    rw [List.append_nil] at hfillSlots
    have hblockHeader : block.header.isNull = false := hpdbHeader ▸ hnull
    simp [fillBlock, hblockHeader, hfillSlots, hpdbHeader, header_with_vtx]
  refine ⟨pdb, ⟨blockhash, indexes⟩, ⟨blockhash, holes pdb.txnAvailable block.vtx⟩, hinit, hrequest,
    List.pairwise_lt_range.filter _, fun i hi => by have := hbounds i hi; simp at hlength; omega, ?_, hsend, hfill⟩
  -- a position is asked for exactly when it is not the coinbase's and its transaction is in no pool
  intro i
  simp only [indexes, List.mem_filter, List.mem_range, hvtx]
  cases i with
  | zero => simp [hslots, relaySlots]
  | succ j =>
    by_cases hj : j < rest.length
    · rw [hslots, getD_relaySlots _ hj]
      simp [hj]
    · simp [hj]

/-- A transaction spending the coinbase of `Validation.coinbaseTx`. -/
def spendTx (hash : Nat) : CTransaction :=
  ⟨hash, [⟨⟨10, 0⟩, []⟩], [⟨Coins.coin, Validation.payScript⟩]⟩

/-- A block of three transactions. -/
def relayedBlock : CBlock := ⟨miningTypePow, 1, 0, 0x1d00ffff, [Validation.coinbaseTx, spendTx 21, spendTx 22]⟩

/-- Its compact block under `hashShortIdEnv` with the nonce `7`. -/
def relayedCmpct : CBlockHeaderAndShortTxIDs := ⟨7, [21, 22], [⟨0, Validation.coinbaseTx⟩], relayedBlock.header⟩

theorem relay_reconstructs_block :
    ∃ pdb req resp,
      initData Validation.mainParams hashShortIdEnv .empty relayedCmpct [(21, spendTx 21)] [] = some (.ok, pdb) ∧
      blockTxnRequest 5 relayedCmpct pdb = some req ∧
      req.indexes.Pairwise (· < ·) ∧ (∀ i ∈ req.indexes, i < 2 ^ 16) ∧
      (∀ i, i ∈ req.indexes ↔
        0 < i ∧ ∃ tx, relayedBlock.vtx[i]? = some tx ∧ tx ∉ ([(21, spendTx 21)] ++ []).map Prod.snd) ∧
      sendBlockTransactions relayedBlock req = some resp ∧
      fillBlock Validation.mainParams Validation.passingEnv Validation.stakeNode pdb resp.txn =
        (checkBlockStatus (checkBlock Validation.mainParams Validation.passingEnv Validation.stakeNode
          relayedBlock true true)).map
          fun status => (status, some relayedBlock, { pdb with header := CBlock.null, txnAvailable := [] }) :=
  @relay_reconstructs Validation.mainParams hashShortIdEnv Validation.passingEnv Validation.stakeNode relayedBlock 7
    relayedCmpct (by decide) (by decide) (by decide) (by decide) (by decide) (fun _ => by simp [hashShortIdEnv])
    [(21, spendTx 21)] [] ⟨by unfold PoolAgrees NoFalseMatch; decide, by unfold PoolAgrees NoFalseMatch; decide,
      by decide⟩ 5

end Relay


/-! ## Blocks of more than `2 ^ 16` transactions

The fork's blocks hold up to `800000` transactions, but the positions of a compact block are
`uint16_t`s. A receiver that holds none of a longer block's transactions asks for every position
after the coinbase cut to 16 bits, so `0` follows `0xffff` in its request, and the sender's
reader refuses the request. -/

section Overflow

variable (params : ConsensusParams) (env : ShortIdEnv)

/-- The empty slots of a block laid out with only its coinbase: every position after the
coinbase's. -/
theorem filter_range_coinbase (cb : CTransaction) (n : Nat) :
    (List.range (n + 1)).filter (fun i => ((some cb :: List.replicate n none).getD i none).isNone) =
      List.range' 1 n := by
  rw [List.range_succ_eq_map, List.filter_cons_of_neg (by simp), List.filter_map, List.range'_eq_map_range]
  have hempty : (List.range n).filter ((fun i => ((some cb :: List.replicate n none).getD i none).isNone) ∘
      Nat.succ) = List.range n := by
    apply List.filter_eq_self.mpr
    intro j hj
    simp [List.mem_range.mp hj]
  rw [hempty]
  apply List.map_congr_left
  intro j _
  omega

/-- `0` after `0xffff`: the positions after the coinbase's, cut to 16 bits, do not increase
once they pass `0xffff`. -/
theorem not_pairwise_range'_mod {n : Nat} (hn : 2 ^ 16 ≤ n) :
    ¬ ((List.range' 1 n).map (· % 2 ^ 16)).Pairwise (· < ·) := by
  obtain ⟨m, rfl⟩ : ∃ m, n = m + 1 := ⟨n - 1, by omega⟩
  intro hsorted
  rw [List.range'_succ, List.map_cons, List.pairwise_cons] at hsorted
  have hwrapped : 2 ^ 16 % 2 ^ 16 ∈ (List.range' 2 m).map (· % 2 ^ 16) :=
    List.mem_map_of_mem (List.mem_range'_1.mpr ⟨by omega, by omega⟩)
  have := hsorted.1 _ hwrapped
  omega

/-- **A compact block of more than `2 ^ 16` transactions is never completed from a receiver
that holds none of them.** The sender announces a block of more than `2 ^ 16` transactions and
at most the size bound, with a header and a coinbase that are not null and distinct short IDs,
to a receiver whose hash table keeps its buckets small and whose pools are empty. `InitData`
succeeds, the receiver asks for every position after the coinbase's cut to a `uint16_t`, and the
sender's reader refuses the request. -/
theorem relay_request_refused {block : CBlock} {nonce : UInt64} {cmpct : CBlockHeaderAndShortTxIDs}
    (hcmpct : CBlockHeaderAndShortTxIDs.ofBlock env block true nonce = some cmpct)
    (hheader : block.nBits ≠ 0) (hcoinbase : ∀ cb ∈ block.vtx.head?, cb.isNull = false)
    (hlong : 2 ^ 16 < block.vtx.length)
    (hcount : block.vtx.length ≤ maxBlockSize params maxUInt64 / minSerializableTransactionWeight)
    (hnodup : cmpct.shorttxids.Nodup) (hbucket : ∀ j, env.bucketSize cmpct.shorttxids j ≤ 12) (blockhash : Nat) :
    ∃ pdb req, initData params env .empty cmpct [] [] = some (.ok, pdb) ∧
      blockTxnRequest blockhash cmpct pdb = some req ∧
      req.indexes = (List.range' 1 (block.vtx.length - 1)).map (· % 2 ^ 16) ∧
      ∀ bytes, ∃ e, BlockTransactionsRequest.deserialize (req.serialize ++ bytes) = .error e := by
  obtain ⟨cb, rest, hvtx, hhead, hprefilled, hshort⟩ := ofBlock_eq_some hcmpct
  rw [hvtx] at hcoinbase hlong hcount
  rw [List.length_cons] at hlong hcount
  -- with empty pools the scans change nothing, and every slot after the coinbase stays empty
  have hinit := initData_ofBlock params env [] [] hcmpct hvtx hheader (hcoinbase cb rfl) hcount hnodup hbucket
  set pdb : PartiallyDownloadedBlock :=
    ⟨some cb :: List.replicate rest.length none, cmpct.prefilledtxn.length, 0, 0, cmpct.header⟩
  have hnull : pdb.header.isNull = false := by
    simpa [pdb, hhead, CBlock.isNull, CBlock.header] using hheader
  have hblockTxCount : cmpct.blockTxCount = rest.length + 1 := by
    simp [CBlockHeaderAndShortTxIDs.blockTxCount, hshort, hprefilled]
  have hrequest : blockTxnRequest blockhash cmpct pdb =
      some ⟨blockhash, (List.range' 1 rest.length).map (· % 2 ^ 16)⟩ := by
    rw [blockTxnRequest, hblockTxCount, requestMissing_eq hnull _ (by simp [pdb]), filter_range_coinbase]
    rfl
  -- at most `800000` positions, far below `MAX_SIZE`
  have hmax := (maxCompactTransactions_bounds params).2
  refine ⟨pdb, _, hinit, hrequest, by rw [hvtx, List.length_cons, Nat.add_sub_cancel], fun bytes => ?_⟩
  apply deserialize_serialize_error
  · intro i hi
    obtain ⟨j, -, rfl⟩ := List.mem_map.mp hi
    exact Nat.mod_lt j (by norm_num)
  · exact not_pairwise_range'_mod (by omega)
  · simp only [List.length_map, List.length_range', Serialize.maxSize]
    omega

/-- Under `hashShortIdEnv` the short ID of a hash below `2 ^ 48` is the hash. -/
theorem toNat_getShortID_hash (cmpct : CBlockHeaderAndShortTxIDs) {n : Nat} (hn : n < 2 ^ 48) :
    (cmpct.getShortID hashShortIdEnv n).toNat = n := by
  have hmask : (0xffffffffffff : UInt64).toNat = 2 ^ 48 - 1 := rfl
  simp only [CBlockHeaderAndShortTxIDs.getShortID, hashShortIdEnv, UInt64.toNat_and, hmask,
    Nat.and_two_pow_sub_one_eq_mod, Nat.toUInt64_eq, UInt64.toNat_ofNat']
  omega

/-- A block of a coinbase and `n` transactions. -/
def overflowBlock (n : Nat) : CBlock :=
  ⟨miningTypePow, 1, 0, 0x1d00ffff, Validation.coinbaseTx :: (List.range n).map spendTx⟩

/-- Its compact block with the nonce `7` before the short IDs are added. -/
def overflowHeader (n : Nat) : CBlockHeaderAndShortTxIDs :=
  ⟨7, [], [⟨0, Validation.coinbaseTx⟩], (overflowBlock n).header⟩

/-- Its compact block under `hashShortIdEnv`, as the constructor builds it. -/
def overflowCmpct (n : Nat) : CBlockHeaderAndShortTxIDs :=
  { overflowHeader n with
    shorttxids := ((List.range n).map spendTx).map fun tx =>
      (overflowHeader n).getShortID hashShortIdEnv (hashShortIdEnv.witnessHash tx) }

-- stated for every `n`, so that nothing below builds the `2 ^ 16` transactions
theorem ofBlock_overflowBlock (n : Nat) :
    CBlockHeaderAndShortTxIDs.ofBlock hashShortIdEnv (overflowBlock n) true 7 = some (overflowCmpct n) := rfl

theorem length_overflowBlock (n : Nat) : (overflowBlock n).vtx.length = n + 1 := by
  simp [overflowBlock]

/-- Distinct hashes below `2 ^ 48` give distinct short IDs. -/
theorem nodup_overflowCmpct {n : Nat} (hn : n ≤ 2 ^ 48) : (overflowCmpct n).shorttxids.Nodup := by
  simp only [overflowCmpct, List.map_map]
  refine List.Nodup.map_on (fun a ha b hb hab => ?_) List.nodup_range
  have hfits : ∀ k ∈ List.range n, hashShortIdEnv.witnessHash (spendTx k) < 2 ^ 48 := fun k hk => by
    simp only [hashShortIdEnv, spendTx]
    have := List.mem_range.mp hk
    omega
  have := congrArg UInt64.toNat hab
  simp only [Function.comp_apply] at this
  rwa [toNat_getShortID_hash _ (hfits a ha), toNat_getShortID_hash _ (hfits b hb)] at this

theorem relay_request_refused_overflowBlock :
    ∃ pdb req,
      initData Validation.mainParams hashShortIdEnv .empty (overflowCmpct (2 ^ 16)) [] [] = some (.ok, pdb) ∧
      blockTxnRequest 5 (overflowCmpct (2 ^ 16)) pdb = some req ∧
      req.indexes = (List.range' 1 ((overflowBlock (2 ^ 16)).vtx.length - 1)).map (· % 2 ^ 16) ∧
      ∀ bytes, ∃ e, BlockTransactionsRequest.deserialize (req.serialize ++ bytes) = .error e := by
  have hcount : (overflowBlock (2 ^ 16)).vtx.length ≤
      maxBlockSize Validation.mainParams maxUInt64 / minSerializableTransactionWeight := by
    rw [length_overflowBlock]
    have := (maxCompactTransactions_bounds Validation.mainParams).1
    omega
  have hcoinbase : ∀ cb ∈ (overflowBlock (2 ^ 16)).vtx.head?, cb.isNull = false := by
    intro cb hcb
    obtain rfl : Validation.coinbaseTx = cb := Option.some.inj hcb
    decide
  exact relay_request_refused Validation.mainParams hashShortIdEnv (ofBlock_overflowBlock (2 ^ 16)) (by decide)
    hcoinbase (by rw [length_overflowBlock]; norm_num) hcount (nodup_overflowCmpct (by norm_num))
    (fun _ => show 1 ≤ 12 by decide) 5

end Overflow

end UnitedBitcoin.CompactBlocks
