import Mathlib
import UnitedBitcoin.Library.OrderedMap
import UnitedBitcoin.Net.BlockTransactionsRequest
import UnitedBitcoin.Validation.CheckBlock

/-!
# Compact blocks

Block relay by short transaction IDs (`blockencodings.cpp`, BIP 152). The sender announces a
block as `CBlockHeaderAndShortTxIDs`: the header, the coinbase sent whole, and for every other
transaction a 6-byte short ID, SipHash of its hash under keys drawn from the header and a
random nonce. The receiver's `PartiallyDownloadedBlock::InitData` lays out one slot per
transaction, puts the prefilled ones in theirs, maps each short ID to the next free slot, and
fills slots from its mempool and its extra pool of recent transactions. It asks for the rest
with `getblocktxn` (`net_processing.cpp`), and `FillBlock` completes the block from the
answer and runs `CheckBlock` on it.

SHA256, SipHash and the witness hash are functions of the environment (`ShortIdEnv`), and so is
the bucket size of the `std::unordered_map` of short IDs, which depends on the library's hash
table. The map's content is modelled by `Library.OrderedMap`: `InitData` reads it only by
`find` and `size`, never in iteration order. A loop that never ends, an `assert` that fails and
a read past the end of a vector give `none`.
-/

namespace UnitedBitcoin.CompactBlocks

open UnitedBitcoin.Library
open UnitedBitcoin.Validation (ConsensusParams ValidationEnv NodeState Check Stop checkBlock
  maxBlockSize maxUInt64)

/-- What the short IDs are computed with, and the hash table that holds them. -/
structure ShortIdEnv where
  /-- `FillShortTxIDSelector`: the first two 64-bit words of the SHA256 of the serialized header
  and nonce. -/
  shortTxIdSelector : CBlock → UInt64 → UInt64 × UInt64
  /-- `SipHashUint256`. -/
  sipHashUint256 : UInt64 → UInt64 → Nat → UInt64
  /-- `CTransaction::GetWitnessHash`. -/
  witnessHash : CTransaction → Nat
  /-- `bucket_size(bucket(shorttxids[i]))` after the first `i + 1` short IDs of a message went
  into a `std::unordered_map` made with one bucket per short ID. -/
  bucketSize : List UInt64 → Nat → Nat

/-- `MIN_SERIALIZABLE_TRANSACTION_WEIGHT`: `WITNESS_SCALE_FACTOR` times the least size of a
serialized transaction. -/
def minSerializableTransactionWeight : Nat := 4 * 10

/-- `PrefilledTransaction`: a transaction sent whole, at the distance `index` from the previous
prefilled one's position plus one. -/
structure PrefilledTransaction where
  index : UInt16
  tx : CTransaction
  deriving DecidableEq, Repr

/-- `CBlockHeaderAndShortTxIDs`, the `cmpctblock` message. -/
structure CBlockHeaderAndShortTxIDs where
  nonce : UInt64
  shorttxids : List UInt64
  prefilledtxn : List PrefilledTransaction
  header : CBlock
  deriving DecidableEq, Repr

namespace CBlockHeaderAndShortTxIDs

variable (env : ShortIdEnv)

/-- `GetShortID`: the SipHash of a transaction hash under the message's keys, cut to 48 bits. -/
def getShortID (cmpct : CBlockHeaderAndShortTxIDs) (txhash : Nat) : UInt64 :=
  let (k0, k1) := env.shortTxIdSelector cmpct.header cmpct.nonce
  env.sipHashUint256 k0 k1 txhash &&& 0xffffffffffff

/-- The constructor from a block: the coinbase prefilled at position `0`, a short ID of the
witness hash (or the hash) of every other transaction. A block with no transactions asks for
`shorttxids(size_t(-1))` and reads `vtx[0]`. -/
def ofBlock (block : CBlock) (fUseWTXID : Bool) (nonce : UInt64) :
    Option CBlockHeaderAndShortTxIDs :=
  match block.vtx with
  | [] => none
  | coinbase :: rest =>
    let cmpct : CBlockHeaderAndShortTxIDs := ⟨nonce, [], [⟨0, coinbase⟩], block.header⟩
    some { cmpct with
      shorttxids := rest.map fun tx =>
        cmpct.getShortID env (if fUseWTXID then env.witnessHash tx else tx.hash) }

/-- `BlockTxCount`. -/
def blockTxCount (cmpct : CBlockHeaderAndShortTxIDs) : Nat :=
  cmpct.shorttxids.length + cmpct.prefilledtxn.length

end CBlockHeaderAndShortTxIDs

/-- `ReadStatus`. -/
inductive ReadStatus where
  | ok
  | invalid
  | failed
  | checkblockFailed
  deriving DecidableEq, Repr

/-- `PartiallyDownloadedBlock`: a slot per transaction of the block, the counts it logs, and the
header. `extra_count` is a `size_t` that can go below zero. -/
structure PartiallyDownloadedBlock where
  txnAvailable : List (Option CTransaction)
  prefilledCount : Nat
  mempoolCount : Nat
  extraCount : UInt64
  header : CBlock
  deriving DecidableEq, Repr

/-- A `PartiallyDownloadedBlock` as constructed. -/
def PartiallyDownloadedBlock.empty : PartiallyDownloadedBlock := ⟨[], 0, 0, 0, CBlock.null⟩

/-! ## `InitData` -/

/-- The loop over the prefilled transactions: `lastprefilledindex`, an `int32_t` that cannot
overflow here, moves on by each index plus one, and the transaction goes to that slot. `i`
counts the prefilled transactions placed. The status is `ok` when the loop ends. -/
def placePrefilled (shortCount : Nat) :
    Nat → Int → List PrefilledTransaction → List (Option CTransaction) →
      ReadStatus × List (Option CTransaction)
  | _, _, [], txn => (.ok, txn)
  | i, last, prefilled :: rest, txn =>
    if prefilled.tx.isNull then (.invalid, txn)
    else
      let last := last + prefilled.index.toNat + 1
      if 0xFFFF < last then (.invalid, txn)
      else if shortCount + i < last.toNat then (.invalid, txn)
      else placePrefilled shortCount (i + 1) last rest (txn.set last.toNat (some prefilled.tx))

/-- `while (txn_available[i + index_offset]) index_offset++;` with a `uint16_t` offset. The
offset takes `2 ^ 16` values at most before it comes back, so where all of them find a slot
taken the loop never ends. -/
def skipAvailable (txn : List (Option CTransaction)) (i : Nat) : Nat → UInt16 → Option UInt16
  | 0, _ => none
  | fuel + 1, offset =>
    match txn[i + offset.toNat]? with
    | none => none
    | some (some _) => skipAvailable txn i fuel (offset + 1)
    | some none => some offset

/-- The loop that maps the `i`-th short ID to the `i`-th slot no prefilled transaction took,
stored as a `uint16_t`. The status is `failed` where a bucket of the map holds more than 12
short IDs. -/
def mapShortIds (env : ShortIdEnv) (shorttxids : List UInt64) (txn : List (Option CTransaction)) :
    Nat → UInt16 → List UInt64 → List (UInt64 × UInt16) →
      Option (ReadStatus × List (UInt64 × UInt16))
  | _, _, [], map => some (.ok, map)
  | i, offset, shortid :: rest, map => do
    let offset ← skipAvailable txn i (2 ^ 16) offset
    let map := mapAssign (· < ·) shortid (i + offset.toNat).toUInt16 map
    if 12 < env.bucketSize shorttxids (i + 1) then some (.failed, map)
    else mapShortIds env shorttxids txn (i + 1) offset rest map

/-- The state of the two scans for candidate transactions: the slots, `have_txn`, and the
counts. -/
structure ScanState where
  txnAvailable : List (Option CTransaction)
  haveTxn : List Bool
  mempoolCount : Nat
  extraCount : UInt64
  deriving DecidableEq, Repr

/-- One mempool transaction: if its short ID is in the map, it goes to the slot when nothing went
there before, and a second one empties the slot. -/
def scanMempoolTx (shortIdOf : Nat → UInt64) (map : List (UInt64 × UInt16)) (s : ScanState)
    (entry : Nat × CTransaction) : ScanState :=
  match map.lookup (shortIdOf entry.1) with
  | none => s
  | some idx =>
    if !s.haveTxn.getD idx.toNat false then
      { s with
        txnAvailable := s.txnAvailable.set idx.toNat (some entry.2)
        haveTxn := s.haveTxn.set idx.toNat true
        mempoolCount := s.mempoolCount + 1 }
    else if (s.txnAvailable.getD idx.toNat none).isSome then
      { s with
        txnAvailable := s.txnAvailable.set idx.toNat none
        mempoolCount := s.mempoolCount - 1 }
    else s

/-- The scan of the mempool's `vTxHashes` (witness hash and transaction), which stops once
`count` slots are filled. -/
def scanMempool (shortIdOf : Nat → UInt64) (map : List (UInt64 × UInt16)) (count : Nat) :
    List (Nat × CTransaction) → ScanState → ScanState
  | [], s => s
  | entry :: rest, s =>
    let s := scanMempoolTx shortIdOf map s entry
    if s.mempoolCount = count then s else scanMempool shortIdOf map count rest s

/-- One transaction of the extra pool. It differs from `scanMempoolTx` in the second match:
the slot is emptied only when the transaction there has another witness hash, so that a
transaction both in the mempool and in the extra pool keeps its slot. -/
def scanExtraTx (env : ShortIdEnv) (shortIdOf : Nat → UInt64) (map : List (UInt64 × UInt16))
    (s : ScanState) (entry : Nat × CTransaction) : ScanState :=
  match map.lookup (shortIdOf entry.1) with
  | none => s
  | some idx =>
    if !s.haveTxn.getD idx.toNat false then
      { s with
        txnAvailable := s.txnAvailable.set idx.toNat (some entry.2)
        haveTxn := s.haveTxn.set idx.toNat true
        mempoolCount := s.mempoolCount + 1
        extraCount := s.extraCount + 1 }
    else
      match s.txnAvailable.getD idx.toNat none with
      | some tx =>
        if env.witnessHash tx ≠ env.witnessHash entry.2 then
          { s with
            txnAvailable := s.txnAvailable.set idx.toNat none
            mempoolCount := s.mempoolCount - 1
            extraCount := s.extraCount - 1 }
        else s
      | none => s

/-- The scan of `extra_txn`, which stops once `count` slots are filled. -/
def scanExtra (env : ShortIdEnv) (shortIdOf : Nat → UInt64) (map : List (UInt64 × UInt16))
    (count : Nat) : List (Nat × CTransaction) → ScanState → ScanState
  | [], s => s
  | entry :: rest, s =>
    let s := scanExtraTx env shortIdOf map s entry
    if s.mempoolCount = count then s else scanExtra env shortIdOf map count rest s

/-- `PartiallyDownloadedBlock::InitData`, with the mempool's `vTxHashes` and the extra pool. -/
def initData (params : ConsensusParams) (env : ShortIdEnv) (pdb : PartiallyDownloadedBlock)
    (cmpct : CBlockHeaderAndShortTxIDs) (vTxHashes extraTxn : List (Nat × CTransaction)) :
    Option (ReadStatus × PartiallyDownloadedBlock) :=
  if cmpct.header.isNull || (cmpct.shorttxids.isEmpty && cmpct.prefilledtxn.isEmpty) then
    some (.invalid, pdb)
  else if maxBlockSize params maxUInt64 / minSerializableTransactionWeight < cmpct.blockTxCount then
    some (.invalid, pdb)
  else if !(pdb.header.isNull && pdb.txnAvailable.isEmpty) then none
  else
    let pdb := { pdb with
      header := cmpct.header
      txnAvailable := List.replicate cmpct.blockTxCount none }
    match placePrefilled cmpct.shorttxids.length 0 (-1) cmpct.prefilledtxn pdb.txnAvailable with
    | (.ok, txn) =>
      let pdb := { pdb with
        txnAvailable := txn
        prefilledCount := cmpct.prefilledtxn.length }
      match mapShortIds env cmpct.shorttxids txn 0 0 cmpct.shorttxids [] with
      | none => none
      | some (.ok, map) =>
        if map.length ≠ cmpct.shorttxids.length then some (.failed, pdb)
        else
          let shortIdOf := cmpct.getShortID env
          let s : ScanState := ⟨txn, List.replicate txn.length false, pdb.mempoolCount, pdb.extraCount⟩
          let s := scanMempool shortIdOf map map.length vTxHashes s
          let s := scanExtra env shortIdOf map map.length extraTxn s
          some (.ok, { pdb with
            txnAvailable := s.txnAvailable
            mempoolCount := s.mempoolCount
            extraCount := s.extraCount })
      | some (status, _) => some (status, pdb)
    | (status, txn) => some (status, { pdb with txnAvailable := txn })

/-- `IsTxAvailable`, with its two `assert`s. -/
def PartiallyDownloadedBlock.isTxAvailable (pdb : PartiallyDownloadedBlock) (index : Nat) :
    Option Bool :=
  match pdb.txnAvailable[index]? with
  | some slot => if pdb.header.isNull then none else some slot.isSome
  | none => none

/-! ## `getblocktxn` and `blocktxn` -/

/-- The receiver's loop over the positions `i < BlockTxCount()`: those whose slot is empty go
into the request, as `uint16_t`s. -/
def requestMissing (pdb : PartiallyDownloadedBlock) : List Nat → Option (List Nat)
  | [] => some []
  | i :: rest => do
    let available ← pdb.isTxAvailable i
    let indexes ← requestMissing pdb rest
    return if available then indexes else i % 2 ^ 16 :: indexes

/-- The `getblocktxn` request the receiver builds after `InitData` returned `READ_STATUS_OK`. -/
def blockTxnRequest (blockhash : Nat) (cmpct : CBlockHeaderAndShortTxIDs)
    (pdb : PartiallyDownloadedBlock) : Option BlockTransactionsRequest :=
  (requestMissing pdb (List.range cmpct.blockTxCount)).map (⟨blockhash, ·⟩)

/-- `BlockTransactions`, the `blocktxn` message. -/
structure BlockTransactions where
  blockhash : Nat
  txn : List CTransaction
  deriving DecidableEq, Repr

/-- `SendBlockTransactions`: the block's transactions at the requested positions. A position
past the end gets the peer a misbehaviour score and no answer. -/
def sendBlockTransactions (block : CBlock) (req : BlockTransactionsRequest) :
    Option BlockTransactions :=
  (req.indexes.mapM fun index => block.vtx[index]?).map (⟨req.blockhash, ·⟩)

/-! ## `FillBlock` -/

/-- The loop of `FillBlock`: each slot's transaction, or where the slot is empty the next of
`vtx_missing`, with what is left of `vtx_missing`. Where `vtx_missing` runs out, the number of
slots passed. -/
def fillSlots : List (Option CTransaction) → List CTransaction →
    Except Nat (List CTransaction × List CTransaction)
  | [], missing => .ok ([], missing)
  | some tx :: rest, missing =>
    ((fillSlots rest missing).map fun (vtx, left) => (tx :: vtx, left)).mapError (· + 1)
  | none :: _, [] => .error 0
  | none :: rest, tx :: missing =>
    ((fillSlots rest missing).map fun (vtx, left) => (tx :: vtx, left)).mapError (· + 1)

/-- `CValidationState::CorruptionPossible` after `CheckBlock`: set by the two merkle-root
rejections only. -/
def corruptionPossible (reason : String) : Bool :=
  reason == "bad-txnmrklroot" || reason == "bad-txns-duplicate"

/-- The status `FillBlock` returns for what `CheckBlock` found. -/
def checkBlockStatus : Check Unit → Option ReadStatus
  | .ok () => some .ok
  | .error (.invalid reason) => some (if corruptionPossible reason then .failed else .checkblockFailed)
  | .error (.fault _) => none

/-- `PartiallyDownloadedBlock::FillBlock`: the status, the block (which the early
`READ_STATUS_INVALID` leaves half-built), and the object, whose slots the loop moves out. -/
def fillBlock (params : ConsensusParams) (venv : ValidationEnv) (node : NodeState)
    (pdb : PartiallyDownloadedBlock) (vtxMissing : List CTransaction) :
    Option (ReadStatus × Option CBlock × PartiallyDownloadedBlock) :=
  if pdb.header.isNull then none
  else
    match fillSlots pdb.txnAvailable vtxMissing with
    | .error k =>
      some (.invalid, none, { pdb with
        txnAvailable := List.replicate k none ++ pdb.txnAvailable.drop k })
    | .ok (vtx, left) =>
      let block := { pdb.header with vtx := vtx }
      let pdb := { pdb with
        header := CBlock.null
        txnAvailable := [] }
      if !left.isEmpty then some (.invalid, some block, pdb)
      else (checkBlockStatus (checkBlock params venv node block true true)).map
        fun status => (status, some block, pdb)

/-! ## The loop over the short IDs

`mapShortIds` skips the taken slots with a `uint16_t` offset. While that offset cannot wrap, the
loop gives the `i`-th short ID the `i`-th empty slot (`mapShortIds_eq_assignShortIds`); where the
`2 ^ 16` slots after a short ID's start are all taken, it never ends. -/

/-- The positions of the empty slots, the first slot at position `p`. -/
def emptyPositions : Nat → List (Option CTransaction) → List Nat
  | _, [] => []
  | p, none :: slots => p :: emptyPositions (p + 1) slots
  | p, some _ :: slots => emptyPositions (p + 1) slots

/-- The short-ID loop with the slots already found: the `i`-th short ID goes to the slot beside
it, as a `uint16_t`, until a bucket is too full. -/
def assignShortIds (env : ShortIdEnv) (shorttxids : List UInt64) :
    Nat → List (UInt64 × Nat) → List (UInt64 × UInt16) → ReadStatus × List (UInt64 × UInt16)
  | _, [], map => (.ok, map)
  | i, (shortid, q) :: rest, map =>
    let map := mapAssign (· < ·) shortid q.toUInt16 map
    if 12 < env.bucketSize shorttxids (i + 1) then (.failed, map)
    else assignShortIds env shorttxids (i + 1) rest map

section ShortIds

theorem toNat_add_one_of_lt {offset : UInt16} (h : offset.toNat + 1 < 2 ^ 16) :
    (offset + 1).toNat = offset.toNat + 1 := by
  rw [UInt16.toNat_add, UInt16.toNat_one, Nat.mod_eq_of_lt h]

theorem getElem?_eq_of_drop {txn : List (Option CTransaction)} {c : Nat} {slot : Option CTransaction}
    {rest : List (Option CTransaction)} (hdrop : txn.drop c = slot :: rest) : txn[c]? = some slot := by
  have h := congrArg (·[0]?) hdrop
  simpa [List.getElem?_drop] using h

theorem drop_succ_of_drop {txn : List (Option CTransaction)} {c : Nat} {slot : Option CTransaction}
    {rest : List (Option CTransaction)} (hdrop : txn.drop c = slot :: rest) : txn.drop (c + 1) = rest := by
  rw [← List.drop_drop, hdrop, List.drop_one, List.tail_cons]

variable {txn : List (Option CTransaction)} {i : Nat}

/-- The skip loop stops at the next empty slot, while its offset stays below `2 ^ 16`. The
induction is on the slots from the loop's start. -/
theorem skipAvailable_spec : ∀ (l : List (Option CTransaction)) (offset : UInt16) (fuel q : Nat)
    (qs : List Nat), txn.drop (i + offset.toNat) = l →
    offset.toNat + l.countP Option.isSome < 2 ^ 16 → l.countP Option.isSome < fuel →
    emptyPositions (i + offset.toNat) l = q :: qs →
    ∃ offset', skipAvailable txn i fuel offset = some offset' ∧ i + offset'.toNat = q ∧
      offset'.toNat + (txn.drop (q + 1)).countP Option.isSome < 2 ^ 16 ∧
      emptyPositions (q + 1) (txn.drop (q + 1)) = qs
  | [], _, _, _, _, _, _, _, hempty => by simp [emptyPositions] at hempty
  | none :: rest, offset, fuel, q, qs, hdrop, hbound, hfuel, hempty => by
    obtain ⟨fuel, rfl⟩ : ∃ f, fuel = f + 1 := ⟨fuel - 1, by omega⟩
    simp only [emptyPositions, List.cons.injEq] at hempty
    obtain ⟨rfl, rfl⟩ := hempty
    refine ⟨offset, by simp [skipAvailable, getElem?_eq_of_drop hdrop], rfl, ?_, ?_⟩
    · rw [drop_succ_of_drop hdrop]
      simpa using hbound
    · rw [drop_succ_of_drop hdrop]
  | some tx :: rest, offset, fuel, q, qs, hdrop, hbound, hfuel, hempty => by
    obtain ⟨fuel, rfl⟩ : ∃ f, fuel = f + 1 := ⟨fuel - 1, by omega⟩
    rw [List.countP_cons_of_pos (by rfl)] at hbound hfuel
    have hnext : (offset + 1).toNat = offset.toNat + 1 := toNat_add_one_of_lt (by omega)
    have hdrop' : txn.drop (i + (offset + 1).toNat) = rest := by
      rw [hnext, ← Nat.add_assoc, drop_succ_of_drop hdrop]
    have hempty' : emptyPositions (i + (offset + 1).toNat) rest = q :: qs := by
      rw [hnext, ← Nat.add_assoc]
      exact hempty
    obtain ⟨offset', hskip, hq, hbound', hqs⟩ :=
      skipAvailable_spec rest (offset + 1) fuel q qs hdrop' (by omega) (by omega) hempty'
    refine ⟨offset', ?_, hq, hbound', hqs⟩
    simp [skipAvailable, getElem?_eq_of_drop hdrop, hskip]

/-- Where the `2 ^ 16` slots from `i` on are all taken, the skip loop never ends. -/
theorem skipAvailable_eq_none (hfull : ∀ o < 2 ^ 16, ∃ tx, txn[i + o]? = some (some tx)) :
    ∀ (fuel : Nat) (offset : UInt16), skipAvailable txn i fuel offset = none
  | 0, _ => rfl
  | fuel + 1, offset => by
    obtain ⟨tx, htx⟩ := hfull offset.toNat offset.toNat_lt
    simp [skipAvailable, htx, skipAvailable_eq_none hfull fuel (offset + 1)]

variable (env : ShortIdEnv) (shorttxids : List UInt64)

/-- **The skip loop refines the direct assignment.** While the offset cannot wrap, the short-ID
loop gives each short ID the next empty slot. The induction is on the short IDs left. -/
theorem mapShortIds_eq_assignShortIds : ∀ (rest : List UInt64) (i : Nat) (offset : UInt16)
    (map : List (UInt64 × UInt16)),
    offset.toNat + (txn.drop (i + offset.toNat)).countP Option.isSome < 2 ^ 16 →
    rest.length ≤ (emptyPositions (i + offset.toNat) (txn.drop (i + offset.toNat))).length →
    mapShortIds env shorttxids txn i offset rest map =
      some (assignShortIds env shorttxids i
        (rest.zip (emptyPositions (i + offset.toNat) (txn.drop (i + offset.toNat)))) map)
  | [], _, _, _, _, _ => rfl
  | shortid :: rest, i, offset, map, hbound, hlength => by
    obtain ⟨q, qs, hempty⟩ : ∃ q qs, emptyPositions (i + offset.toNat) (txn.drop (i + offset.toNat)) = q :: qs := by
      cases h : emptyPositions (i + offset.toNat) (txn.drop (i + offset.toNat)) with
      | nil => rw [h] at hlength; simp at hlength
      | cons q qs => exact ⟨q, qs, rfl⟩
    obtain ⟨offset', hskip, hq, hbound', hqs⟩ :=
      skipAvailable_spec _ offset (2 ^ 16) q qs rfl hbound (by omega) hempty
    rw [hempty] at hlength
    have hnext : i + 1 + offset'.toNat = q + 1 := by omega
    have ih := mapShortIds_eq_assignShortIds rest (i + 1) offset'
      (mapAssign (· < ·) shortid q.toUInt16 map) (by rw [hnext]; exact hbound')
      (by rw [hnext, hqs]; simpa using hlength)
    rw [hnext, hqs] at ih
    simp only [mapShortIds, hskip, Option.bind_eq_bind, Option.bind_some, hq, hempty, List.zip_cons_cons,
      assignShortIds]
    split_ifs
    · rfl
    · exact ih

/-- Where no bucket is too full, the direct assignment builds the map of all the short IDs. -/
theorem assignShortIds_of_buckets (hbucket : ∀ j, env.bucketSize shorttxids j ≤ 12) :
    ∀ (i : Nat) (entries : List (UInt64 × Nat)) (map : List (UInt64 × UInt16)),
      assignShortIds env shorttxids i entries map =
        (.ok, assignAll (· < ·) map (entries.map fun entry => (entry.1, entry.2.toUInt16)))
  | _, [], _ => rfl
  | i, (shortid, q) :: rest, map => by
    rw [assignShortIds, if_neg (Nat.not_lt.mpr (hbucket (i + 1))), assignShortIds_of_buckets hbucket,
      List.map_cons, assignAll_cons]

/-- The order of the map's keys, which `InitData` never reads. -/
theorem uint64Lt_strictTotal : StrictTotal (fun a b : UInt64 => decide (a < b)) where
  irrefl a := by simp
  trans a b c := by simp only [decide_eq_true_eq, UInt64.lt_iff_toNat_lt]; omega
  total a b := by simp only [decide_eq_true_eq, UInt64.lt_iff_toNat_lt, ← UInt64.toNat_inj]; omega

end ShortIds

/-! ## When `InitData` returns

The prefilled loop always ends. The short-ID loop ends unless the `2 ^ 16` values of its offset
all land on taken slots. The prefilled positions strictly increase from `0` and stay below
`2 ^ 16`, so that happens exactly when `2 ^ 16` prefilled transactions take the slots `0` to
`0xFFFF` and a short ID is left to map: `InitData` then never returns, whatever the pools hold. -/

section Returns

/-- The bound `InitData` puts on the transactions of a compact block, at either block size. -/
theorem maxCompactTransactions_bounds (params : ConsensusParams) :
    100000 ≤ maxBlockSize params maxUInt64 / minSerializableTransactionWeight ∧
      maxBlockSize params maxUInt64 / minSerializableTransactionWeight ≤ 800000 := by
  unfold maxBlockSize minSerializableTransactionWeight
  split_ifs <;> norm_num

variable {shortCount : Nat}

theorem length_placePrefilled : ∀ (i : Nat) (last : Int) (prefilled : List PrefilledTransaction)
    (txn : List (Option CTransaction)), (placePrefilled shortCount i last prefilled txn).2.length = txn.length
  | _, _, [], _ => rfl
  | i, last, p :: rest, txn => by
    simp only [placePrefilled]
    split_ifs
    · rfl
    · rfl
    · rfl
    · rw [length_placePrefilled, List.length_set]

/-- Each prefilled transaction takes one slot at most. -/
theorem countP_placePrefilled_le : ∀ (i : Nat) (last : Int) (prefilled : List PrefilledTransaction)
    (txn : List (Option CTransaction)),
    (placePrefilled shortCount i last prefilled txn).2.countP Option.isSome ≤
      txn.countP Option.isSome + prefilled.length
  | _, _, [], _ => by simp [placePrefilled]
  | i, last, p :: rest, txn => by
    have hset : ∀ k, (txn.set k (some p.tx)).countP Option.isSome ≤ txn.countP Option.isSome + 1 := by
      intro k
      by_cases hk : k < txn.length
      · rw [List.countP_set hk]
        split_ifs <;> omega
      · rw [List.set_eq_of_length_le (Nat.le_of_not_lt hk)]
        omega
    simp only [placePrefilled]
    split_ifs
    · simp
    · simp
    · simp
    · have := countP_placePrefilled_le (i + 1) (last + p.index.toNat + 1) rest
        (txn.set (last + p.index.toNat + 1).toNat (some p.tx))
      have := hset (last + p.index.toNat + 1).toNat
      simp only [List.length_cons]
      omega

/-- Where the prefilled loop ends with `ok`, no prefilled transaction is null, and the last
position (`lastprefilledindex` moved on by each index plus one) is at most `0xFFFF`. -/
theorem placePrefilled_eq_ok : ∀ {i : Nat} {last : Int} {prefilled : List PrefilledTransaction}
    {txn txn' : List (Option CTransaction)}, placePrefilled shortCount i last prefilled txn = (.ok, txn') →
    last ≤ 0xFFFF →
    last + prefilled.length + ((prefilled.map fun p => p.index.toNat).sum : Nat) ≤ 0xFFFF ∧
      ∀ p ∈ prefilled, p.tx.isNull = false
  | _, _, [], _, _, _, hlast => by simpa using hlast
  | i, last, p :: rest, txn, txn', hplace, _ => by
    simp only [placePrefilled] at hplace
    split_ifs at hplace with hnull hover hshort
    · cases hplace
    · cases hplace
    · cases hplace
    -- the next position passed the check, and the loop goes on from it
    obtain ⟨hsum, hrest⟩ := placePrefilled_eq_ok hplace (Int.not_lt.mp hover)
    refine ⟨?_, ?_⟩
    · simp only [List.length_cons, List.map_cons, List.sum_cons]
      push_cast at hsum ⊢
      omega
    · simp only [List.mem_cons, forall_eq_or_imp]
      exact ⟨Bool.eq_false_iff.mpr hnull, hrest⟩

/-- Prefilled transactions at distance `0` from each other take the slots from `i` on, one each,
and leave the slots that were taken taken. -/
theorem placePrefilled_consecutive : ∀ (i : Nat) (prefilled : List PrefilledTransaction)
    (txn : List (Option CTransaction)), (∀ p ∈ prefilled, p.index = 0 ∧ p.tx.isNull = false) →
    i + prefilled.length ≤ 2 ^ 16 →
    ∃ txn', placePrefilled shortCount i (i - 1) prefilled txn = (.ok, txn') ∧
      ∀ j < txn.length, (i ≤ j ∧ j < i + prefilled.length) ∨ (∃ tx, txn[j]? = some (some tx)) →
        ∃ tx, txn'[j]? = some (some tx)
  | i, [], txn, _, _ => by
    refine ⟨txn, rfl, ?_⟩
    rintro j - (⟨hi, hj⟩ | htaken)
    · simp at hj
      omega
    · exact htaken
  | i, p :: rest, txn, hzero, hlength => by
    obtain ⟨⟨hindex, hnull⟩, hrest⟩ := List.forall_mem_cons.mp hzero
    simp only [List.length_cons] at hlength
    -- the transaction goes to slot `i`, and the loop goes on from `i + 1`
    have hlast : (i : Int) - 1 + p.index.toNat + 1 = ((i + 1 : Nat) : Int) - 1 := by
      rw [hindex, UInt16.toNat_zero]
      push_cast
      ring
    obtain ⟨txn', hplace, htaken⟩ :=
      placePrefilled_consecutive (i + 1) rest (txn.set i (some p.tx)) hrest (by omega)
    refine ⟨txn', ?_, ?_⟩
    · have hover : ¬ (0xFFFF : Int) < ((i + 1 : Nat) : Int) - 1 := by omega
      have hshort : ¬ shortCount + i < (((i + 1 : Nat) : Int) - 1).toNat := by omega
      simp only [placePrefilled, hnull, Bool.false_eq_true, if_false, hlast, hover, hshort]
      have hslot : (((i + 1 : Nat) : Int) - 1).toNat = i := by omega
      rw [hslot]
      exact hplace
    · intro j hj hcase
      apply htaken j (by rw [List.length_set]; exact hj)
      by_cases hji : j = i
      · subst hji
        exact .inr ⟨p.tx, by rw [List.getElem?_set_self hj]⟩
      · rcases hcase with ⟨hi, hj'⟩ | ⟨tx, htx⟩
        · exact .inl ⟨by omega, by simp only [List.length_cons] at hj'; omega⟩
        · exact .inr ⟨tx, by rw [List.getElem?_set_ne (Ne.symm hji)]; exact htx⟩

/-- The positions of the empty slots are as many as the empty slots. -/
theorem length_emptyPositions_add : ∀ (p : Nat) (slots : List (Option CTransaction)),
    (emptyPositions p slots).length + slots.countP Option.isSome = slots.length
  | _, [] => rfl
  | p, none :: slots => by
    simp only [emptyPositions, List.length_cons, List.countP_cons_of_neg (by simp : ¬ (none : Option CTransaction).isSome = true)]
    have := length_emptyPositions_add (p + 1) slots
    omega
  | p, some tx :: slots => by
    simp only [emptyPositions, List.length_cons, List.countP_cons_of_pos (by rfl : (some tx).isSome = true)]
    have := length_emptyPositions_add (p + 1) slots
    omega

variable (params : ConsensusParams) (env : ShortIdEnv) {cmpct : CBlockHeaderAndShortTxIDs}
  {vTxHashes extraTxn : List (Nat × CTransaction)}

/-- On a fresh object, with a header and not too many transactions, `InitData` fails to return
only in the short-ID loop, after the prefilled loop ended with `ok`. -/
theorem initData_empty_eq_none_iff (hheader : cmpct.header.isNull = false)
    (hcount : cmpct.blockTxCount ≤ maxBlockSize params maxUInt64 / minSerializableTransactionWeight) :
    initData params env .empty cmpct vTxHashes extraTxn = none ↔
      ∃ txn, placePrefilled cmpct.shorttxids.length 0 (-1) cmpct.prefilledtxn
          (List.replicate cmpct.blockTxCount none) = (.ok, txn) ∧
        mapShortIds env cmpct.shorttxids txn 0 0 cmpct.shorttxids [] = none := by
  have hbound : ¬ maxBlockSize params maxUInt64 / minSerializableTransactionWeight < cmpct.blockTxCount :=
    Nat.not_lt.mpr hcount
  have hfresh : (PartiallyDownloadedBlock.empty.header.isNull &&
      PartiallyDownloadedBlock.empty.txnAvailable.isEmpty) = true := rfl
  by_cases hempty : (cmpct.shorttxids.isEmpty && cmpct.prefilledtxn.isEmpty) = true
  · -- no transaction at all: refused at once, and the short-ID loop has nothing to do
    have hshort : cmpct.shorttxids = [] := by simpa using (Bool.and_eq_true _ _).mp hempty |>.1
    simp only [initData, hheader, hempty, Bool.or_true, if_true, reduceCtorEq, false_iff, not_exists,
      not_and]
    intro txn _
    rw [hshort]
    simp [mapShortIds]
  · simp only [Bool.not_eq_true] at hempty
    simp only [initData, hheader, hempty, Bool.or_false, Bool.false_eq_true, if_false, hbound, hfresh,
      Bool.not_true]
    rcases hplace : placePrefilled cmpct.shorttxids.length 0 (-1) cmpct.prefilledtxn
      (List.replicate cmpct.blockTxCount none) with ⟨status, txn⟩
    cases status with
    | ok =>
      simp only [Prod.mk.injEq, true_and, exists_eq_left']
      rcases mapShortIds env cmpct.shorttxids txn 0 0 cmpct.shorttxids [] with _ | ⟨status, map⟩
      · simp
      · cases status with
        | ok =>
          dsimp only
          split_ifs <;> simp
        | _ => simp
    | invalid => simp
    | failed => simp
    | checkblockFailed => simp

/-- **When `InitData` never returns.** On a fresh object, a message with a header and not too
many transactions makes `InitData` loop forever exactly when it has a short ID and `2 ^ 16`
prefilled transactions, none null, each at distance `0` from the one before: they take the
slots `0` to `0xFFFF`, and the `uint16_t` offset of the first short ID finds no free slot. -/
theorem initData_eq_none_iff (hheader : cmpct.header.isNull = false)
    (hcount : cmpct.blockTxCount ≤ maxBlockSize params maxUInt64 / minSerializableTransactionWeight) :
    initData params env .empty cmpct vTxHashes extraTxn = none ↔
      cmpct.shorttxids ≠ [] ∧ cmpct.prefilledtxn.length = 2 ^ 16 ∧
        ∀ p ∈ cmpct.prefilledtxn, p.index = 0 ∧ p.tx.isNull = false := by
  rw [initData_empty_eq_none_iff params env hheader hcount]
  constructor
  · rintro ⟨txn, hplace, hmap⟩
    obtain ⟨hsum, hnull⟩ := placePrefilled_eq_ok hplace (by norm_num)
    have hshort : cmpct.shorttxids ≠ [] := by
      intro hnil
      rw [hnil] at hmap
      simp [mapShortIds] at hmap
    -- with fewer than `2 ^ 16` slots taken the offset never wraps, and the loop returns
    have hfull : 2 ^ 16 ≤ cmpct.prefilledtxn.length := by
      by_contra hlt
      have hlength : txn.length = cmpct.shorttxids.length + cmpct.prefilledtxn.length := by
        have := @length_placePrefilled cmpct.shorttxids.length 0 (-1) cmpct.prefilledtxn
          (List.replicate cmpct.blockTxCount none)
        rw [hplace] at this
        simpa [CBlockHeaderAndShortTxIDs.blockTxCount] using this
      have htaken : txn.countP Option.isSome ≤ cmpct.prefilledtxn.length := by
        have := @countP_placePrefilled_le cmpct.shorttxids.length 0 (-1)
          cmpct.prefilledtxn (List.replicate cmpct.blockTxCount none)
        rw [hplace] at this
        simpa [List.countP_replicate] using this
      have hempty := length_emptyPositions_add 0 txn
      rw [mapShortIds_eq_assignShortIds env cmpct.shorttxids cmpct.shorttxids 0 0 []
        (by simp only [UInt16.toNat_zero, Nat.zero_add, List.drop_zero]; omega)
        (by simp only [UInt16.toNat_zero, Nat.zero_add, List.drop_zero]; omega)] at hmap
      cases hmap
    -- `2 ^ 16` positions below `0x10000` leave every index `0`
    have hindexes : ((cmpct.prefilledtxn.map fun p => p.index.toNat).sum : Nat) = 0 := by omega
    refine ⟨hshort, by omega, fun p hp => ⟨?_, hnull p hp⟩⟩
    have hzero := List.sum_eq_zero_iff.mp hindexes p.index.toNat (List.mem_map_of_mem hp)
    exact UInt16.toNat_inj.mp (by rw [hzero, UInt16.toNat_zero])
  · rintro ⟨hshort, hlength, hzero⟩
    obtain ⟨txn, hplace, htaken⟩ := @placePrefilled_consecutive cmpct.shorttxids.length 0
      cmpct.prefilledtxn (List.replicate cmpct.blockTxCount none) hzero (by omega)
    refine ⟨txn, hplace, ?_⟩
    -- every value of the first short ID's offset finds its slot taken
    have hfull : ∀ o < 2 ^ 16, ∃ tx, txn[0 + o]? = some (some tx) := by
      intro o ho
      have hshortLength : 0 < cmpct.shorttxids.length := List.length_pos_iff.mpr hshort
      exact htaken (0 + o) (by simp [CBlockHeaderAndShortTxIDs.blockTxCount]; omega) (.inl ⟨by omega, by omega⟩)
    obtain ⟨shortid, rest, hcons⟩ := List.exists_cons_of_ne_nil hshort
    rw [hcons]
    simp [mapShortIds, skipAvailable_eq_none hfull]

/-- A message with one short ID and `2 ^ 16` prefilled coinbases at distance `0`. -/
def floodCmpct : CBlockHeaderAndShortTxIDs :=
  ⟨0, [0], List.replicate (2 ^ 16) ⟨0, Validation.coinbaseTx⟩, ⟨0, 1, 0, 0x1d00ffff, []⟩⟩

/-- Short IDs that are the transaction hashes, and buckets of one. -/
def hashShortIdEnv : ShortIdEnv where
  shortTxIdSelector _ _ := (0, 0)
  sipHashUint256 _ _ txhash := txhash.toUInt64
  witnessHash tx := tx.hash
  bucketSize _ _ := 1

theorem initData_floodCmpct : floodCmpct.header.isNull = false ∧
    floodCmpct.blockTxCount ≤ maxBlockSize Validation.mainParams maxUInt64 / minSerializableTransactionWeight ∧
    initData Validation.mainParams hashShortIdEnv .empty floodCmpct [] [] = none := by
  have hheader : floodCmpct.header.isNull = false := by decide
  have hlength : floodCmpct.prefilledtxn.length = 2 ^ 16 := List.length_replicate
  -- counted by rewriting: the kernel would build the `2 ^ 16` transactions to compare sums
  have hcount : floodCmpct.blockTxCount ≤
      maxBlockSize Validation.mainParams maxUInt64 / minSerializableTransactionWeight := by
    rw [CBlockHeaderAndShortTxIDs.blockTxCount, hlength, show floodCmpct.shorttxids.length = 1 from rfl]
    have := (maxCompactTransactions_bounds Validation.mainParams).1
    omega
  refine ⟨hheader, hcount, (initData_eq_none_iff Validation.mainParams hashShortIdEnv hheader hcount).mpr
    ⟨List.cons_ne_nil 0 [], hlength, ?_⟩⟩
  intro p hp
  obtain rfl := List.eq_of_mem_replicate hp
  exact ⟨rfl, by decide⟩

end Returns

/-! ## The loops of `FillBlock` -/

/-- A slot is empty or holds the block's transaction at its position. -/
def SlotsAgree (slots : List (Option CTransaction)) (vtx : List CTransaction) : Prop :=
  List.Forall₂ (fun slot tx => slot = none ∨ slot = some tx) slots vtx

/-- The block's transactions at the empty slots, in order: what `vtx_missing` has to be. -/
def holes (slots : List (Option CTransaction)) (vtx : List CTransaction) : List CTransaction :=
  (slots.zip vtx).filterMap fun (slot, tx) => if slot.isNone then some tx else none

section FillSlots

@[simp]
theorem holes_nil_left (vtx : List CTransaction) : holes [] vtx = [] := rfl

@[simp]
theorem holes_none_cons (slots : List (Option CTransaction)) (tx : CTransaction) (vtx : List CTransaction) :
    holes (none :: slots) (tx :: vtx) = tx :: holes slots vtx := by
  simp [holes]

@[simp]
theorem holes_some_cons (slots : List (Option CTransaction)) (slot tx : CTransaction) (vtx : List CTransaction) :
    holes (some slot :: slots) (tx :: vtx) = holes slots vtx := by
  simp [holes]

theorem fillSlots_some_cons (tx : CTransaction) (slots : List (Option CTransaction)) (missing : List CTransaction) :
    fillSlots (some tx :: slots) missing =
      ((fillSlots slots missing).map fun (vtx, left) => (tx :: vtx, left)).mapError (· + 1) := rfl

theorem fillSlots_none_cons (tx : CTransaction) (slots : List (Option CTransaction)) (missing : List CTransaction) :
    fillSlots (none :: slots) (tx :: missing) =
      ((fillSlots slots missing).map fun (vtx, left) => (tx :: vtx, left)).mapError (· + 1) := rfl

/-- The loop puts the transactions of `vtx_missing` into the empty slots in order. -/
theorem fillSlots_holes {slots : List (Option CTransaction)} {vtx : List CTransaction}
    (hagree : SlotsAgree slots vtx) (left : List CTransaction) :
    fillSlots slots (holes slots vtx ++ left) = .ok (vtx, left) := by
  induction hagree with
  | nil => rfl
  | @cons slot tx slots vtx hslot _ ih =>
    rcases hslot with rfl | rfl
    · rw [holes_none_cons, List.cons_append, fillSlots_none_cons, ih]
      rfl
    · rw [holes_some_cons, fillSlots_some_cons, ih]
      rfl

/-- What the loop returns is the slots' transactions with `vtx_missing` in the empty ones. -/
theorem eq_holes_of_fillSlots : ∀ {slots : List (Option CTransaction)} {missing vtx left : List CTransaction},
    fillSlots slots missing = .ok (vtx, left) → SlotsAgree slots vtx ∧ missing = holes slots vtx ++ left
  | [], missing, vtx, left, hfill => by
    cases hfill
    exact ⟨.nil, rfl⟩
  | some tx :: slots, missing, vtx, left, hfill => by
    rw [fillSlots_some_cons] at hfill
    cases hrest : fillSlots slots missing with
    | error k => simp [hrest, Except.map, Except.mapError] at hfill
    | ok result =>
      obtain ⟨vtx', left'⟩ := result
      simp only [hrest, Except.map, Except.mapError, Except.ok.injEq, Prod.mk.injEq] at hfill
      obtain ⟨rfl, rfl⟩ := hfill
      obtain ⟨hagree, rfl⟩ := eq_holes_of_fillSlots hrest
      exact ⟨.cons (.inr rfl) hagree, by rw [holes_some_cons]⟩
  | none :: slots, [], vtx, left, hfill => by cases hfill
  | none :: slots, tx :: missing, vtx, left, hfill => by
    rw [fillSlots_none_cons] at hfill
    cases hrest : fillSlots slots missing with
    | error k => simp [hrest, Except.map, Except.mapError] at hfill
    | ok result =>
      obtain ⟨vtx', left'⟩ := result
      simp only [hrest, Except.map, Except.mapError, Except.ok.injEq, Prod.mk.injEq] at hfill
      obtain ⟨rfl, rfl⟩ := hfill
      obtain ⟨hagree, rfl⟩ := eq_holes_of_fillSlots hrest
      exact ⟨.cons (.inl rfl) hagree, by rw [holes_none_cons, List.cons_append]⟩

/-- The loop runs out of `vtx_missing` exactly when it is shorter than the number of empty
slots. -/
theorem fillSlots_error_iff : ∀ (slots : List (Option CTransaction)) (missing : List CTransaction),
    (∃ k, fillSlots slots missing = .error k) ↔ missing.length < (slots.filter Option.isNone).length
  | [], missing => by simp [fillSlots]
  | some tx :: slots, missing => by
    rw [fillSlots_some_cons, List.filter_cons_of_neg (by simp), ← fillSlots_error_iff slots missing]
    cases fillSlots slots missing <;> simp [Except.map, Except.mapError]
  | none :: slots, [] => by simp [fillSlots]
  | none :: slots, tx :: missing => by
    rw [fillSlots_none_cons, List.filter_cons_of_pos (by simp), List.length_cons, List.length_cons,
      Nat.add_lt_add_iff_right, ← fillSlots_error_iff slots missing]
    cases fillSlots slots missing <;> simp [Except.map, Except.mapError]

theorem length_holes {slots : List (Option CTransaction)} {vtx : List CTransaction}
    (hagree : SlotsAgree slots vtx) : (holes slots vtx).length = (slots.filter Option.isNone).length := by
  induction hagree with
  | nil => rfl
  | @cons slot tx slots vtx hslot _ ih =>
    rcases hslot with rfl | rfl
    · simp [ih]
    · simp [ih]

/-- When the loop does not run out, it returns a block's transactions and the rest of
`vtx_missing`. -/
theorem fillSlots_eq_ok_of_le {slots : List (Option CTransaction)} {missing : List CTransaction}
    (hle : (slots.filter Option.isNone).length ≤ missing.length) :
    ∃ vtx left, fillSlots slots missing = .ok (vtx, left) := by
  cases hfill : fillSlots slots missing with
  | error k =>
    have := (fillSlots_error_iff slots missing).mp ⟨k, hfill⟩
    omega
  | ok result => exact ⟨result.1, result.2, rfl⟩

end FillSlots

section FillBlock

variable (params : ConsensusParams) (venv : ValidationEnv) (node : NodeState)

/-- **What `FillBlock` builds.** On an object with a header, `FillBlock` returns
`READ_STATUS_INVALID` exactly when `vtx_missing` does not hold one transaction per empty slot.
Otherwise the block it builds is the header with the slots' transactions, `vtx_missing` in the
empty slots in order; it clears the object and returns the status of `CheckBlock` on the block. -/
theorem fillBlock_spec {pdb : PartiallyDownloadedBlock} (hheader : pdb.header.isNull = false)
    (vtxMissing : List CTransaction) :
    (vtxMissing.length = (pdb.txnAvailable.filter Option.isNone).length →
      ∃ vtx, SlotsAgree pdb.txnAvailable vtx ∧ vtxMissing = holes pdb.txnAvailable vtx ∧
        fillBlock params venv node pdb vtxMissing =
          (checkBlockStatus (checkBlock params venv node { pdb.header with vtx := vtx } true true)).map
            fun status => (status, some { pdb.header with vtx := vtx },
              { pdb with header := CBlock.null, txnAvailable := [] })) ∧
    (vtxMissing.length ≠ (pdb.txnAvailable.filter Option.isNone).length →
      ∃ block pdb', fillBlock params venv node pdb vtxMissing = some (.invalid, block, pdb')) := by
  constructor
  · intro hcount
    obtain ⟨vtx, left, hfill⟩ : ∃ vtx left, fillSlots pdb.txnAvailable vtxMissing = .ok (vtx, left) :=
      fillSlots_eq_ok_of_le hcount.ge
    obtain ⟨hagree, hmissing⟩ := eq_holes_of_fillSlots hfill
    have hleft : left = [] := by
      have := congrArg List.length hmissing
      rw [List.length_append, length_holes hagree, hcount] at this
      exact List.eq_nil_of_length_eq_zero (by omega)
    subst hleft
    refine ⟨vtx, hagree, by simpa using hmissing, ?_⟩
    simp [fillBlock, hheader, hfill]
  · intro hcount
    cases hfill : fillSlots pdb.txnAvailable vtxMissing with
    | error k =>
      exact ⟨none, { pdb with txnAvailable := List.replicate k none ++ pdb.txnAvailable.drop k },
        by simp [fillBlock, hheader, hfill]⟩
    | ok result =>
      obtain ⟨vtx, left⟩ := result
      obtain ⟨hagree, hmissing⟩ := eq_holes_of_fillSlots hfill
      -- what is left of `vtx_missing` is not empty, or the counts would agree
      have hleft : left ≠ [] := by
        rintro rfl
        apply hcount
        rw [hmissing, List.append_nil, length_holes hagree]
      exact ⟨some { pdb.header with vtx := vtx }, { pdb with header := CBlock.null, txnAvailable := [] },
        by simp [fillBlock, hheader, hfill, hleft]⟩

/-- An object with the coinbase in its first slot and the second slot empty. -/
def twoSlots : PartiallyDownloadedBlock :=
  ⟨[some Validation.coinbaseTx, none], 1, 0, 0, ⟨0, 1, 0, 0x1d00ffff, []⟩⟩

theorem fillBlock_spec_twoSlots :
    ([Validation.coinbaseTx].length = (twoSlots.txnAvailable.filter Option.isNone).length →
      ∃ vtx, SlotsAgree twoSlots.txnAvailable vtx ∧ [Validation.coinbaseTx] = holes twoSlots.txnAvailable vtx ∧
        fillBlock Validation.mainParams Validation.passingEnv Validation.stakeNode twoSlots [Validation.coinbaseTx] =
          (checkBlockStatus (checkBlock Validation.mainParams Validation.passingEnv Validation.stakeNode
            { twoSlots.header with vtx := vtx } true true)).map
            fun status => (status, some { twoSlots.header with vtx := vtx },
              { twoSlots with header := CBlock.null, txnAvailable := [] })) ∧
    ([Validation.coinbaseTx].length ≠ (twoSlots.txnAvailable.filter Option.isNone).length →
      ∃ block pdb', fillBlock Validation.mainParams Validation.passingEnv Validation.stakeNode twoSlots
        [Validation.coinbaseTx] = some (.invalid, block, pdb')) :=
  @fillBlock_spec Validation.mainParams Validation.passingEnv Validation.stakeNode twoSlots (by decide)
    [Validation.coinbaseTx]

end FillBlock

end UnitedBitcoin.CompactBlocks
