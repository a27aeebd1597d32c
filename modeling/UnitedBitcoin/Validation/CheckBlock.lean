import Mathlib
import UnitedBitcoin.Primitives.Transaction
import UnitedBitcoin.Coins.Cache
import UnitedBitcoin.Coins.Compressor

/-!
# Context-free block checks

`CheckTransaction` (`consensus/tx_verify.cpp`), `CheckBlockHeader` and `CheckBlock`
(`validation.cpp`) with the proof-of-stake checks `CheckProofOfStake` and
`CheckStake` (`miner.cpp`).

What the checks compute with hashing, difficulty, the merkle tree, serialized
sizes, signature-operation counts and the script interpreter is taken as given
(`ValidationEnv`). What they read of the node is explicit (`NodeState`): the
block index, the active chain's height and the tip's UTXO set. `CheckBlock`'s
cache of a positive verdict (`fChecked`) is left out.

A check passes, or stops with the block's reject reason, or with a fault: an
element access past the end of a vector, which is undefined behaviour in the
source, or the exception `arith_uint256` throws on a division by zero.
-/

namespace UnitedBitcoin.Validation

open UnitedBitcoin.Coins

/-- The consensus parameters block validation reads (`Consensus::Params`). -/
structure ConsensusParams where
  ubcHeight : Int
  ubcInitBlockCount : Int
  ubcontractHeight : Int
  forkV2Height : Int
  forkV4Height : Int
  nStakeMinConfirmations : Int
  deriving Repr

/-- The main network's parameters (`chainparams.cpp`). -/
def mainParams : ConsensusParams where
  ubcHeight := 498777
  ubcInitBlockCount := 500
  ubcontractHeight := 551111
  forkV2Height := 572000
  forkV4Height := 813500
  nStakeMinConfirmations := 4800

/-- `MaxBlockSize`; `UB_FORK_BLOCK_NUM` is the network's `UBCHeight`. -/
def maxBlockSize (params : ConsensusParams) (nblock : Int) : Nat :=
  if nblock < params.ubcHeight then 4000 * 1000 else 32 * 1000 * 1000

/-- `MaxBlockSigops`. -/
def maxBlockSigops (params : ConsensusParams) (nblock : Int) : Nat :=
  maxBlockSize params nblock / 50

/-- `std::numeric_limits<uint64_t>::max()`, the height argument of the limits that
do not depend on the height. -/
def maxUInt64 : Int := 2 ^ 64 - 1

/-- `MoneyRange`. -/
def moneyRange (value : Int) : Bool := 0 ≤ value && value ≤ maxMoney

/-- The output types `ExtractDestinations` reports (`txnouttype`). -/
inductive TxnOutType where
  | nonstandard
  | pubkey
  | pubkeyhash
  | scripthash
  | multisig
  | nullData
  | witnessV0Scripthash
  | witnessV0Keyhash
  | witnessUnknown
  | createNative
  | create
  | upgrade
  | call
  | depositToContract
  | spend
  | rootStateHash
  deriving DecidableEq, Repr

/-- The output types `CheckStake` accepts on both sides of a stake. -/
def isStakeableType (type : TxnOutType) : Bool :=
  type == .scripthash || type == .multisig || type == .pubkeyhash || type == .pubkey ||
    type == .witnessV0Scripthash || type == .witnessV0Keyhash

/-- What `CBlock::CheckMerkleRoot` finds: the root matches, differs, or the tree
repeats a subtree (`mutated`). -/
inductive MerkleCheck where
  | matches
  | mismatch
  | mutated
  deriving DecidableEq, Repr

/-- The functions block validation computes with and the model takes as given. -/
structure ValidationEnv where
  /-- `CheckProofOfWork(block.GetHash(), ...)`. -/
  checkProofOfWork : CBlock → Bool
  /-- `GetNextWorkRequired` over the block index, for the block. -/
  nextWorkRequired : CBlock → UInt32
  /-- `BlockMerkleRoot` compared with the header. -/
  merkleRoot : CBlock → MerkleCheck
  /-- `GetSerializeSize` of the block without witness data. -/
  blockSerializedSize : CBlock → Nat
  /-- `GetSerializeSize` of a transaction without witness data. -/
  txSerializedSize : CTransaction → Nat
  /-- `GetLegacySigOpCount`. -/
  legacySigOpCount : CTransaction → Nat
  /-- The single byte `EvalScript` leaves on top of the stack in byte-code mode, if it
  leaves one; the contract-op tests read it. -/
  byteCodeOpcode : CScript → Option UInt8
  /-- The stake hash `CheckProofOfStake` computes from the block time, the staked
  outpoint and, past `ForkV3Height`, a block ten blocks back. -/
  hashProofOfStake : CBlock → COutPoint → Nat
  /-- `arith_uint256::SetCompact`. -/
  targetOfCompact : UInt32 → Nat
  /-- The type `ExtractDestinations` finds for a script, or nothing when it fails. -/
  extractDestinationType : CScript → Option TxnOutType
  /-- The reject reason of the foundation check of a coinbase output script in the
  initial blocks, or nothing when it passes. -/
  foundationCoinbaseCheck : CScript → Option String

/-- What validation reads of the node. -/
structure NodeState where
  /-- The height of the `mapBlockIndex` entry of a block hash. -/
  blockIndexHeight : Nat → Option Int
  /-- `chainActive.Height()`. -/
  tipHeight : Int
  /-- `pcoinsTip->GetCoin`. -/
  coinsTip : COutPoint → Option Coin

/-- What stops a check short of a verdict. -/
inductive Fault where
  /-- An element access past the end of a vector. -/
  | outOfRange (access : String)
  /-- `uint_error("Division by zero")`. -/
  | divisionByZero
  /-- A failed `assert`, which aborts the node. -/
  | assertionFailed (assertion : String)
  /-- An exception that leaves validation, with its message. -/
  | uncaughtException (what : String)
  deriving DecidableEq, Repr

/-- How a check stops: the block is invalid for a reason, or a fault. -/
inductive Stop where
  | invalid (reason : String)
  | fault (fault : Fault)
  deriving DecidableEq, Repr

/-- A check that passes with a value or stops. -/
abbrev Check := Except Stop

/-- `state.DoS(..., reason)`, and the plain `return false` with its log message. -/
def reject {α : Type} (reason : String) : Check α := .error (.invalid reason)

/-- `v[i]`: the element, or the fault of reading past the end. -/
def elementAt {α : Type} (access : String) (v : List α) (i : Nat) : Check α :=
  match v[i]? with
  | some x => .ok x
  | none => .error (.fault (.outOfRange access))

/-! ## Contract opcodes -/

section Opcodes

variable (env : ValidationEnv)

/-- `CScript::HasContractOp`. -/
def scriptHasContractOp (script : CScript) : Bool :=
  !script.isEmpty &&
    match env.byteCodeOpcode script with
    | some op => [opCreateNative, opCreate, opUpgrade, opDestroy, opCall, opDepositToContract].contains op
    | none => false

/-- `CScript::HasOpSpend`. -/
def scriptHasOpSpend (script : CScript) : Bool :=
  !script.isEmpty && env.byteCodeOpcode script == some opSpend

/-- `CScript::HasOpDepositToContract`. -/
def scriptHasOpDepositToContract (script : CScript) : Bool :=
  !script.isEmpty && env.byteCodeOpcode script == some opDepositToContract

/-- `CTransaction::HasContractOp`. -/
def hasContractOp (tx : CTransaction) : Bool :=
  tx.vout.any fun out => scriptHasContractOp env out.scriptPubKey

/-- `CTransaction::HasOpSpend`. -/
def hasOpSpend (tx : CTransaction) : Bool :=
  tx.vout.any fun out => scriptHasOpSpend env out.scriptPubKey

/-- `CTransaction::HasOpDepositToContract`. -/
def hasOpDepositToContract (tx : CTransaction) : Bool :=
  tx.vout.any fun out => scriptHasOpDepositToContract env out.scriptPubKey

end Opcodes

/-! ## `CheckTransaction` -/

section Checks

variable (params : ConsensusParams) (env : ValidationEnv)

/-- The output loop of `CheckTransaction`, from the running total `nValueOut` on. An
empty output is refused outside the coinbase and the coinstake from the contract
height of the block after the node's tip on. -/
def checkOutputs (tipHeight : Int) (tx : CTransaction) : Int → List CTxOut → Check Unit
  | _, [] => .ok ()
  | nValueOut, txout :: rest => do
      if txout.isEmpty && !tx.isCoinBase && !tx.isCoinStake then
        if params.ubcontractHeight ≤ tipHeight + 1 then reject "txout empty for user transaction"
      if txout.nValue < 0 then reject "bad-txns-vout-negative"
      if maxMoney < txout.nValue then reject "bad-txns-vout-toolarge"
      if !moneyRange (nValueOut + txout.nValue) then reject "bad-txns-txouttotal-toolarge"
      checkOutputs tipHeight tx (nValueOut + txout.nValue) rest

/-- `CheckTransaction` with `fCheckDuplicateInputs`, on a node whose active chain has
height `tipHeight`. -/
def checkTransaction (tipHeight : Int) (tx : CTransaction) : Check Unit := do
  if tx.vin.isEmpty then reject "bad-txns-vin-empty"
  if tx.vout.isEmpty then reject "bad-txns-vout-empty"
  if maxBlockSize params maxUInt64 < env.txSerializedSize tx * 4 then reject "bad-txns-oversize"
  checkOutputs params tipHeight tx 0 tx.vout
  if !(tx.vin.map CTxIn.prevout).Nodup then reject "bad-txns-inputs-duplicate"
  if tx.isCoinBase then
    let txin ← elementAt "vin[0]" tx.vin 0
    if txin.scriptSig.length < 2 || 100 < txin.scriptSig.length then reject "bad-cb-length"
  else if !tx.isCoinStake then
    if tx.vin.any fun txin => txin.prevout.isNull then reject "bad-txns-prevout-null"

/-! ## Proof of stake -/

/-- `CheckProofOfStake`: the stake hash, divided by the amount read as a 256-bit
number, must not exceed the block's target. The amount is an `int64_t` converted to
`uint64_t`; a zero amount makes the division throw. -/
def checkProofOfStake (block : CBlock) (prevout : COutPoint) (amount : Int) : Check Bool :=
  if toUInt64 amount = 0 then .error (.fault .divisionByZero)
  else .ok (env.hashProofOfStake block prevout / toUInt64 amount ≤ env.targetOfCompact block.nBits)

/-- `CheckStake`: the staked coin, looked up in the tip's UTXO set, is old enough,
meets the stake target and goes back, whole, to the script it came from. Its
`error(...)` returns are `false`. -/
def checkStake (node : NodeState) (block : CBlock) : Check Bool := do
  if !block.isProofOfStake then return false
  let nHeight := node.tipHeight
  if nHeight + 1 < params.ubcontractHeight then return false
  let coinstake ← elementAt "vtx[1]" block.vtx 1
  if !coinstake.isCoinStake then return false
  let txin ← elementAt "vtx[1]->vin[0]" coinstake.vin 0
  let some coinStake := node.coinsTip txin.prevout | return false
  if nHeight + 1 - params.nStakeMinConfirmations < coinStake.nHeight then return false
  if !(← checkProofOfStake env block txin.prevout coinStake.out.nValue) then return false
  let stakeOut ← elementAt "vtx[1]->vout[1]" coinstake.vout 1
  let some typeFrom := env.extractDestinationType coinStake.out.scriptPubKey | return false
  let some typeTo := env.extractDestinationType stakeOut.scriptPubKey | return false
  if !isStakeableType typeFrom then return false
  if !isStakeableType typeTo then return false
  if coinStake.out.scriptPubKey ≠ stakeOut.scriptPubKey then return false
  if coinStake.out.nValue ≠ stakeOut.nValue then return false
  return true

/-! ## `CheckBlock` -/

/-- `CheckBlockHeader`: proof of work, or for a proof-of-stake block the difficulty
its known predecessor requires. -/
def checkBlockHeader (node : NodeState) (block : CBlock) (fCheckPOW : Bool) : Check Unit := do
  if fCheckPOW then
    if !block.isProofOfStake then
      if !env.checkProofOfWork block then reject "high-hash"
    else
      match node.blockIndexHeight block.hashPrevBlock with
      | none => reject "high-hash"
      | some _ => if env.nextWorkRequired block ≠ block.nBits then reject "high-hash"

/-- The checks of `CheckBlock` that depend on the predecessor's height: the stake
checks and, in the initial blocks, the foundation coinbase. -/
def checkWithPrevHeight (node : NodeState) (block : CBlock) (coinbase : CTransaction)
    (prevHeight : Int) : Check Unit := do
  if block.isProofOfStake && params.forkV2Height - 1 ≤ prevHeight then
    let coinstake ← elementAt "vtx[1]" block.vtx 1
    let txin ← elementAt "vtx[1]->vin[0]" coinstake.vin 0
    let stakeOut ← elementAt "vtx[1]->vout[1]" coinstake.vout 1
    if !(← checkProofOfStake env block txin.prevout stakeOut.nValue) then
      reject "checkblock() CheckProofOfStake"
  if block.isProofOfStake && params.forkV4Height < prevHeight then
    if !(← checkStake params env node block) then reject "bad-txns-CheckStake-failed"
  if params.ubcHeight - 1 ≤ prevHeight &&
      prevHeight < params.ubcHeight + params.ubcInitBlockCount - 1 then
    let some firstOut := coinbase.vout.head? | reject "coinbase-vout-missing"
    if let some reason := env.foundationCoinbaseCheck firstOut.scriptPubKey then reject reason

/-- `CheckBlock`, with `fCheckPOW` and `fCheckMerkleRoot`. The size limits are those
of the block after the node's tip. -/
def checkBlock (node : NodeState) (block : CBlock) (fCheckPOW fCheckMerkleRoot : Bool) :
    Check Unit := do
  checkBlockHeader env node block fCheckPOW
  if fCheckMerkleRoot then
    match env.merkleRoot block with
    | .mismatch => reject "bad-txnmrklroot"
    | .mutated => reject "bad-txns-duplicate"
    | .matches => pure ()
  let maxSize := maxBlockSize params (node.tipHeight + 1)
  if block.vtx.isEmpty || maxSize < block.vtx.length * 4 ||
      maxSize < env.blockSerializedSize block * 4 then
    reject "bad-blk-length"
  let coinbase ← elementAt "vtx[0]" block.vtx 0
  if !coinbase.isCoinBase then reject "bad-cb-missing"
  -- the proof-of-stake mark is only a version bit: these reads precede any shape check
  if block.isProofOfStake then
    let coinstake ← elementAt "vtx[1]" block.vtx 1
    if !coinstake.isCoinStake then reject "bad-cb-missing"
    let coinbaseOut ← elementAt "vtx[0]->vout[0]" coinbase.vout 0
    let stakeOut ← elementAt "vtx[1]->vout[1]" coinstake.vout 1
    if coinbaseOut.scriptPubKey ≠ stakeOut.scriptPubKey then reject "bad-cb-missing"
  if hasContractOp env coinbase then reject "coinbase-with-contract-op-not-allowed"
  if block.hashPrevBlock ≠ 0 then
    match node.blockIndexHeight block.hashPrevBlock with
    | none => reject "can-not-get-prev-blockheader"
    | some prevHeight => checkWithPrevHeight params env node block coinbase prevHeight
  if (block.vtx.drop 1).any CTransaction.isCoinBase then reject "bad-cb-multiple"
  if (block.vtx.drop 2).any CTransaction.isCoinStake then reject "bad-cb-multiple"
  block.vtx.forM (checkTransaction params env node.tipHeight)
  if maxBlockSigops params maxUInt64 < (block.vtx.map env.legacySigOpCount).sum * 4 then
    reject "bad-blk-sigops"

end Checks

/-! ## Blocks the checks stop on -/

/-- An environment in which proof of work, difficulty, the merkle root and the size and
signature-operation limits pass, no script is a contract script, every stake hash is
zero and every script has a standard type. -/
def passingEnv : ValidationEnv where
  checkProofOfWork _ := true
  nextWorkRequired block := block.nBits
  merkleRoot _ := .matches
  blockSerializedSize _ := 1000
  txSerializedSize _ := 250
  legacySigOpCount _ := 1
  byteCodeOpcode _ := none
  hashProofOfStake _ _ := 0
  targetOfCompact _ := 2 ^ 224
  extractDestinationType _ := some .pubkeyhash
  foundationCoinbaseCheck _ := none

/-- A pay-to-key-hash style output script. -/
def payScript : CScript := [opDup, opHash160, opEqualVerify, opCheckSig]

/-- A coinbase paying `payScript`. -/
def coinbaseTx : CTransaction where
  hash := 10
  vin := [⟨⟨0, 0xFFFFFFFF⟩, [3, 1, 2]⟩]
  vout := [⟨50 * coin, payScript⟩]

/-- A block index holding one block, of hash `1`, at `height`. -/
def indexWithPrev (height : Int) (hash : Nat) : Option Int :=
  if hash = 1 then some height else none

/-- A node whose index has the predecessor at height 900000, its tip. -/
def stakeNode : NodeState where
  blockIndexHeight := indexWithPrev 900000
  tipHeight := 900000
  coinsTip _ := none

/-- A block marked proof of stake whose only transaction is the coinbase. -/
def loneCoinbaseBlock : CBlock where
  nVersion := miningTypePos
  hashPrevBlock := 1
  nTime := 0
  nBits := 0
  vtx := [coinbaseTx]

/-- A coinstake that stakes nothing: its second output is worth zero. -/
def zeroStakeTx : CTransaction where
  hash := 11
  vin := [⟨⟨7, 0⟩, []⟩]
  vout := [⟨0, []⟩, ⟨0, payScript⟩]

/-- A proof-of-stake block past `ForkV2Height` and below `ForkV4Height` with a
zero-valued stake. -/
def zeroStakeBlock : CBlock where
  nVersion := miningTypePos
  hashPrevBlock := 1
  nTime := 0
  nBits := 0
  vtx := [coinbaseTx, zeroStakeTx]

/-- The node of `zeroStakeBlock`: its predecessor at height 600000. -/
def forkV2Node : NodeState where
  blockIndexHeight := indexWithPrev 600000
  tipHeight := 600000
  coinsTip _ := none

/-- The proof-of-stake mark is read before the block's shape is checked: `CheckBlock`
reads `vtx[1]` of a block with one transaction, and divides by a stake of zero. -/
theorem checkBlock_faults_on_stake_mark :
    checkBlock mainParams passingEnv stakeNode loneCoinbaseBlock true true =
      .error (.fault (.outOfRange "vtx[1]")) ∧
    checkBlock mainParams passingEnv forkV2Node zeroStakeBlock true true =
      .error (.fault .divisionByZero) := by
  decide

/-- A transaction with an empty output. -/
def emptyOutputTx : CTransaction where
  hash := 12
  vin := [⟨⟨7, 0⟩, [1]⟩]
  vout := [⟨0, []⟩]

/-- A proof-of-work block on the predecessor of hash `1` with a transaction with an
empty output. -/
def emptyOutputBlock : CBlock where
  nVersion := miningTypePow
  hashPrevBlock := 1
  nTime := 0
  nBits := 0
  vtx := [coinbaseTx, emptyOutputTx]

/-- A node whose tip is the predecessor of `emptyOutputBlock`, one block below the
contract height. -/
def tipAtPrevNode : NodeState where
  blockIndexHeight := indexWithPrev 551109
  tipHeight := 551109
  coinsTip _ := none

/-- A node with the same block index whose tip is one block further, on another branch. -/
def tipAheadNode : NodeState where
  blockIndexHeight := indexWithPrev 551109
  tipHeight := 551110
  coinsTip _ := none

/-- `CheckBlock`'s verdict on one block depends on the node's tip: with the same block
index, the block is valid on a node whose tip is its predecessor and invalid on one
whose tip is a block further on another branch. -/
theorem checkBlock_depends_on_tip :
    tipAtPrevNode.blockIndexHeight = tipAheadNode.blockIndexHeight ∧
    checkBlock mainParams passingEnv tipAtPrevNode emptyOutputBlock true true = .ok () ∧
    checkBlock mainParams passingEnv tipAheadNode emptyOutputBlock true true =
      .error (.invalid "txout empty for user transaction") := by
  refine ⟨rfl, by decide, by decide⟩

end UnitedBitcoin.Validation
