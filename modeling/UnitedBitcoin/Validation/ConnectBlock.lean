import Mathlib
import UnitedBitcoin.Validation.CheckBlock
import UnitedBitcoin.Validation.ContractParams
import UnitedBitcoin.Contract.PendingState
import UnitedBitcoin.Coins.Refinement
import UnitedBitcoin.ContractStorage.LazyRollback

/-!
# Connecting a block

`CChainState::ConnectBlock` (`validation.cpp`) applies a block that `CheckBlock` accepts
to a UTXO view and to the contract storage service. For each transaction it checks the
inputs (`Consensus::CheckTxInputs` in `consensus/tx_verify.cpp`, then `CheckInputs`, which
runs the scripts), runs the contract ops, and applies the transaction to the view
(`UpdateCoins`). At the end the coinbase may pay at most the fees and the subsidy
(`GetBlockSubsidy`), and the storage service must reach the root state hash the coinbase
names.

A proof-of-stake block's coinstake is exempt from both input checks. `ConnectBlock` only
asserts that its input is unspent and old enough.

The view is the map from outpoints to coins that `Coins.Refinement` shows a stack of
`CCoinsViewCache` layers to behave as. The storage service is a `ContractService`: what
the contract section reads of it and how it commits. `storageService` instantiates it
with the service of `ContractStorage`. Following the source, a UVM run is given by the
transfer calls it makes. Script verification, sequence locks, signature-operation cost
and the parsing of contract scripts are taken as given (`ConnectEnv`).

`CheckInputs` is modelled with its checks run in place. With script-check threads the
same failures surface after the loop as "block-validation-failed". The script execution
cache and the assume-valid shortcut give the same verdicts and are left out. When a
block is not accepted, the source rolls the storage service back to the root state hash
it had before the block; the model returns only the verdict.
-/

namespace UnitedBitcoin.Validation

open UnitedBitcoin.Coins UnitedBitcoin.Contract UnitedBitcoin.ContractStorage UnitedBitcoin.Library

/-! ## Parameters and the subsidy -/

/-- The consensus parameters `ConnectBlock` reads beyond those of `CheckBlock`, with the
coinbase maturities that `chainparams.cpp` sets per network. -/
structure ChainParams extends ConsensusParams where
  forkV1Height : Int
  nSubsidyHalvingInterval : Int
  coinbaseMaturityForkV1 : Int
  coinbaseMaturityForkV2 : Int
  deriving Repr

/-- The main network's parameters. -/
def mainChainParams : ChainParams where
  toConsensusParams := mainParams
  forkV1Height := 506400
  nSubsidyHalvingInterval := 210000
  coinbaseMaturityForkV1 := 7200
  coinbaseMaturityForkV2 := 1440

/-- `COINBASE_MATURITY`. -/
def coinbaseMaturity : Int := 100

/-- `COINBASE_MATURITY_INVALID`. -/
def coinbaseMaturityInvalid : Int := 999999

/-- `getCoinBaseMaturity`; `UB_FORK1_BLOCK_NUM` and `UB_FORK2_BLOCK_NUM` are the
network's `ForkV1Height` and `ForkV2Height`. -/
def getCoinBaseMaturity (params : ChainParams) (coinBaseHeight : Int) : Int :=
  if coinBaseHeight < 0 then coinbaseMaturityInvalid
  else if coinBaseHeight < params.forkV1Height then coinbaseMaturity
  else if coinBaseHeight < params.forkV2Height then params.coinbaseMaturityForkV1
  else params.coinbaseMaturityForkV2

/-- `50 * COIN >> halvings`, and zero from 64 halvings on. -/
def halvedSubsidy (halvings : Int) : Int :=
  if 64 ≤ halvings then 0 else 50 * coin / 2 ^ halvings.toNat

/-- The halvings of `GetBlockSubsidy` from `ForkV1Height` on: two up to the end of the
stretched period, then one more every ten halving intervals. -/
def forkHalvings (params : ChainParams) (nHeight : Int) : Int :=
  let halfPeriodLeft := params.forkV1Height - 1 - params.nSubsidyHalvingInterval * 2
  let periodEndHeight :=
    params.forkV1Height - 1 + (params.nSubsidyHalvingInterval - halfPeriodLeft) * 10
  if nHeight ≤ periodEndHeight then 2
  else 3 + (nHeight - periodEndHeight - 1).tdiv (params.nSubsidyHalvingInterval * 10)

/-- `GetBlockSubsidy`. From `ForkV1Height` on, the halved reward is cut to a tenth and
multiplied by `0.8`, and from `ForkV4Height` on by `0.4`; for these amounts the `double`
product truncates to the integer products below. -/
def getBlockSubsidy (params : ChainParams) (nHeight : Int) : Int :=
  if nHeight < params.forkV1Height then
    halvedSubsidy (nHeight.tdiv params.nSubsidyHalvingInterval)
  else if nHeight < params.forkV4Height then halvedSubsidy (forkHalvings params nHeight) / 10 * 4 / 5
  else halvedSubsidy (forkHalvings params nHeight) / 10 * 2 / 5

/-! ## What the model takes as given -/

/-- The functions block connection computes with, beyond those of `CheckBlock`. -/
structure ConnectEnv extends ValidationEnv where
  /-- `CScriptCheck` of input `j` of a transaction against the coin it spends, with the
  script flags of the block: `VerifyScript` with a `TransactionSignatureChecker`. -/
  verifyScript : CTransaction → Nat → Coin → Bool
  /-- `SequenceLocks` of a transaction, given the heights of the coins it spends. -/
  sequenceLocks : CTransaction → List Nat → Bool
  /-- `GetTransactionSigOpCost` against the view. -/
  transactionSigOpCost : CTransaction → CoinsMap → Nat
  /-- `receiveStack` and `parseContractTXParams` on the contract-op output of a given
  index, by a converter with a view (`none` for `nullptr`), or its `error_ret`. -/
  parseContractOp : Option CoinsMap → CTransaction → Nat → Except String ContractTransaction
  /-- The same on an `OP_SPEND` output, which gives a withdraw info. -/
  parseWithdrawInfo : Option CoinsMap → CTransaction → Nat → Except String ContractWithdrawInfo
  /-- `get_root_state_hash_from_block`. -/
  rootStateHashOfBlock : CBlock → Option String
  /-- `GetBadUTXO`: the outputs the block at `ForkV4Height` must burn. -/
  badUtxos : List (COutPoint × CTxOut)
  /-- `EncodeDestination` of the first address `ExtractDestinations` finds in a script. -/
  firstDestination : CScript → Option String
  /-- `getBurningAddr()`. -/
  burningAddr : String

/-- What the contract section reads of the storage service and how it writes to it. -/
structure ContractService (σ : Type) where
  /-- `current_root_state_hash`. -/
  currentRootStateHash : σ → String
  /-- `get_contract_info`. -/
  contractInfoOf : σ → String → Option ContractInfo
  /-- The asset-0 amount of `get_contract_balances`, zero when there is none. -/
  contractBalance : σ → String → Nat
  /-- `ContractExec::commit_changes` of a transaction's ops with the balance changes it
  keeps, or the message of the exception the service throws. -/
  commitChanges : σ → List ContractTransaction → List ContractBalanceChange → Except String σ
  /-- `rollback_contract_state`. -/
  rollbackContractState : σ → String → σ

/-- The UVM: what the run of an op makes of the service's state, given by its transfer
calls, or the message of the exception or check that stops it. -/
structure UvmEnv (σ : Type) where
  runContract : σ → ContractTransaction → Except String (List TransferCall)
  addressFormat : AddressFormat

/-! ## Contract transactions of a transaction -/

/-- `ExtractContractTX`: the contract ops of a transaction and its withdraw infos. -/
structure ExtractContractTX where
  txs : List ContractTransaction
  contractWithdrawInfos : List ContractWithdrawInfo
  deriving DecidableEq, Repr

section Extraction

variable (env : ConnectEnv) (view : Option CoinsMap) (tx : CTransaction)

/-- The output loop of `ContractTxConverter::extractionContractTransactions`, from
output `i` on, with what is extracted so far and the number of contract ops. An
`OP_SPEND` output must name a contract no earlier one names. -/
def extractOutputs :
    Nat → List CTxOut → ExtractContractTX → Nat → Except String (ExtractContractTX × Nat)
  | _, [], extracted, count => .ok (extracted, count)
  | i, out :: rest, extracted, count =>
    if scriptHasContractOp env.toValidationEnv out.scriptPubKey then
      if out.nValue ≠ 0 then .error "contract vout's value must be 0"
      else match env.parseContractOp view tx i with
        | .error e => .error e
        | .ok ctx =>
          extractOutputs (i + 1) rest { extracted with txs := extracted.txs ++ [ctx] } (count + 1)
    else if scriptHasOpSpend env.toValidationEnv out.scriptPubKey then
      if out.nValue ≠ 0 then .error ""
      else match env.parseWithdrawInfo view tx i with
        | .error e => .error e
        | .ok info =>
          if extracted.contractWithdrawInfos.any
              (·.fromContractAddress == info.fromContractAddress) then .error ""
          else extractOutputs (i + 1) rest
            { extracted with contractWithdrawInfos := extracted.contractWithdrawInfos ++ [info] }
            count
    else extractOutputs (i + 1) rest extracted count

/-- `ContractTxConverter::extractionContractTransactions`: at least one contract op. -/
def extractionContractTransactions : Except String ExtractContractTX := do
  let (extracted, count) ← extractOutputs env view tx 0 tx.vout ⟨[], []⟩ 0
  if count < 1 then .error "" else .ok extracted

end Extraction

/-- `CAmount += uint64_t`: the sum is taken in `uint64_t` and read back as a `CAmount`. -/
def addUnsigned (amount : Int) (value : Nat) : Int :=
  toInt64 ((toUInt64 amount + value) % 2 ^ 64)

/-! ## The input checks -/

/-- `CCoinsViewCache::GetValueIn`: the values of the coins the inputs spend, a spent or
missing coin counting as the `-1` of `Coin()`. -/
def getValueIn (view : CoinsMap) (tx : CTransaction) : Int :=
  if tx.isCoinBase then 0
  else (tx.vin.map fun txin => ((view txin.prevout).map (·.out.nValue)).getD (-1)).sum

section InputChecks

variable (params : ChainParams) (env : ConnectEnv) (view : CoinsMap)

/-- The input loop of `CheckTxInputs` from the running total on: coinbase maturity,
except at `ForkV4Height`, and the range of every value and of the total. -/
def sumInputValues (nSpendHeight : Int) : Int → List CTxIn → Check Int
  | nValueIn, [] => .ok nValueIn
  | nValueIn, txin :: rest => do
    let some coin := view txin.prevout | .error (.fault (.assertionFailed "!coin.IsSpent()"))
    if nSpendHeight ≠ params.forkV4Height ∧ coin.fCoinBase = true ∧
        nSpendHeight - coin.nHeight < getCoinBaseMaturity params coin.nHeight then
      reject "bad-txns-premature-spend-of-coinbase"
    let nValueIn := nValueIn + coin.out.nValue
    if !moneyRange coin.out.nValue || !moneyRange nValueIn then
      reject "bad-txns-inputvalues-outofrange"
    sumInputValues nSpendHeight nValueIn rest

/-- The deposits and withdrawals `CheckTxInputs` books for a transaction with an
`OP_DEPOSIT_TO_CONTRACT` or `OP_SPEND` output, each summed as `CAmount += uint64_t`. -/
def contractAmounts (tx : CTransaction) : Check (Int × Int) :=
  if hasOpDepositToContract env.toValidationEnv tx || hasOpSpend env.toValidationEnv tx then
    match extractionContractTransactions env none tx with
    | .error e => reject ("bad-tx-bad-contract-format " ++ e)
    | .ok extracted =>
      .ok (extracted.txs.foldl (fun sum ctx => addUnsigned sum ctx.params.depositAmount.toNat) 0,
        extracted.contractWithdrawInfos.foldl (fun sum info => addUnsigned sum info.amount) 0)
  else .ok (0, 0)

/-- `Consensus::CheckTxInputs`: the inputs are in the view, the transaction pays at
most what it spends and withdraws less what it deposits, and the fee it leaves. -/
def checkTxInputs (tx : CTransaction) (nSpendHeight : Int) : Check Int := do
  if !tx.vin.all fun txin => (view txin.prevout).isSome then
    reject "bad-txns-inputs-missingorspent"
  let nValueIn ← sumInputValues params view nSpendHeight 0 tx.vin
  let (deposits, withdrawals) ← contractAmounts env tx
  let valueOut := tx.getValueOut
  if nValueIn + withdrawals < valueOut + deposits then reject "bad-txns-in-belowout"
  let txfee := nValueIn + withdrawals - valueOut - deposits
  if !moneyRange txfee then reject "bad-txns-fee-outofrange"
  pure txfee

/-- The script loop of `CheckInputs` from input `j` on. -/
def checkInputScripts (tx : CTransaction) : Nat → List CTxIn → Check Unit
  | _, [] => .ok ()
  | j, txin :: rest => do
    let some coin := view txin.prevout | .error (.fault (.assertionFailed "!coin.IsSpent()"))
    if !env.verifyScript tx j coin then reject "mandatory-script-verify-flag-failed"
    checkInputScripts tx (j + 1) rest

/-- `CheckInputs`: every input's script verifies against the coin it spends, unless the
transaction is a coinbase or scripts are not checked. -/
def checkInputs (tx : CTransaction) (fScriptChecks : Bool) : Check Unit :=
  if tx.isCoinBase || !fScriptChecks then .ok () else checkInputScripts env view tx 0 tx.vin

end InputChecks

/-! ## `UpdateCoins` -/

/-- `CCoinsViewCache::AddCoin` on the view: an unspendable output is not added, and
without `possible_overwrite` a coin the view shows may not be replaced. -/
def addCoin (view : CoinsMap) (outpoint : COutPoint) (coin : Coin) (possibleOverwrite : Bool) :
    Check CoinsMap :=
  if coin.isSpent then .error (.fault (.assertionFailed "!coin.IsSpent()"))
  else if isUnspendable coin.out.scriptPubKey then .ok view
  else if !possibleOverwrite && (view outpoint).isSome then
    .error (.fault (.uncaughtException "Adding new coin that replaces non-pruned entry"))
  else .ok (Function.update view outpoint (some coin))

/-- The output loop of `AddCoins` from output `i` on. The outputs of a coinbase or a
coinstake are coinbase coins and may overwrite. -/
def addCoins (tx : CTransaction) (nHeight : Nat) : Nat → List CTxOut → CoinsMap → Check CoinsMap
  | _, [], view => .ok view
  | i, out :: rest, view => do
    let fCoinbase := tx.isCoinBase || tx.isCoinStake
    let view ← addCoin view ⟨tx.hash, i.toUInt32⟩ ⟨out, fCoinbase, nHeight⟩ fCoinbase
    addCoins tx nHeight (i + 1) rest view

/-- The input loop of `UpdateCoins`: `SpendCoin` of each input, asserted to succeed. -/
def spendInputs : List CTxIn → CoinsMap → Check CoinsMap
  | [], view => .ok view
  | txin :: rest, view =>
    if (view txin.prevout).isNone then .error (.fault (.assertionFailed "is_spent"))
    else spendInputs rest (Function.update view txin.prevout none)

/-- `UpdateCoins`. -/
def updateCoins (view : CoinsMap) (tx : CTransaction) (nHeight : Int) : Check CoinsMap := do
  let view ← if tx.isCoinBase then pure view else spendInputs tx.vin view
  addCoins tx nHeight.toNat 0 tx.vout view

/-! ## The contract section -/

/-- `DEFAULT_MIN_GAS_COUNT`. -/
def defaultMinGasCount : Nat := 10

section Contracts

variable {σ : Type} (ops : ContractService σ) (uvm : UvmEnv σ)

/-- One op of `ContractExec::performByteCode`: the run from a fresh `PendingState`, and
the deposit credited to the contract after an `OP_DEPOSIT_TO_CONTRACT` run. -/
def execContractOp (service : σ) (ctx : ContractTransaction) :
    Except String (List ContractResultTransferInfo) := do
  if ctx.params.gasLimit.toNat ≠ 0 ∧ ctx.params.gasLimit.toNat < defaultMinGasCount then
    .error "too little gas limit"
  let calls ← uvm.runContract service ctx
  let state := runTransfers uvm.addressFormat (ops.contractBalance service) ⟨ctx.opcode, []⟩ calls
  if ctx.opcode = opDepositToContract then
    pure (addBalanceChange ctx.params.contractAddress true true ctx.params.depositAmount.toNat
      state.balanceChanges)
  else pure state.balanceChanges

/-- `ContractExec::performByteCode` with `processingResults`: the ops run in order and
each overwrites the result, so the balance changes of the last op are what is kept. -/
def performByteCode (service : σ) (ctxs : List ContractTransaction) :
    Except String (List ContractResultTransferInfo) :=
  ctxs.foldlM (fun _ ctx => execContractOp ops uvm service ctx) []

/-- The balance changes `ContractExec::commit_changes` commits: those of contracts, as
changes of asset 0. -/
def contractBalanceChanges (changes : List ContractResultTransferInfo) :
    List ContractBalanceChange :=
  (changes.filter (·.isContract)).map fun info =>
    ⟨0, info.address, info.amount, info.add, info.isContract, ""⟩

variable (env : ConnectEnv)

/-- The contract section of `ConnectBlock` for one transaction. Its fee, the inputs less
the outputs plus the withdrawals, is passed to the fee check of the ops; the block gas
limit is `UINT64_MAX`, which the block's gas never exceeds. -/
def connectContractTx (view : CoinsMap) (service : σ) (tx : CTransaction) : Check σ :=
  if hasContractOp env.toValidationEnv tx then do
    let extracted ← match extractionContractTransactions env (some view) tx with
      | .error _ => reject "bad-tx-bad-contract-format"
      | .ok extracted => pure extracted
    let nTxFee := extracted.contractWithdrawInfos.foldl (fun fee info => addUnsigned fee info.amount)
      (getValueIn view tx - tx.getValueOut)
    match checkContractParams (ops.contractInfoOf service) (2 ^ 64 - 1) extracted.txs nTxFee 0 0 with
    | .error e => reject e
    | .ok _ => pure ()
    let changes ← match performByteCode ops uvm service extracted.txs with
      | .error e => reject e
      | .ok changes => pure changes
    let service ← match ops.commitChanges service extracted.txs (contractBalanceChanges changes) with
      | .error e => .error (.fault (.uncaughtException e))
      | .ok service => pure service
    if !matchContractWithdrawInfos changes extracted.contractWithdrawInfos then
      reject "bad-tx-contractwithdrawinfo"
    pure service
  else if hasOpSpend env.toValidationEnv tx then reject "bad-tx-contracttx-format"
  else .ok service

end Contracts

/-! ## `ConnectBlock` -/

/-- The block at `ForkV4Height` burns the outputs `GetBadUTXO` lists: it is a
proof-of-work block whose transactions after the coinbase spend only those outputs, each
into one output to the burning address with a fee of `1000000`, and together spend all
of them. -/
def checkForkV4Block (env : ConnectEnv) (view : CoinsMap) (block : CBlock) : Check Unit := do
  if block.isProofOfStake then reject "invalid-block-version"
  let coinbase ← elementAt "vtx[0]" block.vtx 0
  if !coinbase.isCoinBase then reject "invalid-block-tx"
  let vinCount ← (block.vtx.drop 1).foldlM (fun vinCount tx => do
    let sumVinValue ← tx.vin.foldlM (fun sum txin => do
      if !env.badUtxos.any (·.1 == txin.prevout) then reject "invalid-block-tx"
      pure (sum + ((view txin.prevout).map (·.out.nValue)).getD (-1))) 0
    if tx.vout.length ≠ 1 then reject "invalid-block-tx"
    let out ← elementAt "vout[0]" tx.vout 0
    if sumVinValue - out.nValue ≠ 1000000 then reject "invalid-block-tx"
    match env.firstDestination out.scriptPubKey with
    | none => reject "invalid-block-tx"
    | some address => if address ≠ env.burningAddr then reject "invalid-block-tx"
    pure (vinCount + tx.vin.length)) 0
  if env.badUtxos.length ≠ vinCount then reject "invalid-block-tx"

/-- What the transaction loop of `ConnectBlock` carries. -/
structure ConnectState (σ : Type) where
  view : CoinsMap
  service : σ
  nFees : Int
  nSigOpsCost : Nat

section Connect

variable {σ : Type} (params : ChainParams) (env : ConnectEnv) (ops : ContractService σ)
  (uvm : UvmEnv σ) (node : NodeState) (block : CBlock) (height : Int) (fScriptChecks : Bool)

/-- Whether the loop runs contract ops: from `UBCONTRACT_Height` on, for the block after
the node's tip. -/
def allowContract : Bool := decide (params.ubcontractHeight ≤ node.tipHeight + 1)

/-- Whether a transaction of the block is exempt from the input checks: the coinbase,
and a coinstake of a proof-of-stake block. -/
def isInputExempt (tx : CTransaction) : Bool :=
  tx.isCoinBase || (block.isProofOfStake && tx.isCoinStake)

/-- One pass of the transaction loop of `ConnectBlock`. Below the contract height a
contract transaction makes `ConnectBlock` return `false` without a reason. -/
def connectTransaction (st : ConnectState σ) (tx : CTransaction) : Check (ConnectState σ) := do
  if !allowContract params node &&
      (hasContractOp env.toValidationEnv tx || hasOpSpend env.toValidationEnv tx) then
    reject ""
  let mut nFees := st.nFees
  if !isInputExempt block tx then
    let txfee ← checkTxInputs params env st.view tx height
    nFees := nFees + txfee
    if !moneyRange nFees then reject "bad-txns-inputvalue-outputvalue"
    let prevheights := tx.vin.map fun txin => ((st.view txin.prevout).map (·.nHeight)).getD 0
    if !env.sequenceLocks tx prevheights then reject "bad-txns-nonfinal"
  if block.isProofOfStake && tx.isCoinStake then
    let txin ← elementAt "vin[0]" tx.vin 0
    let some coin := st.view txin.prevout | .error (.fault (.assertionFailed "!coin.IsSpent()"))
    if node.tipHeight + 1 - params.nStakeMinConfirmations < coin.nHeight then
      reject "utxo not reach stake min confirmations"
  let nSigOpsCost := st.nSigOpsCost + env.transactionSigOpCost tx st.view
  if maxBlockSigops params.toConsensusParams maxUInt64 < nSigOpsCost then reject "bad-blk-sigops"
  if !isInputExempt block tx then checkInputs env st.view tx fScriptChecks
  let service ← if allowContract params node then connectContractTx ops uvm env st.view st.service tx
    else pure st.service
  let view ← updateCoins st.view tx height
  pure ⟨view, service, nFees, nSigOpsCost⟩

/-- The transaction loop of `ConnectBlock`. -/
def connectTransactions : List CTransaction → ConnectState σ → Check (ConnectState σ)
  | [], st => .ok st
  | tx :: rest, st => do
    let st ← connectTransaction params env ops uvm node block height fScriptChecks st tx
    connectTransactions rest st

/-- `CChainState::ConnectBlock` of a block at `height` on a view and a storage service,
with `fJustCheck`, whether scripts are checked, and whether BIP30 is enforced. It gives
the view and the service after the block. With `fJustCheck`, the scope guard rolls the
service back to its root state hash before the block. -/
def connectBlock (view : CoinsMap) (service : σ) (fJustCheck fEnforceBIP30 : Bool) :
    Check (CoinsMap × σ) := do
  checkBlock params.toConsensusParams env.toValidationEnv node block (!fJustCheck) (!fJustCheck)
  if fEnforceBIP30 && block.vtx.any fun tx =>
      (List.range tx.vout.length).any fun o => (view ⟨tx.hash, o.toUInt32⟩).isSome then
    reject "bad-txns-BIP30"
  let oldRootStateHash := ops.currentRootStateHash service
  let blockRootStateHash ← if allowContract params node then
      match env.rootStateHashOfBlock block with
      | none => reject "invalid-block-root-state-hash"
      | some hash => pure hash
    else pure ""
  if height = params.forkV4Height then checkForkV4Block env view block
  let st ← connectTransactions params env ops uvm node block height fScriptChecks block.vtx
    ⟨view, service, 0, 0⟩
  let coinbase ← elementAt "vtx[0]" block.vtx 0
  if st.nFees + getBlockSubsidy params height < coinbase.getValueOut then reject "bad-cb-amount"
  if fJustCheck then
    return (st.view,
      if allowContract params node then ops.rollbackContractState st.service oldRootStateHash
      else st.service)
  if allowContract params node && ops.currentRootStateHash st.service ≠ blockRootStateHash then
    reject "block-root-state-hash-invalid-after-contract-exec"
  pure (st.view, st.service)

end Connect

/-! ## The storage service of `ContractStorage` -/

/-- The message of an exception of the storage service. -/
def storageErrorMessage : StorageError → String
  | .contractStorageException msg => msg
  | _ => ""

/-- An operation of the storage service, as the state it returns in or the message of
its exception. -/
def runStorageOp {α : Type} (op : StorageM α) (service : ContractStorageService) :
    Except String ContractStorageService :=
  match runOp op service with
  | .ok _ service => .ok service
  | .error e _ => .error (storageErrorMessage e)

/-- The storage service of `ContractStorage` as the contract section uses it.
`commit_changes` first saves the contract info of a creating op, as `createdInfo` builds
it from the op's code, then commits the balance changes. A read that throws is taken as
finding nothing. -/
def storageService (env : ContractStorageEnv)
    (createdInfo : ContractTransaction → Option ContractInfo) :
    ContractService ContractStorageService where
  currentRootStateHash service := service.rootStateHash
  contractInfoOf service contractId :=
    match getContractInfo service.db contractId with
    | .ok info => info
    | .error _ => none
  contractBalance service contractId :=
    match getContractBalances service.db contractId with
    | .ok balances => ((balances.find? (·.assetId == 0)).map (·.amount)).getD 0
    | .error _ => 0
  commitChanges service ctxs changes := do
    let saved ← match ctxs.head?.bind createdInfo with
      | some info => runStorageOp (saveContractInfo env info) service
      | none => .ok service
    runStorageOp (commitContractChanges env ⟨changes, [], [], []⟩) saved
  rollbackContractState service destCommitId :=
    resultState (runOp (ContractStorage.rollbackContractState destCommitId) service)

theorem exists_eq_ok_of_toBool {ε α : Type} {result : Except ε α} (h : result.toBool = true) :
    ∃ value, result = .ok value := by
  cases result with
  | ok value => exact ⟨value, rfl⟩
  | error e => cases h

/-! ## Blocks `ConnectBlock` accepts -/

/-- An environment in which every check passes and no script is a contract script; the
block names the root state hash of empty stores. -/
def acceptingEnv : ConnectEnv where
  toValidationEnv := passingEnv
  verifyScript _ _ _ := true
  sequenceLocks _ _ := true
  transactionSigOpCost _ _ := 1
  parseContractOp _ _ _ := .error ""
  parseWithdrawInfo _ _ _ := .error ""
  rootStateHashOfBlock _ := some emptyCommitId
  badUtxos := []
  firstDestination _ := none
  burningAddr := ""

/-- The storage service over the digest of `prefixDigestEnv`, with no contract created. -/
def prefixStorage : ContractService ContractStorageService := storageService prefixDigestEnv fun _ => none

/-- Address checks under which `c1` is the one contract address and every other string
is a chain address. -/
def exampleFormat : AddressFormat := ⟨fun address => address == "c1", fun address => address != "c1"⟩

/-- A UVM whose runs make no transfer. -/
def transferlessUvm : UvmEnv ContractStorageService := ⟨fun _ _ => .ok [], exampleFormat⟩

/-- The outpoint a stake spends. -/
def stakePrevout : COutPoint := ⟨20, 0⟩

/-- A view holding one coin. -/
def singleCoinView (at_ : COutPoint) (coin : Coin) : CoinsMap := fun outpoint =>
  if outpoint = at_ then some coin else none

/-- A coin of one satoshi paying `payScript`, mined at height 500000. -/
def satoshiCoin : Coin := ⟨⟨1, payScript⟩, false, 500000⟩

/-- A coinbase paying `value` to `payScript`. -/
def coinbaseOf (hash : Nat) (value : Int) : CTransaction where
  hash := hash
  vin := [⟨⟨0, 0xFFFFFFFF⟩, [3, 1, 2]⟩]
  vout := [⟨value, payScript⟩]

/-- A coinstake that spends `stakePrevout` into an output of `value` to `payScript`. -/
def coinstakeOf (hash : Nat) (value : Int) : CTransaction where
  hash := hash
  vin := [⟨stakePrevout, []⟩]
  vout := [⟨0, []⟩, ⟨value, payScript⟩]

/-- A proof-of-stake block on the block of hash `1`. -/
def stakeBlockOf (vtx : List CTransaction) : CBlock where
  nVersion := miningTypePos
  hashPrevBlock := 1
  nTime := 0
  nBits := 0
  vtx := vtx

/-- The value a block's outputs create, the unspendable ones apart. -/
def createdValue (block : CBlock) : Int :=
  (block.vtx.map fun tx =>
    ((tx.vout.filter fun out => !isUnspendable out.scriptPubKey).map (·.nValue)).sum).sum

/-- The value of the coins a block's transactions spend, read in the view the block is
connected on: for a block that spends no output of its own, the coins it spends. -/
def spentValue (view : CoinsMap) (block : CBlock) : Int :=
  ((block.vtx.filter fun tx => !tx.isCoinBase).map (getValueIn view)).sum

/-- A node whose tip, the block of hash `1`, is at height 599999, between `ForkV2Height`
and `ForkV4Height`. -/
def belowForkV4Node : NodeState where
  blockIndexHeight := indexWithPrev 599999
  tipHeight := 599999
  coinsTip _ := none

/-- The script paying an address in these examples: its bytes inside a
pay-to-key-hash pattern. -/
def addressScript (address : String) : CScript :=
  [opDup, opHash160] ++ address.toList.map (fun c => c.toNat.toUInt8) ++ [opEqualVerify, opCheckSig]

/-- The coin `A` spends: one coin, mined at height 500000. -/
def callerCoin : Coin := ⟨⟨coin, addressScript "A"⟩, false, 500000⟩

/-- The outpoint of `callerCoin`. -/
def callerPrevout : COutPoint := ⟨21, 0⟩

/-- A proof-of-stake block at height 600000 whose coinstake turns a coin of one satoshi
into one of 1000 coins, with a coinbase that takes the subsidy of one coin. -/
def mintingStakeBlock : CBlock := stakeBlockOf [coinbaseOf 30 coin, coinstakeOf 31 (1000 * coin)]

/-- A deposit of `2 ^ 63 - 1` to `c1` by `A`, the largest amount `vch_to_uint64` decodes. -/
def wrappingDeposit : ContractTransaction := ⟨opDepositToContract, ⟨10000, 10, 2 ^ 63 - 1, "A", "c1"⟩⟩

/-- A deposit output script, read by its last byte. -/
def depositScript : CScript := [1, opDepositToContract]

/-- `A`'s transaction: two deposits of `2 ^ 63 - 1` to `c1`, and its coin paid back to
`A` with one satoshi more. -/
def wrappingDepositTx : CTransaction where
  hash := 50
  vin := [⟨callerPrevout, [1]⟩]
  vout := [⟨0, depositScript⟩, ⟨0, depositScript⟩, ⟨coin + 1, addressScript "A"⟩]

/-- A proof-of-work block at height 600000 with `wrappingDepositTx`. -/
def wrappingDepositBlock : CBlock where
  nVersion := miningTypePow
  hashPrevBlock := 1
  nTime := 0
  nBits := 0
  vtx := [coinbaseOf 51 coin, wrappingDepositTx]

/-- `c1` saved from empty stores, then credited `2 ^ 63 - 1` of asset 0. -/
def depositedContractA : ContractStorageService :=
  (ContractStorageOp.commitContractChanges
    ⟨[⟨0, contractA.id, 2 ^ 63 - 1, true, true, ""⟩], [], [], []⟩).apply prefixDigestEnv savedContractA

/-- The deposit scripts of `wrappingDepositTx` parsed as `wrappingDeposit`, and a block
that names the root state hash of `depositedContractA`. -/
def depositEnv : ConnectEnv :=
  { acceptingEnv with
    toValidationEnv := { passingEnv with byteCodeOpcode := List.getLast? }
    parseContractOp := fun _ _ i => if i < 2 then .ok wrappingDeposit else .error ""
    rootStateHashOfBlock := fun _ => some depositedContractA.rootStateHash }

theorem connectBlock_creates_value :
    ((∃ view' service', connectBlock mainChainParams acceptingEnv prefixStorage transferlessUvm
        belowForkV4Node mintingStakeBlock 600000 true (singleCoinView stakePrevout satoshiCoin)
        ContractStorageService.empty false true = .ok (view', service')) ∧
      spentValue (singleCoinView stakePrevout satoshiCoin) mintingStakeBlock +
          getBlockSubsidy mainChainParams 600000 < createdValue mintingStakeBlock) ∧
    (Reachable prefixDigestEnv savedContractA ∧
      vchToUInt64 [0xFF, 0xFF, 0xFF, 0xFF, 0xFF, 0xFF, 0xFF, 0x7F] = .ok (2 ^ 63 - 1) ∧
      getContractBalances savedContractA.db contractA.id = .ok [] ∧
      (connectBlock mainChainParams depositEnv prefixStorage transferlessUvm belowForkV4Node
          wrappingDepositBlock 600000 true (singleCoinView callerPrevout callerCoin)
          savedContractA false true).map (fun result => getContractBalances result.2.db contractA.id) =
        .ok (.ok [⟨0, 2 ^ 63 - 1⟩]) ∧
      spentValue (singleCoinView callerPrevout callerCoin) wrappingDepositBlock +
          getBlockSubsidy mainChainParams 600000 < createdValue wrappingDepositBlock) := by
  obtain ⟨⟨view', service'⟩, haccept⟩ := exists_eq_ok_of_toBool
    (by decide : (connectBlock mainChainParams acceptingEnv prefixStorage transferlessUvm
        belowForkV4Node mintingStakeBlock 600000 true (singleCoinView stakePrevout satoshiCoin)
        ContractStorageService.empty false true).toBool = true)
  refine ⟨⟨⟨view', service', haccept⟩, by decide⟩, .step _ .empty, by decide +kernel, by decide +kernel,
    by decide +kernel, by decide⟩

/-- The staked coin: 50 coins paying `payScript`, mined at height 800000. -/
def stakedCoin : Coin := ⟨⟨50 * coin, payScript⟩, false, 800000⟩

/-- A node past `ForkV4Height`, its tip at height 900000, whose UTXO set holds the
staked coin. -/
def stakingNode : NodeState where
  blockIndexHeight := indexWithPrev 900000
  tipHeight := 900000
  coinsTip := singleCoinView stakePrevout stakedCoin

/-- The coinstake of `unsignedStakeBlock`: it spends the staked coin with an empty
`scriptSig` and returns its whole value to its script, as `CheckStake` requires. -/
def unsignedStakeTx : CTransaction := coinstakeOf 33 (50 * coin)

/-- A proof-of-stake block at height 900001 with the coinstake `unsignedStakeTx` and a
coinbase that takes the subsidy of half a coin. -/
def unsignedStakeBlock : CBlock := stakeBlockOf [coinbaseOf 32 (coin / 2), unsignedStakeTx]

/-- An environment in which no input script verifies. -/
def unsignedEnv : ConnectEnv := { acceptingEnv with verifyScript := fun _ _ _ => false }

theorem connectBlock_accepts_unsigned_coinstake :
    (∃ view' service', connectBlock mainChainParams unsignedEnv prefixStorage transferlessUvm
        stakingNode unsignedStakeBlock 900001 true (singleCoinView stakePrevout stakedCoin)
        ContractStorageService.empty false true = .ok (view', service')) ∧
      unsignedStakeTx.vin.map CTxIn.prevout = [stakePrevout] ∧
      singleCoinView stakePrevout stakedCoin stakePrevout = some stakedCoin ∧
      unsignedEnv.verifyScript unsignedStakeTx 0 stakedCoin = false := by
  obtain ⟨⟨view', service'⟩, haccept⟩ := exists_eq_ok_of_toBool
    (by decide : (connectBlock mainChainParams unsignedEnv prefixStorage transferlessUvm
        stakingNode unsignedStakeBlock 900001 true (singleCoinView stakePrevout stakedCoin)
        ContractStorageService.empty false true).toBool = true)
  exact ⟨⟨view', service', haccept⟩, rfl, by decide, rfl⟩

/-- A contract-call output script, read by its last byte. -/
def callScript : CScript := [1, opCall]

/-- An `OP_SPEND` output script, read by its last byte. -/
def spendScript : CScript := [1, opSpend]

/-- A call of `c1` by `A` with a gas limit of 10000 at the minimum gas price. -/
def payoutCall : ContractTransaction := ⟨opCall, ⟨10000, 10, 0, "A", "c1"⟩⟩

/-- The transfer of 5 from `c1` to the chain address `X`. -/
def transferToX : TransferCall := ⟨"c1", "X", systemAssetSymbol, 5, by decide⟩

/-- A UVM in which a run of `c1` transfers 5 to `X`. -/
def payoutUvm : UvmEnv ContractStorageService :=
  ⟨fun _ ctx => if ctx.params.contractAddress = "c1" then .ok [transferToX] else .ok [], exampleFormat⟩

/-- `c1` saved from empty stores, then credited 5 of asset 0. -/
def fundedContractA : ContractStorageService :=
  (ContractStorageOp.commitContractChanges ⟨[⟨0, contractA.id, 5, true, true, ""⟩], [], [], []⟩).apply
    prefixDigestEnv savedContractA

/-- `fundedContractA` after `c1` pays out its 5. -/
def paidOutContractA : ContractStorageService :=
  (ContractStorageOp.commitContractChanges ⟨[⟨0, contractA.id, 5, false, true, ""⟩], [], [], []⟩).apply
    prefixDigestEnv fundedContractA

/-- `A`'s transaction: it calls `c1`, withdraws 5 from `c1`, and pays `Y` its coin and
the 5 less a fee of `1000000`. -/
def payoutTx : CTransaction where
  hash := 40
  vin := [⟨callerPrevout, [1]⟩]
  vout := [⟨0, callScript⟩, ⟨0, spendScript⟩, ⟨coin + 5 - 1000000, addressScript "Y"⟩]

/-- A proof-of-work block at height 600000 with `payoutTx`. -/
def payoutBlock : CBlock where
  nVersion := miningTypePow
  hashPrevBlock := 1
  nTime := 0
  nBits := 0
  vtx := [coinbaseOf 41 coin, payoutTx]

/-- The scripts of `payoutTx` parsed as the call of `c1` and the withdrawal of 5 from `c1`,
and a block that names the root state hash of `paidOutContractA`. -/
def payoutEnv : ConnectEnv :=
  { acceptingEnv with
    toValidationEnv := { passingEnv with byteCodeOpcode := List.getLast? }
    parseContractOp := fun _ _ i => if i = 0 then .ok payoutCall else .error ""
    parseWithdrawInfo := fun _ _ i => if i = 1 then .ok ⟨contractA.id, 5⟩ else .error ""
    rootStateHashOfBlock := fun _ => some paidOutContractA.rootStateHash }

theorem connectBlock_withdrawal_unpaid_recipient :
    Reachable prefixDigestEnv fundedContractA ∧
      (∃ view' service', connectBlock mainChainParams payoutEnv prefixStorage payoutUvm
          belowForkV4Node payoutBlock 600000 true (singleCoinView callerPrevout callerCoin)
          fundedContractA false true = .ok (view', service')) ∧
      execContractOp prefixStorage payoutUvm fundedContractA payoutCall =
        .ok [⟨contractA.id, false, true, 5⟩, ⟨"X", true, false, 5⟩] ∧
      ((payoutTx.vout.filter fun out => out.scriptPubKey = addressScript "X").map (·.nValue)).sum = 0 := by
  obtain ⟨⟨view', service'⟩, haccept⟩ := exists_eq_ok_of_toBool
    (by decide +kernel : (connectBlock mainChainParams payoutEnv prefixStorage payoutUvm
        belowForkV4Node payoutBlock 600000 true (singleCoinView callerPrevout callerCoin)
        fundedContractA false true).toBool = true)
  exact ⟨.step _ (.step _ .empty), ⟨view', service', haccept⟩, by decide +kernel, by decide⟩

end UnitedBitcoin.Validation
