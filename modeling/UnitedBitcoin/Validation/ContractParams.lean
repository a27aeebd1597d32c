import UnitedBitcoin.Coins.Compressor
import UnitedBitcoin.ContractStorage.Info

/-!
# The fee check of contract transactions

Before a block's contract transactions run, `ConnectBlock` (and
`CheckAddContractTxToMempoolAvailable` for the mempool) checks the contract ops
of each transaction one after another with `ContractTransaction::is_params_valid`.
The fee left, `nTxFee`, starts at the inputs less the outputs plus the
withdrawals; each op must leave room for its deposit and for the gas stipends
`gasLimit * gasPrice` of all ops so far, and then its deposit is taken off the
fee.

`gasLimit`, `gasPrice` and `deposit_amount` are `uint64_t`, decoded by
`CScriptNum::vch_to_uint64`; the fee and the arguments of `is_params_valid` are
`CAmount`. The usual arithmetic conversions take every mixed operation modulo
`2 ^ 64`, and the stipend is formed in `uint64_t`. When the stipends do not wrap,
the fee left covers every deposit and stipend (`checkContractParams_fee_covers`);
a gas price of `2 ^ 62` with a gas limit of four wraps the stipend to zero, and
`checkContractParams_gas_wraps` shows one such op accepted against a fee of one.
-/

namespace UnitedBitcoin.Validation

open UnitedBitcoin.Coins UnitedBitcoin.ContractStorage

/-- `DEFAULT_MIN_GAS_PRICE`. -/
def defaultMinGasPrice : Nat := 10

/-- `DEFAULT_BLOCK_GAS_LIMIT`. -/
def defaultBlockGasLimit : Nat := 40000000

/-- `CScriptNum::vch_to_uint64`: little-endian bytes, at most eight, the last
without its top bit. -/
def vchToUInt64 (vch : List UInt8) : Except String UInt64 :=
  if 8 < vch.length then .error "script number overflow"
  else match vch.getLast? with
    | none => .ok 0
    | some last =>
      if 0x80 ≤ last.toNat then .error "Negative gas value."
      else .ok (vch.foldr (fun byte result => result * 256 + byte.toUInt64) 0)

/-- The fields of `ContractTransactionParams` that the fee check reads. -/
structure ContractTransactionParams where
  gasLimit : UInt64
  gasPrice : UInt64
  depositAmount : UInt64
  callerAddress : String
  contractAddress : String
  deriving DecidableEq, Repr

/-- A `ContractTransaction`: its opcode and its parameters. -/
structure ContractTransaction where
  opcode : UInt8
  params : ContractTransactionParams
  deriving DecidableEq, Repr

/-- The gas stipend of an op, over unbounded integers. -/
def ContractTransactionParams.stipend (params : ContractTransactionParams) : Nat :=
  params.gasLimit.toNat * params.gasPrice.toNat

/-- What an op takes from the fee, over unbounded integers: its deposit and its stipend. -/
def ContractTransactionParams.feeCharge (params : ContractTransactionParams) : Nat :=
  params.depositAmount.toNat + params.stipend

/-- `ContractTransactionParams::check_upgrade_contract_caller`: only the creator
may upgrade a contract, and only one not yet named. -/
def checkUpgradeContractCaller (contractInfoOf : String → Option ContractInfo)
    (opcode : UInt8) (params : ContractTransactionParams) : Bool :=
  if opcode ≠ opUpgrade then true
  else match contractInfoOf params.contractAddress with
    | none => false
    | some info => info.creatorAddress == params.callerAddress && info.name.isEmpty

/-- `ContractTransaction::is_params_valid`, with the message it stores in
`error_str`. The `CAmount` arguments meet `uint64_t` operands, so they enter the
comparisons as `toUInt64`, and sums and products are taken modulo `2 ^ 64`. -/
def isParamsValid (contractInfoOf : String → Option ContractInfo) (ctx : ContractTransaction)
    (nTxFeeRemaining sumGasCoin gasCountOfAllTxsInBlock blockGasLimit : Int) :
    Except String Unit :=
  let params := ctx.params
  if 0 ≤ nTxFeeRemaining ∧ toUInt64 nTxFeeRemaining ≤ params.depositAmount.toNat then
    .error "bad-txns-fee-notenough"
  else
    let sumGasCoinRemaining :=
      (toUInt64 sumGasCoin + params.gasLimit.toNat * params.gasPrice.toNat % 2 ^ 64) % 2 ^ 64
    -- a `uint64_t` never exceeds `UINT64_MAX`, so this test never fires
    if 2 ^ 64 - 1 < sumGasCoinRemaining then .error "bad-tx-gas-stipend-overflow"
    else if 0 ≤ nTxFeeRemaining ∧
        (toUInt64 nTxFeeRemaining + 2 ^ 64 - params.depositAmount.toNat) % 2 ^ 64 <
          sumGasCoinRemaining then
      .error "bad-txns-fee-notenough"
    else if defaultBlockGasLimit < params.gasLimit.toNat then .error "bad-tx-too-much-gas"
    else if toUInt64 blockGasLimit <
        (toUInt64 gasCountOfAllTxsInBlock + params.gasLimit.toNat) % 2 ^ 64 then
      .error "bad-txns-gas-exceeds-blockgaslimit"
    else if params.gasPrice.toNat < defaultMinGasPrice then .error "bad-tx-low-gas-price"
    else if !checkUpgradeContractCaller contractInfoOf ctx.opcode params then
      .error "bad-contract-upgrader"
    else .ok ()

/-- The loop over a transaction's contract ops in `ConnectBlock`: each op is
checked against the fee left, the `uint64_t` sum of the stipends so far and the
gas so far, and its stipend, deposit and gas are then booked. Gives the fee left
after the last op, or the first error. -/
def checkContractParams (contractInfoOf : String → Option ContractInfo) (blockGasLimit : Nat) :
    List ContractTransaction → Int → Nat → Nat → Except String Int
  | [], nTxFee, _, _ => .ok nTxFee
  | ctx :: rest, nTxFee, sumGas, gasAllTxs =>
    match isParamsValid contractInfoOf ctx nTxFee (toInt64 sumGas) (toInt64 gasAllTxs)
        (toInt64 blockGasLimit) with
    | .error e => .error e
    | .ok () =>
      checkContractParams contractInfoOf blockGasLimit rest
        (toInt64 ((toUInt64 nTxFee + 2 ^ 64 - ctx.params.depositAmount.toNat) % 2 ^ 64))
        ((sumGas + ctx.params.gasLimit.toNat * ctx.params.gasPrice.toNat % 2 ^ 64) % 2 ^ 64)
        ((gasAllTxs + ctx.params.gasLimit.toNat) % 2 ^ 64)

/-! ## Conversions between `CAmount` and `uint64_t` -/

theorem toUInt64_of_nonneg {v : Int} (hlow : 0 ≤ v) (hhigh : v < 2 ^ 64) : toUInt64 v = v.toNat := by
  rw [toUInt64, Int.emod_eq_of_lt hlow hhigh]

theorem toUInt64_toInt64 {n : Nat} (hn : n < 2 ^ 64) : toUInt64 (toInt64 n) = n := by
  unfold toInt64
  split
  · rw [toUInt64_of_nonneg (by omega) (by omega)]
    simp
  · unfold toUInt64
    omega

theorem toInt64_of_lt {n : Nat} (hn : n < 2 ^ 63) : toInt64 n = n := by
  rw [toInt64, if_pos hn]

/-- `nTxFee -= deposit_amount` for a deposit below a fee that is an `int64`: the
difference, formed in `uint64_t` and read back as a `CAmount`, does not wrap. -/
theorem toInt64_fee_sub_deposit {nTxFee : Int} {deposit : Nat} (hlow : 0 ≤ nTxFee)
    (hhigh : nTxFee < 2 ^ 63) (hdep : deposit < nTxFee.toNat) :
    toInt64 ((toUInt64 nTxFee + 2 ^ 64 - deposit) % 2 ^ 64) = nTxFee - deposit := by
  have hdiff : (toUInt64 nTxFee + 2 ^ 64 - deposit) % 2 ^ 64 = nTxFee.toNat - deposit := by
    rw [toUInt64_of_nonneg hlow (by omega)]
    omega
  rw [hdiff, toInt64_of_lt (by omega)]
  omega

/-! ## What an accepted op satisfies -/

/-- Everything `is_params_valid` checks of an op it accepts, for a fee that is not
negative: the fee exceeds the deposit, the stipends so far (in `uint64_t`) fit in
the fee less the deposit, and the gas and the price are within their limits. -/
theorem isParamsValid_eq_ok {contractInfoOf : String → Option ContractInfo} {ctx : ContractTransaction}
    {nTxFeeRemaining sumGasCoin gasCountOfAllTxsInBlock blockGasLimit : Int}
    (h : isParamsValid contractInfoOf ctx nTxFeeRemaining sumGasCoin gasCountOfAllTxsInBlock
      blockGasLimit = .ok ()) (hfee : 0 ≤ nTxFeeRemaining) :
    ctx.params.depositAmount.toNat < toUInt64 nTxFeeRemaining ∧
      (toUInt64 sumGasCoin + ctx.params.stipend % 2 ^ 64) % 2 ^ 64 ≤
        toUInt64 nTxFeeRemaining - ctx.params.depositAmount.toNat ∧
      ctx.params.gasLimit.toNat ≤ defaultBlockGasLimit ∧
      (toUInt64 gasCountOfAllTxsInBlock + ctx.params.gasLimit.toNat) % 2 ^ 64 ≤
        toUInt64 blockGasLimit ∧
      defaultMinGasPrice ≤ ctx.params.gasPrice.toNat ∧
      checkUpgradeContractCaller contractInfoOf ctx.opcode ctx.params = true := by
  unfold isParamsValid at h
  dsimp only at h
  have hfeeNat : toUInt64 nTxFeeRemaining < 2 ^ 64 := by unfold toUInt64; omega
  split_ifs at h with hnot hover hshort hgas hblock hprice hupgrade
  all_goals cases h
  -- the deposit is below the fee, so the fee less the deposit does not wrap
  have hdep : ctx.params.depositAmount.toNat < toUInt64 nTxFeeRemaining := by
    simp only [not_and, not_le] at hnot
    exact hnot hfee
  have hsub : (toUInt64 nTxFeeRemaining + 2 ^ 64 - ctx.params.depositAmount.toNat) % 2 ^ 64 =
      toUInt64 nTxFeeRemaining - ctx.params.depositAmount.toNat := by omega
  simp only [not_and, not_lt, Bool.not_eq_true', Bool.not_eq_false] at hshort hgas hblock hprice hupgrade
  refine ⟨hdep, ?_, hgas, hblock, hprice, hupgrade⟩
  rw [← hsub]
  exact hshort hfee

/-! ## The loop over a transaction's ops -/

/-- The run lemma: from a fee that covers the stipends booked so far, as long as no
stipend sum wraps, the fee covers those stipends and every deposit and stipend of
the ops still to check. -/
theorem checkContractParams_fee_bound (contractInfoOf : String → Option ContractInfo)
    (blockGasLimit : Nat) :
    ∀ (ops : List ContractTransaction) (nTxFee : Int) (sumGas gasAllTxs : Nat) (nTxFee' : Int),
      (sumGas : Int) ≤ nTxFee → nTxFee < 2 ^ 63 →
      sumGas + (ops.map fun ctx => ctx.params.stipend).sum < 2 ^ 64 →
      checkContractParams contractInfoOf blockGasLimit ops nTxFee sumGas gasAllTxs = .ok nTxFee' →
      (sumGas : Int) + ((ops.map fun ctx => ctx.params.feeCharge).sum : Nat) ≤ nTxFee := by
  intro ops
  induction ops with
  | nil =>
    intro _ _ _ _ hcovered _ _ _
    simpa using hcovered
  | cons ctx rest ih =>
    intro nTxFee sumGas gasAllTxs nTxFee' hcovered hint64 hnowrap hrun
    simp only [List.map_cons, List.sum_cons] at hnowrap ⊢
    have hstipendEq : ctx.params.gasLimit.toNat * ctx.params.gasPrice.toNat = ctx.params.stipend := rfl
    unfold checkContractParams at hrun
    rw [hstipendEq] at hrun
    split at hrun
    · cases hrun
    · rename_i hvalid
      obtain ⟨hdep, hstipend, -⟩ := isParamsValid_eq_ok hvalid (by omega)
      -- nothing wraps: the fee is an `int64` at least the stipends, and they stay below `2 ^ 64`
      have hfeeNat : toUInt64 nTxFee = nTxFee.toNat := toUInt64_of_nonneg (by omega) (by omega)
      have hsumGas : toUInt64 (toInt64 sumGas) = sumGas := toUInt64_toInt64 (by omega)
      have hproduct : ctx.params.stipend % 2 ^ 64 = ctx.params.stipend := Nat.mod_eq_of_lt (by omega)
      have hbooked : (sumGas + ctx.params.stipend) % 2 ^ 64 = sumGas + ctx.params.stipend :=
        Nat.mod_eq_of_lt (by omega)
      rw [hsumGas, hproduct, hbooked, hfeeNat] at hstipend
      rw [hfeeNat] at hdep
      rw [toInt64_fee_sub_deposit (by omega) hint64 hdep, hproduct, hbooked] at hrun
      -- the rest of the run starts from the fee less the deposit and the stipends with this one
      have hrest := ih (nTxFee - ctx.params.depositAmount.toNat) (sumGas + ctx.params.stipend)
        ((gasAllTxs + ctx.params.gasLimit.toNat) % 2 ^ 64) nTxFee' (by push_cast; omega) (by omega)
        (by omega) hrun
      have hcharge : (ctx.params.feeCharge : Int) = ctx.params.depositAmount.toNat + ctx.params.stipend := by
        simp [ContractTransactionParams.feeCharge]
      push_cast at hrest ⊢
      omega

/-- When the gas stipends of a transaction's contract ops sum to less than `2 ^ 64`,
a run of the fee check that accepts every op leaves a fee that covered every
deposit and every stipend, counted over unbounded integers. -/
theorem checkContractParams_fee_covers (contractInfoOf : String → Option ContractInfo)
    (blockGasLimit : Nat) (ops : List ContractTransaction) {nTxFee nTxFee' : Int}
    (hfee : 0 ≤ nTxFee) (hint64 : nTxFee < 2 ^ 63)
    (hnowrap : (ops.map fun ctx => ctx.params.stipend).sum < 2 ^ 64)
    (hrun : checkContractParams contractInfoOf blockGasLimit ops nTxFee 0 0 = .ok nTxFee') :
    (((ops.map fun ctx => ctx.params.feeCharge).sum : Nat) : Int) ≤ nTxFee := by
  have hbound := checkContractParams_fee_bound contractInfoOf blockGasLimit ops nTxFee 0 0 nTxFee'
    (by simpa using hfee) hint64 (by simpa using hnowrap) hrun
  simpa using hbound

/-- A call with a gas limit of 100000 at the minimum price and a deposit of 5,
against a fee of two million. -/
def depositingCallOp : ContractTransaction := ⟨opCall, ⟨100000, 10, 5, "", ""⟩⟩

/-- The call is accepted with 1999995 left, and its deposit and stipend, 1000005, are covered. -/
theorem checkContractParams_fee_covers_depositingCall :
    checkContractParams (fun _ => none) (2 ^ 64 - 1) [depositingCallOp] 2000000 0 0 = .ok 1999995 ∧
      ([depositingCallOp].map fun ctx => ctx.params.feeCharge).sum = 1000005 ∧
      ((([depositingCallOp].map fun ctx => ctx.params.feeCharge).sum : Nat) : Int) ≤ 2000000 := by
  have hrun : checkContractParams (fun _ => none) (2 ^ 64 - 1) [depositingCallOp] 2000000 0 0 = .ok 1999995 := by
    decide +kernel
  exact ⟨hrun, by decide +kernel, checkContractParams_fee_covers (fun _ => none) (2 ^ 64 - 1) [depositingCallOp]
    (by decide) (by decide) (by decide +kernel) hrun⟩

/-- An op whose stipend wraps: a gas limit of four at a gas price of `2 ^ 62`. -/
def wrappingStipendOp : ContractTransaction := ⟨opCall, ⟨4, 2 ^ 62, 0, "", ""⟩⟩

/-- The price `2 ^ 62` is what `vch_to_uint64` decodes from the eight bytes the
script pushes; the op's stipend `4 * 2 ^ 62` wraps to zero, and the check accepts
the op against a fee of one. -/
theorem checkContractParams_gas_wraps :
    vchToUInt64 [0, 0, 0, 0, 0, 0, 0, 0x40] = .ok (2 ^ 62) ∧
      checkContractParams (fun _ => none) (2 ^ 64 - 1) [wrappingStipendOp] 1 0 0 = .ok 1 ∧
      (1 : Int) < (([wrappingStipendOp].map fun ctx => ctx.params.feeCharge).sum : Nat) := by
  decide +kernel

end UnitedBitcoin.Validation
