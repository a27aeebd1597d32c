import Mathlib
import UnitedBitcoin.Script.Standard

/-!
# Contract outputs and what `Solver` reads of them

The contract RPCs of `rpc/blockchain.cpp` and `wallet/rpcwallet.cpp` write the output of a
contract transaction as the version, the data operands, the gas limit, the gas price and the
contract opcode, and `Solver`'s contract templates (`OP_VERSION OP_DATA ... OP_GAS_LIMIT
OP_GAS_PRICE op`) read it back. The gas values are `uint64_t` and go through
`operator<<(int64_t)`: `push_int64` writes `1` ... `16` as `OP_1` ... `OP_16`, opcodes without
data, which `vch_to_uint64` reads as `0`. An empty operand is written as `OP_0`, a push of
nothing, on which `OP_DATA` breaks. `solver_contractScript` says what `Solver` makes of each of
these scripts, with both edges in its statement.

`deposittocontracttesting` writes its amount with `push_int64` where the template has `OP_DATA`;
an amount of `1` ... `16` becomes an opcode, which `OP_DATA` passes over without a solution.
-/

namespace UnitedBitcoin.Script

open UnitedBitcoin.Validation (vchToUInt64 defaultBlockGasLimit)

/-! ## The scripts the contract RPCs write -/

/-- The output script of a contract transaction: `version` (the byte `0x01`, also what
`CScriptNum(CONTRACT_MAJOR_VERSION)` pushes), the data operands, `gas_limit` and `gas_price`
through `operator<<(int64_t)`, and the contract opcode; `none` where `push_int64` has no result. -/
def contractScript (datas : List ValType) (gasLimit gasPrice : UInt64) (opcode : Nat) : Option (List UInt8) := do
  let gasLimitPush ← pushInt64 gasLimit.toInt64
  let gasPricePush ← pushInt64 gasPrice.toInt64
  pure (pushData [0x01] ++ (datas.map pushData).flatten ++ gasLimitPush ++ gasPricePush ++ [opcode.toUInt8])

/-- `createcontract` and `registercontracttesting`: the bytecode and the owner's address. -/
def createContractScript (bytecode ownerAddress : ValType) (gasLimit gasPrice : UInt64) : Option (List UInt8) :=
  contractScript [bytecode, ownerAddress] gasLimit gasPrice opCreate

/-- `registernativecontracttesting`: the native template's name and the caller's address. -/
def createNativeContractScript (templateName callerAddress : ValType) (gasLimit gasPrice : UInt64) :
    Option (List UInt8) :=
  contractScript [templateName, callerAddress] gasLimit gasPrice opCreateNative

/-- `upgradecontracttesting`: the contract's description and new name, its address and the
caller's. -/
def upgradeContractScript (contractDesc contractName contractAddress callerAddress : ValType)
    (gasLimit gasPrice : UInt64) : Option (List UInt8) :=
  contractScript [contractDesc, contractName, contractAddress, callerAddress] gasLimit gasPrice opUpgrade

/-- `invokecontractoffline` and `callcontract`: the API's argument and name, the contract's
address and the caller's. -/
def callContractScript (apiArg apiName contractAddress callerAddress : ValType) (gasLimit gasPrice : UInt64) :
    Option (List UInt8) :=
  contractScript [apiArg, apiName, contractAddress, callerAddress] gasLimit gasPrice opCall

/-- `deposittocontracttesting`: the memo, the amount (an `int64_t`, through `push_int64`), the
contract's address and the caller's. -/
def depositToContractScript (memo : ValType) (depositAmount : Int64) (contractAddress callerAddress : ValType)
    (gasLimit gasPrice : UInt64) : Option (List UInt8) := do
  let amountPush ← pushInt64 depositAmount
  let gasLimitPush ← pushInt64 gasLimit.toInt64
  let gasPricePush ← pushInt64 gasPrice.toInt64
  pure (pushData [0x01] ++ pushData memo ++ amountPush ++ pushData contractAddress ++ pushData callerAddress ++
    gasLimitPush ++ gasPricePush ++ [opDepositToContract.toUInt8])

/-! ## Reading the operands back -/

section Operands

/-- What `push_int64 n` writes for `n ≥ 0`, and what `GetOp` reads of it: an opcode without
data for `1` ... `16`, else a push of the serialized number, which is empty for `0`. -/
theorem getOp_pushInt64 {n : Int64} (hn : 0 ≤ n.toInt) :
    ∃ bytes, pushInt64 n = some bytes ∧ ∀ rest, ∃ opcode vch, getOp (bytes ++ rest) = some (opcode, vch, rest) ∧
      if 1 ≤ n.toInt ∧ n.toInt ≤ 16 then opPushdata4 < opcode ∧ vch = []
      else opcode ≤ opPushdata4 ∧ vch = CScriptNum.serializeAbs false n.toUInt64 := by
  have hsmall : (n = -1 ∨ (1 ≤ n ∧ n ≤ 16)) ↔ (1 ≤ n.toInt ∧ n.toInt ≤ 16) := by
    have hm1 : (-1 : Int64).toInt = -1 := by decide
    have h16 : (16 : Int64).toInt = 16 := by decide
    rw [← Int64.toInt_inj, Int64.le_iff_toInt_le, Int64.le_iff_toInt_le, hm1, h16, Int64.toInt_one]
    omega
  by_cases h1 : 1 ≤ n.toInt ∧ n.toInt ≤ 16
  · -- `OP_1` ... `OP_16`
    have hbyte : (n.toInt + (op1 - 1 : Nat)).toNat.toUInt8.toNat = n.toInt.toNat + 80 := by
      rw [toNat_toUInt8_of_lt (by simp only [op1]; omega)]
      simp only [op1]
      omega
    refine ⟨_, by rw [pushInt64, if_pos (hsmall.mpr h1)], fun rest =>
      ⟨(n.toInt + (op1 - 1 : Nat)).toNat.toUInt8.toNat, [], ?_, ?_⟩⟩
    · rw [List.singleton_append, getOp_of_gt (by rw [hbyte]; simp only [opPushdata4]; omega)]
    · rw [if_pos h1, hbyte]
      exact ⟨by simp only [opPushdata4]; omega, rfl⟩
  by_cases h0 : n = 0
  · -- `OP_0`, the push of nothing
    subst h0
    refine ⟨[op0.toUInt8], by rw [pushInt64, if_neg (mt hsmall.mp h1), if_pos rfl], fun rest =>
      ⟨op0, [], by simp [getOp, readPushSize, op0, opPushdata1, opPushdata4], ?_⟩⟩
    rw [if_neg h1]
    exact ⟨by decide, by rw [show (0 : Int64).toUInt64 = 0 from rfl, serializeAbs_false_zero]⟩
  -- a push of the serialized number, at most eight bytes
  have hnn : 0 ≤ n := Int64.le_iff_toInt_le.mpr (by rw [Int64.toInt_zero]; exact hn)
  have hmin : n ≠ Int64.minValue := fun h => by
    have := congrArg Int64.toInt h
    rw [Int64.toInt_minValue] at this
    omega
  obtain ⟨P, m, hser, -, hlen, -⟩ := serialize_eq_append h0 hmin
  rw [serialize_of_nonneg hnn, Option.some.injEq] at hser
  have hshort : (CScriptNum.serializeAbs false n.toUInt64).length < opPushdata1 := by
    rw [hser]
    simp only [List.length_append, List.length_singleton, opPushdata1]
    omega
  refine ⟨pushData (CScriptNum.serializeAbs false n.toUInt64), ?_, fun rest =>
    ⟨_, _, getOp_pushData_of_lt hshort rest, ?_⟩⟩
  · rw [pushInt64, if_neg (mt hsmall.mp h1), if_neg h0, serialize_of_nonneg hnn, Option.map_some]
  · rw [if_neg h1]
    exact ⟨by simp only [opPushdata1, opPushdata4] at hshort ⊢; omega, rfl⟩

/-- `vch_to_uint64` of a gas value as `GetOp` reads it back: `1` ... `16` come back as `0`. -/
theorem vchToUInt64_gas {g : UInt64} (hg : g.toNat < 2 ^ 63) :
    ∃ bytes, pushInt64 g.toInt64 = some bytes ∧ ∀ rest, ∃ opcode vch,
      getOp (bytes ++ rest) = some (opcode, vch, rest) ∧ vchToUInt64 vch = .ok (if g.toNat ≤ 16 then 0 else g) := by
  have hint := toInt_toInt64_of_lt hg
  obtain ⟨bytes, hpush, hget⟩ := getOp_pushInt64 (n := g.toInt64) (by omega)
  refine ⟨bytes, hpush, fun rest => ?_⟩
  obtain ⟨opcode, vch, hop, hvch⟩ := hget rest
  refine ⟨opcode, vch, hop, ?_⟩
  rw [hint] at hvch
  by_cases h1 : 1 ≤ (g.toNat : Int) ∧ (g.toNat : Int) ≤ 16
  · rw [if_pos h1] at hvch
    rw [hvch.2, if_pos (by omega)]
    rfl
  · rw [if_neg h1, UInt64.toUInt64_toInt64] at hvch
    rw [hvch.2, vchToUInt64_serializeAbs hg]
    by_cases h0 : g = 0
    · simp [h0]
    · have : g.toNat ≠ 0 := fun h => h0 (UInt64.toNat_inj.mp (by simpa using h))
      rw [if_neg (by omega)]

/-- The end of a contract script as `GetOp` reads it: the two gas values, `1` ... `16` read back
as `0`, and the opcode. -/
theorem scriptOps_gasTail {gasLimit gasPrice : UInt64} (hlimit : gasLimit.toNat < 2 ^ 63)
    (hprice : gasPrice.toNat < 2 ^ 63) {opcode : Nat} (hopcode : opPushdata4 < opcode ∧ opcode < 256) :
    ∃ gl gp ogl vgl ogp vgp, pushInt64 gasLimit.toInt64 = some gl ∧ pushInt64 gasPrice.toInt64 = some gp ∧
      vchToUInt64 vgl = .ok (if gasLimit.toNat ≤ 16 then 0 else gasLimit) ∧
      vchToUInt64 vgp = .ok (if gasPrice.toNat ≤ 16 then 0 else gasPrice) ∧
      scriptOps (gl ++ (gp ++ [opcode.toUInt8])) = some [(ogl, vgl), (ogp, vgp), (opcode, [])] := by
  obtain ⟨gl, hgl, hgetgl⟩ := vchToUInt64_gas hlimit
  obtain ⟨gp, hgp, hgetgp⟩ := vchToUInt64_gas hprice
  obtain ⟨ogl, vgl, hopgl, hvgl⟩ := hgetgl (gp ++ [opcode.toUInt8])
  obtain ⟨ogp, vgp, hopgp, hvgp⟩ := hgetgp [opcode.toUInt8]
  have hlast : scriptOps [opcode.toUInt8] = some [(opcode, [])] := scriptOps_opcodes [opcode] (by simpa using hopcode)
  refine ⟨gl, gp, ogl, vgl, ogp, vgp, hgl, hgp, hvgl, hvgp, ?_⟩
  rw [scriptOps_of_getOp hopgl, scriptOps_of_getOp hopgp, hlast]
  rfl

/-- The operations of a run of pushes: each push's data, under an opcode that is a push. -/
theorem scriptOps_pushes (rest : List UInt8) : ∀ datas : List ValType, (∀ b ∈ datas, b.length < 2 ^ 32) →
    ∃ ops : List (Nat × ValType), ops.map Prod.snd = datas ∧ (∀ o ∈ ops, o.1 ≤ opPushdata4) ∧
      scriptOps ((datas.map pushData).flatten ++ rest) = (scriptOps rest).map (ops ++ ·)
  | [], _ => ⟨[], rfl, by simp, by simp⟩
  | b :: datas, hdatas => by
    obtain ⟨ops, hsnd, hpush, hops⟩ := scriptOps_pushes rest datas fun x hx => hdatas x (List.mem_cons_of_mem _ hx)
    obtain ⟨opcode, hle, hget⟩ := getOp_pushData (hdatas b List.mem_cons_self) ((datas.map pushData).flatten ++ rest)
    refine ⟨(opcode, b) :: ops, by simp [hsnd], ?_, ?_⟩
    · intro o ho
      rcases List.mem_cons.mp ho with rfl | ho
      · exact hle
      · exact hpush o ho
    · rw [List.map_cons, List.flatten_cons, List.append_assoc, scriptOps_of_getOp hget, hops, Option.map_map]
      rfl

end Operands

/-! ## The contract templates -/

section ContractTemplates

variable {script1 script2 : List UInt8}

/-- One `OP_DATA` of a template: a push is a solution and an empty push breaks; any other
operation is passed over. -/
theorem compareOps_data_cons (h2 : script2.length ≠ 2) (opcode : Nat) (vch : ValType)
    (ops1 ops2 : List (Nat × ValType)) (vSolutions : List ValType) (version : UInt32) :
    compareOps true script1 script2 ((opcode, vch) :: ops1) ((opData, []) :: ops2) vSolutions version =
      if opcode ≤ opPushdata4 then
        if vch = [] then none else compareOps true script1 script2 ops1 ops2 (vSolutions ++ [vch]) version
      else compareOps true script1 script2 ops1 ops2 vSolutions version := by
  by_cases hpush : opcode ≤ opPushdata4
  · by_cases hvch : vch = []
    · subst hvch
      simp [compareOps, compareOp_data_nil h2 hpush, hpush]
    · simp [compareOps, compareOp_data h2 hpush hvch, hpush, hvch]
  · simp [compareOps, compareOp_data_of_gt h2 (Nat.lt_of_not_le hpush), hpush]

/-- `OP_DATA` over a run of operations: the pushes are the solutions, an empty push breaks, and
the other operations are passed over. The induction is on the run. -/
theorem compareOps_datas (h2 : script2.length ≠ 2) :
    ∀ (ops ops1 ops2 : List (Nat × ValType)) (vSolutions : List ValType) (version : UInt32),
      compareOps true script1 script2 (ops ++ ops1) (List.replicate ops.length (opData, []) ++ ops2) vSolutions
          version =
        if ∃ o ∈ ops, o.1 ≤ opPushdata4 ∧ o.2 = [] then none
        else compareOps true script1 script2 ops1 ops2
          (vSolutions ++ (ops.filter fun o => o.1 ≤ opPushdata4).map Prod.snd) version
  | [], ops1, ops2, vSolutions, version => by simp
  | (opcode, vch) :: ops, ops1, ops2, vSolutions, version => by
    simp only [List.length_cons, List.replicate_succ, List.cons_append]
    rw [compareOps_data_cons h2, List.filter_cons]
    simp only [List.mem_cons, exists_eq_or_imp]
    by_cases hpush : opcode ≤ opPushdata4
    · by_cases hvch : vch = []
      · simp [hpush, hvch]
      · rw [if_pos hpush, if_neg hvch, compareOps_datas h2 ops]
        simp only [hvch, and_false, false_or, hpush, decide_true, if_true, List.map_cons, List.append_assoc,
          List.singleton_append]
    · rw [if_neg hpush, compareOps_datas h2 ops]
      simp only [hpush, false_and, false_or, decide_false, Bool.false_eq_true, if_false]

/-- Two lists of operations of different lengths never match. -/
theorem compareOps_of_length_ne {allowContract : Bool} {ops1 ops2 : List (Nat × ValType)}
    (h : ops1.length ≠ ops2.length) (vSolutions : List ValType) (version : UInt32) :
    compareOps allowContract script1 script2 ops1 ops2 vSolutions version = none := by
  cases hcmp : compareOps allowContract script1 script2 ops1 ops2 vSolutions version with
  | none => rfl
  | some result => exact absurd (compareOps_length _ _ _ hcmp) h

/-- The scan of a contract script against a contract template with `k` data operands and the
opcode `opcode'`: the version, the data, the gas limit, the gas price and the opcode. It matches
when the counts and the opcodes agree, no push among the data is empty and the gas limit is
within the block's. -/
theorem compareOps_contract (h2 : script2.length ≠ 2) {ops : List (Nat × ValType)} {opcode opcode' ogl ogp : Nat}
    {vgl vgp : ValType} {gl gp : UInt64} (hgl : vchToUInt64 vgl = .ok gl) (hgp : vchToUInt64 vgp = .ok gp)
    (hlit : opcode' ∉ [opPubkey, opPubkeyhash, opSmallinteger, opVersion, opGasLimit, opGasPrice, opData])
    (k : Nat) :
    compareOps true script1 script2 ((1, [1]) :: ops ++ [(ogl, vgl), (ogp, vgp), (opcode, [])])
        ((opVersion :: List.replicate k opData ++ [opGasLimit, opGasPrice, opcode']).map fun o => (o, [])) [] 0 =
      if k = ops.length ∧ opcode = opcode' ∧ ¬(∃ o ∈ ops, o.1 ≤ opPushdata4 ∧ o.2 = []) ∧
          gl.toNat ≤ defaultBlockGasLimit then
        some ([CScriptNum.serializeAbs false 1] ++ (ops.filter fun o => o.1 ≤ opPushdata4).map Prod.snd ++
          [CScriptNum.serializeAbs false gl, CScriptNum.serializeAbs false gp], 1)
      else none := by
  by_cases hk : k = ops.length
  · subst hk
    have hversion : compareOp true script1 script2 1 [1] opVersion [] [] 0 = some ([CScriptNum.serializeAbs false 1], 1) :=
      compareOp_version (by decide) rfl
    simp only [List.map_cons, List.map_append, List.map_replicate, List.cons_append, compareOps, hversion,
      Option.bind_eq_bind, Option.bind_some, List.nil_append]
    rw [compareOps_datas h2 ops]
    by_cases hempty : ∃ o ∈ ops, o.1 ≤ opPushdata4 ∧ o.2 = []
    · simp only [hempty, if_true, not_true_eq_false, and_false, false_and, if_false]
    rw [if_neg hempty]
    by_cases hover : defaultBlockGasLimit < gl.toNat
    · simp [compareOps, compareOp_gasLimit_of_gt hgl hover, Nat.not_le.mpr hover]
    have hone : (1 : UInt32).toNat = contractMajorVersion := rfl
    simp only [List.map_nil, compareOps, compareOp_gasLimit hgl (Nat.le_of_not_lt hover) hone,
      compareOp_gasPrice hgp hone, compareOp_literal hlit, Option.bind_eq_bind, Option.bind_some]
    by_cases hop : opcode = opcode'
    · simp [hop, hempty, Nat.le_of_not_lt hover]
    · simp [hop]
  · rw [if_neg fun h => hk h.1]
    exact compareOps_of_length_ne (by simp; omega) _ _

end ContractTemplates

/-! ## What `Solver` makes of the contract scripts -/

section Solver

/-- The shortcuts of `Solver` pass over a script that starts with the push of the version and
does not end in `OP_ROOT_STATE_HASH`. -/
theorem solver_of_versionPush {allowContract : Bool} {typeRet : TxnOutType} {tail : List UInt8}
    (hlast : ((1 :: 1 :: tail).getLastD 0).toNat ≠ opRootStateHash) :
    solver allowContract typeRet (1 :: 1 :: tail) = scanTemplates allowContract (1 :: 1 :: tail) templates :=
  solver_of_templates (by simp [isPayToScriptHash, opHash160]) (by simp [isWitnessProgram, op0, op1])
    (by simp [opReturn]) hlast

/-- **The scan of the templates over a contract script.** Of `Solver`'s templates, only the
contract template with as many data operands and the same opcode can match a script with the
operations of a contract script; it does when no push among the data is empty and the gas limit
is within the block's, and else the script is nonstandard. -/
theorem scanTemplates_contract {script rest : List UInt8} {ops : List (Nat × ValType)} {typ : TxnOutType}
    {opcode ogl ogp : Nat} {vgl vgp : ValType} {gl gp : UInt64}
    (hmember : (typ, ops.length, opcode) ∈ [(.createNative, 2, opCreateNative), (.create, 2, opCreate),
      (.upgrade, 4, opUpgrade), (.call, 4, opCall), (.depositToContract, 4, opDepositToContract)])
    (hget : getOp script = some (1, [1], rest))
    (hS : scriptOps script = some ((1, [1]) :: ops ++ [(ogl, vgl), (ogp, vgp), (opcode, [])]))
    (hgl : vchToUInt64 vgl = .ok gl) (hgp : vchToUInt64 vgp = .ok gp) :
    scanTemplates true script templates =
      if ¬(∃ o ∈ ops, o.1 ≤ opPushdata4 ∧ o.2 = []) ∧ gl.toNat ≤ defaultBlockGasLimit then
        some ⟨true, typ, [CScriptNum.serializeAbs false 1] ++ (ops.filter fun o => o.1 ≤ opPushdata4).map Prod.snd ++
          [CScriptNum.serializeAbs false gl, CScriptNum.serializeAbs false gp]⟩
      else some ⟨false, .nonstandard, []⟩ := by
  have hcount : ops.length = 2 ∨ ops.length = 4 := by
    simp only [List.mem_cons, Prod.mk.injEq, List.not_mem_nil, or_false] at hmember
    omega
  -- the templates that are not contract templates have another number of operations
  have hlength : ∀ tops : List Nat, tops.length ≠ ops.length + 4 →
      compareOps true script (tops.map Nat.toUInt8) ((1, [1]) :: ops ++ [(ogl, vgl), (ogp, vgp), (opcode, [])])
        (tops.map fun o => (o, [])) [] 0 = none := fun tops htops =>
    compareOps_of_length_ne (by simp; omega) _ _
  -- `OP_SMALLINTEGER` is not the push of the version
  have hsmallint : matchTemplate true script ([opSmallinteger, opPubkeys, opSmallinteger, opCheckmultisig].map
      Nat.toUInt8) (TxnOutType.multisig = .multisig) script
      ([opSmallinteger, opPubkeys, opSmallinteger, opCheckmultisig].map Nat.toUInt8) [] 0 = .mismatch :=
    matchTemplate_of_compareOp_none _ _ _ hget (getOp_of_gt (by decide) _) (by decide)
      (compareOp_smallinteger_none (by decide))
  have hcontract : ∀ (k : Nat) (opcode' : Nat),
      opcode' ∉ [opPubkey, opPubkeyhash, opSmallinteger, opVersion, opGasLimit, opGasPrice, opData] →
      compareOps true script ((opVersion :: List.replicate k opData ++ [opGasLimit, opGasPrice, opcode']).map
          Nat.toUInt8) ((1, [1]) :: ops ++ [(ogl, vgl), (ogp, vgp), (opcode, [])])
          ((opVersion :: List.replicate k opData ++ [opGasLimit, opGasPrice, opcode']).map fun o => (o, [])) [] 0 =
        if k = ops.length ∧ opcode = opcode' ∧ ¬(∃ o ∈ ops, o.1 ≤ opPushdata4 ∧ o.2 = []) ∧
            gl.toNat ≤ defaultBlockGasLimit then
          some ([CScriptNum.serializeAbs false 1] ++ (ops.filter fun o => o.1 ≤ opPushdata4).map Prod.snd ++
            [CScriptNum.serializeAbs false gl, CScriptNum.serializeAbs false gp], 1)
        else none := fun k opcode' hlit =>
    compareOps_contract (by simp) hgl hgp hlit k
  have hsix : ∀ o, [opVersion, opData, opData, opGasLimit, opGasPrice, o] =
      opVersion :: List.replicate 2 opData ++ [opGasLimit, opGasPrice, o] := fun _ => rfl
  have height : ∀ o, [opVersion, opData, opData, opData, opData, opGasLimit, opGasPrice, o] =
      opVersion :: List.replicate 4 opData ++ [opGasLimit, opGasPrice, o] := fun _ => rfl
  rw [templates, hsix, hsix, height, height, height,
    scanTemplates_cons_opcodes (by decide) _ (by decide) hS, hlength _ (by simp),
    scanTemplates_cons_opcodes (by decide) _ (by decide) hS, hlength _ (by simp; omega),
    scanTemplates_cons_mismatch hsmallint,
    scanTemplates_cons_opcodes (by decide) _ (by decide) hS, hcontract 2 opCreateNative (by decide),
    scanTemplates_cons_opcodes (by decide) _ (by decide) hS, hcontract 2 opCreate (by decide),
    scanTemplates_cons_opcodes (by decide) _ (by decide) hS, hcontract 4 opUpgrade (by decide),
    scanTemplates_cons_opcodes (by decide) _ (by decide) hS, hcontract 4 opCall (by decide),
    scanTemplates_cons_opcodes (by decide) _ (by decide) hS, hcontract 4 opDepositToContract (by decide),
    scanTemplates_cons_opcodes (by decide) _ (by decide) hS, hlength _ (by simp),
    scanTemplates_cons_opcodes (by decide) _ (by decide) hS, hlength _ (by simp)]
  -- one contract template is the script's: the others differ in the count or the opcode
  simp only [List.mem_cons, Prod.mk.injEq, List.not_mem_nil, or_false] at hmember
  rcases hmember with ⟨rfl, hk, rfl⟩ | ⟨rfl, hk, rfl⟩ | ⟨rfl, hk, rfl⟩ | ⟨rfl, hk, rfl⟩ | ⟨rfl, hk, rfl⟩ <;>
  · by_cases hok : ¬(∃ o ∈ ops, o.1 ≤ opPushdata4 ∧ o.2 = []) ∧ gl.toNat ≤ defaultBlockGasLimit
    · simp [hk, hok, opCreateNative, opCreate, opUpgrade, opCall, opDepositToContract]
    · rw [if_neg hok]
      simp only [hk, hok, opCreateNative, opCreate, opUpgrade, opCall, opDepositToContract]
      simp [scanTemplates]

/-- The push of the version is the bytes `0x01 0x01`. -/
theorem pushData_version : pushData [0x01] = [1, 1] := by decide

theorem getOp_versionPush (rest : List UInt8) : getOp (1 :: 1 :: rest) = some (1, [1], rest) := by
  simpa [pushData_version] using getOp_pushData_of_lt (b := [0x01]) (by decide) rest

/-- The contract script as its bytes: the push of the version, then the rest. -/
theorem contractScript_eq {datas : List ValType} {gasLimit gasPrice : UInt64} {opcode : Nat} {gl gp : List UInt8}
    (hgl : pushInt64 gasLimit.toInt64 = some gl) (hgp : pushInt64 gasPrice.toInt64 = some gp) :
    contractScript datas gasLimit gasPrice opcode =
      some (1 :: 1 :: ((datas.map pushData).flatten ++ (gl ++ (gp ++ [opcode.toUInt8])))) := by
  simp [contractScript, hgl, hgp, pushData_version]

/-- The deposit script as its bytes: the push of the version, then the rest. -/
theorem depositToContractScript_eq {memo contractAddress callerAddress : ValType} {depositAmount : Int64}
    {gasLimit gasPrice : UInt64} {amount gl gp : List UInt8} (hamount : pushInt64 depositAmount = some amount)
    (hgl : pushInt64 gasLimit.toInt64 = some gl) (hgp : pushInt64 gasPrice.toInt64 = some gp) :
    depositToContractScript memo depositAmount contractAddress callerAddress gasLimit gasPrice =
      some (1 :: 1 :: (pushData memo ++ (amount ++ (pushData contractAddress ++ (pushData callerAddress ++
        (gl ++ (gp ++ [opDepositToContract.toUInt8]))))))) := by
  simp [depositToContractScript, hamount, hgl, hgp, pushData_version]

/-- The gas limit is checked as it is read back. -/
theorem toNat_readGas_le (g : UInt64) :
    (if g.toNat ≤ 16 then (0 : UInt64) else g).toNat ≤ defaultBlockGasLimit ↔ g.toNat ≤ defaultBlockGasLimit := by
  split_ifs with h16
  · simp only [UInt64.toNat_zero, defaultBlockGasLimit]
    omega
  · rfl

/-- The solution of a gas value read back: `1` ... `16` leave the serialization of `0`. -/
theorem serializeAbs_readGas (g : UInt64) :
    CScriptNum.serializeAbs false (if g.toNat ≤ 16 then (0 : UInt64) else g) =
      if g.toNat ≤ 16 then [] else CScriptNum.serializeAbs false g := by
  split_ifs
  · exact serializeAbs_false_zero
  · rfl

/-- **`Solver` on a contract-shaped script.** A script that starts with the push of the version,
whose operations are the version, the operands `ops`, the two gas values and a contract opcode,
is read by the contract template with as many operands and that opcode: the solutions are the
version, the pushes among the operands and the gas values, unless a push among the operands is
empty or the gas limit is over the block's. -/
theorem solver_contractOps (typeRet : TxnOutType) {tail : List UInt8} {ops : List (Nat × ValType)}
    {typ : TxnOutType} {opcode ogl ogp : Nat} {vgl vgp : ValType} {gasLimit gasPrice : UInt64}
    (hmember : (typ, ops.length, opcode) ∈ [(.createNative, 2, opCreateNative), (.create, 2, opCreate),
      (.upgrade, 4, opUpgrade), (.call, 4, opCall), (.depositToContract, 4, opDepositToContract)])
    (hlast : ((1 :: 1 :: tail).getLastD 0).toNat ≠ opRootStateHash)
    (hS : scriptOps (1 :: 1 :: tail) = some ((1, [1]) :: ops ++ [(ogl, vgl), (ogp, vgp), (opcode, [])]))
    (hvgl : vchToUInt64 vgl = .ok (if gasLimit.toNat ≤ 16 then 0 else gasLimit))
    (hvgp : vchToUInt64 vgp = .ok (if gasPrice.toNat ≤ 16 then 0 else gasPrice)) :
    solver true typeRet (1 :: 1 :: tail) =
      if ¬(∃ o ∈ ops, o.1 ≤ opPushdata4 ∧ o.2 = []) ∧ gasLimit.toNat ≤ defaultBlockGasLimit then
        some ⟨true, typ, [CScriptNum.serializeAbs false 1] ++ (ops.filter fun o => o.1 ≤ opPushdata4).map Prod.snd ++
          [if gasLimit.toNat ≤ 16 then [] else CScriptNum.serializeAbs false gasLimit,
            if gasPrice.toNat ≤ 16 then [] else CScriptNum.serializeAbs false gasPrice]⟩
      else some ⟨false, .nonstandard, []⟩ := by
  rw [solver_of_versionPush hlast, scanTemplates_contract hmember (getOp_versionPush _) hS hvgl hvgp]
  simp only [toNat_readGas_le, serializeAbs_readGas]

/-- The condition of `solver_contractOps` turned around: the script is nonstandard exactly when
an operand is an empty push or the gas limit is over the block's. -/
theorem ite_contractOk {α : Type} (p : Prop) [Decidable p] (gasLimit : Nat) (accepted refused : α) :
    (if ¬p ∧ gasLimit ≤ defaultBlockGasLimit then accepted else refused) =
      if p ∨ defaultBlockGasLimit < gasLimit then refused else accepted := by
  by_cases hp : p
  · simp [hp]
  · by_cases hle : gasLimit ≤ defaultBlockGasLimit
    · simp [hp, hle, Nat.not_lt.mpr hle]
    · simp [hp, hle, Nat.lt_of_not_le hle]

/-- **The contract scripts read back.** For gas values below `2 ^ 63`, the scripts of
`createcontract`, `registernativecontracttesting`, `upgradecontracttesting` and `callcontract`
are written, and `Solver` finds the contract template of the opcode, with the version, the data
and the two gas values as its solutions, unless an operand is empty or the gas limit is over the
block's: then the script is nonstandard. A gas value of `1` ... `16` comes back empty, the
serialization of `0`. -/
theorem solver_contractScript (typeRet : TxnOutType) {typ : TxnOutType} {datas : List ValType} {opcode : Nat}
    (hmember : (typ, datas.length, opcode) ∈
      [(.createNative, 2, opCreateNative), (.create, 2, opCreate), (.upgrade, 4, opUpgrade), (.call, 4, opCall)])
    (hdatas : ∀ b ∈ datas, b.length < 2 ^ 32) {gasLimit gasPrice : UInt64} (hlimit : gasLimit.toNat < 2 ^ 63)
    (hprice : gasPrice.toNat < 2 ^ 63) :
    ∃ script, contractScript datas gasLimit gasPrice opcode = some script ∧
      solver true typeRet script =
        if [] ∈ datas ∨ defaultBlockGasLimit < gasLimit.toNat then some ⟨false, .nonstandard, []⟩
        else some ⟨true, typ, [CScriptNum.serializeAbs false 1] ++ datas ++
          [if gasLimit.toNat ≤ 16 then [] else CScriptNum.serializeAbs false gasLimit,
            if gasPrice.toNat ≤ 16 then [] else CScriptNum.serializeAbs false gasPrice]⟩ := by
  have hopcode : opPushdata4 < opcode ∧ opcode < 256 ∧ opcode ≠ opRootStateHash := by
    simp only [List.mem_cons, Prod.mk.injEq, List.not_mem_nil, or_false] at hmember
    rcases hmember with ⟨-, -, rfl⟩ | ⟨-, -, rfl⟩ | ⟨-, -, rfl⟩ | ⟨-, -, rfl⟩ <;> decide
  obtain ⟨gl, gp, ogl, vgl, ogp, vgp, hgl, hgp, hvgl, hvgp, htail⟩ :=
    scriptOps_gasTail hlimit hprice ⟨hopcode.1, hopcode.2.1⟩
  obtain ⟨ops, hsnd, hpush, hops⟩ := scriptOps_pushes (gl ++ (gp ++ [opcode.toUInt8])) datas hdatas
  have hS : scriptOps (1 :: 1 :: ((datas.map pushData).flatten ++ (gl ++ (gp ++ [opcode.toUInt8])))) =
      some ((1, [1]) :: ops ++ [(ogl, vgl), (ogp, vgp), (opcode, [])]) := by
    rw [scriptOps_of_getOp (getOp_versionPush _), hops, htail]
    rfl
  have hmember' : (typ, ops.length, opcode) ∈ [(.createNative, 2, opCreateNative), (.create, 2, opCreate),
      (.upgrade, 4, opUpgrade), (.call, 4, opCall), (.depositToContract, 4, opDepositToContract)] := by
    rw [show ops.length = datas.length by rw [← hsnd, List.length_map]]
    exact List.mem_append_left [(.depositToContract, 4, opDepositToContract)] hmember
  have hlast : ((1 :: 1 :: ((datas.map pushData).flatten ++ (gl ++ (gp ++ [opcode.toUInt8])))).getLastD 0).toNat ≠
      opRootStateHash := by
    rw [show 1 :: 1 :: ((datas.map pushData).flatten ++ (gl ++ (gp ++ [opcode.toUInt8]))) =
      1 :: 1 :: ((datas.map pushData).flatten ++ (gl ++ gp)) ++ [opcode.toUInt8] by simp, List.getLastD_concat,
      toNat_toUInt8_of_lt hopcode.2.1]
    exact hopcode.2.2
  -- every data operand is a push, so an empty one is an empty push
  have hfilter : (ops.filter fun o => o.1 ≤ opPushdata4) = ops := List.filter_eq_self.mpr (by simpa using hpush)
  have hempty : (∃ o ∈ ops, o.1 ≤ opPushdata4 ∧ o.2 = []) ↔ [] ∈ datas := by
    rw [← hsnd, List.mem_map]
    exact ⟨fun ⟨o, ho, _, hnil⟩ => ⟨o, ho, hnil⟩, fun ⟨o, ho, hnil⟩ => ⟨o, ho, hpush o ho, hnil⟩⟩
  refine ⟨_, contractScript_eq hgl hgp, ?_⟩
  rw [solver_contractOps typeRet hmember' hlast hS hvgl hvgp, hfilter, hsnd]
  simp only [hempty]
  exact ite_contractOk _ _ _ _

/-- A call with a gas limit of `5`, which `push_int64` writes as `OP_5`. -/
theorem solver_callContractScript_gasFive :
    ∃ script, callContractScript [1] [2] [3] [4] 5 40 = some script ∧
      solver true .nonstandard script =
        if [] ∈ ([[1], [2], [3], [4]] : List ValType) ∨ defaultBlockGasLimit < (5 : UInt64).toNat then
          some ⟨false, .nonstandard, []⟩
        else some ⟨true, .call, [CScriptNum.serializeAbs false 1] ++ [[1], [2], [3], [4]] ++
          [if (5 : UInt64).toNat ≤ 16 then [] else CScriptNum.serializeAbs false 5,
            if (40 : UInt64).toNat ≤ 16 then [] else CScriptNum.serializeAbs false 40]⟩ :=
  solver_contractScript .nonstandard (by decide) (by decide) (by decide) (by decide)

/-- The amount operand of the deposit script, as `GetOp` reads it: for an amount of `1` ... `16`
an opcode, which `OP_DATA` passes over, and else a push of the serialized amount, which is not
empty. -/
theorem amountOperand {depositAmount : Int64} (hamount : 0 < depositAmount.toInt) {oa : Nat} {va : ValType}
    (hva : if 1 ≤ depositAmount.toInt ∧ depositAmount.toInt ≤ 16 then opPushdata4 < oa ∧ va = []
      else oa ≤ opPushdata4 ∧ va = CScriptNum.serializeAbs false depositAmount.toUInt64) :
    ¬(oa ≤ opPushdata4 ∧ va = []) ∧
      (if oa ≤ opPushdata4 then [va] else []) =
        if depositAmount.toInt ≤ 16 then [] else [CScriptNum.serializeAbs false depositAmount.toUInt64] := by
  by_cases hsmall : depositAmount.toInt ≤ 16
  · rw [if_pos ⟨hamount, hsmall⟩] at hva
    have hnot : ¬oa ≤ opPushdata4 := Nat.not_le.mpr hva.1
    exact ⟨fun h => hnot h.1, by rw [if_neg hnot, if_pos hsmall]⟩
  · rw [if_neg fun h => hsmall h.2] at hva
    have habs : depositAmount.toUInt64 ≠ 0 := by
      intro h
      have := toNat_toUInt64_of_nonneg (le_of_lt hamount)
      rw [h, UInt64.toNat_zero] at this
      omega
    have hne : va ≠ [] := by
      rw [hva.2]
      exact serializeAbs_ne_nil false habs
    exact ⟨fun h => hne h.2, by rw [if_pos hva.1, if_neg hsmall, hva.2]⟩

/-- **The deposit script read back.** `deposittocontracttesting` writes the amount, which it has
checked to be positive, with `push_int64`, where the template has `OP_DATA`: an amount of `1` ...
`16` becomes `OP_1` ... `OP_16`, which `OP_DATA` passes over, and the solutions then lack the
amount. An empty memo or address makes the script nonstandard, as does a gas limit over the
block's. -/
theorem solver_depositToContractScript (typeRet : TxnOutType) {memo contractAddress callerAddress : ValType}
    {depositAmount : Int64} (hamount : 0 < depositAmount.toInt)
    (hsizes : ∀ b ∈ [memo, contractAddress, callerAddress], b.length < 2 ^ 32) {gasLimit gasPrice : UInt64}
    (hlimit : gasLimit.toNat < 2 ^ 63) (hprice : gasPrice.toNat < 2 ^ 63) :
    ∃ script, depositToContractScript memo depositAmount contractAddress callerAddress gasLimit gasPrice = some script ∧
      solver true typeRet script =
        if memo = [] ∨ contractAddress = [] ∨ callerAddress = [] ∨ defaultBlockGasLimit < gasLimit.toNat then
          some ⟨false, .nonstandard, []⟩
        else some ⟨true, .depositToContract, [CScriptNum.serializeAbs false 1, memo] ++
          (if depositAmount.toInt ≤ 16 then [] else [CScriptNum.serializeAbs false depositAmount.toUInt64]) ++
          [contractAddress, callerAddress,
            if gasLimit.toNat ≤ 16 then [] else CScriptNum.serializeAbs false gasLimit,
            if gasPrice.toNat ≤ 16 then [] else CScriptNum.serializeAbs false gasPrice]⟩ := by
  -- what `GetOp` reads of each operand, from the last to the first
  obtain ⟨gl, gp, ogl, vgl, ogp, vgp, hgl, hgp, hvgl, hvgp, htail⟩ :=
    scriptOps_gasTail hlimit hprice (by decide : opPushdata4 < opDepositToContract ∧ opDepositToContract < 256)
  set tail := gl ++ (gp ++ [opDepositToContract.toUInt8]) with htailDef
  obtain ⟨oc, hoc, hgetc⟩ := getOp_pushData (hsizes contractAddress (by simp)) (pushData callerAddress ++ tail)
  obtain ⟨od, hod, hgetd⟩ := getOp_pushData (hsizes callerAddress (by simp)) tail
  obtain ⟨amount, ha, hgeta⟩ := getOp_pushInt64 (le_of_lt hamount)
  obtain ⟨oa, va, hopa, hva⟩ := hgeta (pushData contractAddress ++ (pushData callerAddress ++ tail))
  obtain ⟨om, hom, hgetm⟩ := getOp_pushData (hsizes memo List.mem_cons_self)
    (amount ++ (pushData contractAddress ++ (pushData callerAddress ++ tail)))
  have hS : scriptOps (1 :: 1 :: (pushData memo ++ (amount ++ (pushData contractAddress ++
      (pushData callerAddress ++ tail))))) =
      some ((1, [1]) :: [(om, memo), (oa, va), (oc, contractAddress), (od, callerAddress)] ++
        [(ogl, vgl), (ogp, vgp), (opDepositToContract, [])]) := by
    rw [scriptOps_of_getOp (getOp_versionPush _), scriptOps_of_getOp hgetm, scriptOps_of_getOp hopa,
      scriptOps_of_getOp hgetc, scriptOps_of_getOp hgetd, htail]
    rfl
  have hlast : ((1 :: 1 :: (pushData memo ++ (amount ++ (pushData contractAddress ++
      (pushData callerAddress ++ tail))))).getLastD 0).toNat ≠ opRootStateHash := by
    rw [show 1 :: 1 :: (pushData memo ++ (amount ++ (pushData contractAddress ++ (pushData callerAddress ++ tail)))) =
      1 :: 1 :: (pushData memo ++ amount ++ pushData contractAddress ++ pushData callerAddress ++ gl ++ gp) ++
        [opDepositToContract.toUInt8] by simp [htailDef], List.getLastD_concat]
    decide
  have hmember : (TxnOutType.depositToContract, [(om, memo), (oa, va), (oc, contractAddress), (od, callerAddress)].length,
      opDepositToContract) ∈ [(.createNative, 2, opCreateNative), (.create, 2, opCreate), (.upgrade, 4, opUpgrade),
        (.call, 4, opCall), (.depositToContract, 4, opDepositToContract)] := by simp
  refine ⟨_, depositToContractScript_eq ha hgl hgp, ?_⟩
  rw [solver_contractOps typeRet hmember hlast hS hvgl hvgp]
  -- the amount is an opcode for `1` ... `16`, and else a push that is not empty
  obtain ⟨hamountPush, hamountSolution⟩ := amountOperand hamount hva
  have hempty : (∃ o ∈ [(om, memo), (oa, va), (oc, contractAddress), (od, callerAddress)],
      o.1 ≤ opPushdata4 ∧ o.2 = []) ↔ memo = [] ∨ contractAddress = [] ∨ callerAddress = [] := by
    simp only [List.mem_cons, List.not_mem_nil, or_false, exists_eq_or_imp, exists_eq_left, hom, hoc, hod, true_and,
      hamountPush, false_or]
  have hfilter : ([(om, memo), (oa, va), (oc, contractAddress), (od, callerAddress)].filter
      fun o => o.1 ≤ opPushdata4).map Prod.snd =
      [memo] ++ (if depositAmount.toInt ≤ 16 then [] else [CScriptNum.serializeAbs false depositAmount.toUInt64]) ++
        [contractAddress, callerAddress] := by
    rw [← hamountSolution]
    by_cases hpush : oa ≤ opPushdata4 <;> simp [hom, hoc, hod, hpush]
  rw [hfilter, ite_contractOk]
  simp only [hempty, or_assoc, List.cons_append, List.append_assoc, List.nil_append]

/-- A deposit of `5`, which `push_int64` writes as `OP_5`. -/
theorem solver_depositToContractScript_amountFive :
    ∃ script, depositToContractScript [9] 5 [1] [2] 100000 40 = some script ∧
      solver true .nonstandard script =
        if ([9] : ValType) = [] ∨ ([1] : ValType) = [] ∨ ([2] : ValType) = [] ∨
            defaultBlockGasLimit < (100000 : UInt64).toNat then
          some ⟨false, .nonstandard, []⟩
        else some ⟨true, .depositToContract, [CScriptNum.serializeAbs false 1, [9]] ++
          (if (5 : Int64).toInt ≤ 16 then [] else [CScriptNum.serializeAbs false (5 : Int64).toUInt64]) ++
          [[1], [2],
            if (100000 : UInt64).toNat ≤ 16 then [] else CScriptNum.serializeAbs false 100000,
            if (40 : UInt64).toNat ≤ 16 then [] else CScriptNum.serializeAbs false 40]⟩ :=
  solver_depositToContractScript .nonstandard (by decide) (by decide) (by decide) (by decide)

end Solver

end UnitedBitcoin.Script
