import Mathlib
import UnitedBitcoin.Script.Interpreter
import UnitedBitcoin.Script.ScriptNum

/-!
# Script templates and destinations (`script/standard.cpp`)

`Solver` names the kind of an output script and takes out its data. It tries, in this order,
the fast test for pay-to-script-hash, the witness programs, the unspendable `OP_RETURN` outputs,
the root state hash output of UnitedBitcoin's coinbase, and last the templates of its
`std::multimap`, which it walks in the order of their type. A template is a script whose
placeholder opcodes (`OP_PUBKEY`, `OP_PUBKEYS`, `OP_PUBKEYHASH`, `OP_SMALLINTEGER`, and the
contract placeholders `OP_VERSION`, `OP_DATA`, `OP_GAS_LIMIT`, `OP_GAS_PRICE`) stand for
operands; the scan compares the script with it one operation at a time (`matchTemplate`).

The scan is the fold of one comparison (`compareOp`) over the operations of the script and of
the template, taken in pairs, when both parse to the same number of operations
(`matchTemplate_eq`); `OP_PUBKEYS` first takes every operand of a public key's size
(`pubkeysLoop`). On the scripts that `GetScriptForDestination`, `GetScriptForMultisig` and the
contract RPCs write, `Solver` gives back what was written: `extractDestination_getScriptForDestination`,
`solver_getScriptForMultisig` and `solver_callScript`.

`chainActive.Height() + 1 >= UBCONTRACT_Height` is the parameter `allowContract`. The public key
hash of `CPubKey::GetID` is a parameter. A script is the list of its bytes.
-/

namespace UnitedBitcoin.Script

open UnitedBitcoin.Serialize (leBytes leValue)
open UnitedBitcoin.Validation (vchToUInt64 defaultBlockGasLimit)

/-! ## Opcodes -/

def opReturn : Nat := 0x6a
def opDup : Nat := 0x76
def opEqual : Nat := 0x87
def opEqualverify : Nat := 0x88
def opHash160 : Nat := 0xa9
def opChecksig : Nat := 0xac
def opCheckmultisig : Nat := 0xae
def opUpgrade : Nat := 0xc2
def opCall : Nat := 0xc4
def opSpend : Nat := 0xc5
def opGasPrice : Nat := 0xf5
def opGasLimit : Nat := 0xf6
def opData : Nat := 0xf7
def opVersion : Nat := 0xf8
def opRootStateHash : Nat := 0xf9
def opSmallinteger : Nat := 0xfa
def opPubkeys : Nat := 0xfb
def opPubkeyhash : Nat := 0xfd
def opPubkey : Nat := 0xfe
def opInvalidopcode : Nat := 0xff

/-- `CONTRACT_MAJOR_VERSION`. -/
def contractMajorVersion : Nat := 1

/-! ## Writing scripts -/

/-- `CScript::operator<<(const std::vector<unsigned char>&)`: the shortest push opcode for the
size, the size in one, two or four little-endian bytes where the opcode does not hold it, then
the bytes. -/
def pushData (b : ValType) : List UInt8 :=
  let header :=
    if b.length < opPushdata1 then [b.length.toUInt8]
    else if b.length ≤ 0xff then [opPushdata1.toUInt8, b.length.toUInt8]
    else if b.length ≤ 0xffff then opPushdata2.toUInt8 :: leBytes 2 b.length
    else opPushdata4.toUInt8 :: leBytes 4 b.length
  header ++ b

/-- `CScript::push_int64`, which `operator<<(int64_t)` calls: `OP_1NEGATE`, `OP_0` and `OP_1` ...
`OP_16` for the small numbers, else the push of `CScriptNum::serialize`, which has no result
at `INT64_MIN`. -/
def pushInt64 (n : Int64) : Option (List UInt8) :=
  if n = -1 ∨ (1 ≤ n ∧ n ≤ 16) then some [(n.toInt + (op1 - 1 : Nat)).toNat.toUInt8]
  else if n = 0 then some [op0.toUInt8]
  else (CScriptNum.serialize n).map pushData

/-- `CScript::EncodeOP_N`; `none` where its `assert(n >= 0 && n <= 16)` fails. -/
def encodeOpN (n : Int) : Option Nat :=
  if 0 ≤ n ∧ n ≤ 16 then some (if n = 0 then op0 else op1 + n.toNat - 1) else none

/-- `CScript::DecodeOP_N`; `none` where its `assert` fails. -/
def decodeOpN (opcode : Nat) : Option Nat :=
  if opcode = op0 then some 0
  else if op1 ≤ opcode ∧ opcode ≤ op16 then some (opcode - (op1 - 1))
  else none

/-! ## Reading scripts -/

/-- `CScript::IsPayToScriptHash`: `OP_HASH160`, a push of twenty bytes, `OP_EQUAL`. -/
def isPayToScriptHash (script : List UInt8) : Bool :=
  script.length = 23 && (script.getD 0 0).toNat = opHash160 && (script.getD 1 0).toNat = 0x14 &&
    (script.getD 22 0).toNat = opEqual

/-- `CScript::IsWitnessProgram`: the version and the program of a script that is a small number
followed by one direct push of the rest. -/
def isWitnessProgram (script : List UInt8) : Option (Nat × List UInt8) :=
  if script.length < 4 ∨ script.length > 42 then none
  else if (script.getD 0 0).toNat ≠ op0 ∧ ((script.getD 0 0).toNat < op1 ∨ (script.getD 0 0).toNat > op16) then
    none
  else if (script.getD 1 0).toNat + 2 = script.length then
    (decodeOpN (script.getD 0 0).toNat).map fun version => (version, script.drop 2)
  else none

/-- `CScript::IsPushOnly(pc)`: every operation from `pc` on parses and is a push or a small
number. -/
def isPushOnly (script : List UInt8) : Bool :=
  match script with
  | [] => true
  | b :: tail =>
    match _hop : getOp (b :: tail) with
    | none => false
    | some (opcode, _, rest) => if opcode > op16 then false else isPushOnly rest
termination_by script.length
decreasing_by exact getOp_length_lt _hop

/-- Where `GetOp2` leaves `pc` when it fails: past the opcode, and past the size bytes where only
the data is short. -/
def getOpFailRest : List UInt8 → List UInt8
  | [] => []
  | b :: rest =>
    if b.toNat ≤ opPushdata4 then
      match readPushSize b.toNat rest with
      | none => rest
      | some (_, data) => data
    else rest

/-- The operations of a whole script, each an opcode and its push data; `none` where `GetOp`
fails. -/
def scriptOps (script : List UInt8) : Option (List (Nat × ValType)) :=
  match script with
  | [] => some []
  | b :: tail =>
    match _hop : getOp (b :: tail) with
    | none => none
    | some (opcode, vch, rest) => (scriptOps rest).map ((opcode, vch) :: ·)
termination_by script.length
decreasing_by exact getOp_length_lt _hop

/-! ## `Solver` -/

/-- `txnouttype`, in the order of its values. -/
inductive TxnOutType where
  | nonstandard | pubkey | pubkeyhash | scripthash | multisig | nullData
  | witnessV0Scripthash | witnessV0Keyhash | witnessUnknown
  | createNative | create | upgrade | call | depositToContract | spend | rootStateHash
  deriving DecidableEq, Repr

/-- The templates of `Solver`, in the order in which the `std::multimap` keeps them: by type. -/
def templates : List (TxnOutType × List UInt8) :=
  [(.pubkey, [opPubkey, opChecksig].map Nat.toUInt8),
    (.pubkeyhash, [opDup, opHash160, opPubkeyhash, opEqualverify, opChecksig].map Nat.toUInt8),
    (.multisig, [opSmallinteger, opPubkeys, opSmallinteger, opCheckmultisig].map Nat.toUInt8),
    (.createNative, [opVersion, opData, opData, opGasLimit, opGasPrice, opCreateNative].map Nat.toUInt8),
    (.create, [opVersion, opData, opData, opGasLimit, opGasPrice, opCreate].map Nat.toUInt8),
    (.upgrade, [opVersion, opData, opData, opData, opData, opGasLimit, opGasPrice, opUpgrade].map Nat.toUInt8),
    (.call, [opVersion, opData, opData, opData, opData, opGasLimit, opGasPrice, opCall].map Nat.toUInt8),
    (.depositToContract,
      [opVersion, opData, opData, opData, opData, opGasLimit, opGasPrice, opDepositToContract].map Nat.toUInt8),
    (.spend, [opData, opData, opSpend].map Nat.toUInt8),
    (.rootStateHash, [opData, opRootStateHash].map Nat.toUInt8)]

/-- The `while` loop of `OP_PUBKEYS`: every operand of a public key's size is a solution. A
failed `GetOp` leaves `OP_INVALIDOPCODE` and no data. -/
def pubkeysLoop (pc1 : List UInt8) (opcode1 : Nat) (vch1 : ValType) (vSolutions : List ValType) :
    List UInt8 × Nat × ValType × List ValType :=
  if 33 ≤ vch1.length ∧ vch1.length ≤ 65 then
    match _hop : getOp pc1 with
    | none => (getOpFailRest pc1, opInvalidopcode, [], vSolutions ++ [vch1])
    | some (opcode, vch, rest) => pubkeysLoop rest opcode vch (vSolutions ++ [vch1])
  else (pc1, opcode1, vch1, vSolutions)
termination_by pc1.length
decreasing_by exact getOp_length_lt _hop

/-- One comparison of the scan: the operation of the script against that of the template.
`none` is the `break` to the next template; otherwise the solutions and the contract version so
far. `script1` and `script2` are the whole script and template, which the `OP_DATA` case reads. -/
def compareOp (allowContract : Bool) (script1 script2 : List UInt8) (opcode1 : Nat) (vch1 : ValType)
    (opcode2 : Nat) (vch2 : ValType) (vSolutions : List ValType) (version : UInt32) :
    Option (List ValType × UInt32) :=
  if opcode2 = opPubkey then
    if vch1.length < 33 ∨ vch1.length > 65 then none else some (vSolutions ++ [vch1], version)
  else if opcode2 = opPubkeyhash then
    if vch1.length ≠ 20 then none else some (vSolutions ++ [vch1], version)
  else if opcode2 = opSmallinteger then
    match decodeOpN opcode1 with
    | some n => some (vSolutions ++ [[n.toUInt8]], version)
    | none => none
  else if allowContract then
    if opcode2 = opVersion then
      if vch1.isEmpty ∨ vch1.length > 4 then none
      else
        match vchToUInt64 vch1 with
        | .error _ => none
        | .ok v =>
          -- `version` is a `uint32_t`
          if v.toUInt32.toNat ≠ contractMajorVersion then none
          else (CScriptNum.serialize v.toUInt32.toUInt64.toInt64).map fun vch => (vSolutions ++ [vch], v.toUInt32)
    else if opcode2 = opGasLimit then
      match vchToUInt64 vch1 with
      | .error _ => none
      | .ok val =>
        if val.toNat > defaultBlockGasLimit then none
        else if version.toNat ≠ contractMajorVersion then none
        else (CScriptNum.serialize val.toInt64).map fun vch => (vSolutions ++ [vch], version)
    else if opcode2 = opGasPrice then
      match vchToUInt64 vch1 with
      | .error _ => none
      | .ok val =>
        if version.toNat ≠ contractMajorVersion then none
        else (CScriptNum.serialize val.toInt64).map fun vch => (vSolutions ++ [vch], version)
    else if opcode2 = opData then
      if script2.length = 2 ∧ (script2.getD 1 0).toNat = opRootStateHash ∧ 2 ≤ script1.length ∧
          (script1.getLastD 0).toNat = opRootStateHash then
        some (vSolutions ++ [vch1], version)
      -- an operation that is not a push passes `OP_DATA` and adds no solution
      else if opcode1 ≤ opPushdata4 then
        if vch1.isEmpty then none else some (vSolutions ++ [vch1], version)
      else some (vSolutions, version)
    else if opcode1 ≠ opcode2 ∨ vch1 ≠ vch2 then none
    else some (vSolutions, version)
  else if opcode1 ≠ opcode2 ∨ vch1 ≠ vch2 then none
  else some (vSolutions, version)

/-- How the scan of one template ends: a match (`return true`), the multisig check's
`return false`, a `break` to the next template, or the undefined read of an empty solution. -/
inductive TemplateMatch where
  | matched (vSolutions : List ValType)
  | refused (vSolutions : List ValType)
  | mismatch
  | fault
  deriving DecidableEq, Repr

/-- The additional checks for `TX_MULTISIG`: `m` and `n`, the first byte of the first and of
the last solution, with `1 ≤ m ≤ n` and `n` keys between them. `vSolutionsRet.size() - 2` is a
`size_t`. -/
def multisigCheck (vSolutions : List ValType) : TemplateMatch :=
  match vSolutions.head?, vSolutions.getLast? with
  | some (m :: _), some (n :: _) =>
    if m < 1 ∨ n < 1 ∨ m > n ∨ (vSolutions.length + (2 ^ 64 - 2)) % 2 ^ 64 ≠ n.toNat then .refused vSolutions
    else .matched vSolutions
  | _, _ => .fault

/-- The `while (true)` loop of the scan of one template: `pc1` and `pc2` are what is left of the
script and of the template. -/
def matchTemplate (allowContract : Bool) (script1 script2 : List UInt8) (isMultisig : Bool)
    (pc1 pc2 : List UInt8) (vSolutions : List ValType) (version : UInt32) : TemplateMatch :=
  if pc1 = [] ∧ pc2 = [] then
    if isMultisig then multisigCheck vSolutions else .matched vSolutions
  else
    match getOp pc1 with
    | none => .mismatch
    | some (opcode1, vch1, rest1) =>
      match _hop2 : getOp pc2 with
      | none => .mismatch
      | some (opcode2, vch2, rest2) =>
        if opcode2 = opPubkeys then
          let (rest1', opcode1', vch1', vSolutions') := pubkeysLoop rest1 opcode1 vch1 vSolutions
          match _hop3 : getOp rest2 with
          | none => .mismatch
          | some (opcode2', vch2', rest2') =>
            match compareOp allowContract script1 script2 opcode1' vch1' opcode2' vch2' vSolutions' version with
            | none => .mismatch
            | some (vSolutions'', version') =>
              matchTemplate allowContract script1 script2 isMultisig rest1' rest2' vSolutions'' version'
        else
          match compareOp allowContract script1 script2 opcode1 vch1 opcode2 vch2 vSolutions version with
          | none => .mismatch
          | some (vSolutions', version') =>
            matchTemplate allowContract script1 script2 isMultisig rest1 rest2 vSolutions' version'
termination_by pc2.length
decreasing_by
  · exact lt_trans (getOp_length_lt _hop3) (getOp_length_lt _hop2)
  · exact getOp_length_lt _hop2

/-- What `Solver` returns: its result, `typeRet` and `vSolutionsRet`. -/
structure Solution where
  ok : Bool
  typeRet : TxnOutType
  vSolutions : List ValType
  deriving DecidableEq, Repr

/-- The `for` loop over the templates; after the last, `TX_NONSTANDARD` and no solutions. -/
def scanTemplates (allowContract : Bool) (script1 : List UInt8) :
    List (TxnOutType × List UInt8) → Option Solution
  | [] => some ⟨false, .nonstandard, []⟩
  | (typ, script2) :: rest =>
    match matchTemplate allowContract script1 script2 (typ = .multisig) script1 script2 [] 0 with
    | .matched vSolutions => some ⟨true, typ, vSolutions⟩
    | .refused vSolutions => some ⟨false, typ, vSolutions⟩
    | .mismatch => scanTemplates allowContract script1 rest
    | .fault => none

/-- `Solver(scriptPubKey, typeRet, vSolutionsRet)`, with `typeRet` as the caller passes it;
`none` is undefined behaviour. -/
def solver (allowContract : Bool) (typeRet : TxnOutType) (scriptPubKey : List UInt8) : Option Solution :=
  if isPayToScriptHash scriptPubKey then some ⟨true, .scripthash, [(scriptPubKey.drop 2).take 20]⟩
  else
    match isWitnessProgram scriptPubKey with
    | some (witnessversion, witnessprogram) =>
      if witnessversion = 0 ∧ witnessprogram.length = 20 then some ⟨true, .witnessV0Keyhash, [witnessprogram]⟩
      else if witnessversion = 0 ∧ witnessprogram.length = 32 then
        some ⟨true, .witnessV0Scripthash, [witnessprogram]⟩
      else if witnessversion ≠ 0 then
        some ⟨true, .witnessUnknown, [[witnessversion.toUInt8], witnessprogram]⟩
      else some ⟨false, typeRet, []⟩
    | none =>
      if 1 ≤ scriptPubKey.length ∧ (scriptPubKey.getD 0 0).toNat = opReturn ∧ isPushOnly (scriptPubKey.drop 1) then
        some ⟨true, .nullData, []⟩
      else
        -- the root state hash output of a block in which contracts are allowed
        let rootStateHash :=
          if allowContract ∧ 2 ≤ scriptPubKey.length ∧ (scriptPubKey.getLastD 0).toNat = opRootStateHash then
            (getOp scriptPubKey).map fun (_, result, _) => result
          else none
        match rootStateHash with
        | some result => some ⟨true, .rootStateHash, [result]⟩
        | none => scanTemplates allowContract scriptPubKey templates

/-! ## Destinations -/

/-- A `uint160`. -/
abbrev Uint160 := List.Vector UInt8 20

/-- A `uint256`. -/
abbrev Uint256 := List.Vector UInt8 32

/-- `WitnessUnknown`: the version and the first `length` bytes of `program`. -/
structure WitnessUnknown where
  version : Nat
  program : List UInt8
  deriving DecidableEq, Repr

/-- `CTxDestination`. -/
inductive CTxDestination where
  | noDestination
  | keyID (id : Uint160)
  | scriptID (id : Uint160)
  | witnessV0ScriptHash (id : Uint256)
  | witnessV0KeyHash (id : Uint160)
  | witnessUnknown (id : WitnessUnknown)
  deriving DecidableEq

/-- `GetScriptForDestination`; `none` where `EncodeOP_N` of a witness version fails its
`assert`. -/
def getScriptForDestination : CTxDestination → Option (List UInt8)
  | .noDestination => some []
  | .keyID id =>
    some ([opDup.toUInt8, opHash160.toUInt8] ++ pushData id.toList ++ [opEqualverify.toUInt8, opChecksig.toUInt8])
  | .scriptID id => some ([opHash160.toUInt8] ++ pushData id.toList ++ [opEqual.toUInt8])
  | .witnessV0KeyHash id => some ([op0.toUInt8] ++ pushData id.toList)
  | .witnessV0ScriptHash id => some ([op0.toUInt8] ++ pushData id.toList)
  | .witnessUnknown id => (encodeOpN id.version).map fun opcode => [opcode.toUInt8] ++ pushData id.program

/-- `GetScriptForMultisig(nRequired, keys)`. -/
def getScriptForMultisig (nRequired : Int) (keys : List ValType) : Option (List UInt8) := do
  let opRequired ← encodeOpN nRequired
  let opKeys ← encodeOpN keys.length
  pure ([opRequired.toUInt8] ++ (keys.map pushData).flatten ++ [opKeys.toUInt8, opCheckmultisig.toUInt8])

/-- `CPubKey::GetLen`: the size a public key has by its first byte. -/
def pubKeyLen (chHeader : UInt8) : Nat :=
  if chHeader = 2 ∨ chHeader = 3 then 33
  else if chHeader = 4 ∨ chHeader = 6 ∨ chHeader = 7 then 65
  else 0

/-- `CPubKey(vch).IsValid()`: the size the first byte calls for. -/
def pubKeyIsValid (vch : ValType) : Bool :=
  match vch with
  | [] => false
  | chHeader :: _ => pubKeyLen chHeader ≠ 0 && pubKeyLen chHeader = vch.length

/-- `uint160(vch)`; `none` where its `assert(vch.size() == sizeof(data))` fails. -/
def toUint160 (vch : ValType) : Option Uint160 :=
  if h : vch.length = 20 then some ⟨vch, h⟩ else none

/-- The copy of a solution into a `uint256`; `none` where it would not fill it exactly. -/
def toUint256 (vch : ValType) : Option Uint256 :=
  if h : vch.length = 32 then some ⟨vch, h⟩ else none

/-- `ExtractDestination(scriptPubKey, addressRet)`: `some none` for `false`, `none` for undefined
behaviour. `getID` is `CPubKey::GetID`. -/
def extractDestination (allowContract : Bool) (getID : ValType → Uint160) (scriptPubKey : List UInt8) :
    Option (Option CTxDestination) := do
  let sol ← solver allowContract .nonstandard scriptPubKey
  if !sol.ok then return none
  match sol.typeRet with
  | .pubkey =>
    let vch ← sol.vSolutions.head?
    return if pubKeyIsValid vch then some (.keyID (getID vch)) else none
  | .pubkeyhash => return some (.keyID (← toUint160 (← sol.vSolutions.head?)))
  | .scripthash => return some (.scriptID (← toUint160 (← sol.vSolutions.head?)))
  | .witnessV0Keyhash => return some (.witnessV0KeyHash (← toUint160 (← sol.vSolutions.head?)))
  | .witnessV0Scripthash => return some (.witnessV0ScriptHash (← toUint256 (← sol.vSolutions.head?)))
  | .witnessUnknown =>
    let version ← (← sol.vSolutions.head?).head?
    let program ← sol.vSolutions[1]?
    -- `program` is a `unsigned char[40]`
    if program.length > 40 then none
    return some (.witnessUnknown ⟨version.toNat, program⟩)
  | _ => return none

/-! ## Parsing what was written -/

section Parsing

/-- An opcode above `OP_PUSHDATA4` is one byte with no data. -/
theorem getOp_of_gt {b : UInt8} (hb : opPushdata4 < b.toNat) (rest : List UInt8) :
    getOp (b :: rest) = some (b.toNat, [], rest) := by
  simp [getOp, Nat.not_le.mpr hb]

theorem pushData_of_lt {b : ValType} (hb : b.length < opPushdata1) : pushData b = b.length.toUInt8 :: b := by
  simp [pushData, hb]

theorem toNat_toUInt8_of_lt {n : Nat} (hn : n < 256) : n.toUInt8.toNat = n := by
  rw [Nat.toUInt8_eq, UInt8.toNat_ofNat', Nat.mod_eq_of_lt hn]

/-- A push opcode whose size bytes are there and whose data is long enough. -/
theorem getOp_of_readPushSize {c : UInt8} {tail data : List UInt8} {nSize : Nat} (hc : c.toNat ≤ opPushdata4)
    (hsized : readPushSize c.toNat tail = some (nSize, data)) (hlen : nSize ≤ data.length) :
    getOp (c :: tail) = some (c.toNat, data.take nSize, data.drop nSize) := by
  simp only [getOp, if_pos hc, hsized, if_neg (Nat.not_lt.mpr hlen)]

/-- A push of fewer than `OP_PUSHDATA1` bytes has its size as its opcode. -/
theorem getOp_pushData_of_lt {b : ValType} (hb : b.length < opPushdata1) (rest : List UInt8) :
    getOp (pushData b ++ rest) = some (b.length, b, rest) := by
  have hsize : b.length.toUInt8.toNat = b.length := toNat_toUInt8_of_lt (by simp only [opPushdata1] at hb; omega)
  have hc : b.length.toUInt8.toNat ≤ opPushdata4 := by
    rw [hsize]; simp only [opPushdata1, opPushdata4] at hb ⊢; omega
  have hsized : readPushSize b.length.toUInt8.toNat (b ++ rest) = some (b.length, b ++ rest) := by
    rw [hsize, readPushSize, if_pos hb]
  rw [pushData_of_lt hb, List.cons_append, getOp_of_readPushSize hc hsized (by simp), List.take_left' rfl,
    List.drop_left' rfl, hsize]

/-- `GetOp` reads back a push written by `operator<<`, with what follows untouched. -/
theorem getOp_pushData {b : ValType} (hb : b.length < 2 ^ 32) (rest : List UInt8) :
    ∃ opcode, opcode ≤ opPushdata4 ∧ getOp (pushData b ++ rest) = some (opcode, b, rest) := by
  have htake : (b ++ rest).take b.length = b := List.take_left' rfl
  have hdrop : (b ++ rest).drop b.length = rest := List.drop_left' rfl
  have hle : b.length ≤ (b ++ rest).length := by simp
  unfold pushData
  split_ifs with h1 h2 h3
  · -- the size is the opcode
    refine ⟨b.length, by simp only [opPushdata1, opPushdata4] at h1 ⊢; omega, ?_⟩
    rw [← getOp_pushData_of_lt h1 rest, pushData, if_pos h1]
  · have hsize : b.length.toUInt8.toNat = b.length := toNat_toUInt8_of_lt (by omega)
    have hsized : readPushSize opPushdata1.toUInt8.toNat (b.length.toUInt8 :: (b ++ rest)) =
        some (b.length, b ++ rest) := by
      simp [readPushSize, opPushdata1, Serialize.leValue, hsize]
    refine ⟨opPushdata1.toUInt8.toNat, by decide, ?_⟩
    rw [List.append_assoc, List.cons_append, List.singleton_append,
      getOp_of_readPushSize (by decide) hsized hle, htake, hdrop]
  · have hvalue : leValue (leBytes 2 b.length) = b.length := by
      rw [Serialize.leValue_leBytes, Nat.mod_eq_of_lt (by omega)]
    have hsized : readPushSize opPushdata2.toUInt8.toNat (leBytes 2 b.length ++ (b ++ rest)) =
        some (b.length, b ++ rest) := by
      simp [readPushSize, opPushdata1, opPushdata2, Serialize.length_leBytes, List.take_left', List.drop_left',
        hvalue]
      omega
    refine ⟨opPushdata2.toUInt8.toNat, by decide, ?_⟩
    rw [List.append_assoc, List.cons_append, getOp_of_readPushSize (by decide) hsized hle, htake, hdrop]
  · have hvalue : leValue (leBytes 4 b.length) = b.length := by
      rw [Serialize.leValue_leBytes, Nat.mod_eq_of_lt (by omega)]
    have hsized : readPushSize opPushdata4.toUInt8.toNat (leBytes 4 b.length ++ (b ++ rest)) =
        some (b.length, b ++ rest) := by
      simp [readPushSize, opPushdata1, opPushdata2, opPushdata4, Serialize.length_leBytes, List.take_left',
        List.drop_left', hvalue]
    refine ⟨opPushdata4.toUInt8.toNat, by decide, ?_⟩
    rw [List.append_assoc, List.cons_append, getOp_of_readPushSize (by decide) hsized hle, htake, hdrop]

/-- The operations of a script that starts with an operation `GetOp` reads. -/
theorem scriptOps_of_getOp {script rest : List UInt8} {opcode : Nat} {vch : ValType}
    (hop : getOp script = some (opcode, vch, rest)) :
    scriptOps script = (scriptOps rest).map ((opcode, vch) :: ·) := by
  cases script with
  | nil => simp [getOp] at hop
  | cons b tail =>
    rw [scriptOps]
    split <;> simp_all

theorem scriptOps_of_getOp_none {script : List UInt8} (hne : script ≠ []) (hop : getOp script = none) :
    scriptOps script = none := by
  cases script with
  | nil => exact absurd rfl hne
  | cons b tail =>
    rw [scriptOps]
    split <;> simp_all

theorem scriptOps_eq_nil {script : List UInt8} (h : scriptOps script = some []) : script = [] := by
  cases script with
  | nil => rfl
  | cons b tail =>
    rw [scriptOps] at h
    split at h <;> simp_all

/-- A template is its opcodes, none of them a push. -/
theorem scriptOps_opcodes : ∀ ops : List Nat, (∀ o ∈ ops, opPushdata4 < o ∧ o < 256) →
    scriptOps (ops.map Nat.toUInt8) = some (ops.map fun o => (o, []))
  | [], _ => by simp [scriptOps]
  | o :: ops, hops => by
    have ho := hops o List.mem_cons_self
    have hbyte : o.toUInt8.toNat = o := toNat_toUInt8_of_lt ho.2
    rw [List.map_cons, scriptOps_of_getOp (getOp_of_gt (by rw [hbyte]; exact ho.1) _), hbyte,
      scriptOps_opcodes ops fun x hx => hops x (List.mem_cons_of_mem _ hx)]
    rfl

end Parsing

/-! ## The scan of one template -/

section Compare

variable {allowContract : Bool} {script1 script2 : List UInt8}
variable {opcode1 : Nat} {vch1 : ValType} {vch2 : ValType} {vSolutions : List ValType} {version : UInt32}

/-- Any other opcode of a template must stand in the script as it is. -/
theorem compareOp_literal {opcode2 : Nat}
    (hplace : opcode2 ∉ [opPubkey, opPubkeyhash, opSmallinteger, opVersion, opGasLimit, opGasPrice, opData]) :
    compareOp allowContract script1 script2 opcode1 vch1 opcode2 vch2 vSolutions version =
      if opcode1 = opcode2 ∧ vch1 = vch2 then some (vSolutions, version) else none := by
  simp only [List.mem_cons, List.not_mem_nil, or_false, not_or] at hplace
  obtain ⟨h1, h2, h3, h4, h5, h6, h7⟩ := hplace
  unfold compareOp
  rw [if_neg h1, if_neg h2, if_neg h3]
  by_cases hmatch : opcode1 = opcode2 ∧ vch1 = vch2
  · obtain ⟨rfl, rfl⟩ := hmatch
    cases allowContract <;> simp [h4, h5, h6, h7]
  · rw [if_neg hmatch]
    have hne : opcode1 ≠ opcode2 ∨ vch1 ≠ vch2 := by tauto
    cases allowContract <;> simp [h4, h5, h6, h7, hne]

theorem compareOp_pubkey_of_lt (hsize : vch1.length < 33) :
    compareOp allowContract script1 script2 opcode1 vch1 opPubkey vch2 vSolutions version = none := by
  simp only [compareOp, if_true]
  rw [if_pos (Or.inl hsize)]

theorem compareOp_pubkeyhash (hsize : vch1.length = 20) :
    compareOp allowContract script1 script2 opcode1 vch1 opPubkeyhash vch2 vSolutions version =
      some (vSolutions ++ [vch1], version) := by
  simp [compareOp, opPubkey, opPubkeyhash, hsize]

theorem compareOp_smallinteger {n : Nat} (hn : decodeOpN opcode1 = some n) :
    compareOp allowContract script1 script2 opcode1 vch1 opSmallinteger vch2 vSolutions version =
      some (vSolutions ++ [[n.toUInt8]], version) := by
  simp [compareOp, opPubkey, opPubkeyhash, opSmallinteger, hn]

theorem compareOp_smallinteger_none (hn : decodeOpN opcode1 = none) :
    compareOp allowContract script1 script2 opcode1 vch1 opSmallinteger vch2 vSolutions version = none := by
  simp [compareOp, opPubkey, opPubkeyhash, opSmallinteger, hn]

/-- `OP_DATA`, outside the root state hash template, takes a non-empty push. -/
theorem compareOp_data (h2 : script2.length ≠ 2) (hpush : opcode1 ≤ opPushdata4) (hne : vch1 ≠ []) :
    compareOp true script1 script2 opcode1 vch1 opData vch2 vSolutions version =
      some (vSolutions ++ [vch1], version) := by
  simp [compareOp, opPubkey, opPubkeyhash, opSmallinteger, opVersion, opGasLimit, opGasPrice, opData, h2, hpush,
    hne]

/-- `OP_DATA` passes over an operation that is not a push, without a solution. -/
theorem compareOp_data_of_gt (h2 : script2.length ≠ 2) (hgt : opPushdata4 < opcode1) :
    compareOp true script1 script2 opcode1 vch1 opData vch2 vSolutions version = some (vSolutions, version) := by
  simp [compareOp, opPubkey, opPubkeyhash, opSmallinteger, opVersion, opGasLimit, opGasPrice, opData, h2,
    Nat.not_le.mpr hgt]

/-- `OP_DATA` breaks on an empty push, such as `OP_0`. -/
theorem compareOp_data_nil (h2 : script2.length ≠ 2) (hpush : opcode1 ≤ opPushdata4) :
    compareOp true script1 script2 opcode1 [] opData vch2 vSolutions version = none := by
  simp [compareOp, opPubkey, opPubkeyhash, opSmallinteger, opVersion, opGasLimit, opGasPrice, opData, h2, hpush]

/-- `OP_VERSION` takes a push of one to four bytes that reads as `CONTRACT_MAJOR_VERSION`. -/
theorem compareOp_version (hsize : 1 ≤ vch1.length ∧ vch1.length ≤ 4) (hvalue : vchToUInt64 vch1 = .ok 1) :
    compareOp true script1 script2 opcode1 vch1 opVersion vch2 vSolutions version =
      some (vSolutions ++ [CScriptNum.serializeAbs false 1], 1) := by
  have hne : vch1 ≠ [] := by rintro rfl; simp at hsize
  have hone : CScriptNum.serialize 1 = some (CScriptNum.serializeAbs false 1) := serialize_toInt64 (by decide : (1 : UInt64).toNat < 2 ^ 63)
  simp [compareOp, opPubkey, opPubkeyhash, opSmallinteger, opVersion, hne, hvalue, contractMajorVersion,
    Nat.not_lt.mpr hsize.2, hone]

theorem compareOp_gasLimit {val : UInt64} (hvalue : vchToUInt64 vch1 = .ok val)
    (hlimit : val.toNat ≤ defaultBlockGasLimit) (hversion : version.toNat = contractMajorVersion) :
    compareOp true script1 script2 opcode1 vch1 opGasLimit vch2 vSolutions version =
      some (vSolutions ++ [CScriptNum.serializeAbs false val], version) := by
  simp [compareOp, opPubkey, opPubkeyhash, opSmallinteger, opVersion, opGasLimit, hvalue, hversion,
    Nat.not_lt.mpr hlimit, serialize_toInt64 (toNat_lt_of_vchToUInt64 hvalue)]

theorem compareOp_gasLimit_of_gt {val : UInt64} (hvalue : vchToUInt64 vch1 = .ok val)
    (hover : defaultBlockGasLimit < val.toNat) :
    compareOp true script1 script2 opcode1 vch1 opGasLimit vch2 vSolutions version = none := by
  simp [compareOp, opPubkey, opPubkeyhash, opSmallinteger, opVersion, opGasLimit, hvalue, hover]

theorem compareOp_gasPrice {val : UInt64} (hvalue : vchToUInt64 vch1 = .ok val)
    (hversion : version.toNat = contractMajorVersion) :
    compareOp true script1 script2 opcode1 vch1 opGasPrice vch2 vSolutions version =
      some (vSolutions ++ [CScriptNum.serializeAbs false val], version) := by
  simp [compareOp, opPubkey, opPubkeyhash, opSmallinteger, opVersion, opGasLimit, opGasPrice, hvalue, hversion,
    serialize_toInt64 (toNat_lt_of_vchToUInt64 hvalue)]

end Compare

section Scan

variable (allowContract : Bool) (script1 script2 : List UInt8)

/-- The comparisons of the scan, one pair of operations after another; `none` where the two run
out at different places or a comparison breaks. -/
def compareOps : List (Nat × ValType) → List (Nat × ValType) → List ValType → UInt32 →
    Option (List ValType × UInt32)
  | [], [], vSolutions, version => some (vSolutions, version)
  | (opcode1, vch1) :: ops1, (opcode2, vch2) :: ops2, vSolutions, version => do
    let (vSolutions', version') ← compareOp allowContract script1 script2 opcode1 vch1 opcode2 vch2 vSolutions version
    compareOps ops1 ops2 vSolutions' version'
  | _, _, _, _ => none

/-- How a scan that reached the end of both scripts ends. -/
def finishMatch (isMultisig : Bool) (vSolutions : List ValType) : TemplateMatch :=
  if isMultisig then multisigCheck vSolutions else .matched vSolutions

/-- The scan of a template without `OP_PUBKEYS` compares the operations of the script and of the
template in pairs: it matches when both parse to as many operations and every comparison goes
on. The induction is on the operations of the template, one per pass of the loop. -/
theorem matchTemplate_eq (isMultisig : Bool) :
    ∀ (ops2 : List (Nat × ValType)) (pc1 pc2 : List UInt8) (vSolutions : List ValType) (version : UInt32),
      (∀ op ∈ ops2, op.1 ≠ opPubkeys) → scriptOps pc2 = some ops2 →
      matchTemplate allowContract script1 script2 isMultisig pc1 pc2 vSolutions version =
        match scriptOps pc1 with
        | none => .mismatch
        | some ops1 =>
          match compareOps allowContract script1 script2 ops1 ops2 vSolutions version with
          | none => .mismatch
          | some (vSolutions', _) => finishMatch isMultisig vSolutions'
  | [], pc1, pc2, vSolutions, version, _, hops2 => by
    rw [scriptOps_eq_nil hops2, matchTemplate]
    cases hop1 : getOp pc1 with
    | none =>
      by_cases hnil : pc1 = []
      · subst hnil
        simp [scriptOps, compareOps, finishMatch]
      · simp [hnil, scriptOps_of_getOp_none hnil hop1]
    | some op =>
      obtain ⟨opcode1, vch1, rest1⟩ := op
      have hne : pc1 ≠ [] := by rintro rfl; simp [getOp] at hop1
      rw [scriptOps_of_getOp hop1]
      cases scriptOps rest1 <;> simp [hne, getOp, compareOps]
  | (opcode2, vch2) :: ops2, pc1, pc2, vSolutions, version, hpk, hops2 => by
    -- the template's next operation
    have hne2 : pc2 ≠ [] := by rintro rfl; simp [scriptOps] at hops2
    obtain ⟨rest2, hop2, hrest2⟩ : ∃ rest2, getOp pc2 = some (opcode2, vch2, rest2) ∧ scriptOps rest2 = some ops2 := by
      cases hg : getOp pc2 with
      | none => rw [scriptOps_of_getOp_none hne2 hg] at hops2; cases hops2
      | some op =>
        obtain ⟨o, v, r⟩ := op
        rw [scriptOps_of_getOp hg] at hops2
        obtain ⟨l, hl, heq⟩ := Option.map_eq_some_iff.mp hops2
        simp only [List.cons.injEq, Prod.mk.injEq] at heq
        obtain ⟨⟨rfl, rfl⟩, rfl⟩ := heq
        exact ⟨r, rfl, hl⟩
    have hnotpk : opcode2 ≠ opPubkeys := hpk _ List.mem_cons_self
    have ih := matchTemplate_eq isMultisig ops2
    rw [matchTemplate, if_neg (fun h => hne2 h.2)]
    cases hop1 : getOp pc1 with
    | none =>
      by_cases hnil : pc1 = []
      · subst hnil
        simp [scriptOps, compareOps]
      · simp [scriptOps_of_getOp_none hnil hop1]
    | some op1 =>
      obtain ⟨opcode1, vch1, rest1⟩ := op1
      rw [scriptOps_of_getOp hop1]
      dsimp only
      split
      · rename_i hnone
        rw [hop2] at hnone
        cases hnone
      · rename_i o2 v2 r2 hsome
        rw [hop2] at hsome
        simp only [Option.some.injEq, Prod.mk.injEq] at hsome
        obtain ⟨rfl, rfl, rfl⟩ := hsome
        rw [if_neg hnotpk]
        cases hcmp : compareOp allowContract script1 script2 opcode1 vch1 opcode2 vch2 vSolutions version with
        | none => cases scriptOps rest1 <;> simp [compareOps, hcmp]
        | some next =>
          obtain ⟨vSolutions', version'⟩ := next
          dsimp only
          rw [ih rest1 _ vSolutions' version' (fun op hop => hpk op (List.mem_cons_of_mem _ hop)) hrest2]
          cases scriptOps rest1 <;> simp [compareOps, hcmp]

/-- Operations of different counts never match. -/
theorem compareOps_length : ∀ {ops1 ops2 : List (Nat × ValType)} {vSolutions : List ValType} {version : UInt32}
    {result : List ValType × UInt32},
    compareOps allowContract script1 script2 ops1 ops2 vSolutions version = some result → ops1.length = ops2.length
  | [], [], _, _, _, _ => rfl
  | (_, _) :: _, (_, _) :: _, vSolutions, version, _, h => by
    simp only [compareOps, Option.bind_eq_bind, Option.bind_eq_some_iff] at h
    obtain ⟨_, _, h⟩ := h
    simp only [List.length_cons, compareOps_length h]
  | [], _ :: _, _, _, _, h => by simp [compareOps] at h
  | _ :: _, [], _, _, _, h => by simp [compareOps] at h

/-- A first comparison that breaks ends the scan of the template, whatever follows. -/
theorem matchTemplate_of_compareOp_none {isMultisig : Bool} {pc1 pc2 rest1 rest2 : List UInt8}
    {opcode1 opcode2 : Nat} {vch1 vch2 : ValType} {vSolutions : List ValType} {version : UInt32}
    (hop1 : getOp pc1 = some (opcode1, vch1, rest1)) (hop2 : getOp pc2 = some (opcode2, vch2, rest2))
    (hpk : opcode2 ≠ opPubkeys)
    (hcmp : compareOp allowContract script1 script2 opcode1 vch1 opcode2 vch2 vSolutions version = none) :
    matchTemplate allowContract script1 script2 isMultisig pc1 pc2 vSolutions version = .mismatch := by
  have hne : pc2 ≠ [] := by rintro rfl; simp [getOp] at hop2
  rw [matchTemplate, if_neg (fun h => hne h.2), hop1]
  dsimp only
  split
  · rfl
  · rename_i o2 v2 r2 hsome
    rw [hop2] at hsome
    simp only [Option.some.injEq, Prod.mk.injEq] at hsome
    obtain ⟨rfl, rfl, rfl⟩ := hsome
    rw [if_neg hpk, hcmp]

end Scan

/-! ## The order of `Solver` -/

section SolverOrder

theorem scanTemplates_cons_mismatch {allowContract : Bool} {script1 script2 : List UInt8} {typ : TxnOutType}
    {rest : List (TxnOutType × List UInt8)}
    (h : matchTemplate allowContract script1 script2 (typ = .multisig) script1 script2 [] 0 = .mismatch) :
    scanTemplates allowContract script1 ((typ, script2) :: rest) = scanTemplates allowContract script1 rest := by
  simp only [scanTemplates, h]

/-- The scan of a template other than the multisig one, whose opcodes are none of them pushes or
`OP_PUBKEYS`: it matches with the solutions of the comparisons of the two scripts' operations. -/
theorem scanTemplates_cons_opcodes {allowContract : Bool} {script1 : List UInt8} {ops1 : List (Nat × ValType)}
    {typ : TxnOutType} (hmultisig : typ ≠ .multisig) (ops : List Nat)
    (hops : ∀ o ∈ ops, opPushdata4 < o ∧ o < 256 ∧ o ≠ opPubkeys) (hs1 : scriptOps script1 = some ops1)
    (rest : List (TxnOutType × List UInt8)) :
    scanTemplates allowContract script1 ((typ, ops.map Nat.toUInt8) :: rest) =
      match compareOps allowContract script1 (ops.map Nat.toUInt8) ops1 (ops.map fun o => (o, [])) [] 0 with
      | none => scanTemplates allowContract script1 rest
      | some (vSolutions, _) => some ⟨true, typ, vSolutions⟩ := by
  have hops2 := scriptOps_opcodes ops fun o ho => ⟨(hops o ho).1, (hops o ho).2.1⟩
  have hpk : ∀ op ∈ ops.map (fun o => (o, ([] : ValType))), op.1 ≠ opPubkeys := by
    intro op hop
    obtain ⟨o, ho, rfl⟩ := List.mem_map.mp hop
    exact (hops o ho).2.2
  simp only [scanTemplates]
  rw [matchTemplate_eq _ _ _ _ _ _ _ _ _ hpk hops2, hs1]
  cases hcmp : compareOps allowContract script1 (ops.map Nat.toUInt8) ops1 (ops.map fun o => (o, [])) [] 0 with
  | none => simp [hcmp]
  | some result => simp [hcmp, finishMatch, hmultisig]

/-- One pass of the scan, for a template operation other than `OP_PUBKEYS`. -/
theorem matchTemplate_step {allowContract : Bool} {script1 script2 : List UInt8} {isMultisig : Bool}
    {pc1 pc2 rest1 rest2 : List UInt8} {opcode1 opcode2 : Nat} {vch1 vch2 : ValType} {vSolutions : List ValType}
    {version : UInt32} (hop1 : getOp pc1 = some (opcode1, vch1, rest1)) (hop2 : getOp pc2 = some (opcode2, vch2, rest2))
    (hpk : opcode2 ≠ opPubkeys) :
    matchTemplate allowContract script1 script2 isMultisig pc1 pc2 vSolutions version =
      match compareOp allowContract script1 script2 opcode1 vch1 opcode2 vch2 vSolutions version with
      | none => .mismatch
      | some (vSolutions', version') =>
        matchTemplate allowContract script1 script2 isMultisig rest1 rest2 vSolutions' version' := by
  have hne : pc2 ≠ [] := by rintro rfl; simp [getOp] at hop2
  rw [matchTemplate, if_neg (fun h => hne h.2), hop1]
  dsimp only
  split
  · rename_i hnone; rw [hop2] at hnone; cases hnone
  · rename_i o2 v2 r2 hsome
    rw [hop2] at hsome
    simp only [Option.some.injEq, Prod.mk.injEq] at hsome
    obtain ⟨rfl, rfl, rfl⟩ := hsome
    rw [if_neg hpk]

/-- One pass of the scan at `OP_PUBKEYS`: the keys, then the comparison with the template's next
operation. -/
theorem matchTemplate_step_pubkeys {allowContract : Bool} {script1 script2 : List UInt8} {isMultisig : Bool}
    {pc1 pc2 rest1 rest2 rest2' : List UInt8} {opcode1 opcode2' : Nat} {vch1 vch2 vch2' : ValType}
    {vSolutions : List ValType} {version : UInt32} (hop1 : getOp pc1 = some (opcode1, vch1, rest1))
    (hop2 : getOp pc2 = some (opPubkeys, vch2, rest2)) (hop3 : getOp rest2 = some (opcode2', vch2', rest2')) :
    matchTemplate allowContract script1 script2 isMultisig pc1 pc2 vSolutions version =
      match compareOp allowContract script1 script2 (pubkeysLoop rest1 opcode1 vch1 vSolutions).2.1
          (pubkeysLoop rest1 opcode1 vch1 vSolutions).2.2.1 opcode2' vch2' (pubkeysLoop rest1 opcode1 vch1 vSolutions).2.2.2
          version with
      | none => .mismatch
      | some (vSolutions', version') =>
        matchTemplate allowContract script1 script2 isMultisig (pubkeysLoop rest1 opcode1 vch1 vSolutions).1 rest2'
          vSolutions' version' := by
  have hne : pc2 ≠ [] := by rintro rfl; simp [getOp] at hop2
  rw [matchTemplate, if_neg (fun h => hne h.2), hop1]
  dsimp only
  split
  · rename_i hnone; rw [hop2] at hnone; cases hnone
  · rename_i o2 v2 r2 hsome
    rw [hop2] at hsome
    simp only [Option.some.injEq, Prod.mk.injEq] at hsome
    obtain ⟨rfl, rfl, rfl⟩ := hsome
    rw [if_pos rfl]
    split
    · rename_i hnone; rw [hop3] at hnone; cases hnone
    · rename_i o3 v3 r3 hsome3
      rw [hop3] at hsome3
      simp only [Option.some.injEq, Prod.mk.injEq] at hsome3
      obtain ⟨rfl, rfl, rfl⟩ := hsome3
      rfl

theorem matchTemplate_nil_nil {allowContract : Bool} {script1 script2 : List UInt8} {isMultisig : Bool}
    {vSolutions : List ValType} {version : UInt32} :
    matchTemplate allowContract script1 script2 isMultisig [] [] vSolutions version =
      finishMatch isMultisig vSolutions := by
  rw [matchTemplate, if_pos ⟨rfl, rfl⟩]
  rfl

/-- An empty script matches no template. -/
theorem matchTemplate_nil_left {allowContract : Bool} {script1 script2 pc2 : List UInt8} {isMultisig : Bool}
    {vSolutions : List ValType} {version : UInt32} (hne : pc2 ≠ []) :
    matchTemplate allowContract script1 script2 isMultisig [] pc2 vSolutions version = .mismatch := by
  rw [matchTemplate, if_neg (fun h => hne h.2)]
  rfl

/-- A script that no shortcut takes goes to the templates. -/
theorem solver_of_templates {allowContract : Bool} {typeRet : TxnOutType} {script : List UInt8}
    (hp2sh : isPayToScriptHash script = false) (hwit : isWitnessProgram script = none)
    (hret : (script.getD 0 0).toNat ≠ opReturn) (hroot : (script.getLastD 0).toNat ≠ opRootStateHash) :
    solver allowContract typeRet script = scanTemplates allowContract script templates := by
  rw [solver, if_neg (by rw [hp2sh]; decide), hwit]
  dsimp only
  rw [if_neg (fun h => hret h.2.1), if_neg (fun h => hroot h.2.2)]

end SolverOrder

/-! ## Destinations read back -/

section Destinations

variable {allowContract : Bool} {typeRet : TxnOutType}

theorem length_toList_uint160 (id : Uint160) : id.toList.length = 20 := id.toList_length

/-- The pay-to-public-key-hash script is `TX_PUBKEYHASH`, found by the second template. -/
theorem solver_keyID (id : Uint160) :
    solver allowContract typeRet
        ([opDup.toUInt8, opHash160.toUInt8] ++ pushData id.toList ++ [opEqualverify.toUInt8, opChecksig.toUInt8]) =
      some ⟨true, .pubkeyhash, [id.toList]⟩ := by
  have hlen := length_toList_uint160 id
  have hshort : id.toList.length < opPushdata1 := by rw [hlen]; decide
  have hpush : pushData id.toList = (20 : Nat).toUInt8 :: id.toList := by rw [pushData_of_lt hshort, hlen]
  have htail := scriptOps_opcodes [opEqualverify, opChecksig] (by decide)
  simp only [List.map_cons, List.map_nil] at htail
  have hops : scriptOps ([opDup.toUInt8, opHash160.toUInt8] ++ pushData id.toList ++
      [opEqualverify.toUInt8, opChecksig.toUInt8]) =
      some [(opDup, []), (opHash160, []), (20, id.toList), (opEqualverify, []), (opChecksig, [])] := by
    rw [List.append_assoc, List.cons_append, List.cons_append, List.nil_append,
      scriptOps_of_getOp (getOp_of_gt (by decide) _), scriptOps_of_getOp (getOp_of_gt (by decide) _),
      scriptOps_of_getOp (getOp_pushData_of_lt hshort _), htail, hlen]
    rfl
  rw [solver_of_templates]
  · -- `TX_PUBKEY` wants a key where the script has `OP_DUP`; `TX_PUBKEYHASH` matches
    rw [templates, scanTemplates_cons_opcodes (by decide) _ (by decide) hops,
      scanTemplates_cons_opcodes (by decide) _ (by decide) hops]
    simp (disch := decide) [compareOps, compareOp_pubkey_of_lt, compareOp_literal, compareOp_pubkeyhash hlen]
  · simp [isPayToScriptHash, hpush, opHash160]
  · simp [isWitnessProgram, hpush, hlen, opDup, op0, op1, op16]
  · simp [hpush, opDup, opReturn]
  · simp [hpush, opChecksig, opRootStateHash, List.getLast?_append, List.getLast?_cons]

/-- The pay-to-script-hash script is taken by the fast test. -/
theorem solver_scriptID (id : Uint160) :
    solver allowContract typeRet ([opHash160.toUInt8] ++ pushData id.toList ++ [opEqual.toUInt8]) =
      some ⟨true, .scripthash, [id.toList]⟩ := by
  have hlen := length_toList_uint160 id
  have hpush : pushData id.toList = (20 : Nat).toUInt8 :: id.toList := by
    rw [pushData_of_lt (by rw [hlen]; decide), hlen]
  have hp2sh : isPayToScriptHash ([opHash160.toUInt8] ++ pushData id.toList ++ [opEqual.toUInt8]) = true := by
    simp [isPayToScriptHash, hpush, hlen, List.getD_eq_getElem?_getD, opHash160,
      opEqual]
  rw [solver, if_pos hp2sh, hpush]
  simp [List.take_left' hlen]

/-- A version-0 witness program of `n` bytes, `n` twenty or thirty-two. -/
theorem isWitnessProgram_v0 {program : List UInt8} (hlen : program.length = 20 ∨ program.length = 32) :
    isWitnessProgram ([op0.toUInt8] ++ pushData program) = some (0, program) := by
  have hshort : program.length < opPushdata1 := by rcases hlen with h | h <;> rw [h] <;> decide
  have hbyte : program.length.toUInt8.toNat = program.length := toNat_toUInt8_of_lt (by rcases hlen with h | h <;> omega)
  rw [pushData_of_lt hshort]
  simp [isWitnessProgram, hbyte, decodeOpN, op0]
  rcases hlen with h | h <;> simp [h]

theorem solver_witnessV0KeyHash (id : Uint160) :
    solver allowContract typeRet ([op0.toUInt8] ++ pushData id.toList) = some ⟨true, .witnessV0Keyhash, [id.toList]⟩ := by
  have hlen := length_toList_uint160 id
  have hnot : isPayToScriptHash ([op0.toUInt8] ++ pushData id.toList) = false := by
    simp [isPayToScriptHash, pushData_of_lt (by rw [hlen]; decide : id.toList.length < opPushdata1), hlen]
  rw [solver, hnot, isWitnessProgram_v0 (.inl hlen)]
  simp [hlen]

theorem solver_witnessV0ScriptHash (id : Uint256) :
    solver allowContract typeRet ([op0.toUInt8] ++ pushData id.toList) =
      some ⟨true, .witnessV0Scripthash, [id.toList]⟩ := by
  have hlen : id.toList.length = 32 := id.toList_length
  have hnot : isPayToScriptHash ([op0.toUInt8] ++ pushData id.toList) = false := by
    simp [isPayToScriptHash, pushData_of_lt (by rw [hlen]; decide : id.toList.length < opPushdata1), hlen]
  rw [solver, hnot, isWitnessProgram_v0 (.inr hlen)]
  simp [hlen]

/-- A witness program of version `1` to `16` with `2` to `40` bytes is `TX_WITNESS_UNKNOWN`. -/
theorem solver_witnessUnknown {version : Nat} {program : List UInt8} (hversion : 1 ≤ version ∧ version ≤ 16)
    (hlen : 2 ≤ program.length ∧ program.length ≤ 40) :
    solver allowContract typeRet ([(op1 + version - 1).toUInt8] ++ pushData program) =
      some ⟨true, .witnessUnknown, [[version.toUInt8], program]⟩ := by
  have hshort : program.length < opPushdata1 := by simp only [opPushdata1]; omega
  have hop : (op1 + version - 1).toUInt8.toNat = op1 + version - 1 := toNat_toUInt8_of_lt (by simp only [op1]; omega)
  have hbyte : program.length.toUInt8.toNat = program.length := toNat_toUInt8_of_lt (by omega)
  -- the first byte is `OP_1` ... `OP_16`
  have hne0 : op1 + version - 1 ≠ op0 := by simp only [op1, op0]; omega
  have hrange : ¬(op1 + version - 1 < op1 ∨ op1 + version - 1 > op16) := by simp only [op1, op16]; omega
  have hdecode : decodeOpN (op1 + version - 1) = some version := by
    rw [decodeOpN, if_neg hne0, if_pos (by simp only [op1, op16]; omega)]
    congr 1
    simp only [op1]
    omega
  have hwit : isWitnessProgram ([(op1 + version - 1).toUInt8] ++ pushData program) = some (version, program) := by
    rw [pushData_of_lt hshort]
    unfold isWitnessProgram
    simp only [List.singleton_append, List.length_cons, List.getD_cons_zero, List.getD_cons_succ, hop, hbyte,
      hrange, and_false, if_false, hdecode, List.drop_succ_cons, List.drop_zero, Option.map_some]
    rw [if_neg (by omega), if_pos trivial]
  have hnot : isPayToScriptHash ([(op1 + version - 1).toUInt8] ++ pushData program) = false := by
    rw [pushData_of_lt hshort]
    simp only [isPayToScriptHash, List.singleton_append, List.getD_cons_zero, hop]
    have hne : op1 + version - 1 ≠ opHash160 := by simp only [op1, opHash160]; omega
    simp [hne]
  rw [solver, hnot, hwit]
  simp [show version ≠ 0 by omega]

/-- The empty script, that of `CNoDestination`, is of no kind: every template wants an operation. -/
theorem solver_nil : solver allowContract typeRet [] = some ⟨false, .nonstandard, []⟩ := by
  rw [solver_of_templates rfl rfl (by decide) (by decide), templates]
  repeat rw [scanTemplates_cons_mismatch (matchTemplate_nil_left (by simp))]
  rfl

/-- `ExtractDestination` reads back every destination that `GetScriptForDestination` writes:
key and script hashes, version-0 witness programs, and those of versions `1` to `16` with `2` to
`40` bytes, the ones the address encoder accepts. The empty script of `CNoDestination` has
none. This holds whether contracts are allowed or not, and for any `CPubKey::GetID`. -/
theorem extractDestination_getScriptForDestination (allowContract : Bool) (getID : ValType → Uint160)
    (dest : CTxDestination)
    (hunknown : ∀ w, dest = .witnessUnknown w →
      1 ≤ w.version ∧ w.version ≤ 16 ∧ 2 ≤ w.program.length ∧ w.program.length ≤ 40) :
    ∃ script, getScriptForDestination dest = some script ∧
      extractDestination allowContract getID script = some (if dest = .noDestination then none else some dest) := by
  cases dest with
  | noDestination => exact ⟨[], rfl, by simp [extractDestination, solver_nil]⟩
  | keyID id =>
    refine ⟨_, rfl, ?_⟩
    rw [extractDestination, solver_keyID]
    simp [toUint160]
  | scriptID id =>
    refine ⟨_, rfl, ?_⟩
    rw [extractDestination, solver_scriptID]
    simp [toUint160]
  | witnessV0KeyHash id =>
    refine ⟨_, rfl, ?_⟩
    rw [extractDestination, solver_witnessV0KeyHash]
    simp [toUint160]
  | witnessV0ScriptHash id =>
    refine ⟨_, rfl, ?_⟩
    have hlen : id.toList.length = 32 := id.toList_length
    rw [extractDestination, solver_witnessV0ScriptHash]
    simp [toUint256, hlen]
  | witnessUnknown w =>
    obtain ⟨hv1, hv16, hl2, hl40⟩ := hunknown w rfl
    have hencode : encodeOpN w.version = some (op1 + w.version - 1) := by
      simp only [encodeOpN, op1]
      rw [if_pos (by omega), if_neg (by omega)]
      simp
    refine ⟨_, by rw [getScriptForDestination, hencode]; rfl, ?_⟩
    have hversion : w.version.toUInt8.toNat = w.version := toNat_toUInt8_of_lt (by omega)
    rw [extractDestination, solver_witnessUnknown ⟨hv1, hv16⟩ ⟨hl2, hl40⟩]
    simp [hversion, Nat.not_lt.mpr hl40]

/-- A witness program of version 1 reads back as the destination it was written for. -/
theorem extractDestination_witnessUnknown_one :
    ∃ script, getScriptForDestination (.witnessUnknown ⟨1, [7, 7]⟩) = some script ∧
      extractDestination true (fun _ => List.Vector.replicate 20 0) script =
        some (if CTxDestination.witnessUnknown ⟨1, [7, 7]⟩ = .noDestination then none
          else some (.witnessUnknown ⟨1, [7, 7]⟩)) :=
  extractDestination_getScriptForDestination true _ _ fun w hw => by
    cases hw
    decide

end Destinations

/-! ## Multisig -/

section Multisig

variable {allowContract : Bool} {typeRet : TxnOutType}

/-- The opcode `EncodeOP_N` writes for `0` to `16`: `OP_0`, or `OP_1` ... `OP_16`. -/
def smallIntegerOp (m : Nat) : Nat := if m = 0 then op0 else op1 + m - 1

/-- `EncodeOP_N` of `0` to `16`. -/
theorem encodeOpN_natCast {m : Nat} (hm : m ≤ 16) : encodeOpN (m : Int) = some (smallIntegerOp m) := by
  rw [encodeOpN, if_pos ⟨by omega, by omega⟩, smallIntegerOp]
  by_cases h0 : m = 0 <;> simp [h0]

theorem decodeOpN_smallIntegerOp {m : Nat} (hm : m ≤ 16) : decodeOpN (smallIntegerOp m) = some m := by
  by_cases h0 : m = 0
  · simp [h0, smallIntegerOp, decodeOpN]
  · rw [smallIntegerOp, if_neg h0, decodeOpN, if_neg (by simp only [op0, op1]; omega),
      if_pos (by simp only [op1, op16]; omega)]
    congr 1
    simp only [op1]
    omega

theorem smallIntegerOp_le {m : Nat} (hm : m ≤ 16) : smallIntegerOp m ≤ op16 := by
  rw [smallIntegerOp]
  split_ifs <;> simp only [op0, op1, op16] <;> omega

theorem smallIntegerOp_ne_of_lt {m o : Nat} (hm : m ≤ 16) (ho : op16 < o) : smallIntegerOp m ≠ o := by
  have hle := smallIntegerOp_le hm
  omega

theorem toNat_toUInt8_smallIntegerOp {m : Nat} (hm : m ≤ 16) : (smallIntegerOp m).toUInt8.toNat = smallIntegerOp m :=
  toNat_toUInt8_of_lt (by have := smallIntegerOp_le hm; simp only [op16] at this; omega)

/-- `OP_0` is the push of nothing; `OP_1` ... `OP_16` are opcodes with no data. -/
theorem getOp_smallIntegerOp {m : Nat} (hm : m ≤ 16) (rest : List UInt8) :
    getOp ((smallIntegerOp m).toUInt8 :: rest) = some (smallIntegerOp m, [], rest) := by
  by_cases h0 : m = 0
  · subst h0
    simp [smallIntegerOp, getOp, readPushSize, op0, opPushdata1, opPushdata4]
  · have hbyte := toNat_toUInt8_smallIntegerOp hm
    rw [smallIntegerOp, if_neg h0] at hbyte ⊢
    rw [getOp_of_gt (by rw [hbyte]; simp only [op1, opPushdata4]; omega), hbyte]

/-- An opcode above the pushes is read with no data. -/
theorem getOp_opcode {o : Nat} (hpush : opPushdata4 < o) (hbyte : o < 256) (rest : List UInt8) :
    getOp (o.toUInt8 :: rest) = some (o, [], rest) := by
  rw [getOp_of_gt (by rw [toNat_toUInt8_of_lt hbyte]; exact hpush), toNat_toUInt8_of_lt hbyte]

/-- A script whose second byte is not its length less two is no witness program. -/
theorem isWitnessProgram_of_ne {script : List UInt8} (h : (script.getD 1 0).toNat + 2 ≠ script.length) :
    isWitnessProgram script = none := by
  unfold isWitnessProgram
  split_ifs <;> rfl

/-- The loop of `OP_PUBKEYS` over the pushes of keys takes them all, and stops at the first
operation that is not a key. The induction is on the keys after the one read. -/
theorem pubkeysLoop_keys {tail rest : List UInt8} {opcode : Nat} {vch : ValType}
    (htail : getOp tail = some (opcode, vch, rest)) (hvch : vch.length < 33) :
    ∀ (ks : List ValType) (k : ValType) (opcode1 : Nat) (vSolutions : List ValType),
      (∀ key ∈ k :: ks, 33 ≤ key.length ∧ key.length ≤ 65) →
      pubkeysLoop ((ks.map pushData).flatten ++ tail) opcode1 k vSolutions = (rest, opcode, vch, vSolutions ++ k :: ks)
  | [], k, opcode1, vSolutions, hkeys => by
    have hk := hkeys k List.mem_cons_self
    rw [List.map_nil, List.flatten_nil, List.nil_append, pubkeysLoop, if_pos hk]
    split
    · rename_i hnone; rw [htail] at hnone; cases hnone
    · rename_i o v r hsome
      rw [htail] at hsome
      simp only [Option.some.injEq, Prod.mk.injEq] at hsome
      obtain ⟨rfl, rfl, rfl⟩ := hsome
      rw [pubkeysLoop, if_neg (by omega)]
  | k' :: ks, k, opcode1, vSolutions, hkeys => by
    have hk := hkeys k List.mem_cons_self
    have hk' := hkeys k' (List.mem_cons_of_mem _ List.mem_cons_self)
    obtain ⟨o', hpush, hop⟩ := getOp_pushData (b := k') (by omega) ((ks.map pushData).flatten ++ tail)
    rw [List.map_cons, List.flatten_cons, List.append_assoc, pubkeysLoop, if_pos hk]
    split
    · rename_i hnone; rw [hop] at hnone; cases hnone
    · rename_i o v r hsome
      rw [hop] at hsome
      simp only [Option.some.injEq, Prod.mk.injEq] at hsome
      obtain ⟨rfl, rfl, rfl⟩ := hsome
      rw [pubkeysLoop_keys htail hvch ks k' o' (vSolutions ++ [k]) fun key hkey => hkeys key (List.mem_cons_of_mem _ hkey)]
      simp

section Script

variable {m : Nat} {keys : List ValType} (hm : m ≤ 16) (hcount : keys.length ≤ 16)
  (hkeys : ∀ k ∈ keys, 33 ≤ k.length ∧ k.length ≤ 65)

/-- The bytes `GetScriptForMultisig` writes for `m` of the keys: `m`, the pushes of the keys, `n`
and `OP_CHECKMULTISIG`. -/
def multisigScript (m : Nat) (keys : List ValType) : List UInt8 :=
  [(smallIntegerOp m).toUInt8] ++ (keys.map pushData).flatten ++
    [(smallIntegerOp keys.length).toUInt8, opCheckmultisig.toUInt8]

include hm in
/-- The script starts with `m`. -/
theorem getOp_multisigScript :
    getOp (multisigScript m keys) = some (smallIntegerOp m, [],
      (keys.map pushData).flatten ++ [(smallIntegerOp keys.length).toUInt8, opCheckmultisig.toUInt8]) :=
  getOp_smallIntegerOp hm _

include hm hcount in
theorem getScriptForMultisig_natCast : getScriptForMultisig m keys = some (multisigScript m keys) := by
  simp only [getScriptForMultisig, encodeOpN_natCast hm, encodeOpN_natCast hcount, Option.bind_eq_bind,
    Option.bind_some]
  rfl

include hcount hkeys in
/-- After `m`, the loop of `OP_PUBKEYS` takes every key and stops at `n`. -/
theorem pubkeysLoop_multisigKeys :
    ∃ opcode1 vch1 rest1,
      getOp ((keys.map pushData).flatten ++ [(smallIntegerOp keys.length).toUInt8, opCheckmultisig.toUInt8]) =
        some (opcode1, vch1, rest1) ∧
      pubkeysLoop rest1 opcode1 vch1 [[m.toUInt8]] =
        ([opCheckmultisig.toUInt8], smallIntegerOp keys.length, [], [[m.toUInt8]] ++ keys) := by
  have hopn_get := getOp_smallIntegerOp hcount [opCheckmultisig.toUInt8]
  cases keys with
  | nil =>
    refine ⟨smallIntegerOp 0, [], [opCheckmultisig.toUInt8], hopn_get, ?_⟩
    rw [pubkeysLoop, if_neg (by simp)]
    simp
  | cons k ks =>
    have hk := hkeys k List.mem_cons_self
    obtain ⟨ok, -, hok⟩ := getOp_pushData (b := k) (by omega)
      ((ks.map pushData).flatten ++ [(smallIntegerOp (k :: ks).length).toUInt8, opCheckmultisig.toUInt8])
    refine ⟨ok, k, _, by rw [List.map_cons, List.flatten_cons, List.append_assoc, hok], ?_⟩
    rw [pubkeysLoop_keys hopn_get (by simp) ks k ok [[m.toUInt8]] hkeys]

include hm hcount hkeys in
/-- The multisig template over the script: its `OP_SMALLINTEGER`s take `m` and `n`, its
`OP_PUBKEYS` every key, and the additional checks decide. -/
theorem matchTemplate_multisigScript :
    matchTemplate allowContract (multisigScript m keys)
        ([opSmallinteger, opPubkeys, opSmallinteger, opCheckmultisig].map Nat.toUInt8) true (multisigScript m keys)
        ([opSmallinteger, opPubkeys, opSmallinteger, opCheckmultisig].map Nat.toUInt8) [] 0 =
      multisigCheck ([[m.toUInt8]] ++ keys ++ [[keys.length.toUInt8]]) := by
  obtain ⟨opcode1, vch1, rest1, hread, hloop⟩ := pubkeysLoop_multisigKeys (m := m) hcount hkeys
  -- the four operations of the template, one step each
  simp only [List.map_cons, List.map_nil]
  rw [matchTemplate_step (getOp_multisigScript hm) (getOp_opcode (by decide) (by decide) _) (by decide),
    compareOp_smallinteger (decodeOpN_smallIntegerOp hm)]
  dsimp only
  rw [matchTemplate_step_pubkeys hread (getOp_opcode (by decide) (by decide) _) (getOp_opcode (by decide) (by decide) _),
    List.nil_append, hloop]
  dsimp only
  rw [compareOp_smallinteger (decodeOpN_smallIntegerOp hcount)]
  dsimp only
  rw [matchTemplate_step (getOp_opcode (by decide) (by decide) []) (getOp_opcode (by decide) (by decide) _) (by decide),
    compareOp_literal (by decide), if_pos ⟨rfl, rfl⟩]
  dsimp only
  rw [matchTemplate_nil_nil]
  rfl

include hm hcount in
/-- `CHECKMULTISIG` counts the keys right, so only `1 ≤ m ≤ n` is left of its test. -/
theorem multisigCheck_multisigSolutions :
    multisigCheck ([[m.toUInt8]] ++ keys ++ [[keys.length.toUInt8]]) =
      if 1 ≤ m ∧ m ≤ keys.length then .matched ([[m.toUInt8]] ++ keys ++ [[keys.length.toUInt8]])
      else .refused ([[m.toUInt8]] ++ keys ++ [[keys.length.toUInt8]]) := by
  have hmtoNat : m.toUInt8.toNat = m := toNat_toUInt8_of_lt (by omega)
  have hntoNat : keys.length.toUInt8.toNat = keys.length := toNat_toUInt8_of_lt (by omega)
  have hlen : (([[m.toUInt8]] ++ keys ++ [[keys.length.toUInt8]]).length + (2 ^ 64 - 2)) % 2 ^ 64 = keys.length := by
    simp only [List.length_append, List.length_singleton]
    omega
  simp only [multisigCheck, List.head?_append, List.head?_singleton, Option.some_or, List.getLast?_append,
    List.getLast?_singleton, Option.some_or, hlen, hntoNat, UInt8.lt_iff_toNat_lt, hmtoNat, gt_iff_lt,
    UInt8.toNat_one, ne_eq, not_true_eq_false, or_false]
  by_cases hok : 1 ≤ m ∧ m ≤ keys.length
  · rw [if_pos hok, if_neg (by omega)]
  · rw [if_neg hok, if_pos (by omega)]

include hm hcount hkeys in
/-- The scan of the templates: `TX_PUBKEY` wants a key and `TX_PUBKEYHASH` wants `OP_DUP` where the
script has `m`, and the multisig template is next. -/
theorem scanTemplates_multisigScript :
    scanTemplates allowContract (multisigScript m keys) templates =
      some ⟨decide (1 ≤ m ∧ m ≤ keys.length), .multisig, [[m.toUInt8]] ++ keys ++ [[keys.length.toUInt8]]⟩ := by
  have hpubkey : ∀ s, compareOp allowContract s [opPubkey.toUInt8, opChecksig.toUInt8] (smallIntegerOp m) []
      opPubkey [] [] 0 = none := fun _ => compareOp_pubkey_of_lt (by simp)
  have hdup : ∀ s, compareOp allowContract s
      [opDup.toUInt8, opHash160.toUInt8, opPubkeyhash.toUInt8, opEqualverify.toUInt8, opChecksig.toUInt8]
      (smallIntegerOp m) [] opDup [] [] 0 = none := by
    intro s
    rw [compareOp_literal (by decide), if_neg fun h => smallIntegerOp_ne_of_lt hm (by decide) h.1]
  have hmultisig := @matchTemplate_multisigScript allowContract m keys hm hcount hkeys
  rw [templates]
  simp only [List.map_cons, List.map_nil] at hmultisig ⊢
  rw [scanTemplates_cons_mismatch (matchTemplate_of_compareOp_none _ _ _ (getOp_multisigScript hm)
      (getOp_opcode (by decide) (by decide) [opChecksig.toUInt8]) (by decide) (hpubkey _)),
    scanTemplates_cons_mismatch (matchTemplate_of_compareOp_none _ _ _ (getOp_multisigScript hm)
      (getOp_opcode (by decide) (by decide) _) (by decide) (hdup _)), scanTemplates]
  simp only [decide_true, hmultisig, multisigCheck_multisigSolutions hm hcount]
  by_cases hok : 1 ≤ m ∧ m ≤ keys.length <;> simp [hok]

include hm hcount hkeys in
/-- No shortcut of `Solver` takes the script: it starts with `m`, and its second byte is no
witness program's length. -/
theorem solver_multisigScript :
    solver allowContract typeRet (multisigScript m keys) = scanTemplates allowContract (multisigScript m keys) templates := by
  have hbytem := toNat_toUInt8_smallIntegerOp hm
  apply solver_of_templates
  · simp [multisigScript, isPayToScriptHash, hbytem, smallIntegerOp_ne_of_lt hm (by decide : op16 < opHash160)]
  · apply isWitnessProgram_of_ne
    cases keys with
    | nil => simp [multisigScript, smallIntegerOp, op0]
    | cons k ks =>
      have hk := hkeys k List.mem_cons_self
      simp [multisigScript, pushData_of_lt (b := k) (by simp only [opPushdata1]; omega),
        toNat_toUInt8_of_lt (n := k.length) (by omega)]
  · simp [multisigScript, hbytem, smallIntegerOp_ne_of_lt hm (by decide : op16 < opReturn)]
  · simp [multisigScript, opCheckmultisig, opRootStateHash, List.getLast?_append, List.getLast?_cons]

end Script

/-- `Solver` on the script of `GetScriptForMultisig`: the multisig template, with `m`, the keys and
`n` as its solutions, accepted exactly when `1 ≤ m ≤ n`. Its `return false` leaves `TX_MULTISIG`
as the type. -/
theorem solver_getScriptForMultisig (allowContract : Bool) (typeRet : TxnOutType) {nRequired : Int}
    {keys : List ValType} (hrequired : 0 ≤ nRequired ∧ nRequired ≤ 16) (hcount : keys.length ≤ 16)
    (hkeys : ∀ k ∈ keys, 33 ≤ k.length ∧ k.length ≤ 65) :
    ∃ script, getScriptForMultisig nRequired keys = some script ∧
      solver allowContract typeRet script =
        some ⟨decide (1 ≤ nRequired ∧ nRequired ≤ keys.length), .multisig,
          [[nRequired.toNat.toUInt8]] ++ keys ++ [[keys.length.toUInt8]]⟩ := by
  obtain ⟨m, rfl⟩ : ∃ m : Nat, nRequired = m := ⟨nRequired.toNat, by omega⟩
  have hm : m ≤ 16 := by omega
  refine ⟨multisigScript m keys, getScriptForMultisig_natCast hm hcount, ?_⟩
  rw [solver_multisigScript hm hcount hkeys, scanTemplates_multisigScript hm hcount hkeys]
  simp

/-- One of one key: accepted. -/
theorem solver_getScriptForMultisig_oneOfOne :
    ∃ script, getScriptForMultisig 1 [List.replicate 33 2] = some script ∧
      solver true .nonstandard script =
        some ⟨decide (1 ≤ (1 : Int) ∧ (1 : Int) ≤ ([List.replicate 33 2] : List ValType).length), .multisig,
          [[(1 : Int).toNat.toUInt8]] ++ [List.replicate 33 2] ++ [[([List.replicate 33 2] : List ValType).length.toUInt8]]⟩ :=
  solver_getScriptForMultisig true .nonstandard (by decide) (by decide) (by decide)

end Multisig

end UnitedBitcoin.Script
