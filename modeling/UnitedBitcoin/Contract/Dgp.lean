import Mathlib
import UnitedBitcoin.Json.Value

/-!
# The DGP native contract

`dgp_native_contract` (`contract_engine/native_contract.cpp`) holds the dynamic global
parameters of the chain and the admins who may change them. Its storage has four names:
`admins`, `dgp_params`, `current_change_admin_proposal` and
`current_change_params_proposal`; here they are the fields of `DgpStorage`, with a
proposal slot `none` where the storage holds JSON null.

An admin opens a proposal to add or remove an admin, or to set one parameter. Admins vote
on it from `proposalStartBlockNumber` on, each once (`vote_for_proposal`). The proposal
succeeds once `needAgreeCount` votes agree and fails once too many disagree; either way
its slot is cleared.

`invoke` returns a fresh `ContractExecResult` with the API's result and the storage
changes only. The exit code and message that an API sets with `set_error` are dropped,
and on those paths the API has made no storage change. `OP_CALL`
(`ContractExec::performByteCode`) runs every API that `apis()` lists, and that list
has `init`.

The JSON reader and printer, `boost::lexical_cast` and `DecodeDestination` are
parameters.
-/

namespace UnitedBitcoin.Contract.Dgp

open UnitedBitcoin.Json

/-- The four entries of `dgp_params`. -/
inductive DgpParam where
  | minGasPrice
  | blockGasLimit
  | minGasCount
  | maxContractBytecodeStoreFeeGasCount
  deriving DecidableEq, Repr

/-- The key of a parameter in `dgp_params`. -/
def DgpParam.name : DgpParam → String
  | .minGasPrice => "min_gas_price"
  | .blockGasLimit => "block_gas_limit"
  | .minGasCount => "min_gas_count"
  | .maxContractBytecodeStoreFeeGasCount => "max_contract_bytecode_store_fee_gas_count"

/-- The `dgp_params` object. -/
structure DgpParams where
  minGasPrice : Int
  blockGasLimit : Int
  minGasCount : Int
  maxContractBytecodeStoreFeeGasCount : Int
  deriving DecidableEq, Repr

namespace DgpParams

/-- `dgp_params[param_name]`. -/
def get (params : DgpParams) : DgpParam → Int
  | .minGasPrice => params.minGasPrice
  | .blockGasLimit => params.blockGasLimit
  | .minGasCount => params.minGasCount
  | .maxContractBytecodeStoreFeeGasCount => params.maxContractBytecodeStoreFeeGasCount

/-- `dgp_params[param_name] = value`. -/
def set (params : DgpParams) : DgpParam → Int → DgpParams
  | .minGasPrice, value => { params with minGasPrice := value }
  | .blockGasLimit, value => { params with blockGasLimit := value }
  | .minGasCount, value => { params with minGasCount := value }
  | .maxContractBytecodeStoreFeeGasCount, value => { params with maxContractBytecodeStoreFeeGasCount := value }

end DgpParams

/-- The parameters `init` stores: `DEFAULT_MIN_GAS_PRICE`, `DEFAULT_BLOCK_GAS_LIMIT`,
`DEFAULT_MIN_GAS_COUNT` and `MAX_CONTRACT_BYTECODE_STORE_FEE_GAS` of `policy.h`. -/
def defaultDgpParams : DgpParams := ⟨10, 40000000, 10, 10000⟩

/-- A pending proposal. `change` is what it proposes; `votes` is its `votes` object, each
voter with its vote in the order they voted. -/
structure Proposal (κ : Type) where
  creator : String
  change : κ
  needAgreeCount : Nat
  votes : List (String × Bool)
  proposalStartBlockNumber : Int
  deriving DecidableEq, Repr

/-- What a change-admin proposal proposes: to add `address` to the admins, or to remove it. -/
structure AdminChange where
  address : String
  add : Bool
  deriving DecidableEq, Repr

/-- What a change-params proposal proposes: a new value of one parameter. -/
structure ParamChange where
  property : DgpParam
  value : Int
  deriving DecidableEq, Repr

/-- The storage of a DGP contract. -/
structure DgpStorage where
  admins : List String
  dgpParams : DgpParams
  currentChangeAdminProposal : Option (Proposal AdminChange)
  currentChangeParamsProposal : Option (Proposal ParamChange)
  deriving DecidableEq, Repr

/-- `native_contract_sender`: the caller's address and the height of the chain tip. -/
structure NativeContractSender where
  callerAddress : String
  blockNumber : Int
  deriving DecidableEq, Repr

/-- What the contract takes from outside: `json_loads` (`none` when it throws) and
`json_dumps`, `boost::lexical_cast` to `int64_t` and to `uint32_t` (`none` when it throws),
and `IsValidDestination (DecodeDestination addr)`. -/
structure DgpEnv where
  jsonLoads : String → Option JsonValue
  jsonDumps : JsonValue → String
  castInt64 : String → Option Int
  castUInt32 : String → Option Nat
  isValidDestination : String → Bool

/-- `is_address_in_admins`. -/
def isAddressInAdmins (admins : List String) (addr : String) : Bool := admins.contains addr

/-- `init_api`: the caller is the only admin, the parameters take their defaults and no
proposal is pending. It reads nothing. -/
def initApi (sender : NativeContractSender) : DgpStorage where
  admins := [sender.callerAddress]
  dgpParams := defaultDgpParams
  currentChangeAdminProposal := none
  currentChangeParamsProposal := none

/-! ## Proposals and votes -/

/-- `votes.find(addr) != votes.end()`. -/
def hasVoted (votes : List (String × Bool)) (addr : String) : Bool := votes.any (·.1 == addr)

/-- `votes[addr] = agree; proposal["votes"] = votes`, for an address that has not voted:
the vote is appended. -/
def Proposal.addVote {κ : Type} (proposal : Proposal κ) (addr : String) (agree : Bool) : Proposal κ :=
  { proposal with votes := proposal.votes ++ [(addr, agree)] }

/-- Which of its three handlers `vote_for_proposal` calls, with the proposal it passes. -/
inductive VoteOutcome (κ : Type) where
  | success (proposal : Proposal κ)
  | fail (proposal : Proposal κ)
  | update (proposal : Proposal κ)
  deriving DecidableEq, Repr

/-- `vote_for_proposal`. The caller's vote is recorded, and the proposal succeeds once
`needAgreeCount` votes agree. It fails once more votes disagree than
`admins_count - needAgreeCount`, a `uint64_t` difference. -/
def voteForProposal {κ : Type} (sender : NativeContractSender) (proposal : Proposal κ) (agree : Bool)
    (adminsCount : Nat) : Except String (VoteOutcome κ) :=
  if hasVoted proposal.votes sender.callerAddress then .error "you voted this proposal before"
  else if sender.blockNumber < proposal.proposalStartBlockNumber then
    .error "This proposal has not been effective and cannot vote"
  else
    let voted := proposal.addVote sender.callerAddress agree
    let agreeCount := voted.votes.countP (·.2)
    let disagreeCount := voted.votes.countP (!·.2)
    if voted.needAgreeCount ≤ agreeCount then .ok (.success voted)
    else if (adminsCount + 2 ^ 64 - voted.needAgreeCount) % 2 ^ 64 < disagreeCount then .ok (.fail voted)
    else .ok (.update voted)

/-- `vote_admin_api` and `vote_change_param_api`: an admin votes `true` or `false` on the
proposal in one slot. `proposalOf` reads the slot and `setProposal` writes it; the
success handler `onSuccess` applies the proposed change. The fail handler clears the slot
and the update handler stores the proposal with the new vote. -/
def voteApi {κ : Type} (proposalOf : DgpStorage → Option (Proposal κ))
    (setProposal : DgpStorage → Option (Proposal κ) → DgpStorage) (notFound : String)
    (onSuccess : DgpStorage → κ → DgpStorage) (sender : NativeContractSender) (apiArg : String)
    (storage : DgpStorage) : Except String DgpStorage :=
  if !isAddressInAdmins storage.admins sender.callerAddress then .error "only admin can call this api"
  else match proposalOf storage with
    | none => .error notFound
    | some proposal =>
      if apiArg ≠ "true" ∧ apiArg ≠ "false" then
        .error "argument format error, need format is: true or false"
      else
        match voteForProposal sender proposal (apiArg == "true") storage.admins.length with
        | .error message => .error message
        | .ok (.success _) => .ok (onSuccess storage proposal.change)
        | .ok (.fail _) => .ok (setProposal storage none)
        | .ok (.update voted) => .ok (setProposal storage (some voted))

/-- The success handler of `vote_admin_api`. An added address is appended to the admins.
A removed one is filtered out, and both proposals are cleared, since the admins are fewer. -/
def adminChangeSuccess (storage : DgpStorage) (change : AdminChange) : DgpStorage :=
  if change.add then
    { storage with admins := storage.admins ++ [change.address], currentChangeAdminProposal := none }
  else
    { storage with
      admins := storage.admins.filter (· != change.address)
      currentChangeAdminProposal := none
      currentChangeParamsProposal := none }

/-- The success handler of `vote_change_param_api`: `set_dgp_param`, and the proposal is
cleared. -/
def paramChangeSuccess (storage : DgpStorage) (change : ParamChange) : DgpStorage :=
  { storage with
    dgpParams := storage.dgpParams.set change.property change.value
    currentChangeParamsProposal := none }

/-- `vote_admin_api`. -/
def voteAdminApi : NativeContractSender → String → DgpStorage → Except String DgpStorage :=
  voteApi (·.currentChangeAdminProposal) (fun storage slot => { storage with currentChangeAdminProposal := slot })
    "change-admin-proposal not found to vote" adminChangeSuccess

/-- `vote_change_param_api`. -/
def voteChangeParamApi : NativeContractSender → String → DgpStorage → Except String DgpStorage :=
  voteApi (·.currentChangeParamsProposal) (fun storage slot => { storage with currentChangeParamsProposal := slot })
    "can't find a change-params-proposal" paramChangeSuccess

/-! ## Opening and cancelling proposals -/

/-- The argument of `create_change_admin_proposal_api` as the API reads it: `json_loads`
gives an object whose `address` is a string, `add` a boolean and `needAgreeCount` an
unsigned 64-bit integer. -/
def readChangeAdminArg : Option JsonValue → Option (String × Bool × Nat)
  | some (.obj argObj) =>
    match JsonObject.find argObj "address", JsonObject.find argObj "add", JsonObject.find argObj "needAgreeCount" with
    | some (.str addr), some (.bool add), some (.int needAgreeCount) =>
      if 0 ≤ needAgreeCount ∧ needAgreeCount < 2 ^ 64 then some (addr, add, needAgreeCount.toNat) else none
    | _, _, _ => none
  | _ => none

/-- `create_change_admin_proposal_api`. -/
def createChangeAdminProposalApi (env : DgpEnv) (sender : NativeContractSender) (apiArg : String)
    (storage : DgpStorage) : Except String DgpStorage :=
  let admins := storage.admins
  if !isAddressInAdmins admins sender.callerAddress then .error "only admin can call this api"
  else if storage.currentChangeAdminProposal.isSome then
    .error "can't create new change-admin-proposal when a proposal already exists"
  else match readChangeAdminArg (env.jsonLoads apiArg) with
    | none => .error "argument format error, need format: \x7baddress: string, add: bool, needAgreeCount: int\x7d"
    | some (addr, add, needAgreeCount) =>
      if add && isAddressInAdmins admins addr then .error "this address is already admin, can't add again"
      else if !add && !isAddressInAdmins admins addr then .error "this address is not admin, can't remove it"
      else if !add && admins.length < 2 then .error "Can't remove admin if there is only one admin"
      else if !env.isValidDestination addr then .error "argument address format error"
      else if needAgreeCount < 1 ∨ admins.length < needAgreeCount then
        .error "argument needAgreeCount must between 1 and admins count"
      else if 2 ≤ admins.length ∧ needAgreeCount < 2 then
        .error "argument needAgreeCount must between 2 and admins count when admins count >= 2"
      else
        .ok { storage with
          currentChangeAdminProposal := some
            { creator := sender.callerAddress
              change := ⟨addr, add⟩
              needAgreeCount
              votes := []
              proposalStartBlockNumber := sender.blockNumber + 10 } }

/-- `cancel_change_admin_proposal_api`: only the proposal's creator may cancel it. -/
def cancelChangeAdminProposalApi (sender : NativeContractSender) (storage : DgpStorage) :
    Except String DgpStorage :=
  match storage.currentChangeAdminProposal with
  | none => .error "there is no change-admin-proposal now"
  | some proposal =>
    if sender.callerAddress ≠ proposal.creator then .error "only proposal creator can cancel it"
    else .ok { storage with currentChangeAdminProposal := none }

/-- `api_arg.find_first_of(',')` and the two `substr`s around it. A leading comma is
refused (`pos <= 0`). Without a comma the position is `npos`, and `substr(npos + 1)` wraps
to `substr(0)`: both parts are the whole argument. -/
def splitIntParamArg (apiArg : String) : Option (String × String) :=
  let chars := apiArg.toList
  match chars.findIdx? (· == ',') with
  | none => some (apiArg, apiArg)
  | some 0 => none
  | some pos => some (String.ofList (chars.take pos), String.ofList (chars.drop (pos + 1)))

/-- The argument `integer_value,needAgreeCount` of a change-params proposal, with the
bounds on `needAgreeCount` that are checked in the same `try` block. -/
def readIntParamArg (env : DgpEnv) (apiArg : String) (adminsCount : Nat) : Option (Int × Nat) :=
  match splitIntParamArg apiArg with
  | none => none
  | some (valueStr, needAgreeCountStr) =>
    match env.castInt64 valueStr, env.castUInt32 needAgreeCountStr with
    | some value, some needAgreeCount =>
      if needAgreeCount < 1 ∨ adminsCount < needAgreeCount then none
      else if 2 ≤ adminsCount ∧ needAgreeCount < 2 then none
      else some (value, needAgreeCount)
    | _, _ => none

/-- `create_int_param_proposal`. -/
def createIntParamProposal (env : DgpEnv) (sender : NativeContractSender) (property : DgpParam)
    (apiArg : String) (adminsCount : Nat) (storage : DgpStorage) : Except String DgpStorage :=
  if storage.currentChangeParamsProposal.isSome then
    .error "can't create new change-params-proposal when a proposal already exists"
  else match readIntParamArg env apiArg adminsCount with
    | none => .error "argument format error, need format is integer_value,needAgreeCount"
    | some (value, needAgreeCount) =>
      if storage.dgpParams.get property = value then .error "param value not changed, proposal failed"
      else
        .ok { storage with
          currentChangeParamsProposal := some
            { creator := sender.callerAddress
              change := ⟨property, value⟩
              needAgreeCount
              votes := []
              proposalStartBlockNumber := sender.blockNumber + 10 } }

/-- `set_min_gas_price_api` and its three siblings: an admin proposes a new value of one
parameter. -/
def setParamApi (property : DgpParam) (env : DgpEnv) (sender : NativeContractSender) (apiArg : String)
    (storage : DgpStorage) : Except String DgpStorage :=
  if !isAddressInAdmins storage.admins sender.callerAddress then .error "only admin can call this api"
  else createIntParamProposal env sender property apiArg storage.admins.length storage

/-- `set_min_gas_price_api`. -/
def setMinGasPriceApi := setParamApi .minGasPrice

/-- `set_block_gas_limit_api`. -/
def setBlockGasLimitApi := setParamApi .blockGasLimit

/-- `set_min_gas_count_api`. -/
def setMinGasCountApi := setParamApi .minGasCount

/-- `set_max_contract_bytecode_store_fee_gas_count_api`. -/
def setMaxContractBytecodeStoreFeeGasCountApi := setParamApi .maxContractBytecodeStoreFeeGasCount

/-! ## Reading the storage -/

/-- `admins_api`. -/
def adminsApi (env : DgpEnv) (storage : DgpStorage) : String :=
  env.jsonDumps (.arr (storage.admins.map .str))

/-- `get_dgp_param_json_string`, behind `min_gas_price_api` and its three siblings. -/
def getDgpParamJsonString (env : DgpEnv) (storage : DgpStorage) (property : DgpParam) : String :=
  env.jsonDumps (.int (storage.dgpParams.get property))

/-- `parse_json_object_to_json_array`: each entry becomes a `[key, value]` pair, with a
nested object converted the same way. -/
def parseJsonObjectToJsonArray : JsonObject → JsonArray
  | [] => []
  | (key, .obj inner) :: rest =>
    .arr [.str key, .arr (parseJsonObjectToJsonArray inner)] :: parseJsonObjectToJsonArray rest
  | (key, value) :: rest => .arr [.str key, value] :: parseJsonObjectToJsonArray rest

/-- The `votes` object of a proposal. -/
def votesJson (votes : List (String × Bool)) : JsonObject := votes.map fun vote => (vote.1, .bool vote.2)

/-- The stored change-admin proposal, with its keys in the order the API sets them. -/
def adminProposalJson (proposal : Proposal AdminChange) : JsonObject :=
  [("creator", .str proposal.creator), ("address", .str proposal.change.address),
    ("add", .bool proposal.change.add), ("needAgreeCount", .int proposal.needAgreeCount),
    ("votes", .obj (votesJson proposal.votes)),
    ("proposalStartBlockNumber", .int proposal.proposalStartBlockNumber)]

/-- The stored change-params proposal, with its keys in the order the API sets them. -/
def paramsProposalJson (proposal : Proposal ParamChange) : JsonObject :=
  [("creator", .str proposal.creator), ("property", .str proposal.change.property.name),
    ("needAgreeCount", .int proposal.needAgreeCount), ("value", .int proposal.change.value),
    ("votes", .obj (votesJson proposal.votes)),
    ("proposalStartBlockNumber", .int proposal.proposalStartBlockNumber)]

/-- `current_change_admin_proposal_api` and `current_change_params_proposal_api`. -/
def currentProposalApi {κ : Type} (toJson : Proposal κ → JsonObject) (env : DgpEnv) :
    Option (Proposal κ) → String
  | none => "null"
  | some proposal => env.jsonDumps (.arr (parseJsonObjectToJsonArray (toJson proposal)))

/-! ## Invoking an API -/

/-- The keys of `apis_mapping` in `invoke`. -/
inductive DgpApi where
  | init
  | admins
  | createChangeAdminProposal
  | voteAdmin
  | currentChangeAdminProposal
  | currentChangeParamsProposal
  | cancelChangeAdminProposal
  | voteChangeParam
  | minGasPrice
  | setMinGasPrice
  | blockGasLimit
  | setBlockGasLimit
  | minGasCount
  | setMinGasCount
  | maxContractBytecodeStoreFeeGasCount
  | setMaxContractBytecodeStoreFeeGasCount
  deriving DecidableEq, Repr

/-- The name of an API. -/
def DgpApi.name : DgpApi → String
  | .init => "init"
  | .admins => "admins"
  | .createChangeAdminProposal => "create_change_admin_proposal"
  | .voteAdmin => "vote_admin"
  | .currentChangeAdminProposal => "current_change_admin_proposal"
  | .currentChangeParamsProposal => "current_change_params_proposal"
  | .cancelChangeAdminProposal => "cancel_change_admin_proposal"
  | .voteChangeParam => "vote_change_param"
  | .minGasPrice => "min_gas_price"
  | .setMinGasPrice => "set_min_gas_price"
  | .blockGasLimit => "block_gas_limit"
  | .setBlockGasLimit => "set_block_gas_limit"
  | .minGasCount => "min_gas_count"
  | .setMinGasCount => "set_min_gas_count"
  | .maxContractBytecodeStoreFeeGasCount => "max_contract_bytecode_store_fee_gas_count"
  | .setMaxContractBytecodeStoreFeeGasCount => "set_max_contract_bytecode_store_fee_gas_count"

/-- `apis_mapping.find(api_name)`. -/
def apisMapping (apiName : String) : Option DgpApi :=
  [DgpApi.init, .admins, .createChangeAdminProposal, .voteAdmin, .currentChangeAdminProposal,
    .currentChangeParamsProposal, .cancelChangeAdminProposal, .voteChangeParam, .minGasPrice,
    .setMinGasPrice, .blockGasLimit, .setBlockGasLimit, .minGasCount, .setMinGasCount,
    .maxContractBytecodeStoreFeeGasCount, .setMaxContractBytecodeStoreFeeGasCount].find?
    (·.name == apiName)

/-- The storage after an API that may `set_error`: on an error path it has made no change. -/
def keepOnError (storage : DgpStorage) : Except String DgpStorage → DgpStorage
  | .ok changed => changed
  | .error _ => storage

/-- One API of `apis_mapping`, called with the sender and argument: its result and the
storage with its changes. -/
def callApi (env : DgpEnv) (sender : NativeContractSender) (apiArg : String) (storage : DgpStorage) :
    DgpApi → String × DgpStorage
  | .init => ("", initApi sender)
  | .admins => (adminsApi env storage, storage)
  | .createChangeAdminProposal => ("", keepOnError storage (createChangeAdminProposalApi env sender apiArg storage))
  | .voteAdmin => ("", keepOnError storage (voteAdminApi sender apiArg storage))
  | .currentChangeAdminProposal =>
    (currentProposalApi adminProposalJson env storage.currentChangeAdminProposal, storage)
  | .currentChangeParamsProposal =>
    (currentProposalApi paramsProposalJson env storage.currentChangeParamsProposal, storage)
  | .cancelChangeAdminProposal => ("", keepOnError storage (cancelChangeAdminProposalApi sender storage))
  | .voteChangeParam => ("", keepOnError storage (voteChangeParamApi sender apiArg storage))
  | .minGasPrice => (getDgpParamJsonString env storage .minGasPrice, storage)
  | .setMinGasPrice => ("", keepOnError storage (setMinGasPriceApi env sender apiArg storage))
  | .blockGasLimit => (getDgpParamJsonString env storage .blockGasLimit, storage)
  | .setBlockGasLimit => ("", keepOnError storage (setBlockGasLimitApi env sender apiArg storage))
  | .minGasCount => (getDgpParamJsonString env storage .minGasCount, storage)
  | .setMinGasCount => ("", keepOnError storage (setMinGasCountApi env sender apiArg storage))
  | .maxContractBytecodeStoreFeeGasCount =>
    (getDgpParamJsonString env storage .maxContractBytecodeStoreFeeGasCount, storage)
  | .setMaxContractBytecodeStoreFeeGasCount =>
    ("", keepOnError storage (setMaxContractBytecodeStoreFeeGasCountApi env sender apiArg storage))

/-- The `ContractExecResult` of `invoke`, with its storage changes applied to the storage. -/
structure ContractExecResult where
  exitCode : Nat
  errorMessage : String
  apiResult : String
  storage : DgpStorage

/-- `dgp_native_contract::invoke`. An API that `apis_mapping` lacks gives exit code 1;
any other gives exit code 0, whether or not the API called `set_error`. -/
def invoke (env : DgpEnv) (sender : NativeContractSender) (apiName apiArg : String) (storage : DgpStorage) :
    ContractExecResult :=
  match apisMapping apiName with
  | some api =>
    let result := callApi env sender apiArg storage api
    ⟨0, "", result.1, result.2⟩
  | none => ⟨1, "Can't find dgp api " ++ apiName, "", storage⟩

/-- `dgp_native_contract::apis()`, which `OP_CREATE_NATIVE` records as the contract's APIs. -/
def apis : List String :=
  ["init", "create_change_admin_proposal", "cancel_change_admin_proposal", "vote_admin", "admins",
    "current_change_admin_proposal", "current_change_params_proposal", "vote_change_param",
    "min_gas_price", "set_min_gas_price", "block_gas_limit", "set_block_gas_limit", "min_gas_count",
    "set_min_gas_count", "max_contract_bytecode_store_fee_gas_count",
    "set_max_contract_bytecode_store_fee_gas_count", "on_destroy", "on_upgrade", "on_deposit"]

/-- `dgp_native_contract::offline_apis()`. -/
def offlineApis : List String :=
  ["admins", "current_change_admin_proposal", "current_change_params_proposal", "min_gas_price",
    "block_gas_limit", "min_gas_count", "max_contract_bytecode_store_fee_gas_count"]

/-- The `OP_CALL` branch of `ContractExec::performByteCode` on the DGP contract
`contractId`: the API must be one the contract lists, and `invoke`'s storage changes
become the pending state's. Its exit code is not looked at. -/
def opCall (env : DgpEnv) (contractId : String) (sender : NativeContractSender) (apiName apiArg : String)
    (storage : DgpStorage) : Except String DgpStorage :=
  if apiName = "" then .error "contract api name to be called can't be empty"
  else if !apis.contains apiName && !offlineApis.contains apiName then
    .error ("Can't find api " ++ apiName ++ " in contract " ++ contractId)
  else .ok (invoke env sender apiName apiArg storage).storage

/-- One `OP_CALL` of a transaction. -/
structure Call where
  sender : NativeContractSender
  apiName : String
  apiArg : String

/-- The storage after a sequence of `OP_CALL`s. A call that fails belongs to a transaction
that is rejected, and changes nothing. -/
def runCalls (env : DgpEnv) (contractId : String) : List Call → DgpStorage → DgpStorage
  | [], storage => storage
  | call :: calls, storage =>
    runCalls env contractId calls (keepOnError storage (opCall env contractId call.sender call.apiName call.apiArg storage))

/-! ## Well-formed proposals -/

/-- The bounds both proposal APIs check on `needAgreeCount` against the number of admins:
between 1 and the admins count, and at least 2 when there are at least two admins. -/
structure NeedAgreeCountAllowed (adminsCount needAgreeCount : Nat) : Prop where
  one_le : 1 ≤ needAgreeCount
  le_adminsCount : needAgreeCount ≤ adminsCount
  two_le : 2 ≤ adminsCount → 2 ≤ needAgreeCount

/-- A change that the admins still allow: an address to add is not an admin, and one to
remove is an admin and not the only one. -/
def AdminChange.Applicable (admins : List String) (change : AdminChange) : Prop :=
  if change.add then change.address ∉ admins else change.address ∈ admins ∧ 2 ≤ admins.length

theorem AdminChange.applicable_add {admins : List String} {address : String} :
    AdminChange.Applicable admins ⟨address, true⟩ ↔ address ∉ admins := by
  simp [AdminChange.Applicable]

theorem AdminChange.applicable_remove {admins : List String} {address : String} :
    AdminChange.Applicable admins ⟨address, false⟩ ↔ address ∈ admins ∧ 2 ≤ admins.length := by
  simp [AdminChange.Applicable]

/-- A pending proposal that the admins can still decide: its `needAgreeCount` is between 1
and the number of admins, and its votes come from distinct admins. -/
structure ProposalWellFormed {κ : Type} (admins : List String) (proposal : Proposal κ) : Prop where
  one_le_needAgreeCount : 1 ≤ proposal.needAgreeCount
  needAgreeCount_le : proposal.needAgreeCount ≤ admins.length
  voters_nodup : (proposal.votes.map Prod.fst).Nodup
  voters_admins : ∀ vote ∈ proposal.votes, vote.1 ∈ admins

/-- A pending change-admin proposal: well formed, applicable, and with the bound of 2 when
there are two admins or more. -/
structure AdminProposalValid (admins : List String) (proposal : Proposal AdminChange) : Prop where
  wellFormed : ProposalWellFormed admins proposal
  applicable : proposal.change.Applicable admins
  two_le_needAgreeCount : 2 ≤ admins.length → 2 ≤ proposal.needAgreeCount

/-- The invariant of the DGP storage: the admins are distinct and there is at least one,
and each pending proposal is one the admins can decide. -/
structure DgpInvariant (storage : DgpStorage) : Prop where
  admins_ne_nil : storage.admins ≠ []
  admins_nodup : storage.admins.Nodup
  admin_proposal : ∀ proposal, storage.currentChangeAdminProposal = some proposal →
    AdminProposalValid storage.admins proposal
  params_proposal : ∀ proposal, storage.currentChangeParamsProposal = some proposal →
    ProposalWellFormed storage.admins proposal

/-! ## What one API can do -/

section Api

variable {κ : Type} {env : DgpEnv} {sender : NativeContractSender} {apiArg : String}
  {storage changed : DgpStorage}

@[simp]
theorem isAddressInAdmins_eq_true {admins : List String} {addr : String} :
    isAddressInAdmins admins addr = true ↔ addr ∈ admins := List.contains_iff_mem

theorem hasVoted_eq_false_iff {votes : List (String × Bool)} {addr : String} :
    hasVoted votes addr = false ↔ addr ∉ votes.map Prod.fst := by
  rw [hasVoted, List.any_eq_false, List.mem_map]
  simp only [beq_iff_eq, not_exists, not_and]

@[simp]
theorem Proposal.addVote_change (proposal : Proposal κ) (addr : String) (agree : Bool) :
    (proposal.addVote addr agree).change = proposal.change := rfl

@[simp]
theorem Proposal.addVote_needAgreeCount (proposal : Proposal κ) (addr : String) (agree : Bool) :
    (proposal.addVote addr agree).needAgreeCount = proposal.needAgreeCount := rfl

@[simp]
theorem Proposal.addVote_votes (proposal : Proposal κ) (addr : String) (agree : Bool) :
    (proposal.addVote addr agree).votes = proposal.votes ++ [(addr, agree)] := rfl

/-- A vote is recorded only for a caller who has not voted, and the proposal succeeds only
with `needAgreeCount` agreeing votes, the caller's counted. -/
theorem voteForProposal_eq_ok {proposal : Proposal κ} {agree : Bool} {adminsCount : Nat}
    {outcome : VoteOutcome κ} (h : voteForProposal sender proposal agree adminsCount = .ok outcome) :
    sender.callerAddress ∉ proposal.votes.map Prod.fst ∧
      ((outcome = .success (proposal.addVote sender.callerAddress agree) ∧
          proposal.needAgreeCount ≤ (proposal.votes ++ [(sender.callerAddress, agree)]).countP (·.2)) ∨
        outcome = .fail (proposal.addVote sender.callerAddress agree) ∨
        outcome = .update (proposal.addVote sender.callerAddress agree)) := by
  simp only [voteForProposal] at h
  split_ifs at h with hvoted hearly hagree hfail
  all_goals
    cases h
    refine ⟨hasVoted_eq_false_iff.mp (Bool.eq_false_iff.mpr hvoted), ?_⟩
  · exact .inl ⟨rfl, hagree⟩
  · exact .inr (.inl rfl)
  · exact .inr (.inr rfl)

/-- A vote on the proposal in one slot comes from an admin who has not voted on it. It
applies the change when enough votes agree, and otherwise clears the slot or stores the
proposal with the vote. -/
theorem voteApi_eq_ok {proposalOf : DgpStorage → Option (Proposal κ)}
    {setProposal : DgpStorage → Option (Proposal κ) → DgpStorage} {notFound : String}
    {onSuccess : DgpStorage → κ → DgpStorage}
    (h : voteApi proposalOf setProposal notFound onSuccess sender apiArg storage = .ok changed) :
    sender.callerAddress ∈ storage.admins ∧ ∃ proposal, proposalOf storage = some proposal ∧
      sender.callerAddress ∉ proposal.votes.map Prod.fst ∧
      ((proposal.needAgreeCount ≤
            (proposal.votes ++ [(sender.callerAddress, apiArg == "true")]).countP (·.2) ∧
          changed = onSuccess storage proposal.change) ∨
        changed = setProposal storage none ∨
        changed = setProposal storage (some (proposal.addVote sender.callerAddress (apiArg == "true")))) := by
  unfold voteApi at h
  split at h
  · cases h
  rename_i hadmin
  split at h
  · cases h
  rename_i proposal hslot
  split at h
  · cases h
  split at h
  · cases h
  all_goals
    rename_i outcome hvote
    obtain ⟨hfresh, hcases⟩ := voteForProposal_eq_ok hvote
    refine ⟨by simpa using hadmin, proposal, hslot, hfresh, ?_⟩
    cases h
  · rcases hcases with ⟨-, hagree⟩ | hfail | hupdate
    · exact .inl ⟨hagree, rfl⟩
    · cases hfail
    · cases hupdate
  · rcases hcases with ⟨hsuccess, -⟩ | -
    · cases hsuccess
    · exact .inr (.inl rfl)
  · rcases hcases with ⟨hsuccess, -⟩ | hfail | hupdate
    · cases hsuccess
    · cases hfail
    · cases hupdate
      exact .inr (.inr rfl)

/-- A cancel comes from the creator of the pending change-admin proposal and clears it. -/
theorem cancelChangeAdminProposalApi_eq_ok (h : cancelChangeAdminProposalApi sender storage = .ok changed) :
    ∃ proposal, storage.currentChangeAdminProposal = some proposal ∧ sender.callerAddress = proposal.creator ∧
      changed = { storage with currentChangeAdminProposal := none } := by
  unfold cancelChangeAdminProposalApi at h
  split at h
  · cases h
  rename_i proposal hslot
  split_ifs at h with hcreator
  cases h
  exact ⟨proposal, hslot, not_not.mp hcreator, rfl⟩

/-- An opened change-admin proposal comes from an admin while no other is pending, proposes
an applicable change with an allowed `needAgreeCount`, and has no votes. -/
theorem createChangeAdminProposalApi_eq_ok
    (h : createChangeAdminProposalApi env sender apiArg storage = .ok changed) :
    sender.callerAddress ∈ storage.admins ∧ storage.currentChangeAdminProposal = none ∧
      ∃ change needAgreeCount, change.Applicable storage.admins ∧
        NeedAgreeCountAllowed storage.admins.length needAgreeCount ∧
        changed = { storage with
          currentChangeAdminProposal :=
            some ⟨sender.callerAddress, change, needAgreeCount, [], sender.blockNumber + 10⟩ } := by
  simp only [createChangeAdminProposalApi] at h
  split at h
  · cases h
  rename_i hadmin
  split at h
  · cases h
  rename_i hnone
  split at h
  · cases h
  rename_i addr add needAgreeCount hread
  split_ifs at h with hadd hremove hsingle hvalid hrange htwo
  cases h
  have happ : AdminChange.Applicable storage.admins ⟨addr, add⟩ := by
    cases add
    · simp only [Bool.not_false, Bool.true_and, Bool.not_eq_true, decide_eq_true_eq]
        at hremove hsingle
      exact AdminChange.applicable_remove.mpr ⟨by simpa using hremove, by omega⟩
    · exact AdminChange.applicable_add.mpr (by simpa using hadd)
  refine ⟨by simpa using hadmin, by simpa using hnone, ⟨addr, add⟩, needAgreeCount, happ, ?_, rfl⟩
  exact ⟨by omega, by omega, by omega⟩

/-- The argument of a change-params proposal carries an allowed `needAgreeCount`. -/
theorem readIntParamArg_eq_some {adminsCount : Nat} {value : Int} {needAgreeCount : Nat}
    (h : readIntParamArg env apiArg adminsCount = some (value, needAgreeCount)) :
    NeedAgreeCountAllowed adminsCount needAgreeCount := by
  unfold readIntParamArg at h
  split at h
  · cases h
  split at h
  · split_ifs at h with hrange htwo
    cases h
    exact ⟨by omega, by omega, by omega⟩
  · cases h

/-- An opened change-params proposal comes from an admin while no other is pending, has an
allowed `needAgreeCount` and no votes. -/
theorem setParamApi_eq_ok {property : DgpParam} (h : setParamApi property env sender apiArg storage = .ok changed) :
    sender.callerAddress ∈ storage.admins ∧ storage.currentChangeParamsProposal = none ∧
      ∃ value needAgreeCount, NeedAgreeCountAllowed storage.admins.length needAgreeCount ∧
        changed = { storage with
          currentChangeParamsProposal :=
            some ⟨sender.callerAddress, ⟨property, value⟩, needAgreeCount, [], sender.blockNumber + 10⟩ } := by
  unfold setParamApi createIntParamProposal at h
  split at h
  · cases h
  rename_i hadmin
  split at h
  · cases h
  rename_i hnone
  split at h
  · cases h
  rename_i value needAgreeCount hread
  split_ifs at h with hsame
  cases h
  exact ⟨by simpa using hadmin, by simpa using hnone, value, needAgreeCount, readIntParamArg_eq_some hread, rfl⟩

end Api

/-! ## The invariant over every run -/

section Invariant

variable {κ : Type} {env : DgpEnv} {contractId : String} {sender : NativeContractSender} {apiArg : String}
  {storage changed : DgpStorage} {admins admins' : List String} {proposal : Proposal κ}

theorem ProposalWellFormed.addVote (hwf : ProposalWellFormed admins proposal) {addr : String}
    (hadmin : addr ∈ admins) (hfresh : addr ∉ proposal.votes.map Prod.fst) (agree : Bool) :
    ProposalWellFormed admins (proposal.addVote addr agree) where
  one_le_needAgreeCount := hwf.one_le_needAgreeCount
  needAgreeCount_le := hwf.needAgreeCount_le
  voters_nodup := by
    rw [Proposal.addVote_votes, List.map_append, List.nodup_append_comm]
    exact List.nodup_cons.mpr ⟨hfresh, hwf.voters_nodup⟩
  voters_admins := by
    intro vote hvote
    rw [Proposal.addVote_votes, List.mem_append, List.mem_singleton] at hvote
    rcases hvote with hvote | rfl
    · exact hwf.voters_admins vote hvote
    · exact hadmin

theorem ProposalWellFormed.of_subset (hwf : ProposalWellFormed admins proposal) (hsub : admins ⊆ admins')
    (hle : admins.length ≤ admins'.length) : ProposalWellFormed admins' proposal where
  one_le_needAgreeCount := hwf.one_le_needAgreeCount
  needAgreeCount_le := hwf.needAgreeCount_le.trans hle
  voters_nodup := hwf.voters_nodup
  voters_admins := fun vote hvote => hsub (hwf.voters_admins vote hvote)

/-- A new proposal, with no votes and an allowed `needAgreeCount`, is well formed. -/
theorem ProposalWellFormed.of_votes_nil (hallowed : NeedAgreeCountAllowed admins.length proposal.needAgreeCount)
    (hnil : proposal.votes = []) : ProposalWellFormed admins proposal where
  one_le_needAgreeCount := hallowed.one_le
  needAgreeCount_le := hallowed.le_adminsCount
  voters_nodup := by simp [hnil]
  voters_admins := by simp [hnil]

theorem initApi_invariant (sender : NativeContractSender) : DgpInvariant (initApi sender) where
  admins_ne_nil := List.cons_ne_nil _ _
  admins_nodup := List.nodup_singleton _
  admin_proposal := fun _ hslot => by cases hslot
  params_proposal := fun _ hslot => by cases hslot

/-- Writing the change-admin slot keeps the invariant when what it writes is valid. -/
theorem DgpInvariant.setAdminProposal (hinv : DgpInvariant storage) {slot : Option (Proposal AdminChange)}
    (hslot : ∀ proposal, slot = some proposal → AdminProposalValid storage.admins proposal) :
    DgpInvariant { storage with currentChangeAdminProposal := slot } where
  admins_ne_nil := hinv.admins_ne_nil
  admins_nodup := hinv.admins_nodup
  admin_proposal := hslot
  params_proposal := hinv.params_proposal

/-- Writing the change-params slot keeps the invariant when what it writes is well formed. -/
theorem DgpInvariant.setParamsProposal (hinv : DgpInvariant storage) {slot : Option (Proposal ParamChange)}
    (hslot : ∀ proposal, slot = some proposal → ProposalWellFormed storage.admins proposal) :
    DgpInvariant { storage with currentChangeParamsProposal := slot } where
  admins_ne_nil := hinv.admins_ne_nil
  admins_nodup := hinv.admins_nodup
  admin_proposal := hinv.admin_proposal
  params_proposal := hslot

/-- Applying an applicable admin change keeps the admins distinct and non-empty. An added
admin leaves the pending change-params proposal well formed; a removal clears it. -/
theorem adminChangeSuccess_invariant (hinv : DgpInvariant storage) {change : AdminChange}
    (happ : change.Applicable storage.admins) : DgpInvariant (adminChangeSuccess storage change) := by
  obtain ⟨address, add⟩ := change
  cases add
  · obtain ⟨hmem, htwo⟩ := AdminChange.applicable_remove.mp happ
    have hlength : (storage.admins.filter (· != address)).length = storage.admins.length - 1 := by
      rw [← hinv.admins_nodup.erase_eq_filter, List.length_erase_of_mem hmem]
    simp only [adminChangeSuccess, Bool.false_eq_true, ↓reduceIte]
    exact {
      admins_ne_nil := List.ne_nil_of_length_pos (by rw [hlength]; omega)
      admins_nodup := hinv.admins_nodup.filter _
      admin_proposal := fun _ hslot => by cases hslot
      params_proposal := fun _ hslot => by cases hslot }
  · have hfresh := AdminChange.applicable_add.mp happ
    simp only [adminChangeSuccess, ↓reduceIte]
    exact {
      admins_ne_nil := by simp
      admins_nodup := List.nodup_append_comm.mpr (List.nodup_cons.mpr ⟨hfresh, hinv.admins_nodup⟩)
      admin_proposal := fun _ hslot => by cases hslot
      params_proposal := fun proposal hslot =>
        (hinv.params_proposal proposal hslot).of_subset (List.subset_append_left _ _) (by simp) }

theorem paramChangeSuccess_invariant (hinv : DgpInvariant storage) (change : ParamChange) :
    DgpInvariant (paramChangeSuccess storage change) where
  admins_ne_nil := hinv.admins_ne_nil
  admins_nodup := hinv.admins_nodup
  admin_proposal := hinv.admin_proposal
  params_proposal := fun _ hslot => by cases hslot

theorem createChangeAdminProposalApi_invariant (hinv : DgpInvariant storage)
    (h : createChangeAdminProposalApi env sender apiArg storage = .ok changed) : DgpInvariant changed := by
  obtain ⟨-, -, change, needAgreeCount, happ, hallowed, rfl⟩ := createChangeAdminProposalApi_eq_ok h
  refine hinv.setAdminProposal fun proposal hslot => ?_
  cases hslot
  exact ⟨ProposalWellFormed.of_votes_nil hallowed rfl, happ, hallowed.two_le⟩

theorem cancelChangeAdminProposalApi_invariant (hinv : DgpInvariant storage)
    (h : cancelChangeAdminProposalApi sender storage = .ok changed) : DgpInvariant changed := by
  obtain ⟨-, -, -, rfl⟩ := cancelChangeAdminProposalApi_eq_ok h
  exact hinv.setAdminProposal fun _ hslot => by cases hslot

theorem setParamApi_invariant {property : DgpParam} (hinv : DgpInvariant storage)
    (h : setParamApi property env sender apiArg storage = .ok changed) : DgpInvariant changed := by
  obtain ⟨-, -, value, needAgreeCount, hallowed, rfl⟩ := setParamApi_eq_ok h
  refine hinv.setParamsProposal fun proposal hslot => ?_
  cases hslot
  exact ProposalWellFormed.of_votes_nil hallowed rfl

theorem voteAdminApi_invariant (hinv : DgpInvariant storage)
    (h : voteAdminApi sender apiArg storage = .ok changed) : DgpInvariant changed := by
  obtain ⟨hadmin, proposal, hslot, hfresh, hcases⟩ := voteApi_eq_ok h
  have hvalid := hinv.admin_proposal proposal hslot
  rcases hcases with ⟨-, rfl⟩ | rfl | rfl
  · exact adminChangeSuccess_invariant hinv hvalid.applicable
  · exact hinv.setAdminProposal fun _ hnone => by cases hnone
  · refine hinv.setAdminProposal fun voted hvoted => ?_
    cases hvoted
    exact ⟨hvalid.wellFormed.addVote hadmin hfresh _, hvalid.applicable, hvalid.two_le_needAgreeCount⟩

theorem voteChangeParamApi_invariant (hinv : DgpInvariant storage)
    (h : voteChangeParamApi sender apiArg storage = .ok changed) : DgpInvariant changed := by
  obtain ⟨hadmin, proposal, hslot, hfresh, hcases⟩ := voteApi_eq_ok h
  have hwf := hinv.params_proposal proposal hslot
  rcases hcases with ⟨-, rfl⟩ | rfl | rfl
  · exact paramChangeSuccess_invariant hinv _
  · exact hinv.setParamsProposal fun _ hnone => by cases hnone
  · refine hinv.setParamsProposal fun voted hvoted => ?_
    cases hvoted
    exact hwf.addVote hadmin hfresh _

/-- What holds of every successful result of an API holds after it, failed or not, when it
holds before. -/
theorem keepOnError_of_ok {P : DgpStorage → Prop} {result : Except String DgpStorage} (hstorage : P storage)
    (hok : ∀ changed, result = .ok changed → P changed) : P (keepOnError storage result) := by
  cases result with
  | error => exact hstorage
  | ok changed => exact hok changed rfl

theorem callApi_invariant (hinv : DgpInvariant storage) (api : DgpApi) :
    DgpInvariant (callApi env sender apiArg storage api).2 := by
  cases api with
  | init => exact initApi_invariant sender
  | admins | currentChangeAdminProposal | currentChangeParamsProposal | minGasPrice | blockGasLimit
    | minGasCount | maxContractBytecodeStoreFeeGasCount => exact hinv
  | createChangeAdminProposal => exact keepOnError_of_ok hinv fun _ => createChangeAdminProposalApi_invariant hinv
  | voteAdmin => exact keepOnError_of_ok hinv fun _ => voteAdminApi_invariant hinv
  | cancelChangeAdminProposal => exact keepOnError_of_ok hinv fun _ => cancelChangeAdminProposalApi_invariant hinv
  | voteChangeParam => exact keepOnError_of_ok hinv fun _ => voteChangeParamApi_invariant hinv
  | setMinGasPrice | setBlockGasLimit | setMinGasCount | setMaxContractBytecodeStoreFeeGasCount =>
    exact keepOnError_of_ok hinv fun _ => setParamApi_invariant hinv

theorem invoke_invariant (hinv : DgpInvariant storage) (apiName : String) :
    DgpInvariant (invoke env sender apiName apiArg storage).storage := by
  unfold invoke
  split
  · exact callApi_invariant hinv _
  · exact hinv

theorem opCall_invariant {apiName : String} (hinv : DgpInvariant storage)
    (h : opCall env contractId sender apiName apiArg storage = .ok changed) : DgpInvariant changed := by
  unfold opCall at h
  split_ifs at h
  cases h
  exact invoke_invariant hinv apiName

theorem runCalls_invariant (calls : List Call) (hinv : DgpInvariant storage) :
    DgpInvariant (runCalls env contractId calls storage) := by
  induction calls generalizing storage with
  | nil => exact hinv
  | cons call calls ih => exact ih (keepOnError_of_ok hinv fun _ => opCall_invariant hinv)

/-- In every DGP contract, after any sequence of calls by any callers, the admins are
distinct and there is at least one, and each pending proposal has a `needAgreeCount`
between 1 and the number of admins and votes from distinct current admins. -/
theorem runCalls_initApi_invariant (creator : NativeContractSender) (calls : List Call) :
    DgpInvariant (runCalls env contractId calls (initApi creator)) :=
  runCalls_invariant calls (initApi_invariant creator)

end Invariant

/-! ## How the admins change -/

/-- The vote of `voter` completed the change-admin proposal pending in `storage`, and `changed`
is the storage its change gives. The proposal's votes with this one added come from distinct
admins, and at least `needAgreeCount` of them agree. -/
def ChangedByVote (storage changed : DgpStorage) (voter : String) : Prop :=
  ∃ proposal, ∃ agree : Bool, storage.currentChangeAdminProposal = some proposal ∧
    ((proposal.votes ++ [(voter, agree)]).map Prod.fst).Nodup ∧
    (∀ vote ∈ proposal.votes ++ [(voter, agree)], vote.1 ∈ storage.admins) ∧
    proposal.needAgreeCount ≤ (proposal.votes ++ [(voter, agree)]).countP (·.2) ∧
    changed = adminChangeSuccess storage proposal.change

section Admins

variable {env : DgpEnv} {contractId : String} {sender : NativeContractSender} {apiArg : String}
  {storage changed : DgpStorage}

theorem voteAdminApi_admins (hinv : DgpInvariant storage) (h : voteAdminApi sender apiArg storage = .ok changed) :
    changed.admins = storage.admins ∨ ChangedByVote storage changed sender.callerAddress := by
  obtain ⟨hadmin, proposal, hslot, hfresh, hcases⟩ := voteApi_eq_ok h
  rcases hcases with ⟨hagree, rfl⟩ | rfl | rfl
  · have hvoted := (hinv.admin_proposal proposal hslot).wellFormed.addVote hadmin hfresh (apiArg == "true")
    exact .inr ⟨proposal, apiArg == "true", hslot, hvoted.voters_nodup, hvoted.voters_admins, hagree, rfl⟩
  · exact .inl rfl
  · exact .inl rfl

theorem voteChangeParamApi_admins (h : voteChangeParamApi sender apiArg storage = .ok changed) :
    changed.admins = storage.admins := by
  obtain ⟨-, proposal, -, -, hcases⟩ := voteApi_eq_ok h
  rcases hcases with ⟨-, rfl⟩ | rfl | rfl <;> rfl

/-- Of the APIs, `init` and a completing `vote_admin` alone change the admins. -/
theorem callApi_admins (env : DgpEnv) (sender : NativeContractSender) (apiArg : String)
    (hinv : DgpInvariant storage) (api : DgpApi) :
    (callApi env sender apiArg storage api).2.admins = storage.admins ∨ api = .init ∨
      (api = .voteAdmin ∧ ChangedByVote storage (callApi env sender apiArg storage api).2 sender.callerAddress) := by
  -- every other API keeps the admins whether it fails or not
  have hkeep : ∀ result : Except String DgpStorage,
      (∀ changed, result = .ok changed → changed.admins = storage.admins) →
      (keepOnError storage result).admins = storage.admins :=
    fun _ hok => keepOnError_of_ok (P := fun changed => changed.admins = storage.admins) rfl hok
  cases api with
  | init => exact .inr (.inl rfl)
  | admins | currentChangeAdminProposal | currentChangeParamsProposal | minGasPrice | blockGasLimit
    | minGasCount | maxContractBytecodeStoreFeeGasCount => exact .inl rfl
  | createChangeAdminProposal =>
    refine .inl (hkeep _ fun changed h => ?_)
    obtain ⟨-, -, -, -, -, -, rfl⟩ := createChangeAdminProposalApi_eq_ok h
    rfl
  | cancelChangeAdminProposal =>
    refine .inl (hkeep _ fun changed h => ?_)
    obtain ⟨-, -, -, rfl⟩ := cancelChangeAdminProposalApi_eq_ok h
    rfl
  | voteChangeParam => exact .inl (hkeep _ fun _ => voteChangeParamApi_admins)
  | setMinGasPrice | setBlockGasLimit | setMinGasCount | setMaxContractBytecodeStoreFeeGasCount =>
    refine .inl (hkeep _ fun changed h => ?_)
    obtain ⟨-, -, -, -, -, rfl⟩ := setParamApi_eq_ok h
    rfl
  | voteAdmin =>
    have hvote := keepOnError_of_ok
      (P := fun changed => changed.admins = storage.admins ∨ ChangedByVote storage changed sender.callerAddress)
      (.inl rfl) fun _ (h : voteAdminApi sender apiArg storage = .ok _) => voteAdminApi_admins hinv h
    rcases hvote with hsame | hvote
    · exact .inl hsame
    · exact .inr (.inr ⟨rfl, hvote⟩)

theorem apisMapping_name {apiName : String} {api : DgpApi} (h : apisMapping apiName = some api) :
    api.name = apiName := by
  unfold apisMapping at h
  have hbeq := List.find?_some h
  exact beq_iff_eq.mp hbeq

/-- An `OP_CALL` that changes the admins is an `init`, which makes its caller the only
admin, or a `vote_admin` that completes a change-admin proposal. -/
theorem opCall_admins {apiName : String} (hinv : DgpInvariant storage)
    (h : opCall env contractId sender apiName apiArg storage = .ok changed) :
    changed.admins = storage.admins ∨ (apiName = "init" ∧ changed = initApi sender) ∨
      (apiName = "vote_admin" ∧ ChangedByVote storage changed sender.callerAddress) := by
  unfold opCall at h
  split_ifs at h
  cases h
  unfold invoke
  split
  · rename_i api hapi
    have hname := apisMapping_name hapi
    rcases callApi_admins env sender apiArg hinv api with hsame | rfl | ⟨rfl, hvote⟩
    · exact .inl hsame
    · exact .inr (.inl ⟨hname.symm, rfl⟩)
    · exact .inr (.inr ⟨hname.symm, hvote⟩)
  · exact .inl rfl

/-- Through every run of a DGP contract, the admins change only at an `init` call, which
makes its caller the only admin, or at a `vote_admin` call that completes a change-admin
proposal with enough agreeing votes from distinct admins. -/
theorem runCalls_admins_change (creator : NativeContractSender) (calls : List Call) (call : Call) :
    let storage := runCalls env contractId calls (initApi creator)
    let changed := runCalls env contractId [call] storage
    changed.admins = storage.admins ∨ (call.apiName = "init" ∧ changed = initApi call.sender) ∨
      (call.apiName = "vote_admin" ∧ ChangedByVote storage changed call.sender.callerAddress) := by
  intro storage changed
  have hinv : DgpInvariant storage := runCalls_initApi_invariant creator calls
  have hstep : changed = keepOnError storage (opCall env contractId call.sender call.apiName call.apiArg storage) :=
    rfl
  rw [hstep]
  cases hcall : opCall env contractId call.sender call.apiName call.apiArg storage with
  | error => exact .inl rfl
  | ok next => exact opCall_admins hinv hcall

/-- Any caller's `OP_CALL` of `init`, on a DGP contract after any calls, succeeds and
stores the state `init` creates: the caller is the only admin, no vote taken. -/
theorem opCall_init_resets_admins (env : DgpEnv) (contractId : String) (creator caller : NativeContractSender)
    (calls : List Call) (apiArg : String) :
    opCall env contractId caller "init" apiArg (runCalls env contractId calls (initApi creator)) =
      .ok (initApi caller) :=
  rfl

/-- The bound of 2 does not hold of a change-params proposal: one opened while `A` is the
only admin asks for one agreeing vote, and it is still pending, asking for one, after a
vote has added `B` as a second admin. -/
theorem paramsProposal_needAgreeCount_below_two (addArg : String)
    (hload : env.jsonLoads addArg =
      some (.obj [("address", .str "B"), ("add", .bool true), ("needAgreeCount", .int 1)]))
    (hvalid : env.isValidDestination "B" = true) (hvalue : env.castInt64 "20" = some 20)
    (hneed : env.castUInt32 "1" = some 1) :
    let storage := runCalls env contractId
      [⟨⟨"A", 1⟩, "set_min_gas_price", "20,1"⟩, ⟨⟨"A", 1⟩, "create_change_admin_proposal", addArg⟩,
        ⟨⟨"A", 11⟩, "vote_admin", "true"⟩] (initApi ⟨"A", 0⟩)
    storage.admins = ["A", "B"] ∧ storage.currentChangeParamsProposal.map (·.needAgreeCount) = some 1 := by
  have hsplit : splitIntParamArg "20,1" = some ("20", "1") := by decide
  have hread : readIntParamArg env "20,1" 1 = some (20, 1) := by
    simp [readIntParamArg, hsplit, hvalue, hneed]
  have hargs : readChangeAdminArg (env.jsonLoads addArg) = some ("B", true, 1) := by
    rw [hload]
    decide
  -- the three calls succeed in turn with these readings of their arguments
  simp [runCalls, opCall, apis, offlineApis, invoke, apisMapping, DgpApi.name, callApi, keepOnError,
    setMinGasPriceApi, setParamApi, createIntParamProposal, hread, createChangeAdminProposalApi, hargs, hvalid,
    voteAdminApi, voteApi, voteForProposal, hasVoted, adminChangeSuccess, initApi, isAddressInAdmins,
    defaultDgpParams, DgpParams.get, Proposal.addVote]

/-- Readings of the arguments under which the three calls go through: `json_loads` gives the
change-admin object, and the casts read `"20"` and `"1"`. -/
def singleAgreeEnv : DgpEnv where
  jsonLoads _ := some (.obj [("address", .str "B"), ("add", .bool true), ("needAgreeCount", .int 1)])
  jsonDumps _ := ""
  castInt64 s := if s = "20" then some 20 else none
  castUInt32 s := if s = "1" then some 1 else none
  isValidDestination _ := true

theorem paramsProposal_needAgreeCount_below_two_singleAgree :
    let storage := runCalls singleAgreeEnv "dgp"
      [⟨⟨"A", 1⟩, "set_min_gas_price", "20,1"⟩, ⟨⟨"A", 1⟩, "create_change_admin_proposal", "add B"⟩,
        ⟨⟨"A", 11⟩, "vote_admin", "true"⟩] (initApi ⟨"A", 0⟩)
    storage.admins = ["A", "B"] ∧ storage.currentChangeParamsProposal.map (·.needAgreeCount) = some 1 :=
  paramsProposal_needAgreeCount_below_two "add B" rfl rfl (by decide) (by decide)

end Admins

end UnitedBitcoin.Contract.Dgp
