import Mathlib
import UnitedBitcoin.ContractStorage.Info

/-!
# The contract storage service

`ContractStorageService` (`contract_storage.cpp`) over its two stores: the
leveldb key-value map and the sqlite `commit_info` table. Values are kept
parsed, since `json_dumps` and `json_loads` are taken to round-trip. The
key-value map has one map for each key prefix (`make_contract_info_key` and
its siblings), so keys of different kinds never meet; the raw commit id is
the key of a commit's diff.

An operation runs in `EStateM`: an exception keeps the state it was thrown
in, as C++ side effects stay. `save_contract_info`, `commit_contract_changes`
and `rollback_contract_state` take a leveldb snapshot and open an sql
transaction; on a throw their scope guard rolls the table back to the
`BEGIN` and restores from the snapshot every key recorded in
`changed_leveldb_keys`. The sha256 digest and the JSON printer are
parameters.
-/

namespace UnitedBitcoin.ContractStorage

open UnitedBitcoin.Json UnitedBitcoin.JsonDiff

/-- A key of the key-value store. -/
inductive StoreKey where
  | contractInfo (contractId : String)
  | contractStorage (contractId storageName : String)
  | commitEvents (commitId : String)
  | transactionEvents (transactionId : String)
  | contractNameIdMapping (contractName : String)
  | rootStateHash
  | topRootStateHash
  | commitDiff (commitId : String)
  deriving DecidableEq, Repr

/-- The key-value store without its two root keys, one map for each kind of
key. -/
structure Db where
  contractInfos : AList (fun _ : String => JsonValue)
  contractStorages : AList (fun _ : String × String => JsonValue)
  commitEvents : AList (fun _ : String => JsonValue)
  transactionEvents : AList (fun _ : String => JsonValue)
  contractNameIdMappings : AList (fun _ : String => String)
  commitDiffs : AList (fun _ : String => JsonValue)

/-- The empty store. -/
def Db.empty : Db := ⟨∅, ∅, ∅, ∅, ∅, ∅⟩

/-- Put back the snapshot's value of one key, or delete the key when the
snapshot has none. -/
def restoreEntry {κ β : Type} [DecidableEq κ] (snapshot current : AList (fun _ : κ => β))
    (key : κ) : AList (fun _ : κ => β) :=
  match snapshot.lookup key with
  | some value => current.insert key value
  | none => current.erase key

/-- One map key of `rollback_leveldb_transaction`; the root keys are not in
the maps. -/
def Db.restore (snapshot db : Db) : StoreKey → Db
  | .contractInfo id =>
      { db with contractInfos := restoreEntry snapshot.contractInfos db.contractInfos id }
  | .contractStorage id name =>
      { db with contractStorages := restoreEntry snapshot.contractStorages db.contractStorages (id, name) }
  | .commitEvents id => { db with commitEvents := restoreEntry snapshot.commitEvents db.commitEvents id }
  | .transactionEvents id =>
      { db with transactionEvents := restoreEntry snapshot.transactionEvents db.transactionEvents id }
  | .contractNameIdMapping name =>
      { db with
        contractNameIdMappings := restoreEntry snapshot.contractNameIdMappings db.contractNameIdMappings name }
  | .rootStateHash | .topRootStateHash => db
  | .commitDiff id => { db with commitDiffs := restoreEntry snapshot.commitDiffs db.commitDiffs id }

/-- A row of `commit_info`. -/
structure ContractCommitInfo where
  id : Nat
  commitId : String
  changeType : String
  contractId : String
  deriving DecidableEq, Repr

/-- `CONTRACT_INFO_CHANGE_TYPE`. -/
def contractInfoChangeType : String := "contract_info"

/-- `CONTRACT_STORAGE_CHANGE_TYPE`. -/
def contractStorageChangeType : String := "storage_change"

/-- `EMPTY_COMMIT_ID`. -/
def emptyCommitId : String := ""

/-- The service's stores and `_current_block_height`. A missing root key
reads as `EMPTY_COMMIT_ID`, so the two root keys are kept as strings with the
empty one for absence. -/
structure ContractStorageService where
  db : Db
  rootStateHash : String
  topRootStateHash : String
  commitInfos : List ContractCommitInfo
  currentBlockHeight : Nat

/-- A service over empty stores. -/
def ContractStorageService.empty : ContractStorageService := ⟨Db.empty, emptyCommitId, emptyCommitId, [], 0⟩

/-- One key of `rollback_leveldb_transaction`: its value in the snapshot is
put back. -/
def ContractStorageService.restore (snapshot service : ContractStorageService) :
    StoreKey → ContractStorageService
  | .rootStateHash => { service with rootStateHash := snapshot.rootStateHash }
  | .topRootStateHash => { service with topRootStateHash := snapshot.topRootStateHash }
  | key => { service with db := snapshot.db.restore service.db key }

/-- `is_latest`: no reset is pending. -/
def ContractStorageService.isLatest (service : ContractStorageService) : Bool :=
  service.rootStateHash == service.topRootStateHash

/-- The digest and printer the service hashes with: `fcrypto::sha256::hash`
read as its hex string, and `json_dumps`. -/
structure ContractStorageEnv where
  sha256 : String → String
  jsonDumps : JsonValue → String

/-- The state of an operation in progress: the service and its local
`changed_leveldb_keys`. -/
structure Working where
  service : ContractStorageService
  changedKeys : List StoreKey

/-- An operation of the service. -/
abbrev StorageM := EStateM StorageError Working

/-- Run an operation from a service; its changed-keys list starts empty. -/
def runOp {α : Type} (op : StorageM α) (service : ContractStorageService) :
    EStateM.Result StorageError ContractStorageService α :=
  match op ⟨service, []⟩ with
  | .ok value working => .ok value working.service
  | .error e working => .error e working.service

/-! ## Reads -/

/-- `get_commit_info`: the first row of a commit id. -/
def getCommitInfo (commitInfos : List ContractCommitInfo) (commitId : String) :
    Option ContractCommitInfo :=
  commitInfos.find? fun row => row.commitId == commitId

/-- The stored contract info of a contract, checked to be an object. -/
def storedContractInfoObject (db : Db) (contractId : String) : Except StorageError (Option JsonObject) :=
  match db.contractInfos.lookup contractId with
  | none => .ok none
  | some (.obj entries) => .ok (some entries)
  | some _ => .error (.contractStorageException "contract info db data error")

/-- `get_contract_info`. -/
def getContractInfo (db : Db) (contractId : String) : Except StorageError (Option ContractInfo) := do
  match ← storedContractInfoObject db contractId with
  | none => .ok none
  | some entries => ContractInfo.fromJson (.obj entries)

/-- `find_contract_id_by_name`: the mapped id when its contract info is
there, else the empty string. -/
def findContractIdByName (db : Db) (name : String) : Except StorageError String := do
  match db.contractNameIdMappings.lookup name with
  | none => .ok ""
  | some contractId =>
      match ← getContractInfo db contractId with
      | some _ => .ok contractId
      | none => .ok ""

/-- `get_contract_storage`: null when the value is absent. -/
def getContractStorage (db : Db) (contractId storageName : String) : JsonValue :=
  (db.contractStorages.lookup (contractId, storageName)).getD .null

/-- One balance item as `get_contract_balances` reads it. -/
def readBalanceItem (item : JsonValue) : Except FjsonException ContractBalance := do
  let entries ← item.asObject
  let assetId ← (JsonObject.field entries "asset_id").asUint64
  let amount ← (JsonObject.field entries "amount").asUint64
  .ok ⟨assetId % 2 ^ 32, amount⟩

/-- `get_contract_balances`: the balances array of the stored contract info,
zero balances included. -/
def getContractBalances (db : Db) (contractId : String) :
    Except StorageError (List ContractBalance) := do
  match ← storedContractInfoObject db contractId with
  | none => .ok []
  | some entries =>
      liftFjson do
        let items ← (JsonObject.field entries "balances").asArray
        items.mapM readBalanceItem

/-- The events stored under one key, when they form an array. -/
def storedEvents : Option JsonValue → Except StorageError (List ContractEventInfo)
  | some (.arr items) => liftFjson (eventsFromJson items)
  | _ => .ok []

/-- `get_commit_events`. -/
def getCommitEvents (db : Db) (commitId : String) : Except StorageError (List ContractEventInfo) :=
  storedEvents (db.commitEvents.lookup commitId)

/-- `get_transaction_events`. -/
def getTransactionEvents (db : Db) (transactionId : String) :
    Except StorageError (List ContractEventInfo) :=
  storedEvents (db.transactionEvents.lookup transactionId)

/-! ## Primitive steps -/

/-- The service as it is now: the leveldb snapshot an operation takes. -/
def readService : StorageM ContractStorageService := fun working => .ok working.service working

/-- The store as it is now. -/
def readDb : StorageM Db := fun working => .ok working.service.db working

/-- The `commit_info` table as it is now. -/
def readCommitInfos : StorageM (List ContractCommitInfo) := fun working =>
  .ok working.service.commitInfos working

/-- `current_root_state_hash()` and `top_root_state_hash()`. -/
def readRootStateHashes : StorageM (String × String) := fun working =>
  .ok (working.service.rootStateHash, working.service.topRootStateHash) working

/-- `_current_block_height`. -/
def readBlockHeight : StorageM Nat := fun working =>
  .ok working.service.currentBlockHeight working

/-- Change the store. -/
def modifyDb (f : Db → Db) : StorageM Unit := fun working =>
  .ok () { working with service := { working.service with db := f working.service.db } }

/-- Change the `commit_info` table. -/
def modifyCommitInfos (f : List ContractCommitInfo → List ContractCommitInfo) : StorageM Unit :=
  fun working =>
    .ok () { working with
      service := { working.service with commitInfos := f working.service.commitInfos } }

/-- Write the root state hash key. -/
def putRootStateHash (commitId : String) : StorageM Unit := fun working =>
  .ok () { working with service := { working.service with rootStateHash := commitId } }

/-- Write the top root state hash key. -/
def putTopRootStateHash (commitId : String) : StorageM Unit := fun working =>
  .ok () { working with service := { working.service with topRootStateHash := commitId } }

/-- `changed_leveldb_keys.push_back(key)`. -/
def recordKey (key : StoreKey) : StorageM Unit := fun working =>
  .ok () { working with changedKeys := working.changedKeys ++ [key] }

/-- A computation that may throw, inside an operation. -/
def liftStorage {α : Type} : Except StorageError α → StorageM α
  | .ok value => pure value
  | .error e => throw e

/-- `BOOST_THROW_EXCEPTION(ContractStorageException(msg))`. -/
def throwStorage {α : Type} (msg : String) : StorageM α :=
  throw (.contractStorageException msg)

/-- `uint64_t` addition. -/
def u64Add (a b : Nat) : Nat := (a + b) % 2 ^ 64

/-- `uint64_t` subtraction, wrapping below zero. -/
def u64Sub (a b : Nat) : Nat := (a + (2 ^ 64 - b % 2 ^ 64)) % 2 ^ 64

/-- The rowid sqlite gives a new row of `commit_info`: one past the largest. -/
def nextRowId (commitInfos : List ContractCommitInfo) : Nat :=
  (commitInfos.foldl (fun acc row => max acc row.id) 0) + 1

/-- `add_commit_info`: a new row and the diff under the bare commit id,
which no caller records in `changed_leveldb_keys`. -/
def addCommitInfo (commitId changeType : String) (diff : JsonValue) (contractId : String) :
    StorageM Unit := do
  let commitInfos ← readCommitInfos
  (if (getCommitInfo commitInfos commitId).isSome then
    throwStorage "same commitId existed before" else pure ())
  modifyCommitInfos fun rows => rows ++ [⟨nextRowId rows, commitId, changeType, contractId⟩]
  modifyDb fun db => { db with commitDiffs := db.commitDiffs.insert commitId diff }

/-- Write the root and the top root state hash, both recorded. -/
def writeRootStateHashes (commitId : String) : StorageM Unit := do
  putRootStateHash commitId
  recordKey .rootStateHash
  putTopRootStateHash commitId
  recordKey .topRootStateHash

/-- The end of both writing operations: the commit's row and diff, then the
two root keys. -/
def recordCommit (commitId changeType : String) (diff : JsonValue) (contractId : String) :
    StorageM Unit := do
  addCommitInfo commitId changeType diff contractId
  writeRootStateHashes commitId

/-- `rollback_sql_transaction` then `rollback_leveldb_transaction`, run by
the scope guard when the guarded block throws. -/
def rollbackTransactions (snapshot : ContractStorageService)
    (commitInfosAtBegin : List ContractCommitInfo) (working : Working) : Working :=
  { working with
    service := { working.changedKeys.foldl snapshot.restore working.service with
      commitInfos := commitInfosAtBegin } }

/-- A block under `begin_sql_transaction` and the scope guard. -/
def guarded {α : Type} (snapshot : ContractStorageService)
    (commitInfosAtBegin : List ContractCommitInfo) (body : StorageM α) : StorageM α :=
  fun working =>
    match body working with
    | .ok value working' => .ok value working'
    | .error e working' => .error e (rollbackTransactions snapshot commitInfosAtBegin working')

/-- A block under a snapshot, `begin_sql_transaction` and the scope guard,
all taken when it starts, as `save_contract_info` and
`rollback_contract_state` run their work. -/
def transactional {α : Type} (body : StorageM α) : StorageM α := do
  let snapshot ← readService
  let commitInfosAtBegin ← readCommitInfos
  guarded snapshot commitInfosAtBegin body

/-- Write a contract info, recorded. -/
def putContractInfo (contractId : String) (value : JsonValue) : StorageM Unit := do
  modifyDb fun db => { db with contractInfos := db.contractInfos.insert contractId value }
  recordKey (.contractInfo contractId)

/-- Delete a contract info, recorded. -/
def deleteContractInfo (contractId : String) : StorageM Unit := do
  modifyDb fun db => { db with contractInfos := db.contractInfos.erase contractId }
  recordKey (.contractInfo contractId)

/-- Write a name mapping, recorded. -/
def putNameMapping (name contractId : String) : StorageM Unit := do
  modifyDb fun db => { db with contractNameIdMappings := db.contractNameIdMappings.insert name contractId }
  recordKey (.contractNameIdMapping name)

/-- Delete a name mapping, recorded. -/
def deleteNameMapping (name : String) : StorageM Unit := do
  modifyDb fun db => { db with contractNameIdMappings := db.contractNameIdMappings.erase name }
  recordKey (.contractNameIdMapping name)

/-- Write a storage value, recorded. -/
def putContractStorage (contractId storageName : String) (value : JsonValue) : StorageM Unit := do
  modifyDb fun db =>
    { db with contractStorages := db.contractStorages.insert (contractId, storageName) value }
  recordKey (.contractStorage contractId storageName)

/-- Write the events of a transaction, recorded. -/
def putTransactionEvents (transactionId : String) (value : JsonValue) : StorageM Unit := do
  modifyDb fun db => { db with transactionEvents := db.transactionEvents.insert transactionId value }
  recordKey (.transactionEvents transactionId)

/-- Delete the events of a transaction, recorded. -/
def deleteTransactionEvents (transactionId : String) : StorageM Unit := do
  modifyDb fun db => { db with transactionEvents := db.transactionEvents.erase transactionId }
  recordKey (.transactionEvents transactionId)

/-- Write the events of a commit, recorded. -/
def putCommitEvents (commitId : String) (value : JsonValue) : StorageM Unit := do
  modifyDb fun db => { db with commitEvents := db.commitEvents.insert commitId value }
  recordKey (.commitEvents commitId)

/-- Delete the events of a commit, recorded. -/
def deleteCommitEvents (commitId : String) : StorageM Unit := do
  modifyDb fun db => { db with commitEvents := db.commitEvents.erase commitId }
  recordKey (.commitEvents commitId)

/-- The stored contract info of a contract that must be there. -/
def requireContractInfoObject (contractId notFound : String) : StorageM JsonObject := do
  let db ← readDb
  match db.contractInfos.lookup contractId with
  | none => throwStorage notFound
  | some (.obj entries) => pure entries
  | some _ => throwStorage "contract info db data error"

/-- A parsed contract info that must not be null: the source dereferences it. -/
def requireParsed (info : Option ContractInfo) : StorageM ContractInfo :=
  match info with
  | some info => pure info
  | none => throw .nullDereference

/-- The hash of the next commit: `generate_next_root_hash`. -/
def generateNextRootHash (env : ContractStorageEnv) (currentBlockHeight : Nat)
    (oldRootStateHash diffHash : String) : String :=
  env.sha256 (oldRootStateHash ++ diffHash ++ toString currentBlockHeight)

/-- `ordered_json_digest`. -/
def orderedJsonDigest (env : ContractStorageEnv) (value : JsonValue) : String :=
  env.sha256 (env.jsonDumps (nestedJsonObjectToArray value))

/-! ## Rolling commits back -/

/-- The balance found for an asset, updated by `update`, or a new balance
from `fresh` when there is none. -/
def updateBalance (balances : List ContractBalance) (assetId : Nat)
    (update : ContractBalance → Except StorageError Nat) (fresh : Nat) :
    Except StorageError (List ContractBalance) :=
  match balances.findIdx? (fun balance => balance.assetId == assetId) with
  | some index =>
      match balances[index]? with
      | some balance => do
          let amount ← update balance
          .ok (balances.set index { balance with amount := amount })
      | none => .ok balances
  | none => .ok (balances ++ [⟨assetId, fresh⟩])

/-- The balance change of a commit read backwards; a missing balance is
created with the undone amount. -/
def rollbackBalanceChange (change : ContractBalanceChange) : StorageM Unit := do
  let entries ← requireContractInfoObject change.address "contract info not found to transfer balance"
  let info ← requireParsed (← liftStorage (ContractInfo.fromJson (.obj entries)))
  let balances ← liftStorage (updateBalance info.balances change.assetId
    (fun balance => .ok (if change.add then u64Sub balance.amount change.amount
      else u64Add balance.amount change.amount))
    (if change.add then 0 else change.amount))
  putContractInfo change.address { info with balances := balances }.toJson

/-- A storage item of a commit read backwards. -/
def rollbackStorageItem (contractId : String) (item : ContractStorageItemChange) : StorageM Unit := do
  let newValue := getContractStorage (← readDb) contractId item.name
  let oldValue ← liftStorage (liftJsonDiff (rollback newValue item.diff))
  putContractStorage contractId item.name oldValue

/-- A string read back from a rolled back name or description: anything
else reads as the empty string. -/
def stringOrEmpty : JsonValue → String
  | .str s => s
  | _ => ""

/-- An upgrade of a commit read backwards. -/
def rollbackUpgradeInfo (upgrade : ContractUpgradeInfo) : StorageM Unit := do
  let entries ← requireContractInfoObject upgrade.contractId "contract info not found to rollback upgrade"
  let info ← requireParsed (← liftStorage (ContractInfo.fromJson (.obj entries)))
  let oldName ← (match upgrade.nameDiff with
    | some nameDiff => liftStorage (liftJsonDiff (rollback (.str info.name) nameDiff))
    | none => pure (.str info.name))
  let oldDescription ← (match upgrade.descriptionDiff with
    | some descriptionDiff => liftStorage (liftJsonDiff (rollback (.str info.description) descriptionDiff))
    | none => pure (.str info.description))
  let rolledBack := { info with name := stringOrEmpty oldName, description := stringOrEmpty oldDescription }
  putContractInfo upgrade.contractId rolledBack.toJson
  (if info.name ≠ "" then deleteNameMapping info.name else pure ())
  if rolledBack.name ≠ "" then putNameMapping rolledBack.name rolledBack.id

/-- Distinct non-empty transaction ids of some events, sorted as
`std::set<std::string>`. -/
def transactionIds (events : List ContractEventInfo) : List String :=
  sortStrings ((events.map ContractEventInfo.transactionId).filter (· ≠ "")).dedup

/-- A storage-change commit read backwards: balances, storage items and
upgrades in the commit's own order, then its event keys deleted. -/
def rollbackStorageChangeCommit (commitId : String) : StorageM Unit := do
  let db ← readDb
  let changes ← liftStorage (liftFjson do
    let entries ← ((db.commitDiffs.lookup commitId).getD .null).asObject
    ContractChanges.fromJson (.obj entries))
  changes.balanceChanges.forM fun change =>
    if change.isContract then rollbackBalanceChange change else pure ()
  changes.storageChanges.forM fun storageChange =>
    storageChange.items.forM (rollbackStorageItem storageChange.contractId)
  changes.upgradeInfos.forM rollbackUpgradeInfo
  (transactionIds changes.events).forM deleteTransactionEvents
  deleteCommitEvents commitId

/-- A contract-info commit read backwards: the info rolled back through its
diff, deleted when nothing is left, and its name mapping dropped when the
name goes. -/
def rollbackContractInfoCommit (row : ContractCommitInfo) : StorageM Unit := do
  let db ← readDb
  let diffJson := (db.commitDiffs.lookup row.commitId).getD .null
  let info ← requireParsed (← liftStorage (getContractInfo db row.contractId))
  let rolledBackJson ← liftStorage (liftJsonDiff (rollback info.toJson diffJson))
  let rolledBack ← liftStorage (ContractInfo.fromJson rolledBackJson)
  (match rolledBack with
    | none => deleteContractInfo row.contractId
    | some older => putContractInfo row.contractId older.toJson)
  if info.name ≠ "" then
    match rolledBack with
    | some older => if older.name = "" then deleteNameMapping info.name
    | none => deleteNameMapping info.name

/-- One commit read backwards, then its rows and its diff deleted; the diff
key is not recorded. -/
def rollbackCommit (row : ContractCommitInfo) : StorageM Unit := do
  (if row.changeType = contractInfoChangeType then rollbackContractInfoCommit row
    else if row.changeType = contractStorageChangeType then rollbackStorageChangeCommit row.commitId
    else throwStorage ("not supported change type " ++ row.changeType))
  modifyCommitInfos fun rows => rows.filter fun other => other.commitId != row.commitId
  modifyDb fun db => { db with commitDiffs := db.commitDiffs.erase row.commitId }

/-- The rows after a commit, the latest first (all rows for the empty
commit id). -/
def commitsAfter (commitInfos : List ContractCommitInfo) (destCommitId : String) :
    List ContractCommitInfo :=
  let newer :=
    if destCommitId = emptyCommitId then commitInfos
    else match getCommitInfo commitInfos destCommitId with
      | some dest => commitInfos.filter fun row => dest.id < row.id
      | none => []
  newer.mergeSort fun a b => decide (b.id ≤ a.id)

/-- The check that opens a rollback or a reset: the destination is the
empty commit id or a commit of the table. -/
def checkCommitExists (destCommitId : String) : StorageM Unit := do
  if destCommitId ≠ emptyCommitId ∧ (getCommitInfo (← readCommitInfos) destCommitId).isNone then
    throwStorage ("Can't find commit " ++ destCommitId)

/-- The commits after the destination read backwards, the latest first. -/
def rollbackCommitsAfter (destCommitId : String) : StorageM Unit := do
  checkCommitExists destCommitId
  (commitsAfter (← readCommitInfos) destCommitId).forM rollbackCommit

/-- `rollback_to_root_state_hash_without_transactional`. -/
def rollbackToRootStateHashWithoutTransactional (destCommitId : String) : StorageM Unit := do
  rollbackCommitsAfter destCommitId
  writeRootStateHashes destCommitId

/-- The lazy rollback that `save_contract_info` and `commit_contract_changes`
run first when a reset is pending. -/
def rollbackPendingReset : StorageM String := do
  let roots ← readRootStateHashes
  let oldRootStateHash := roots.1
  (if oldRootStateHash ≠ roots.2 then do
    rollbackToRootStateHashWithoutTransactional oldRootStateHash
    if (← readRootStateHashes).1 ≠ oldRootStateHash then
      throw (.assertionFailure "current_root_state_hash() == old_root_state_hash")
  else pure ())
  pure oldRootStateHash

/-! ## The operations -/

/-- The body of `save_contract_info` after the lazy rollback. -/
def saveContractInfoBody (env : ContractStorageEnv) (info : ContractInfo)
    (oldRootStateHash : String) : StorageM String := do
  let db ← readDb
  let oldJson ← (match db.contractInfos.lookup info.id with
    | some value => liftStorage (liftFjson value.asObject)
    | none => pure [])
  let json := info.toJson
  putContractInfo info.id json
  let contractInfoDiff := diff (.obj oldJson) json
  (if info.name ≠ "" then do
    (match db.contractNameIdMappings.lookup info.name with
      | some existing =>
          if existing ≠ info.id then
            throwStorage ("contract name " ++ info.name ++ " existed before")
          else pure ()
      | none => pure ())
    putNameMapping info.name info.id
  else pure ())
  let rootStateHash := generateNextRootHash env (← readBlockHeight) oldRootStateHash
    (orderedJsonDigest env json)
  recordCommit rootStateHash contractInfoChangeType contractInfoDiff info.id
  pure rootStateHash

/-- `save_contract_info`: the lazy rollback inside the transaction. -/
def saveContractInfo (env : ContractStorageEnv) (info : ContractInfo) : StorageM String :=
  transactional do
    let oldRootStateHash ← rollbackPendingReset
    saveContractInfoBody env info oldRootStateHash

/-- One balance change of `commit_contract_changes`: a debit of an asset the
contract does not hold records a zero balance. -/
def applyBalanceChange (change : ContractBalanceChange) : StorageM Unit := do
  let balances ← liftStorage (getContractBalances (← readDb) change.address)
  let balances ← liftStorage (updateBalance balances change.assetId
    (fun balance =>
      if !change.add && balance.amount < change.amount then
        .error (.contractStorageException "contract balance can't be negative")
      else .ok (if change.add then u64Add balance.amount change.amount
        else balance.amount - change.amount))
    (if change.add then change.amount else 0))
  let entries ← requireContractInfoObject change.address "contract info not found to transfer balance"
  putContractInfo change.address
    (.obj (JsonObject.set entries "balances" (.arr (balances.map ContractBalance.toJson))))

/-- A storage item of `commit_contract_changes`. -/
def applyStorageItem (contractId : String) (item : ContractStorageItemChange) : StorageM Unit := do
  let oldValue := getContractStorage (← readDb) contractId item.name
  let newValue ← liftStorage (liftJsonDiff (patch oldValue item.diff))
  putContractStorage contractId item.name newValue

/-- The patched name or description of an upgrade. -/
def patchedString (current : String) : Option JsonValue → Except StorageError String
  | some change => do
      let patched ← liftJsonDiff (patch (.str current) change)
      liftFjson patched.asString
  | none => .ok current

/-- One upgrade of `commit_contract_changes`: only a contract without a name
takes one. -/
def applyUpgradeInfo (upgrade : ContractUpgradeInfo) : StorageM Unit := do
  let entries ← requireContractInfoObject upgrade.contractId "contract info not found to upgrade"
  let info ← requireParsed (← liftStorage (ContractInfo.fromJson (.obj entries)))
  (if info.name ≠ "" then
    throwStorage ("contract " ++ upgrade.contractId ++ " with name can't upgrade again") else pure ())
  let name ← liftStorage (patchedString info.name upgrade.nameDiff)
  let description ← liftStorage (patchedString info.description upgrade.descriptionDiff)
  putContractInfo upgrade.contractId { info with name := name, description := description }.toJson
  (if info.name ≠ "" then deleteNameMapping info.name else pure ())
  if name ≠ "" then putNameMapping name info.id

/-- The events of each non-empty transaction id, ordered by id as the
`std::map` is. -/
def groupTransactionEvents (events : List ContractEventInfo) : List (String × List ContractEventInfo) :=
  (transactionIds events).map fun transactionId =>
    (transactionId, events.filter fun event => event.transactionId = transactionId)

/-- The guarded part of `commit_contract_changes`. -/
def commitContractChangesBody (changes : ContractChanges) (rootStateHash : String) :
    StorageM String := do
  changes.balanceChanges.forM fun change =>
    if change.isContract then applyBalanceChange change else pure ()
  changes.storageChanges.forM fun storageChange =>
    storageChange.items.forM (applyStorageItem storageChange.contractId)
  putCommitEvents rootStateHash (eventsToJson changes.events)
  (groupTransactionEvents changes.events).forM fun (transactionId, events) =>
    putTransactionEvents transactionId (eventsToJson events)
  changes.upgradeInfos.forM applyUpgradeInfo
  recordCommit rootStateHash contractStorageChangeType changes.toJson ""
  pure rootStateHash

/-- `commit_contract_changes`: the lazy rollback and the duplicate check run
before the transaction and its scope guard. -/
def commitContractChanges (env : ContractStorageEnv) (changes : ContractChanges) : StorageM String := do
  let snapshot ← readService
  let oldRootStateHash ← rollbackPendingReset
  if changes.empty then pure oldRootStateHash
  else do
    let rootStateHash := generateNextRootHash env (← readBlockHeight) oldRootStateHash
      (orderedJsonDigest env changes.toJson)
    (if (getCommitInfo (← readCommitInfos) rootStateHash).isSome then
      throwStorage "same commitId existed before" else pure ())
    let commitInfosAtBegin ← readCommitInfos
    guarded snapshot commitInfosAtBegin (commitContractChangesBody changes rootStateHash)

/-- `reset_root_state_hash`: only the root state hash moves; the rollback is
left to the next write. -/
def resetRootStateHash (destCommitId : String) : StorageM Unit := do
  checkCommitExists destCommitId
  putRootStateHash destCommitId

/-- `rollback_contract_state`: the rollback inside a transaction. -/
def rollbackContractState (destCommitId : String) : StorageM Unit :=
  transactional do
    checkCommitExists destCommitId
    rollbackToRootStateHashWithoutTransactional destCommitId

/-- `set_current_block_height`. -/
def setCurrentBlockHeight (height : Nat) : StorageM Unit := fun working =>
  .ok () { working with service := { working.service with currentBlockHeight := height % 2 ^ 32 } }

end UnitedBitcoin.ContractStorage
