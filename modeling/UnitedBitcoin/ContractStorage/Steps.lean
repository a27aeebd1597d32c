import Mathlib
import UnitedBitcoin.ContractStorage.Service
import UnitedBitcoin.Library.EStateRules

/-!
# What the steps of the service read and write

The primitive steps of `StorageM` by their effect on a working state, and
the classes of properties that every program of the service inherits from
its steps.

`StoreSteps`, `RollbackSteps` and `WriteSteps` are compositional properties
that hold of the primitive steps of, in turn, the programs that only read and
write the store, the rollback of commits, and the two writing operations.
Each program is taken apart along its own `do` block once, in this module;
a property of the steps then holds of the programs. Two such properties are
proved here: changing the root state hash key (`setRootStateHash`) commutes
with every rollback, so a rollback does not see a pending reset; and putting
earlier keys in front of the changed-keys list (`prependKeys`) commutes with
every write, so an operation does not see what was recorded before it.
-/

namespace UnitedBitcoin.ContractStorage

open UnitedBitcoin.Json UnitedBitcoin.JsonDiff UnitedBitcoin.Library

/-! ## Primitive steps -/

section Primitives

variable (working : Working)

@[simp]
theorem readService_apply : readService working = .ok working.service working := rfl

@[simp]
theorem readDb_apply : readDb working = .ok working.service.db working := rfl

@[simp]
theorem readCommitInfos_apply : readCommitInfos working = .ok working.service.commitInfos working :=
  rfl

@[simp]
theorem readRootStateHashes_apply :
    readRootStateHashes working =
      .ok (working.service.rootStateHash, working.service.topRootStateHash) working := rfl

@[simp]
theorem readBlockHeight_apply :
    readBlockHeight working = .ok working.service.currentBlockHeight working := rfl

@[simp]
theorem modifyDb_apply (f : Db → Db) :
    modifyDb f working =
      .ok () { working with service := { working.service with db := f working.service.db } } := rfl

@[simp]
theorem modifyCommitInfos_apply (f : List ContractCommitInfo → List ContractCommitInfo) :
    modifyCommitInfos f working =
      .ok () { working with
        service := { working.service with commitInfos := f working.service.commitInfos } } := rfl

@[simp]
theorem putRootStateHash_apply (commitId : String) :
    putRootStateHash commitId working =
      .ok () { working with service := { working.service with rootStateHash := commitId } } := rfl

@[simp]
theorem putTopRootStateHash_apply (commitId : String) :
    putTopRootStateHash commitId working =
      .ok () { working with service := { working.service with topRootStateHash := commitId } } :=
  rfl

@[simp]
theorem recordKey_apply (key : StoreKey) :
    recordKey key working = .ok () { working with changedKeys := working.changedKeys ++ [key] } :=
  rfl

@[simp]
theorem liftStorage_ok {α : Type} (value : α) : liftStorage (.ok value) working = .ok value working :=
  rfl

@[simp]
theorem liftStorage_error {α : Type} (e : StorageError) :
    (liftStorage (.error e) : StorageM α) working = .error e working := rfl

@[simp]
theorem throwStorage_apply {α : Type} (msg : String) :
    (throwStorage msg : StorageM α) working = .error (.contractStorageException msg) working := rfl

@[simp]
theorem requireParsed_some (info : ContractInfo) :
    requireParsed (some info) working = .ok info working := rfl

@[simp]
theorem requireParsed_none : requireParsed none working = .error .nullDereference working := rfl

/-- Writing both root keys forgets what the root key held before. -/
theorem writeRootStateHashes_apply (commitId : String) :
    writeRootStateHashes commitId working =
      .ok () { service := { working.service with
                 rootStateHash := commitId, topRootStateHash := commitId }
               changedKeys := working.changedKeys ++ [.rootStateHash, .topRootStateHash] } := by
  simp [writeRootStateHashes, estate_bind_apply]

/-- A guarded block that returns passes its result through. -/
theorem guarded_of_ok {α : Type} {snapshot : ContractStorageService}
    {commitInfosAtBegin : List ContractCommitInfo} {body : StorageM α} {value : α}
    {working' : Working} (h : body working = .ok value working') :
    guarded snapshot commitInfosAtBegin body working = .ok value working' := by
  simp [guarded, h]

/-- A guarded block that throws rethrows after the scope guard has run. -/
theorem guarded_of_error {α : Type} {snapshot : ContractStorageService}
    {commitInfosAtBegin : List ContractCommitInfo} {body : StorageM α} {e : StorageError}
    {working' : Working} (h : body working = .error e working') :
    guarded snapshot commitInfosAtBegin body working =
      .error e (rollbackTransactions snapshot commitInfosAtBegin working') := by
  simp [guarded, h]

/-- A guarded block returns only when its body returns. -/
theorem guarded_eq_ok {α : Type} {snapshot : ContractStorageService}
    {commitInfosAtBegin : List ContractCommitInfo} {body : StorageM α} {value : α}
    {working' : Working} :
    guarded snapshot commitInfosAtBegin body working = .ok value working' ↔
      body working = .ok value working' := by
  unfold guarded
  cases body working <;> simp

end Primitives

/-! ## The two state maps -/

/-- The root state hash key set to `commitId`, as `reset_root_state_hash`
leaves it. -/
def Working.setRootStateHash (commitId : String) (working : Working) : Working :=
  { working with service := { working.service with rootStateHash := commitId } }

/-- Keys recorded before the operation put in front of its changed keys. -/
def Working.prependKeys (keys : List StoreKey) (working : Working) : Working :=
  { working with changedKeys := keys ++ working.changedKeys }

@[simp]
theorem Working.setRootStateHash_service (commitId : String) (working : Working) :
    (working.setRootStateHash commitId).service =
      { working.service with rootStateHash := commitId } := rfl

@[simp]
theorem Working.prependKeys_service (keys : List StoreKey) (working : Working) :
    (working.prependKeys keys).service = working.service := rfl

@[simp]
theorem Working.prependKeys_nil (working : Working) : working.prependKeys [] = working := rfl

/-! ## Agreement at a key -/

/-- The commit diffs are the keys that `add_commit_info` writes and the
rollback deletes without recording them. -/
def StoreKey.isCommitDiff : StoreKey → Bool
  | .commitDiff _ => true
  | _ => false

/-- Two stores hold the same value at a key; the root keys are not in the
maps. -/
def Db.AgreeAt (a b : Db) : StoreKey → Prop
  | .contractInfo id => a.contractInfos.lookup id = b.contractInfos.lookup id
  | .contractStorage id name => a.contractStorages.lookup (id, name) = b.contractStorages.lookup (id, name)
  | .commitEvents id => a.commitEvents.lookup id = b.commitEvents.lookup id
  | .transactionEvents id => a.transactionEvents.lookup id = b.transactionEvents.lookup id
  | .contractNameIdMapping name =>
      a.contractNameIdMappings.lookup name = b.contractNameIdMappings.lookup name
  | .rootStateHash | .topRootStateHash => True
  | .commitDiff id => a.commitDiffs.lookup id = b.commitDiffs.lookup id

/-- Two services hold the same value at a key of the key-value store. -/
def ContractStorageService.AgreeAt (a b : ContractStorageService) : StoreKey → Prop
  | .rootStateHash => a.rootStateHash = b.rootStateHash
  | .topRootStateHash => a.topRootStateHash = b.topRootStateHash
  | key => a.db.AgreeAt b.db key

theorem Db.agreeAt_refl (a : Db) (key : StoreKey) : a.AgreeAt a key := by
  cases key <;> trivial

theorem Db.AgreeAt.trans {a b c : Db} {key : StoreKey} (hab : a.AgreeAt b key)
    (hbc : b.AgreeAt c key) : a.AgreeAt c key := by
  cases key <;> simp_all [Db.AgreeAt]

theorem ContractStorageService.agreeAt_refl (a : ContractStorageService) (key : StoreKey) :
    a.AgreeAt a key := by
  cases key <;> rfl

theorem ContractStorageService.AgreeAt.trans {a b c : ContractStorageService} {key : StoreKey}
    (hab : a.AgreeAt b key) (hbc : b.AgreeAt c key) : a.AgreeAt c key := by
  cases key <;> first
    | exact Db.AgreeAt.trans hab hbc
    | exact Eq.trans hab hbc

/-- Agreement of services at a map key is agreement of their stores. -/
theorem ContractStorageService.agreeAt_of_db {a b : ContractStorageService} {key : StoreKey}
    (hroot : key ≠ .rootStateHash) (htop : key ≠ .topRootStateHash) (h : a.db.AgreeAt b.db key) :
    a.AgreeAt b key := by
  cases key <;> first | exact h | exact absurd rfl hroot | exact absurd rfl htop

/-- `g` changes the store at `key` only. -/
def Db.ChangesOnly (g : Db → Db) (key : StoreKey) : Prop :=
  ∀ (db : Db) (other : StoreKey), other ≠ key → db.AgreeAt (g db) other

/-- `g` changes commit diffs only. -/
def Db.ChangesOnlyCommitDiffs (g : Db → Db) : Prop :=
  ∀ (db : Db) (key : StoreKey), key.isCommitDiff = false → db.AgreeAt (g db) key

section ChangesOnly

variable {κ β : Type} [DecidableEq κ]

/-- A change of one map that keeps every other key of that map. -/
def KeepsOtherKeys (g : AList (fun _ : κ => β) → AList (fun _ : κ => β)) (key : κ) : Prop :=
  ∀ entries other, other ≠ key → (g entries).lookup other = entries.lookup other

theorem keepsOtherKeys_insert (key : κ) (value : β) :
    KeepsOtherKeys (fun entries : AList (fun _ : κ => β) => entries.insert key value) key :=
  fun _ _ hne => AList.lookup_insert_ne hne

theorem keepsOtherKeys_erase (key : κ) :
    KeepsOtherKeys (fun entries : AList (fun _ : κ => β) => entries.erase key) key :=
  fun _ _ hne => AList.lookup_erase_ne hne

end ChangesOnly

theorem changesOnly_contractInfos {g : AList (fun _ : String => JsonValue) → _} {id : String}
    (hg : KeepsOtherKeys g id) :
    Db.ChangesOnly (fun db => { db with contractInfos := g db.contractInfos }) (.contractInfo id) := by
  intro db other hne
  cases other with
  | contractInfo other => exact (hg _ other fun h => hne (h ▸ rfl)).symm
  | _ => first | rfl | trivial

theorem changesOnly_contractStorages {g : AList (fun _ : String × String => JsonValue) → _}
    {id name : String} (hg : KeepsOtherKeys g (id, name)) :
    Db.ChangesOnly (fun db => { db with contractStorages := g db.contractStorages })
      (.contractStorage id name) := by
  intro db other hne
  cases other with
  | contractStorage otherId otherName =>
      exact (hg _ (otherId, otherName) fun h => hne (by cases h; rfl)).symm
  | _ => first | rfl | trivial

theorem changesOnly_commitEvents {g : AList (fun _ : String => JsonValue) → _} {id : String}
    (hg : KeepsOtherKeys g id) :
    Db.ChangesOnly (fun db => { db with commitEvents := g db.commitEvents }) (.commitEvents id) := by
  intro db other hne
  cases other with
  | commitEvents other => exact (hg _ other fun h => hne (h ▸ rfl)).symm
  | _ => first | rfl | trivial

theorem changesOnly_transactionEvents {g : AList (fun _ : String => JsonValue) → _} {id : String}
    (hg : KeepsOtherKeys g id) :
    Db.ChangesOnly (fun db => { db with transactionEvents := g db.transactionEvents })
      (.transactionEvents id) := by
  intro db other hne
  cases other with
  | transactionEvents other => exact (hg _ other fun h => hne (h ▸ rfl)).symm
  | _ => first | rfl | trivial

theorem changesOnly_contractNameIdMappings {g : AList (fun _ : String => String) → _} {name : String}
    (hg : KeepsOtherKeys g name) :
    Db.ChangesOnly (fun db => { db with contractNameIdMappings := g db.contractNameIdMappings })
      (.contractNameIdMapping name) := by
  intro db other hne
  cases other with
  | contractNameIdMapping other => exact (hg _ other fun h => hne (h ▸ rfl)).symm
  | _ => first | rfl | trivial

theorem changesOnlyCommitDiffs (g : AList (fun _ : String => JsonValue) → _) :
    Db.ChangesOnlyCommitDiffs (fun db => { db with commitDiffs := g db.commitDiffs }) := by
  intro db key hkey
  cases key with
  | commitDiff => simp [StoreKey.isCommitDiff] at hkey
  | _ => first | rfl | trivial

/-! ## Properties of every step -/

/-- A compositional property of service programs that holds of the reads of
the store and the table and of a write of the store followed by recording
the key it changes: the steps of every program that neither touches the table
nor the root keys. -/
structure StoreSteps (P : ∀ α : Type, StorageM α → Prop) : Prop extends Compositional P where
  readDb : P _ readDb
  readCommitInfos : P _ readCommitInfos
  recordedWrite : ∀ g key, Db.ChangesOnly g key → P _ (modifyDb g >>= fun _ => recordKey key)

/-- A property of the store steps that also holds of the steps a rollback of
commits adds: a change of commit diffs and the deletion of a commit's rows. -/
structure RollbackSteps (P : ∀ α : Type, StorageM α → Prop) : Prop extends StoreSteps P where
  changeCommitDiffs : ∀ g, Db.ChangesOnlyCommitDiffs g → P _ (modifyDb g)
  removeCommitRows : ∀ commitId,
    P _ (modifyCommitInfos fun rows => rows.filter fun other => other.commitId != commitId)

/-- A compositional property that also holds of the steps a write adds: the
block height, a new row of `commit_info`, and the two root keys written and
recorded. -/
structure WriteSteps (P : ∀ α : Type, StorageM α → Prop) : Prop extends RollbackSteps P where
  readBlockHeight : P _ readBlockHeight
  appendCommitRow : ∀ commitId changeType contractId,
    P _ (modifyCommitInfos fun rows => rows ++ [⟨nextRowId rows, commitId, changeType, contractId⟩])
  writeRootStateHashes : ∀ commitId, P _ (writeRootStateHashes commitId)

/-- A compositional property of the store steps that also holds of the
block height and of recording a commit: the steps of the body of a write. -/
structure BodySteps (P : ∀ α : Type, StorageM α → Prop) : Prop extends StoreSteps P where
  readBlockHeight : P _ readBlockHeight
  recordCommit : ∀ commitId changeType diff contractId,
    P _ (recordCommit commitId changeType diff contractId)

section StorePrograms

variable {P : ∀ α : Type, StorageM α → Prop} (hP : StoreSteps P)
include hP

theorem StoreSteps.liftStorage {α : Type} (x : Except StorageError α) : P _ (liftStorage x) := by
  cases x with
  | ok value => exact hP.pure value
  | error e => exact hP.throw e

theorem StoreSteps.throwStorage {α : Type} (msg : String) : P α (throwStorage msg) :=
  hP.throw _

theorem StoreSteps.requireParsed (info : Option ContractInfo) : P _ (requireParsed info) := by
  cases info with
  | some info => exact hP.pure info
  | none => exact hP.throw _

theorem StoreSteps.putContractInfo (contractId : String) (value : JsonValue) :
    P _ (putContractInfo contractId value) :=
  hP.recordedWrite _ _ (changesOnly_contractInfos (keepsOtherKeys_insert _ _))

theorem StoreSteps.deleteContractInfo (contractId : String) : P _ (deleteContractInfo contractId) :=
  hP.recordedWrite _ _ (changesOnly_contractInfos (keepsOtherKeys_erase _))

theorem StoreSteps.putNameMapping (name contractId : String) :
    P _ (putNameMapping name contractId) :=
  hP.recordedWrite _ _ (changesOnly_contractNameIdMappings (keepsOtherKeys_insert _ _))

theorem StoreSteps.deleteNameMapping (name : String) : P _ (deleteNameMapping name) :=
  hP.recordedWrite _ _ (changesOnly_contractNameIdMappings (keepsOtherKeys_erase _))

theorem StoreSteps.putContractStorage (contractId storageName : String) (value : JsonValue) :
    P _ (putContractStorage contractId storageName value) :=
  hP.recordedWrite _ _ (changesOnly_contractStorages (keepsOtherKeys_insert _ _))

theorem StoreSteps.putTransactionEvents (transactionId : String) (value : JsonValue) :
    P _ (putTransactionEvents transactionId value) :=
  hP.recordedWrite _ _ (changesOnly_transactionEvents (keepsOtherKeys_insert _ _))

theorem StoreSteps.deleteTransactionEvents (transactionId : String) :
    P _ (deleteTransactionEvents transactionId) :=
  hP.recordedWrite _ _ (changesOnly_transactionEvents (keepsOtherKeys_erase _))

theorem StoreSteps.putCommitEvents (commitId : String) (value : JsonValue) :
    P _ (putCommitEvents commitId value) :=
  hP.recordedWrite _ _ (changesOnly_commitEvents (keepsOtherKeys_insert _ _))

theorem StoreSteps.deleteCommitEvents (commitId : String) : P _ (deleteCommitEvents commitId) :=
  hP.recordedWrite _ _ (changesOnly_commitEvents (keepsOtherKeys_erase _))

theorem StoreSteps.requireContractInfoObject (contractId notFound : String) :
    P _ (requireContractInfoObject contractId notFound) := by
  apply hP.bind hP.readDb
  intro db
  split
  · exact hP.throwStorage _
  · exact hP.pure _
  · exact hP.throwStorage _

theorem StoreSteps.checkCommitExists (destCommitId : String) : P _ (checkCommitExists destCommitId) := by
  apply hP.bind hP.readCommitInfos
  intro commitInfos
  split
  · exact hP.throwStorage _
  · exact hP.pure _

theorem StoreSteps.rollbackBalanceChange (change : ContractBalanceChange) :
    P _ (rollbackBalanceChange change) := by
  apply hP.bind (hP.requireContractInfoObject _ _)
  intro entries
  apply hP.bind (hP.liftStorage _)
  intro parsed
  apply hP.bind (hP.requireParsed _)
  intro info
  apply hP.bind (hP.liftStorage _)
  intro balances
  exact hP.putContractInfo _ _

theorem StoreSteps.rollbackStorageItem (contractId : String) (item : ContractStorageItemChange) :
    P _ (rollbackStorageItem contractId item) := by
  apply hP.bind hP.readDb
  intro db
  apply hP.bind (hP.liftStorage _)
  intro oldValue
  exact hP.putContractStorage _ _ _

theorem StoreSteps.rollbackUpgradeInfo (upgrade : ContractUpgradeInfo) :
    P _ (rollbackUpgradeInfo upgrade) := by
  apply hP.bind (hP.requireContractInfoObject _ _)
  intro entries
  apply hP.bind (hP.liftStorage _)
  intro parsed
  apply hP.bind (hP.requireParsed _)
  intro info
  -- the rolled back name and description, each read through its diff if any
  apply hP.bind
  · split
    · exact hP.liftStorage _
    · exact hP.pure _
  intro oldName
  apply hP.bind
  · split
    · exact hP.liftStorage _
    · exact hP.pure _
  intro oldDescription
  apply hP.bind (hP.putContractInfo _ _)
  intro _
  apply hP.bind
  · split
    · exact hP.deleteNameMapping _
    · exact hP.pure _
  intro _
  split
  · exact hP.putNameMapping _ _
  · exact hP.pure _

theorem StoreSteps.rollbackStorageChangeCommit (commitId : String) :
    P _ (rollbackStorageChangeCommit commitId) := by
  apply hP.bind hP.readDb
  intro db
  apply hP.bind (hP.liftStorage _)
  intro changes
  apply hP.bind
  · apply hP.forM
    intro change _
    split
    · exact hP.rollbackBalanceChange change
    · exact hP.pure _
  intro _
  apply hP.bind
  · apply hP.forM
    intro storageChange _
    exact hP.forM _ _ fun item _ => hP.rollbackStorageItem _ item
  intro _
  apply hP.bind (hP.forM _ _ fun upgrade _ => hP.rollbackUpgradeInfo upgrade)
  intro _
  apply hP.bind (hP.forM _ _ fun transactionId _ => hP.deleteTransactionEvents transactionId)
  intro _
  exact hP.deleteCommitEvents _

theorem StoreSteps.rollbackContractInfoCommit (row : ContractCommitInfo) :
    P _ (rollbackContractInfoCommit row) := by
  apply hP.bind hP.readDb
  intro db
  apply hP.bind (hP.liftStorage _)
  intro parsed
  apply hP.bind (hP.requireParsed _)
  intro info
  apply hP.bind (hP.liftStorage _)
  intro rolledBackJson
  apply hP.bind (hP.liftStorage _)
  intro rolledBack
  apply hP.bind
  · split
    · exact hP.deleteContractInfo _
    · exact hP.putContractInfo _ _
  intro _
  -- the name mapping goes when the rolled back info has no name
  split
  · split
    · split
      · exact hP.deleteNameMapping _
      · exact hP.pure _
    · exact hP.deleteNameMapping _
  · exact hP.pure _

theorem StoreSteps.applyBalanceChange (change : ContractBalanceChange) :
    P _ (applyBalanceChange change) := by
  apply hP.bind hP.readDb
  intro db
  apply hP.bind (hP.liftStorage _)
  intro balances
  apply hP.bind (hP.liftStorage _)
  intro updated
  apply hP.bind (hP.requireContractInfoObject _ _)
  intro entries
  exact hP.putContractInfo _ _

theorem StoreSteps.applyStorageItem (contractId : String) (item : ContractStorageItemChange) :
    P _ (applyStorageItem contractId item) := by
  apply hP.bind hP.readDb
  intro db
  apply hP.bind (hP.liftStorage _)
  intro newValue
  exact hP.putContractStorage _ _ _

theorem StoreSteps.applyUpgradeInfo (upgrade : ContractUpgradeInfo) :
    P _ (applyUpgradeInfo upgrade) := by
  apply hP.bind (hP.requireContractInfoObject _ _)
  intro entries
  apply hP.bind (hP.liftStorage _)
  intro parsed
  apply hP.bind (hP.requireParsed _)
  intro info
  apply hP.bind
  · split
    · exact hP.throwStorage _
    · exact hP.pure _
  intro _
  apply hP.bind (hP.liftStorage _)
  intro name
  apply hP.bind (hP.liftStorage _)
  intro description
  apply hP.bind (hP.putContractInfo _ _)
  intro _
  apply hP.bind
  · split
    · exact hP.deleteNameMapping _
    · exact hP.pure _
  intro _
  split
  · exact hP.putNameMapping _ _
  · exact hP.pure _

end StorePrograms

section RollbackPrograms

variable {P : ∀ α : Type, StorageM α → Prop} (hP : RollbackSteps P)
include hP

theorem RollbackSteps.rollbackCommit (row : ContractCommitInfo) : P _ (rollbackCommit row) := by
  apply hP.bind
  · split
    · exact hP.rollbackContractInfoCommit row
    · split
      · exact hP.rollbackStorageChangeCommit _
      · exact hP.throwStorage _
  intro _
  exact hP.bind (hP.removeCommitRows _) fun _ => hP.changeCommitDiffs _ (changesOnlyCommitDiffs _)

theorem RollbackSteps.rollbackCommitsAfter (destCommitId : String) :
    P _ (rollbackCommitsAfter destCommitId) := by
  apply hP.bind (hP.checkCommitExists _)
  intro _
  apply hP.bind hP.readCommitInfos
  intro commitInfos
  exact hP.forM _ _ fun row _ => hP.rollbackCommit row

end RollbackPrograms

section WritePrograms

variable {P : ∀ α : Type, StorageM α → Prop} (hP : WriteSteps P)
include hP

theorem WriteSteps.addCommitInfo (commitId changeType : String) (diff : JsonValue)
    (contractId : String) : P _ (addCommitInfo commitId changeType diff contractId) := by
  apply hP.bind hP.readCommitInfos
  intro commitInfos
  apply hP.bind
  · split
    · exact hP.throwStorage _
    · exact hP.pure _
  intro _
  exact hP.bind (hP.appendCommitRow _ _ _) fun _ => hP.changeCommitDiffs _ (changesOnlyCommitDiffs _)

theorem WriteSteps.recordCommit (commitId changeType : String) (diff : JsonValue)
    (contractId : String) : P _ (recordCommit commitId changeType diff contractId) :=
  hP.bind (hP.addCommitInfo _ _ _ _) fun _ => hP.writeRootStateHashes _

/-- Every write step is a step of a body. -/
theorem WriteSteps.toBodySteps : BodySteps P where
  toStoreSteps := hP.toStoreSteps
  readBlockHeight := hP.readBlockHeight
  recordCommit := hP.recordCommit

end WritePrograms

section BodyPrograms

variable {P : ∀ α : Type, StorageM α → Prop} (hP : BodySteps P)
include hP

theorem BodySteps.saveContractInfoBody (env : ContractStorageEnv) (info : ContractInfo)
    (oldRootStateHash : String) : P _ (saveContractInfoBody env info oldRootStateHash) := by
  apply hP.bind hP.readDb
  intro db
  apply hP.bind
  · split
    · exact hP.liftStorage _
    · exact hP.pure _
  intro oldJson
  apply hP.bind (hP.putContractInfo _ _)
  intro _
  apply hP.bind
  · split
    · -- a named contract: the uniqueness check, then its mapping
      apply hP.bind
      · split
        · split
          · exact hP.throwStorage _
          · exact hP.pure _
        · exact hP.pure _
      intro _
      exact hP.putNameMapping _ _
    · exact hP.pure _
  intro _
  apply hP.bind hP.readBlockHeight
  intro height
  exact hP.bind (hP.recordCommit _ _ _ _) fun _ => hP.pure _

theorem BodySteps.commitContractChangesBody (changes : ContractChanges) (rootStateHash : String) :
    P _ (commitContractChangesBody changes rootStateHash) := by
  apply hP.bind
  · apply hP.forM
    intro change _
    split
    · exact hP.applyBalanceChange change
    · exact hP.pure _
  intro _
  apply hP.bind
  · apply hP.forM
    intro storageChange _
    exact hP.forM _ _ fun item _ => hP.applyStorageItem _ item
  intro _
  apply hP.bind (hP.putCommitEvents _ _)
  intro _
  apply hP.bind (hP.forM _ _ fun entry _ => hP.putTransactionEvents _ _)
  intro _
  apply hP.bind (hP.forM _ _ fun upgrade _ => hP.applyUpgradeInfo upgrade)
  intro _
  exact hP.bind (hP.recordCommit _ _ _ _) fun _ => hP.pure _

end BodyPrograms

/-! ## The two state maps commute with the steps -/

/-- A rollback does not see the root key. -/
theorem rollbackSteps_setRootStateHash (commitId : String) :
    RollbackSteps fun _ x => Commutes (Working.setRootStateHash commitId) x where
  toCompositional := compositional_commutes _
  readDb _ := rfl
  readCommitInfos _ := rfl
  recordedWrite _ _ _ _ := rfl
  changeCommitDiffs _ _ _ := rfl
  removeCommitRows _ _ := rfl

/-- A write does not see the keys recorded before it. -/
theorem writeSteps_prependKeys (keys : List StoreKey) :
    WriteSteps fun _ x => Commutes (Working.prependKeys keys) x where
  toCompositional := compositional_commutes _
  readDb _ := rfl
  readCommitInfos _ := rfl
  recordedWrite _ _ _ _ := by simp [Working.prependKeys, estate_bind_apply]
  changeCommitDiffs _ _ _ := rfl
  removeCommitRows _ _ := rfl
  readBlockHeight _ := rfl
  appendCommitRow _ _ _ _ := rfl
  writeRootStateHashes _ _ := by simp [writeRootStateHashes_apply, Working.prependKeys]

end UnitedBitcoin.ContractStorage
