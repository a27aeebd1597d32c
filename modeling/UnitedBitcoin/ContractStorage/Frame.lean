import Mathlib
import UnitedBitcoin.ContractStorage.Steps

/-!
# What the scope guard restores

Every write of the service records the key it changes in
`changed_leveldb_keys`, except the commit diffs that `add_commit_info` puts
and the rollback deletes (`RecordedWrites`). The scope guard puts back the
snapshot's value of every recorded key and rolls the table back to `BEGIN`,
so a `save_contract_info` or `rollback_contract_state` that throws leaves
every key but the commit diffs, and the whole `commit_info` table, as it
found them.

A rollback of commits only deletes rows of `commit_info` and never moves the
top root key (`TableShrinks`).
-/

namespace UnitedBitcoin.ContractStorage

open UnitedBitcoin.Json UnitedBitcoin.Library

/-! ## Agreement -/

theorem Db.AgreeAt.symm {a b : Db} {key : StoreKey} (h : a.AgreeAt b key) : b.AgreeAt a key := by
  cases key <;> simp_all [Db.AgreeAt]

theorem ContractStorageService.AgreeAt.symm {a b : ContractStorageService} {key : StoreKey}
    (h : a.AgreeAt b key) : b.AgreeAt a key := by
  cases key <;> first
    | exact Db.AgreeAt.symm h
    | exact Eq.symm h

/-- The table is not part of the key-value store. -/
@[simp]
theorem ContractStorageService.agreeAt_commitInfos (a b : ContractStorageService)
    (commitInfos : List ContractCommitInfo) (key : StoreKey) :
    a.AgreeAt { b with commitInfos := commitInfos } key ↔ a.AgreeAt b key := by
  cases key <;> rfl

/-- Changing the maps changes the service at map keys only. -/
theorem ContractStorageService.agreeAt_setDb (a : ContractStorageService) (db : Db) {key : StoreKey}
    (h : a.db.AgreeAt db key) : a.AgreeAt { a with db := db } key := by
  cases key <;> first | rfl | exact h

/-! ## Restoring from the snapshot -/

section Restore

variable {κ β : Type} [DecidableEq κ]

theorem lookup_restoreEntry_self (snapshot current : AList (fun _ : κ => β)) (key : κ) :
    (restoreEntry snapshot current key).lookup key = snapshot.lookup key := by
  unfold restoreEntry
  cases hsnap : snapshot.lookup key with
  | some value => simp
  | none => simp

theorem lookup_restoreEntry_of_ne (snapshot current : AList (fun _ : κ => β)) {key other : κ}
    (hne : other ≠ key) : (restoreEntry snapshot current key).lookup other = current.lookup other := by
  unfold restoreEntry
  cases snapshot.lookup key with
  | some value => exact AList.lookup_insert_ne hne
  | none => exact AList.lookup_erase_ne hne

end Restore

/-- A restored key holds the snapshot's value. -/
theorem ContractStorageService.agreeAt_restore_self (snapshot service : ContractStorageService)
    (key : StoreKey) : snapshot.AgreeAt (snapshot.restore service key) key := by
  cases key <;> simp [ContractStorageService.restore, ContractStorageService.AgreeAt, Db.restore,
    Db.AgreeAt, lookup_restoreEntry_self]

/-- Restoring one key leaves every other key alone. -/
theorem ContractStorageService.agreeAt_restore_of_ne (snapshot service : ContractStorageService)
    {key other : StoreKey} (hne : other ≠ key) : service.AgreeAt (snapshot.restore service key) other := by
  cases key <;> cases other <;>
    simp_all [ContractStorageService.restore, ContractStorageService.AgreeAt, Db.restore, Db.AgreeAt,
      lookup_restoreEntry_of_ne]

/-- Restoring a list of keys: the keys of the list hold the snapshot's
values, the others keep theirs. -/
theorem foldl_restore_agreeAt (snapshot : ContractStorageService) (key : StoreKey) :
    ∀ (keys : List StoreKey) (service : ContractStorageService),
      (key ∈ keys → snapshot.AgreeAt (keys.foldl snapshot.restore service) key) ∧
        (key ∉ keys → service.AgreeAt (keys.foldl snapshot.restore service) key)
  | [], service => ⟨fun h => absurd h List.not_mem_nil, fun _ => service.agreeAt_refl key⟩
  | first :: rest, service => by
      have ih := foldl_restore_agreeAt snapshot key rest (snapshot.restore service first)
      rw [List.foldl_cons]
      constructor
      · intro hmem
        by_cases hrest : key ∈ rest
        · exact ih.1 hrest
        · -- the last restore of `key` is this one
          have hfirst : key = first := by simpa [hrest] using hmem
          subst hfirst
          exact (snapshot.agreeAt_restore_self service key).trans (ih.2 hrest)
      · intro hmem
        have hne : key ≠ first := fun h => hmem (h ▸ List.mem_cons_self)
        have hrest : key ∉ rest := fun h => hmem (List.mem_cons_of_mem first h)
        exact (snapshot.agreeAt_restore_of_ne service hne).trans (ih.2 hrest)

/-! ## Recorded writes -/

/-- From `working` to `working'` the changed keys only grew, and every key
that is neither recorded nor a commit diff holds the same value. -/
def RecordedWrites (working working' : Working) : Prop :=
  working.changedKeys <+: working'.changedKeys ∧
    ∀ key, key ∉ working'.changedKeys → key.isCommitDiff = false →
      working.service.AgreeAt working'.service key

instance : Std.Refl RecordedWrites :=
  ⟨fun working => ⟨List.prefix_refl _, fun key _ _ => working.service.agreeAt_refl key⟩⟩

instance : IsTrans Working RecordedWrites :=
  ⟨fun _ _ _ hab hbc => ⟨hab.1.trans hbc.1, fun key hc hdiff =>
    (hab.2 key (fun hb => hc (hbc.1.subset hb)) hdiff).trans (hbc.2 key hc hdiff)⟩⟩

/-- A step that leaves the maps, the root keys and the changed keys alone. -/
theorem recordedWrites_of_store {working working' : Working}
    (hkeys : working'.changedKeys = working.changedKeys)
    (hagree : ∀ key, working.service.AgreeAt working'.service key) : RecordedWrites working working' :=
  ⟨hkeys ▸ List.prefix_refl _, fun key _ _ => hagree key⟩

/-- Every step of a write either records the key it changes or changes a
commit diff. -/
theorem writeSteps_recordedWrites : WriteSteps fun _ x => Guarantees RecordedWrites x where
  toCompositional := compositional_guarantees RecordedWrites
  readDb working := refl_of RecordedWrites working
  readCommitInfos working := refl_of RecordedWrites working
  recordedWrite g key hg working := by
    simp only [estate_bind_apply, modifyDb_apply, recordKey_apply, resultState_ok]
    refine ⟨List.prefix_append _ _, fun other hother _ => ?_⟩
    have hne : other ≠ key := fun h => hother (by simp [h])
    exact working.service.agreeAt_setDb _ (hg _ other hne)
  changeCommitDiffs g hg working :=
    ⟨List.prefix_refl _, fun key _ hkey => working.service.agreeAt_setDb _ (hg _ key hkey)⟩
  removeCommitRows _ working :=
    recordedWrites_of_store rfl fun key => by simp [working.service.agreeAt_refl key]
  readBlockHeight working := refl_of RecordedWrites working
  appendCommitRow _ _ _ working :=
    recordedWrites_of_store rfl fun key => by simp [working.service.agreeAt_refl key]
  writeRootStateHashes commitId working := by
    rw [writeRootStateHashes_apply, resultState_ok]
    refine ⟨List.prefix_append _ _, fun key hkey _ => ?_⟩
    have hroot : key ≠ .rootStateHash := fun h => hkey (by simp [h])
    have htop : key ≠ .topRootStateHash := fun h => hkey (by simp [h])
    exact ContractStorageService.agreeAt_of_db hroot htop (Db.agreeAt_refl _ _)

/-- The scope guard, run on a block that started from the snapshot with no
recorded keys, puts back every key that is not a commit diff. -/
theorem rollbackTransactions_agreeAt {snapshot : ContractStorageService}
    {commitInfosAtBegin : List ContractCommitInfo} {working' : Working}
    (hwrites : RecordedWrites ⟨snapshot, []⟩ working') {key : StoreKey}
    (hkey : key.isCommitDiff = false) :
    snapshot.AgreeAt (rollbackTransactions snapshot commitInfosAtBegin working').service key := by
  have hfold := foldl_restore_agreeAt snapshot key working'.changedKeys working'.service
  simp only [rollbackTransactions, ContractStorageService.agreeAt_commitInfos]
  by_cases hmem : key ∈ working'.changedKeys
  · exact hfold.1 hmem
  · exact (hwrites.2 key hmem hkey).trans (hfold.2 hmem)

/-! ## The lazy rollback records its writes -/

theorem rollbackToRootStateHashWithoutTransactional_recordedWrites (destCommitId : String) :
    Guarantees RecordedWrites (rollbackToRootStateHashWithoutTransactional destCommitId) :=
  guarantees_bind (writeSteps_recordedWrites.rollbackCommitsAfter destCommitId) fun _ =>
    writeSteps_recordedWrites.writeRootStateHashes destCommitId

theorem rollbackPendingReset_recordedWrites : Guarantees RecordedWrites rollbackPendingReset := by
  unfold rollbackPendingReset
  refine guarantees_bind (fun working => refl_of RecordedWrites working) fun roots => ?_
  refine guarantees_bind ?_ fun _ => guarantees_pure _
  split
  · refine guarantees_bind (rollbackToRootStateHashWithoutTransactional_recordedWrites _) fun _ => ?_
    refine guarantees_bind (fun working => refl_of RecordedWrites working) fun _ => ?_
    split
    · exact guarantees_throw _
    · exact guarantees_pure _
  · exact guarantees_pure _

/-! ## Failed operations -/

/-- A guarded block that throws, started from the snapshot with no recorded
keys and with the table as it was then, whose body records every write but
the commit diffs, leaves the `commit_info` table and every key but the commit
diffs as they were. -/
theorem guarded_error_restores {α : Type} {body : StorageM α}
    (hbody : Guarantees RecordedWrites body) {service : ContractStorageService} {working' : Working}
    {e : StorageError} (hrun : guarded service service.commitInfos body ⟨service, []⟩ = .error e working') :
    working'.service.commitInfos = service.commitInfos ∧
      ∀ key, key.isCommitDiff = false → service.AgreeAt working'.service key := by
  cases hblock : body ⟨service, []⟩ with
  | ok value working'' => simp [guarded_of_ok _ hblock] at hrun
  | error e' working'' =>
      rw [guarded_of_error _ hblock] at hrun
      cases hrun
      have hwrites : RecordedWrites ⟨service, []⟩ working'' := by
        simpa [hblock] using hbody ⟨service, []⟩
      exact ⟨rfl, fun key hkey => rollbackTransactions_agreeAt hwrites hkey⟩

/-- A transactional block that throws, whose body records every write but
the commit diffs, leaves the `commit_info` table and every key but the commit
diffs as they were. -/
theorem transactional_error_restores {α : Type} {body : StorageM α}
    (hbody : Guarantees RecordedWrites body) {service service' : ContractStorageService}
    {e : StorageError} (hrun : runOp (transactional body) service = .error e service') :
    service'.commitInfos = service.commitInfos ∧
      ∀ key, key.isCommitDiff = false → service.AgreeAt service' key := by
  unfold runOp transactional at hrun
  simp only [estate_bind_apply, readService_apply, readCommitInfos_apply] at hrun
  cases hguarded : guarded service service.commitInfos body ⟨service, []⟩ with
  | ok value working' => simp [hguarded] at hrun
  | error e' working' =>
      rw [hguarded] at hrun
      cases hrun
      exact guarded_error_restores hbody hguarded

/-- A `save_contract_info` that throws leaves the `commit_info` table and
every key but the commit diffs as they were. -/
theorem saveContractInfo_error_restores (env : ContractStorageEnv) (info : ContractInfo)
    {service service' : ContractStorageService} {e : StorageError}
    (hrun : runOp (saveContractInfo env info) service = .error e service') :
    service'.commitInfos = service.commitInfos ∧
      ∀ key, key.isCommitDiff = false → service.AgreeAt service' key :=
  transactional_error_restores
    (guarantees_bind rollbackPendingReset_recordedWrites fun old =>
      writeSteps_recordedWrites.toBodySteps.saveContractInfoBody env info old) hrun

/-- A `rollback_contract_state` that throws leaves the `commit_info` table
and every key but the commit diffs as they were. -/
theorem rollbackContractState_error_restores (destCommitId : String)
    {service service' : ContractStorageService} {e : StorageError}
    (hrun : runOp (rollbackContractState destCommitId) service = .error e service') :
    service'.commitInfos = service.commitInfos ∧
      ∀ key, key.isCommitDiff = false → service.AgreeAt service' key :=
  transactional_error_restores
    (guarantees_bind (writeSteps_recordedWrites.checkCommitExists destCommitId) fun _ =>
      rollbackToRootStateHashWithoutTransactional_recordedWrites destCommitId) hrun

/-! ## A rollback only deletes rows -/

/-- From `working` to `working'` the table lost the rows of some commit ids
and the top root key did not move. -/
def TableShrinks (working working' : Working) : Prop :=
  (∃ removed : List String, working'.service.commitInfos =
      working.service.commitInfos.filter fun row => row.commitId ∉ removed) ∧
    working'.service.topRootStateHash = working.service.topRootStateHash

instance : Std.Refl TableShrinks :=
  ⟨fun _ => ⟨⟨[], by simp⟩, rfl⟩⟩

instance : IsTrans Working TableShrinks :=
  ⟨fun _ _ _ ⟨⟨removed, hab⟩, htopab⟩ ⟨⟨removed', hbc⟩, htopbc⟩ =>
    ⟨⟨removed ++ removed', by rw [hbc, hab, List.filter_filter]; simp [Bool.and_comm]⟩,
      htopbc.trans htopab⟩⟩

/-- A step that keeps the table and the top root key. -/
theorem tableShrinks_of_keep {working working' : Working}
    (htable : working'.service.commitInfos = working.service.commitInfos)
    (htop : working'.service.topRootStateHash = working.service.topRootStateHash) :
    TableShrinks working working' :=
  ⟨⟨[], by simp [htable]⟩, htop⟩

/-- From `working` to `working'` neither the table nor the top root key
changed. -/
def TableKept (working working' : Working) : Prop :=
  working'.service.commitInfos = working.service.commitInfos ∧
    working'.service.topRootStateHash = working.service.topRootStateHash

instance : Std.Refl TableKept := ⟨fun _ => ⟨rfl, rfl⟩⟩

instance : IsTrans Working TableKept :=
  ⟨fun _ _ _ hab hbc => ⟨hbc.1.trans hab.1, hbc.2.trans hab.2⟩⟩

/-- The programs on the store alone keep the table and the top root key. -/
theorem storeSteps_tableKept : StoreSteps fun _ x => Guarantees TableKept x where
  toCompositional := compositional_guarantees TableKept
  readDb working := refl_of TableKept working
  readCommitInfos working := refl_of TableKept working
  recordedWrite _ _ _ _ := ⟨rfl, rfl⟩

theorem rollbackSteps_tableShrinks : RollbackSteps fun _ x => Guarantees TableShrinks x where
  toCompositional := compositional_guarantees TableShrinks
  readDb working := refl_of TableShrinks working
  readCommitInfos working := refl_of TableShrinks working
  recordedWrite _ _ _ _ := tableShrinks_of_keep rfl rfl
  changeCommitDiffs _ _ _ := tableShrinks_of_keep rfl rfl
  removeCommitRows commitId working :=
    ⟨⟨[commitId], by simp [bne, beq_eq_decide]⟩, rfl⟩

end UnitedBitcoin.ContractStorage
