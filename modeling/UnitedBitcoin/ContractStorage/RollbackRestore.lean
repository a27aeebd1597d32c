import Mathlib
import UnitedBitcoin.ContractStorage.LazyRollback

/-!
# Failed operations, and what a rollback restores

Each writing operation puts its work under `begin_sql_transaction` and a
scope guard that, on an exception, rolls the SQL transaction back and writes
back from the leveldb snapshot every key in `changed_leveldb_keys`.

* `save_contract_info` and `rollback_contract_state` take the snapshot, begin
  the transaction and install the guard before any write, so a failed call
  leaves the `commit_info` table and every key but the commit diffs as they
  were (`saveContractInfo_error_restores`,
  `rollbackContractState_error_restores`).
* `commit_contract_changes` runs its lazy rollback before the transaction
  begins. With no reset pending it restores as the others do
  (`commitContractChanges_error_restores_of_latest`); with a reset pending, the
  rows the lazy rollback deleted stay deleted and so do the commit diffs it
  erased, which no list records
  (`commitContractChanges_error_after_reset_loses_commit`).

`rollback_contract_state h` after writes that returned, from a state whose
root keys both name `h`, gives back the `commit_info` table and both root keys
exactly (`rollbackContractState_restores_table`): every write that returns
appends at most one row, after every other row and under a commit id the
table does not have, and the rollback deletes precisely the rows after `h`.

The data are another matter. The rollback reads each commit backwards through
inverse code of its own for every kind of change, and the inverse of a balance
change does not undo its forward step when the forward step found no balance
of the asset: a debit of an asset the contract does not hold records a zero
balance (`applyBalanceChange`), `from_json` drops zero balances when the
rollback reads the contract back, and the rollback, finding no balance,
creates one with the debited amount (`rollbackBalanceChange`). The contract
ends up holding what it never held
(`rollbackContractState_after_debit_credits_contract`).
-/

namespace UnitedBitcoin.ContractStorage

open UnitedBitcoin.Json UnitedBitcoin.Library

/-! ## Failed operations and the scope guard -/

/-- A `commit_contract_changes` that throws with no reset pending leaves the
`commit_info` table and every key but the commit diffs as they were: the
duplicate check throws before any write, and the body throws under the
guard. -/
theorem commitContractChanges_error_restores_of_latest (env : ContractStorageEnv)
    (changes : ContractChanges) {service service' : ContractStorageService} {e : StorageError}
    (hlatest : service.rootStateHash = service.topRootStateHash)
    (hrun : runOp (commitContractChanges env changes) service = .error e service') :
    service'.commitInfos = service.commitInfos ∧
      ∀ key, key.isCommitDiff = false → service.AgreeAt service' key := by
  obtain ⟨working', hcommit, rfl⟩ := runOp_eq_error.mp hrun
  rw [commitContractChanges_apply, rollbackPendingReset_of_latest ⟨service, []⟩ hlatest] at hcommit
  simp only at hcommit
  split at hcommit
  · cases hcommit
  · split at hcommit
    · cases hcommit
      exact ⟨rfl, fun key _ => service.agreeAt_refl key⟩
    · exact guarded_error_restores (writeSteps_recordedWrites.toBodySteps.commitContractChangesBody changes _)
        hcommit

/-- A credit of 5 of asset 0 to the contract `c2`, which has not been saved. -/
def creditContractB : ContractChanges := ⟨[⟨0, contractB.id, 5, true, true, ""⟩], [], [], []⟩

/-- With `c1` saved and no reset pending, crediting `c2` throws inside the transaction, and the
table and the keys but the commit diffs are as they were. -/
theorem commitContractChanges_error_restores_creditContractB :
    savedContractA.rootStateHash = savedContractA.topRootStateHash ∧
      ∃ e failed, runOp (commitContractChanges prefixDigestEnv creditContractB) savedContractA = .error e failed ∧
        failed.commitInfos = savedContractA.commitInfos ∧
        ∀ key, key.isCommitDiff = false → savedContractA.AgreeAt failed key := by
  have hlatest : savedContractA.rootStateHash = savedContractA.topRootStateHash := by decide +kernel
  obtain ⟨e, hrun⟩ := eq_error_of_returned_eq_false
    (by decide +kernel :
      returned (runOp (commitContractChanges prefixDigestEnv creditContractB) savedContractA) = false)
  exact ⟨hlatest, e, _, hrun, commitContractChanges_error_restores_of_latest prefixDigestEnv creditContractB hlatest hrun⟩

/-- `c1` saved from empty stores, then `reset_root_state_hash` to the empty
commit id, which leaves the save to be rolled back by the next write. -/
def savedThenReset : ContractStorageService :=
  (ContractStorageOp.resetRootStateHash emptyCommitId).apply prefixDigestEnv savedContractA

/-- A credit of 5 of asset 0 to the contract `c1`. -/
def creditContractA : ContractChanges := ⟨[⟨0, contractA.id, 5, true, true, ""⟩], [], [], []⟩

/-- With the save of `c1` left to roll back, `commit_contract_changes`
crediting `c1` first rolls the save back outside its transaction, then throws
"contract info not found to transfer balance". The guard writes the contract
info back, but the save's row of `commit_info` and its commit diff stay
deleted. -/
theorem commitContractChanges_error_after_reset_loses_commit :
    Reachable prefixDigestEnv savedThenReset ∧
      ∃ e failed, runOp (commitContractChanges prefixDigestEnv creditContractA) savedThenReset =
          .error e failed ∧
        savedThenReset.commitInfos.map (·.commitId) = ["hh0"] ∧ failed.commitInfos = [] ∧
        (savedThenReset.db.commitDiffs.lookup "hh0").isSome ∧
        failed.db.commitDiffs.lookup "hh0" = none ∧
        getContractInfo failed.db contractA.id = getContractInfo savedThenReset.db contractA.id := by
  obtain ⟨e, hrun⟩ := eq_error_of_returned_eq_false
    (by decide +kernel :
      returned (runOp (commitContractChanges prefixDigestEnv creditContractA) savedThenReset) = false)
  refine ⟨.step _ (.step _ .empty), e, _, hrun, ?_⟩
  decide +kernel

/-! ## The table under writes -/

/-- `table'` is `table` with rows appended after all of its rows, each under
a commit id `table` does not have. -/
def TableExtends (table table' : List ContractCommitInfo) : Prop :=
  ∃ rows, table' = table ++ rows ∧
    ∀ row ∈ rows, (∀ old ∈ table, old.id < row.id) ∧ getCommitInfo table row.commitId = none

theorem getCommitInfo_eq_none_iff {table : List ContractCommitInfo} {commitId : String} :
    getCommitInfo table commitId = none ↔ ∀ row ∈ table, row.commitId ≠ commitId := by
  simp [getCommitInfo, List.find?_eq_none]

theorem TableExtends.refl (table : List ContractCommitInfo) : TableExtends table table :=
  ⟨[], by simp, by simp⟩

theorem TableExtends.trans {table table' table'' : List ContractCommitInfo}
    (hfirst : TableExtends table table') (hsecond : TableExtends table' table'') :
    TableExtends table table'' := by
  obtain ⟨rows, rfl, hrows⟩ := hfirst
  obtain ⟨rows', rfl, hrows'⟩ := hsecond
  refine ⟨rows ++ rows', by simp, fun row hrow => ?_⟩
  rcases List.mem_append.mp hrow with hfirstRow | hsecondRow
  · exact hrows row hfirstRow
  · -- a row of the second writes is after, and fresh for, the larger table
    obtain ⟨hafter, hfresh⟩ := hrows' row hsecondRow
    refine ⟨fun old hold => hafter old (List.mem_append_left _ hold), ?_⟩
    rw [getCommitInfo_eq_none_iff] at hfresh ⊢
    exact fun old hold => hfresh old (List.mem_append_left _ hold)

/-- The table of `working'` extends that of `working`. -/
def TableGrows (working working' : Working) : Prop :=
  TableExtends working.service.commitInfos working'.service.commitInfos

instance : Std.Refl TableGrows := ⟨fun working => TableExtends.refl working.service.commitInfos⟩

instance : IsTrans Working TableGrows := ⟨fun _ _ _ hab hbc => hab.trans hbc⟩

theorem tableGrows_of_tableKept {working working' : Working} (h : TableKept working working') :
    TableGrows working working' := by
  unfold TableGrows
  rw [h.1]
  exact TableExtends.refl _

/-- Recording a commit appends its row, or throws before any write. -/
theorem recordCommit_tableGrows (commitId changeType : String) (diff : JsonValue)
    (contractId : String) : Guarantees TableGrows (recordCommit commitId changeType diff contractId) := by
  intro working
  cases hrecord : recordCommit commitId changeType diff contractId working with
  | ok _ working' =>
      obtain ⟨hfresh, htable, -, -⟩ := recordCommit_ok working hrecord
      refine ⟨[⟨nextRowId working.service.commitInfos, commitId, changeType, contractId⟩], htable, ?_⟩
      intro row hrow
      rw [List.mem_singleton.mp hrow]
      exact ⟨fun old hold => id_lt_nextRowId hold, hfresh⟩
  | error e working' =>
      rw [resultState_error, recordCommit_error working hrecord]
      exact refl_of TableGrows working

/-- The body of a write extends the table. -/
theorem bodySteps_tableGrows : BodySteps fun _ x => Guarantees TableGrows x where
  toCompositional := compositional_guarantees TableGrows
  readDb := guarantees_of_imp (fun _ _ => tableGrows_of_tableKept) storeSteps_tableKept.readDb
  readCommitInfos :=
    guarantees_of_imp (fun _ _ => tableGrows_of_tableKept) storeSteps_tableKept.readCommitInfos
  recordedWrite g key hg :=
    guarantees_of_imp (fun _ _ => tableGrows_of_tableKept) (storeSteps_tableKept.recordedWrite g key hg)
  readBlockHeight working := refl_of TableGrows working
  recordCommit := recordCommit_tableGrows

/-- A body that ended by recording its commit left both root keys on it. -/
theorem rootStateHash_eq_top_of_endsWithCommit {env : ContractStorageEnv} {commitId : String}
    {working : Working} (h : EndsWithCommit env commitId working) :
    working.service.rootStateHash = working.service.topRootStateHash := by
  obtain ⟨-, _, _, _, working₀, hrecord⟩ := h
  obtain ⟨-, -, hroot, htop⟩ := recordCommit_ok working₀ hrecord
  rw [hroot, htop]

/-- A write that returns with no reset pending extends the table and leaves
no reset pending. -/
theorem write_ok_of_latest {env : ContractStorageEnv} {write : StorageWrite}
    {service service' : ContractStorageService} {value : String}
    (hroot : service.rootStateHash = service.topRootStateHash)
    (hrun : runOp (write.run env) service = .ok value service') :
    TableExtends service.commitInfos service'.commitInfos ∧
      service'.rootStateHash = service'.topRootStateHash := by
  have hlazy := rollbackPendingReset_of_latest ⟨service, []⟩ hroot
  cases write with
  | saveContractInfo info =>
      obtain ⟨_, _, hpending, working', hbody, rfl⟩ :=
        (saveContractInfo_runOp_eq_ok env info service value service').mp hrun
      rw [hlazy] at hpending
      cases hpending
      exact ⟨guarantees_apply_ok (bodySteps_tableGrows.saveContractInfoBody env info _) hbody,
        rootStateHash_eq_top_of_endsWithCommit
        (triple_saveContractInfoBody env info _ _ value working' trivial hbody)⟩
  | commitContractChanges changes =>
      obtain ⟨_, _, hpending, hrest⟩ :=
        (commitContractChanges_runOp_eq_ok env changes service value service').mp hrun
      rw [hlazy] at hpending
      cases hpending
      unfold CommitReturnsAfter at hrest
      split at hrest
      · -- empty changes: nothing is written
        obtain ⟨-, rfl⟩ := hrest
        exact ⟨TableExtends.refl _, hroot⟩
      · obtain ⟨-, working', hbody, rfl⟩ := hrest
        exact ⟨guarantees_apply_ok (bodySteps_tableGrows.commitContractChangesBody changes _) hbody,
          rootStateHash_eq_top_of_endsWithCommit
          (triple_commitContractChangesBody env changes _ _ value working' trivial hbody)⟩

/-- The services reached from `service` by writes that all returned. -/
inductive WritesReturn (env : ContractStorageEnv) : ContractStorageService → ContractStorageService → Prop where
  | nil (service : ContractStorageService) : WritesReturn env service service
  | cons {service service' service'' : ContractStorageService} (write : StorageWrite) (value : String) :
      runOp (write.run env) service = .ok value service' → WritesReturn env service' service'' →
        WritesReturn env service service''

/-- Writes that all returned, from a state with no reset pending, extend the
table and leave no reset pending. -/
theorem writesReturn_tableExtends {env : ContractStorageEnv} {service service' : ContractStorageService}
    (hroot : service.rootStateHash = service.topRootStateHash) (hwrites : WritesReturn env service service') :
    TableExtends service.commitInfos service'.commitInfos ∧
      service'.rootStateHash = service'.topRootStateHash := by
  induction hwrites with
  | nil => exact ⟨TableExtends.refl _, hroot⟩
  | cons write value hrun _ ih =>
      obtain ⟨hfirst, hroot'⟩ := write_ok_of_latest hroot hrun
      obtain ⟨hrest, hlast⟩ := ih hroot'
      exact ⟨hfirst.trans hrest, hlast⟩

/-! ## The rollback deletes what the writes appended -/

/-- The commits after the top root key of a table extended by later rows are
the later rows. -/
theorem mem_commitsAfter_append {table rows : List ContractCommitInfo} {top : String}
    (hlatest : commitsAfter table top = [])
    (hexists : top = emptyCommitId ∨ (getCommitInfo table top).isSome)
    (hrows : ∀ row ∈ rows, ∀ old ∈ table, old.id < row.id) (row : ContractCommitInfo) :
    row ∈ commitsAfter (table ++ rows) top ↔ row ∈ rows := by
  -- with nothing after the empty commit id, the table is empty
  have htableEmpty : top = emptyCommitId → table = [] := fun hempty =>
    List.eq_nil_iff_forall_not_mem.mpr fun old hold => by
      have hin := mem_commitsAfter.mpr ⟨hold, Or.inl hempty⟩
      simp [hlatest] at hin
  rw [mem_commitsAfter]
  rcases hexists with hempty | hfound
  · simp [htableEmpty hempty, hempty]
  · obtain ⟨dest, hdest⟩ := Option.isSome_iff_exists.mp hfound
    have hdestExtended : getCommitInfo (table ++ rows) top = some dest := by
      unfold getCommitInfo at hdest ⊢
      rw [List.find?_append, hdest]
      rfl
    have hdestMem := (getCommitInfo_eq_some hdest).1
    constructor
    · rintro ⟨hmem, hafter⟩
      rcases List.mem_append.mp hmem with hold | hnew
      · -- a row of the table after the top root key would be in `commitsAfter table top`
        have hempty : top ≠ emptyCommitId := fun h => by
          simp [getCommitInfo, htableEmpty h] at hfound
        have hlt : dest.id < row.id := by
          rcases hafter with h | ⟨dest', hdest', hlt⟩
          · exact absurd h hempty
          · rw [hdestExtended] at hdest'
            cases hdest'
            exact hlt
        have hin : row ∈ commitsAfter table top := mem_commitsAfter.mpr ⟨hold, Or.inr ⟨dest, hdest, hlt⟩⟩
        simp [hlatest] at hin
      · exact hnew
    · intro hnew
      exact ⟨List.mem_append_right _ hnew, Or.inr ⟨dest, hdestExtended, hrows row hnew dest hdestMem⟩⟩

/-- After writes that all returned from a state whose root keys both name an
existing commit `h` with nothing after it, `rollback_contract_state h`, when
it returns, gives back the `commit_info` table and both root keys. -/
theorem rollbackContractState_restores_table {env : ContractStorageEnv}
    {service written rolledBack : ContractStorageService} (hlatest : TopIsLatest service)
    (hroot : service.rootStateHash = service.topRootStateHash)
    (hexists : service.topRootStateHash = emptyCommitId ∨
      (getCommitInfo service.commitInfos service.topRootStateHash).isSome)
    (hwrites : WritesReturn env service written)
    (hrollback : runOp (rollbackContractState service.topRootStateHash) written = .ok () rolledBack) :
    rolledBack.commitInfos = service.commitInfos ∧
      rolledBack.rootStateHash = service.topRootStateHash ∧
      rolledBack.topRootStateHash = service.topRootStateHash := by
  obtain ⟨⟨rows, htable, hrows⟩, -⟩ := writesReturn_tableExtends hroot hwrites
  obtain ⟨working', hrun, rfl⟩ := runOp_eq_ok.mp hrollback
  rw [rollbackContractState, transactional_apply, guarded_eq_ok] at hrun
  obtain ⟨_, checked, hcheck, hrollbackTo⟩ := bind_eq_ok.mp hrun
  obtain ⟨hrootAfter, htopAfter⟩ := rollbackToRootStateHashWithoutTransactional_roots checked hrollbackTo
  refine ⟨?_, hrootAfter, htopAfter⟩
  rw [rollbackToRootStateHashWithoutTransactional_apply] at hrollbackTo
  split at hrollbackTo
  · rename_i working₁ hcommits
    cases hrollbackTo
    have hchecked : checked = ⟨written, []⟩ := by
      rw [checkCommitExists_apply] at hcheck
      split at hcheck
      · cases hcheck
      · cases hcheck
        rfl
    subst hchecked
    show working₁.service.commitInfos = service.commitInfos
    rw [(rollbackCommitsAfter_table _ hcommits).1, htable, List.filter_append]
    -- the rows of the table stay, under ids no later row has; the later rows go
    have hkept : service.commitInfos.filter (fun other => decide (other.commitId ∉
        (commitsAfter (service.commitInfos ++ rows) service.topRootStateHash).map (·.commitId))) =
        service.commitInfos := by
      apply List.filter_eq_self.mpr
      intro old hold
      simp only [decide_eq_true_eq, List.mem_map, not_exists, not_and]
      intro row hrow hid
      have hfresh := (hrows row ((mem_commitsAfter_append hlatest hexists
        (fun row hrow => (hrows row hrow).1) row).mp hrow)).2
      exact getCommitInfo_eq_none_iff.mp hfresh old hold hid.symm
    have hremoved : rows.filter (fun other => decide (other.commitId ∉
        (commitsAfter (service.commitInfos ++ rows) service.topRootStateHash).map (·.commitId))) = [] := by
      apply List.filter_eq_nil_iff.mpr
      intro row hrow
      simp only [decide_eq_true_eq, not_not, List.mem_map]
      exact ⟨row, (mem_commitsAfter_append hlatest hexists (fun row hrow => (hrows row hrow).1) row).mpr
        hrow, rfl⟩
    rw [hkept, hremoved, List.append_nil]
  · cases hrollbackTo

/-- From `c1` saved as commit `hh0`, the save of `c2` returns, and `rollback_contract_state`
back to `hh0` gives the table and both root keys back. -/
theorem rollbackContractState_restores_table_savedContractB :
    TopIsLatest savedContractA ∧ savedContractA.topRootStateHash = "hh0" ∧
      ∃ root written rolledBack,
        runOp (saveContractInfo prefixDigestEnv contractB) savedContractA = .ok root written ∧
        written.commitInfos.length = 2 ∧
        runOp (rollbackContractState "hh0") written = .ok () rolledBack ∧
        rolledBack.commitInfos = savedContractA.commitInfos ∧
        rolledBack.rootStateHash = "hh0" ∧ rolledBack.topRootStateHash = "hh0" := by
  have hlatest : TopIsLatest savedContractA := by decide +kernel
  have htop : savedContractA.topRootStateHash = "hh0" := by decide +kernel
  obtain ⟨root, hsave⟩ := eq_ok_of_returned
    (by decide +kernel : returned (runOp (saveContractInfo prefixDigestEnv contractB) savedContractA) = true)
  obtain ⟨⟨⟩, hrollback⟩ := eq_ok_of_returned
    (by decide +kernel : returned (runOp (rollbackContractState "hh0")
      (resultState (runOp (saveContractInfo prefixDigestEnv contractB) savedContractA))) = true)
  have hwrites : WritesReturn prefixDigestEnv savedContractA
      (resultState (runOp (saveContractInfo prefixDigestEnv contractB) savedContractA)) :=
    .cons (.saveContractInfo contractB) root hsave (.nil _)
  have hrestored := rollbackContractState_restores_table hlatest (by decide +kernel)
    (Or.inr (by decide +kernel)) hwrites (htop ▸ hrollback)
  rw [htop] at hrestored
  exact ⟨hlatest, htop, root, _, _, hsave, by decide +kernel, hrollback, hrestored⟩

/-! ## A balance the contract never held -/

/-- A debit of 5 of asset 0 from the contract `c1`, which holds none. -/
def debitContractA : ContractChanges := ⟨[⟨0, contractA.id, 5, false, true, ""⟩], [], [], []⟩

/-- From the state where `c1` was saved with no balance as commit `hh0`, the
debit is accepted and recorded as a zero balance; `rollback_contract_state`
back to `hh0` then leaves `c1` with a balance of 5 of asset 0. -/
theorem rollbackContractState_after_debit_credits_contract :
    Reachable prefixDigestEnv savedContractA ∧
      savedContractA.rootStateHash = "hh0" ∧ savedContractA.topRootStateHash = "hh0" ∧
      ∃ root committed rolledBack,
        runOp (commitContractChanges prefixDigestEnv debitContractA) savedContractA =
          .ok root committed ∧
        runOp (rollbackContractState "hh0") committed = .ok () rolledBack ∧
        getContractBalances savedContractA.db contractA.id = .ok [] ∧
        getContractBalances committed.db contractA.id = .ok [⟨0, 0⟩] ∧
        getContractBalances rolledBack.db contractA.id = .ok [⟨0, 5⟩] := by
  obtain ⟨root, hcommit⟩ := eq_ok_of_returned
    (by decide +kernel :
      returned (runOp (commitContractChanges prefixDigestEnv debitContractA) savedContractA) = true)
  obtain ⟨⟨⟩, hrollback⟩ := eq_ok_of_returned
    (by decide +kernel : returned (runOp (rollbackContractState "hh0")
      (resultState (runOp (commitContractChanges prefixDigestEnv debitContractA) savedContractA))) = true)
  refine ⟨.step _ .empty, by decide +kernel, by decide +kernel, root, _, _, hcommit, hrollback, ?_⟩
  decide +kernel

end UnitedBitcoin.ContractStorage
