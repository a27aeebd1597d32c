import Mathlib
import UnitedBitcoin.ContractStorage.Invariant

/-!
# The lazy rollback against the eager one

`reset_root_state_hash` only moves `ROOT_STATE_HASH`; the rollback of the
commits after it is left to the next `save_contract_info` or
`commit_contract_changes`, which runs
`rollback_to_root_state_hash_without_transactional` first when the root key is
not the top one. This module compares that with `rollback_contract_state`.

* The reads do not see a pending reset: right after `reset_root_state_hash`
  they still return the data of the commits the reset has not undone
  (`getContractInfo_after_reset_differs`).
* From the next write on, the two agree: in every reachable state, a write
  after `reset_root_state_hash d` returns a result and a service exactly when
  `rollback_contract_state d` returns and the same write after it returns the
  same result and the same service.

The proof goes through the lazy rollback. It rolls back from the state the
reset left, which differs from the eager one only in the root key, and the
rollback never reads that key (`rollbackSteps_setRootStateHash`); when the
reset names the top commit itself there is nothing to roll back
(`TopIsLatest`). The write then runs its body after keys it did not record,
which it never reads (`writeSteps_prependKeys`).
-/

namespace UnitedBitcoin.ContractStorage

open UnitedBitcoin.Json UnitedBitcoin.Library

/-! ## The rollback does not read the root key -/

/-- The rollback from a state whose root key was moved ends as the rollback
from the state before, unless it throws. -/
theorem rollbackToRootStateHashWithoutTransactional_setRootStateHash
    (destCommitId commitId : String) (working : Working) :
    rollbackToRootStateHashWithoutTransactional destCommitId (working.setRootStateHash commitId) =
      match rollbackToRootStateHashWithoutTransactional destCommitId working with
      | .ok value working' => .ok value working'
      | .error e working' => .error e (working'.setRootStateHash commitId) := by
  have hcommutes := (rollbackSteps_setRootStateHash commitId).rollbackCommitsAfter destCommitId working
  rw [rollbackToRootStateHashWithoutTransactional_apply, hcommutes,
    rollbackToRootStateHashWithoutTransactional_apply]
  cases rollbackCommitsAfter destCommitId working with
  | ok _ working' => simp [Working.setRootStateHash]
  | error e working' => rfl

/-- With no commit after the destination, the rollback only checks it. -/
theorem rollbackCommitsAfter_of_nil {destCommitId : String} {working : Working}
    (hcheck : checkCommitExists destCommitId working = .ok () working)
    (hnil : commitsAfter working.service.commitInfos destCommitId = []) :
    rollbackCommitsAfter destCommitId working = .ok () working := by
  unfold rollbackCommitsAfter
  rw [bind_apply_of_ok hcheck, bind_apply_of_ok (readCommitInfos_apply working), hnil]
  rfl

/-! ## The three operations -/

section Operations

variable {service : ContractStorageService} {destCommitId : String}

/-- A reset returns when its destination exists, and moves the root key
only. -/
theorem resetRootStateHash_eq_ok {resetService : ContractStorageService} :
    runOp (resetRootStateHash destCommitId) service = .ok () resetService ↔
      checkCommitExists destCommitId ⟨service, []⟩ = .ok () ⟨service, []⟩ ∧
        resetService = { service with rootStateHash := destCommitId } := by
  rw [runOp_eq_ok, resetRootStateHash_apply, checkCommitExists_apply]
  by_cases hmissing : destCommitId ≠ emptyCommitId ∧
      (getCommitInfo service.commitInfos destCommitId).isNone
  · simp only [if_pos hmissing]
    simp
  · simp only [if_neg hmissing]
    constructor
    · rintro ⟨working', hreset, rfl⟩
      cases hreset
      exact ⟨trivial, rfl⟩
    · rintro ⟨-, rfl⟩
      exact ⟨_, rfl, rfl⟩

/-- Once its destination exists, `rollback_contract_state` returns exactly
when the rollback under its guard does. -/
theorem rollbackContractState_eq_ok {rolledBack : ContractStorageService}
    (hcheck : checkCommitExists destCommitId ⟨service, []⟩ = .ok () ⟨service, []⟩) :
    runOp (rollbackContractState destCommitId) service = .ok () rolledBack ↔
      ∃ working', rollbackToRootStateHashWithoutTransactional destCommitId ⟨service, []⟩ =
        .ok () working' ∧ working'.service = rolledBack := by
  rw [runOp_eq_ok]
  simp only [rollbackContractState, transactional_apply, guarded_eq_ok, bind_apply_of_ok hcheck]

/-- The rollback to the top root key, in a state where no commit comes after
it, only writes both root keys. -/
theorem rollbackToRootStateHashWithoutTransactional_top (hlatest : TopIsLatest service)
    (hcheck : checkCommitExists service.topRootStateHash ⟨service, []⟩ = .ok () ⟨service, []⟩) :
    rollbackToRootStateHashWithoutTransactional service.topRootStateHash ⟨service, []⟩ =
      .ok () ⟨{ service with rootStateHash := service.topRootStateHash },
        [.rootStateHash, .topRootStateHash]⟩ := by
  rw [rollbackToRootStateHashWithoutTransactional_apply, rollbackCommitsAfter_of_nil hcheck hlatest]
  rfl

end Operations

/-! ## The lazy rollback reaches the eager one -/

section Lazy

variable {service : ContractStorageService} {destCommitId : String}
  (hlatest : TopIsLatest service)
  (hcheck : checkCommitExists destCommitId ⟨service, []⟩ = .ok () ⟨service, []⟩)
include hlatest hcheck

/-- After a reset to `destCommitId`, the lazy rollback returns `destCommitId`
in a state of service `rolledBack` exactly when `rollback_contract_state`
returns in `rolledBack`. -/
theorem rollbackPendingReset_after_reset (oldRootStateHash : String)
    (rolledBack : ContractStorageService) :
    (∃ working', rollbackPendingReset ⟨{ service with rootStateHash := destCommitId }, []⟩ =
        .ok oldRootStateHash working' ∧ working'.service = rolledBack) ↔
      oldRootStateHash = destCommitId ∧
        runOp (rollbackContractState destCommitId) service = .ok () rolledBack := by
  rw [rollbackContractState_eq_ok hcheck, rollbackPendingReset_apply]
  by_cases htop : destCommitId = service.topRootStateHash
  · -- the reset named the top commit: nothing to roll back either way
    subst htop
    rw [if_pos rfl, rollbackToRootStateHashWithoutTransactional_top hlatest hcheck]
    simp [eq_comm]
  · -- the lazy rollback starts from the eager one's state with the root key moved
    rw [if_neg htop]
    have hmoved : (⟨{ service with rootStateHash := destCommitId }, []⟩ : Working) =
        (⟨service, []⟩ : Working).setRootStateHash destCommitId := rfl
    rw [hmoved, rollbackToRootStateHashWithoutTransactional_setRootStateHash]
    cases hrun : rollbackToRootStateHashWithoutTransactional destCommitId ⟨service, []⟩ with
    | ok _ working' => simp [hrun, eq_comm]
    | error e working' => simp [hrun]

end Lazy

/-! ## Writes that do not read the recorded keys -/

/-- `x` run from `working` returns `value` in a state of service `service'`. -/
def ReturnsIn {α : Type} (x : StorageM α) (working : Working) (value : α)
    (service' : ContractStorageService) : Prop :=
  ∃ working', x working = .ok value working' ∧ working'.service = service'

/-- Keys recorded before a program that commutes with recording them change
neither whether it returns nor the service it returns in. -/
theorem returnsIn_prependKeys {α : Type} {x : StorageM α} {service : ContractStorageService}
    {keys : List StoreKey} (hx : Commutes (Working.prependKeys keys) x) (value : α)
    (service' : ContractStorageService) :
    ReturnsIn x ⟨service, keys⟩ value service' ↔ ReturnsIn x ⟨service, []⟩ value service' := by
  have hworking : (⟨service, keys⟩ : Working) = (⟨service, []⟩ : Working).prependKeys keys := by
    simp [Working.prependKeys]
  unfold ReturnsIn
  rw [hworking]
  constructor
  · rintro ⟨working', hrun, rfl⟩
    obtain ⟨working₀, hrun₀, rfl⟩ := (commutes_eq_ok hx).mp hrun
    exact ⟨working₀, hrun₀, rfl⟩
  · rintro ⟨working₀, hrun₀, rfl⟩
    exact ⟨working₀.prependKeys keys, (commutes_eq_ok hx).mpr ⟨working₀, hrun₀, rfl⟩, rfl⟩

/-- A rollback that returned left no reset pending: the lazy rollback from
there does nothing. -/
theorem rollbackPendingReset_of_rollbackContractState {service rolledBack : ContractStorageService}
    {destCommitId : String}
    (hrolledBack : runOp (rollbackContractState destCommitId) service = .ok () rolledBack) :
    rollbackPendingReset ⟨rolledBack, []⟩ = .ok destCommitId ⟨rolledBack, []⟩ := by
  obtain ⟨working', hrun, rfl⟩ := runOp_eq_ok.mp hrolledBack
  rw [rollbackContractState, transactional_apply, guarded_eq_ok] at hrun
  obtain ⟨_, working₁, _, hrollback⟩ := bind_eq_ok.mp hrun
  obtain ⟨hroot, htop⟩ := rollbackToRootStateHashWithoutTransactional_roots working₁ hrollback
  rw [rollbackPendingReset_of_latest ⟨working'.service, []⟩ (hroot.trans htop.symm), hroot]

section AfterReset

variable {service : ContractStorageService} {destCommitId : String}
  (hlatest : TopIsLatest service)
  (hcheck : checkCommitExists destCommitId ⟨service, []⟩ = .ok () ⟨service, []⟩)
include hlatest hcheck

/-- A write that runs the lazy rollback first, and what it does from the
state that rollback leaves does not depend on the keys recorded so far, ends
after a reset as it ends after `rollback_contract_state` to the same commit. -/
theorem runOp_after_reset {write : StorageM String}
    (rest : String → Working → String → ContractStorageService → Prop)
    (hwrite : ∀ service₀ value service', runOp write service₀ = .ok value service' ↔
      ∃ oldRootStateHash working, rollbackPendingReset ⟨service₀, []⟩ = .ok oldRootStateHash working ∧
        rest oldRootStateHash working value service')
    (hrest : ∀ oldRootStateHash service₀ keys value service',
      rest oldRootStateHash ⟨service₀, keys⟩ value service' ↔
        rest oldRootStateHash ⟨service₀, []⟩ value service')
    (value : String) (service' : ContractStorageService) :
    runOp write { service with rootStateHash := destCommitId } = .ok value service' ↔
      ∃ rolledBack, runOp (rollbackContractState destCommitId) service = .ok () rolledBack ∧
        runOp write rolledBack = .ok value service' := by
  rw [hwrite]
  constructor
  · rintro ⟨oldRootStateHash, ⟨rolledBack, keys⟩, hlazy, hrestLazy⟩
    -- the lazy rollback ended where the eager one ends, with more keys recorded
    obtain ⟨rfl, hrolledBack⟩ := (rollbackPendingReset_after_reset hlatest hcheck
      oldRootStateHash rolledBack).mp ⟨_, hlazy, rfl⟩
    refine ⟨rolledBack, hrolledBack, (hwrite _ _ _).mpr ⟨_, _, ?_, (hrest _ _ _ _ _).mp hrestLazy⟩⟩
    exact rollbackPendingReset_of_rollbackContractState hrolledBack
  · rintro ⟨rolledBack, hrolledBack, hrun⟩
    obtain ⟨oldRootStateHash, working, hlazyEager, hrestEager⟩ := (hwrite _ _ _).mp hrun
    rw [rollbackPendingReset_of_rollbackContractState hrolledBack] at hlazyEager
    cases hlazyEager
    obtain ⟨⟨service₁, keys⟩, hlazy, rfl⟩ := (rollbackPendingReset_after_reset hlatest hcheck
      destCommitId rolledBack).mpr ⟨rfl, hrolledBack⟩
    exact ⟨destCommitId, _, hlazy, (hrest _ _ _ _ _).mpr hrestEager⟩

end AfterReset

/-! ## The two writes -/

/-- `save_contract_info` returns exactly when its lazy rollback and then its
body return. -/
theorem saveContractInfo_runOp_eq_ok (env : ContractStorageEnv) (info : ContractInfo)
    (service : ContractStorageService) (value : String) (service' : ContractStorageService) :
    runOp (saveContractInfo env info) service = .ok value service' ↔
      ∃ oldRootStateHash working, rollbackPendingReset ⟨service, []⟩ = .ok oldRootStateHash working ∧
        ReturnsIn (saveContractInfoBody env info oldRootStateHash) working value service' := by
  rw [runOp_eq_ok]
  simp only [saveContractInfo, transactional_apply, guarded_eq_ok, bind_eq_ok, ReturnsIn]
  constructor
  · rintro ⟨working', ⟨oldRootStateHash, working, hlazy, hbody⟩, hservice⟩
    exact ⟨oldRootStateHash, working, hlazy, working', hbody, hservice⟩
  · rintro ⟨oldRootStateHash, working, hlazy, working', hbody, hservice⟩
    exact ⟨working', ⟨oldRootStateHash, working, hlazy, hbody⟩, hservice⟩

/-- What `commit_contract_changes` does once its lazy rollback returned
`oldRootStateHash` in `working`, when it returns: nothing for empty changes,
otherwise the duplicate check and the body under the scope guard, which
returns as the body does. -/
def CommitReturnsAfter (env : ContractStorageEnv) (changes : ContractChanges)
    (oldRootStateHash : String) (working : Working) (value : String)
    (service' : ContractStorageService) : Prop :=
  if changes.empty then value = oldRootStateHash ∧ working.service = service'
  else
    let rootStateHash := generateNextRootHash env working.service.currentBlockHeight
      oldRootStateHash (orderedJsonDigest env changes.toJson)
    (getCommitInfo working.service.commitInfos rootStateHash).isSome = false ∧
      ReturnsIn (commitContractChangesBody changes rootStateHash) working value service'

/-- `commit_contract_changes` returns exactly when its lazy rollback returns
and then the rest does. -/
theorem commitContractChanges_runOp_eq_ok (env : ContractStorageEnv) (changes : ContractChanges)
    (service : ContractStorageService) (value : String) (service' : ContractStorageService) :
    runOp (commitContractChanges env changes) service = .ok value service' ↔
      ∃ oldRootStateHash working, rollbackPendingReset ⟨service, []⟩ = .ok oldRootStateHash working ∧
        CommitReturnsAfter env changes oldRootStateHash working value service' := by
  rw [runOp_eq_ok]
  simp only [commitContractChanges_apply]
  cases hlazy : rollbackPendingReset ⟨service, []⟩ with
  | error e working => simp
  | ok oldRootStateHash working =>
      simp only [EStateM.Result.ok.injEq, CommitReturnsAfter, ReturnsIn]
      by_cases hempty : changes.empty
      · simp [hempty, eq_comm]
      · by_cases hdup : (getCommitInfo working.service.commitInfos
            (generateNextRootHash env working.service.currentBlockHeight oldRootStateHash
              (orderedJsonDigest env changes.toJson))).isSome
        · simp [hempty, hdup]
        · simp [hempty, hdup, guarded_eq_ok]

/-- The rest of `commit_contract_changes` does not read the keys recorded
by the lazy rollback. -/
theorem commitReturnsAfter_prependKeys (env : ContractStorageEnv) (changes : ContractChanges)
    (oldRootStateHash : String) (service : ContractStorageService) (keys : List StoreKey)
    (value : String) (service' : ContractStorageService) :
    CommitReturnsAfter env changes oldRootStateHash ⟨service, keys⟩ value service' ↔
      CommitReturnsAfter env changes oldRootStateHash ⟨service, []⟩ value service' := by
  unfold CommitReturnsAfter
  split
  · exact Iff.rfl
  · exact and_congr_right fun _ => returnsIn_prependKeys
      ((writeSteps_prependKeys keys).toBodySteps.commitContractChangesBody changes _) value service'

/-- The two writes that run the lazy rollback first. -/
inductive StorageWrite where
  | saveContractInfo (info : ContractInfo)
  | commitContractChanges (changes : ContractChanges)

/-- The operation a write runs. -/
def StorageWrite.run (env : ContractStorageEnv) : StorageWrite → StorageM String
  | .saveContractInfo info => ContractStorage.saveContractInfo env info
  | .commitContractChanges changes => ContractStorage.commitContractChanges env changes

/-- A write after `reset_root_state_hash` returns a result and a service
exactly when `rollback_contract_state` to the same commit returns and the same
write after it returns the same result and the same service. -/
theorem write_after_reset_eq_write_after_rollback {env : ContractStorageEnv}
    (hsha : ∀ input, env.sha256 input ≠ emptyCommitId) {service resetService : ContractStorageService}
    (hreach : Reachable env service) {destCommitId : String}
    (hreset : runOp (resetRootStateHash destCommitId) service = .ok () resetService)
    (write : StorageWrite) (value : String) (service' : ContractStorageService) :
    runOp (write.run env) resetService = .ok value service' ↔
      ∃ rolledBack, runOp (rollbackContractState destCommitId) service = .ok () rolledBack ∧
        runOp (write.run env) rolledBack = .ok value service' := by
  obtain ⟨hcheck, rfl⟩ := resetRootStateHash_eq_ok.mp hreset
  have hlatest := topIsLatest_of_reachable hsha hreach
  cases write with
  | saveContractInfo info =>
      exact runOp_after_reset hlatest hcheck
        (fun oldRootStateHash => ReturnsIn (saveContractInfoBody env info oldRootStateHash))
        (saveContractInfo_runOp_eq_ok env info)
        (fun oldRootStateHash _ keys => returnsIn_prependKeys
          ((writeSteps_prependKeys keys).toBodySteps.saveContractInfoBody env info oldRootStateHash))
        value service'
  | commitContractChanges changes =>
      exact runOp_after_reset hlatest hcheck (CommitReturnsAfter env changes)
        (commitContractChanges_runOp_eq_ok env changes) (commitReturnsAfter_prependKeys env changes)
        value service'

/-! ## Reads right after a reset -/

/-- A digest that keeps its input, so that commit ids can be read off a run. -/
def prefixDigestEnv : ContractStorageEnv := ⟨fun input => "h" ++ input, fun _ => ""⟩

/-- A contract without a name, registered as `c1`. -/
def contractA : ContractInfo := { ContractInfo.empty with id := "c1", bytecode := "AA==" }

/-- A second contract without a name, registered as `c2`. -/
def contractB : ContractInfo := { ContractInfo.empty with id := "c2", bytecode := "AA==" }

/-- `c1` saved from empty stores, as commit `hh0`. -/
def savedContractA : ContractStorageService :=
  (ContractStorageOp.saveContractInfo contractA).apply prefixDigestEnv .empty

/-- `c1` and then `c2` saved from empty stores. -/
def twoSavedContracts : ContractStorageService :=
  (ContractStorageOp.saveContractInfo contractB).apply prefixDigestEnv savedContractA

theorem reachable_twoSavedContracts : Reachable prefixDigestEnv twoSavedContracts :=
  .step _ (.step _ .empty)

/-- From `c1` and `c2` saved, a reset to the first commit and then a second save of `c2`:
the save returns what it returns after the eager rollback. -/
theorem write_after_reset_eq_write_after_rollback_saveB :
    ∃ resetService value service',
      runOp (resetRootStateHash "hh0") twoSavedContracts = .ok () resetService ∧
      runOp (saveContractInfo prefixDigestEnv contractB) resetService = .ok value service' ∧
      ∃ rolledBack, runOp (rollbackContractState "hh0") twoSavedContracts = .ok () rolledBack ∧
        runOp (saveContractInfo prefixDigestEnv contractB) rolledBack = .ok value service' := by
  have hsha : ∀ input, prefixDigestEnv.sha256 input ≠ emptyCommitId := fun input h => by
    simpa [prefixDigestEnv, emptyCommitId] using congrArg String.length h
  obtain ⟨⟨⟩, hreset⟩ := eq_ok_of_returned
    (by decide +kernel : returned (runOp (resetRootStateHash "hh0") twoSavedContracts) = true)
  obtain ⟨value, hwrite⟩ := eq_ok_of_returned
    (by decide +kernel : returned (runOp (saveContractInfo prefixDigestEnv contractB)
      (resultState (runOp (resetRootStateHash "hh0") twoSavedContracts))) = true)
  exact ⟨_, value, _, hreset, hwrite, (write_after_reset_eq_write_after_rollback hsha reachable_twoSavedContracts
    hreset (.saveContractInfo contractB) value _).mp hwrite⟩

/-- Right after `reset_root_state_hash` to the first commit, `get_contract_info`
still finds the contract the second commit saved, which
`rollback_contract_state` to the same commit has removed. -/
theorem getContractInfo_after_reset_differs :
    Reachable prefixDigestEnv twoSavedContracts ∧
      ∃ resetService rolledBack,
        runOp (resetRootStateHash "hh0") twoSavedContracts = .ok () resetService ∧
        runOp (rollbackContractState "hh0") twoSavedContracts = .ok () rolledBack ∧
        getContractInfo resetService.db contractB.id ≠ getContractInfo rolledBack.db contractB.id := by
  obtain ⟨⟨⟩, hreset⟩ := eq_ok_of_returned
    (by decide +kernel : returned (runOp (resetRootStateHash "hh0") twoSavedContracts) = true)
  obtain ⟨⟨⟩, hrolledBack⟩ := eq_ok_of_returned
    (by decide +kernel : returned (runOp (rollbackContractState "hh0") twoSavedContracts) = true)
  exact ⟨reachable_twoSavedContracts, _, _, hreset, hrolledBack, by decide +kernel⟩

end UnitedBitcoin.ContractStorage
