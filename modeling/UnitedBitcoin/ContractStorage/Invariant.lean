import Mathlib
import UnitedBitcoin.ContractStorage.Operations

/-!
# The top root key names the newest commit

In every state the service reaches, no row of `commit_info` comes after the
commit that `TOP_ROOT_STATE_HASH` names, and the table is empty while it is
`EMPTY_COMMIT_ID` (`TopIsLatest`). This holds however the operations end:

* a write that returns has recorded a fresh commit id as both root keys,
  with its row after every other;
* a rollback that returns has deleted every row after its destination and
  moved the top root key there;
* a rollback that throws has deleted rows only, and a transaction that
  throws puts the top root key back.

It needs the digest to give non-empty ids, as a hex string always is.
-/

namespace UnitedBitcoin.ContractStorage

open UnitedBitcoin.Json UnitedBitcoin.Library

/-- No row of `commit_info` comes after the top root key. -/
def TopIsLatest (service : ContractStorageService) : Prop :=
  commitsAfter service.commitInfos service.topRootStateHash = []

instance (service : ContractStorageService) : Decidable (TopIsLatest service) :=
  inferInstanceAs (Decidable (_ = _))

theorem topIsLatest_empty : TopIsLatest ContractStorageService.empty := by
  simp [TopIsLatest, commitsAfter, ContractStorageService.empty]

/-- The commits after a top root key stay none when rows are deleted by
commit id. -/
theorem commitsAfter_filter_eq_nil {commitInfos : List ContractCommitInfo} {top : String}
    (keep : String → Bool) (hlatest : commitsAfter commitInfos top = []) :
    commitsAfter (commitInfos.filter fun row => keep row.commitId) top = [] := by
  apply List.eq_nil_iff_forall_not_mem.mpr
  intro row hrow
  obtain ⟨hmemFiltered, hafter⟩ := mem_commitsAfter.mp hrow
  have hmem := (List.mem_filter.mp hmemFiltered).1
  -- the row would already come after the top root key in the whole table
  have hold : row ∈ commitsAfter commitInfos top := by
    apply mem_commitsAfter.mpr
    refine ⟨hmem, ?_⟩
    rcases hafter with hempty | ⟨dest, hdest, hlt⟩
    · exact Or.inl hempty
    · right
      obtain ⟨hdestMem, hdestId⟩ := getCommitInfo_eq_some hdest
      have hkeepTop : keep top = true := hdestId ▸ (List.mem_filter.mp hdestMem).2
      refine ⟨dest, ?_, hlt⟩
      unfold getCommitInfo at hdest ⊢
      rw [List.find?_filter] at hdest
      rw [← hdest]
      congr 1
      funext other
      by_cases hid : other.commitId = top
      · simp [hid, hkeepTop]
      · simp [hid]
  simp [hlatest] at hold

/-- Deleting rows by commit id keeps the top root key the newest. -/
theorem topIsLatest_of_filter {service service' : ContractStorageService} (keep : String → Bool)
    (hlatest : TopIsLatest service)
    (htable : service'.commitInfos = service.commitInfos.filter fun row => keep row.commitId)
    (htop : service'.topRootStateHash = service.topRootStateHash) : TopIsLatest service' := by
  unfold TopIsLatest
  rw [htable, htop]
  exact commitsAfter_filter_eq_nil keep hlatest

/-! ## Operations that return -/

/-- A rollback that returns leaves no commit after its destination, which
both root keys now name. -/
theorem topIsLatest_of_rollback {destCommitId : String} {working working' : Working}
    (h : rollbackToRootStateHashWithoutTransactional destCommitId working = .ok () working') :
    TopIsLatest working'.service := by
  have htop := (rollbackToRootStateHashWithoutTransactional_roots working h).2
  rw [rollbackToRootStateHashWithoutTransactional_apply] at h
  split at h
  · rename_i working₁ hrollback
    cases h
    unfold TopIsLatest
    rw [(rollbackCommitsAfter_table working hrollback).1]
    exact commitsAfter_filter_commitsAfter _ _
  · cases h

/-- A state the last step of which recorded a commit whose id is a digest. -/
def EndsWithCommit (env : ContractStorageEnv) (commitId : String) (working : Working) : Prop :=
  (∃ input, commitId = env.sha256 input) ∧
    ∃ changeType diff contractId working₀,
      recordCommit commitId changeType diff contractId working₀ = .ok () working

section Digest

variable {env : ContractStorageEnv} (hsha : ∀ input, env.sha256 input ≠ emptyCommitId)
include hsha

/-- A freshly recorded commit is the newest. -/
theorem topIsLatest_of_endsWithCommit {commitId : String} {working : Working}
    (h : EndsWithCommit env commitId working) : TopIsLatest working.service := by
  obtain ⟨⟨input, hcommit⟩, changeType, diff, contractId, working₀, hrecord⟩ := h
  obtain ⟨hfresh, htable, _, htop⟩ := recordCommit_ok working₀ hrecord
  have hnonempty : commitId ≠ emptyCommitId := hcommit ▸ hsha input
  unfold TopIsLatest
  apply List.eq_nil_iff_forall_not_mem.mpr
  intro row hrow
  obtain ⟨hmem, hafter⟩ := mem_commitsAfter.mp hrow
  rw [htop] at hafter
  rw [htable] at hmem hafter
  rcases hafter with hempty | ⟨dest, hdest, hlt⟩
  · exact hnonempty hempty
  · -- the top row is the new one, whose id no other row reaches
    have hdestNew : dest = ⟨nextRowId working₀.service.commitInfos, commitId, changeType, contractId⟩ := by
      unfold getCommitInfo at hdest hfresh
      rw [List.find?_append, hfresh] at hdest
      simpa using hdest.symm
    rcases List.mem_append.mp hmem with hold | hnew
    · have := id_lt_nextRowId hold
      rw [hdestNew] at hlt
      exact absurd hlt (Nat.lt_asymm this)
    · rw [List.mem_singleton.mp hnew, hdestNew] at hlt
      exact lt_irrefl _ hlt

end Digest

/-- A commit recorded and then its id returned. -/
theorem triple_recordCommit_pure (env : ContractStorageEnv) (input : String) (changeType : String)
    (diff : JsonValue) (contractId : String) :
    Triple (fun _ => True)
      (recordCommit (env.sha256 input) changeType diff contractId >>= fun _ => pure (env.sha256 input))
      (EndsWithCommit env) := by
  have hrecord : Triple (fun _ => True) (recordCommit (env.sha256 input) changeType diff contractId)
      fun _ working => EndsWithCommit env (env.sha256 input) working :=
    fun working _ working' _ hrun => ⟨⟨input, rfl⟩, changeType, diff, contractId, working, hrun⟩
  exact triple_bind hrecord fun _ => triple_pure _ _

/-- The body of `save_contract_info` ends by recording its commit. -/
theorem triple_saveContractInfoBody (env : ContractStorageEnv) (info : ContractInfo)
    (oldRootStateHash : String) :
    Triple (fun _ => True) (saveContractInfoBody env info oldRootStateHash) (EndsWithCommit env) := by
  unfold saveContractInfoBody
  refine triple_bind_of_right fun db => ?_
  refine triple_bind_of_right fun oldJson => ?_
  refine triple_bind_of_right fun _ => ?_
  refine triple_bind_of_right fun _ => ?_
  refine triple_bind_of_right fun height => ?_
  exact triple_recordCommit_pure env _ _ _ _

/-- The guarded body of `commit_contract_changes` ends by recording its
commit. -/
theorem triple_commitContractChangesBody (env : ContractStorageEnv) (changes : ContractChanges)
    (input : String) :
    Triple (fun _ => True) (commitContractChangesBody changes (env.sha256 input)) (EndsWithCommit env) := by
  unfold commitContractChangesBody
  refine triple_bind_of_right fun _ => ?_
  refine triple_bind_of_right fun _ => ?_
  refine triple_bind_of_right fun _ => ?_
  refine triple_bind_of_right fun _ => ?_
  refine triple_bind_of_right fun _ => ?_
  exact triple_recordCommit_pure env _ _ _ _

/-! ## The lazy rollback -/

/-- The lazy rollback keeps the top root key the newest, whether it returns
or throws; the table only loses rows. -/
theorem rollbackPendingReset_preserves (working : Working) (hlatest : TopIsLatest working.service) :
    TopIsLatest (resultState (rollbackPendingReset working)).service ∧
      ∃ keep : String → Bool, (resultState (rollbackPendingReset working)).service.commitInfos =
        working.service.commitInfos.filter fun row => keep row.commitId := by
  rw [rollbackPendingReset_apply]
  split
  · exact ⟨hlatest, fun _ => true, by simp⟩
  · cases hrun : rollbackToRootStateHashWithoutTransactional working.service.rootStateHash working with
    | ok _ working' =>
        show TopIsLatest working'.service ∧ ∃ keep : String → Bool,
          working'.service.commitInfos = working.service.commitInfos.filter fun row => keep row.commitId
        refine ⟨topIsLatest_of_rollback hrun, ?_⟩
        rw [rollbackToRootStateHashWithoutTransactional_apply] at hrun
        split at hrun
        · rename_i working₁ hrollback
          cases hrun
          exact ⟨fun commitId => decide (commitId ∉ (commitsAfter working.service.commitInfos
            working.service.rootStateHash).map (·.commitId)), (rollbackCommitsAfter_table working hrollback).1⟩
        · cases hrun
    | error e working' =>
        show TopIsLatest working'.service ∧ ∃ keep : String → Bool,
          working'.service.commitInfos = working.service.commitInfos.filter fun row => keep row.commitId
        -- the rollback stopped inside its loop, having deleted rows only
        rw [rollbackToRootStateHashWithoutTransactional_apply] at hrun
        split at hrun
        · cases hrun
        · rename_i working₁ hrollback
          cases hrun
          have hshrinks := rollbackSteps_tableShrinks.rollbackCommitsAfter
            working.service.rootStateHash working
          rw [hrollback, resultState_error] at hshrinks
          obtain ⟨⟨removed, htable⟩, htop⟩ := hshrinks
          exact ⟨topIsLatest_of_filter (fun commitId => decide (commitId ∉ removed)) hlatest htable htop,
            fun commitId => decide (commitId ∉ removed), htable⟩

/-! ## Every operation -/

/-- An operation that changes the service. -/
inductive ContractStorageOp where
  | saveContractInfo (info : ContractInfo)
  | commitContractChanges (changes : ContractChanges)
  | rollbackContractState (destCommitId : String)
  | resetRootStateHash (destCommitId : String)
  | setCurrentBlockHeight (height : Nat)

/-- The service after an operation, whether it returned or threw: a caller
that catches the exception goes on from that state. -/
def ContractStorageOp.apply (env : ContractStorageEnv) :
    ContractStorageOp → ContractStorageService → ContractStorageService
  | .saveContractInfo info, service => resultState (runOp (ContractStorage.saveContractInfo env info) service)
  | .commitContractChanges changes, service =>
      resultState (runOp (ContractStorage.commitContractChanges env changes) service)
  | .rollbackContractState destCommitId, service =>
      resultState (runOp (ContractStorage.rollbackContractState destCommitId) service)
  | .resetRootStateHash destCommitId, service =>
      resultState (runOp (ContractStorage.resetRootStateHash destCommitId) service)
  | .setCurrentBlockHeight height, service =>
      resultState (runOp (ContractStorage.setCurrentBlockHeight height) service)

/-- The states the service reaches from empty stores. -/
inductive Reachable (env : ContractStorageEnv) : ContractStorageService → Prop where
  | empty : Reachable env ContractStorageService.empty
  | step {service : ContractStorageService} (op : ContractStorageOp) :
      Reachable env service → Reachable env (op.apply env service)

theorem resultState_runOp {α : Type} (op : StorageM α) (service : ContractStorageService) :
    resultState (runOp op service) = (resultState (op ⟨service, []⟩)).service := by
  unfold runOp
  cases op ⟨service, []⟩ <;> rfl

/-- A service whose table and top root key are another's. -/
theorem topIsLatest_of_same {service service' : ContractStorageService} (hlatest : TopIsLatest service)
    (htable : service'.commitInfos = service.commitInfos)
    (htop : service.AgreeAt service' .topRootStateHash) : TopIsLatest service' := by
  unfold TopIsLatest
  rw [htable, ← show service.topRootStateHash = service'.topRootStateHash from htop]
  exact hlatest

section Operations

variable {env : ContractStorageEnv} (hsha : ∀ input, env.sha256 input ≠ emptyCommitId)
  {service : ContractStorageService} (hlatest : TopIsLatest service)
include hlatest

include hsha in
theorem topIsLatest_saveContractInfo (info : ContractInfo) :
    TopIsLatest (resultState (runOp (saveContractInfo env info) service)) := by
  cases hrun : runOp (saveContractInfo env info) service with
  | ok root service' =>
      obtain ⟨working', hop, rfl⟩ := runOp_eq_ok.mp hrun
      rw [saveContractInfo, transactional_apply, guarded_eq_ok] at hop
      -- the body ends by recording its commit
      obtain ⟨oldRootStateHash, working₁, _, hsave⟩ := bind_eq_ok.mp hop
      exact topIsLatest_of_endsWithCommit hsha
        (triple_saveContractInfoBody env info oldRootStateHash working₁ root working' trivial hsave)
  | error e service' =>
      obtain ⟨htable, hagree⟩ := saveContractInfo_error_restores env info hrun
      exact topIsLatest_of_same hlatest htable (hagree .topRootStateHash rfl)

theorem topIsLatest_rollbackContractState (destCommitId : String) :
    TopIsLatest (resultState (runOp (rollbackContractState destCommitId) service)) := by
  cases hrun : runOp (rollbackContractState destCommitId) service with
  | ok _ service' =>
      obtain ⟨working', hop, rfl⟩ := runOp_eq_ok.mp hrun
      rw [rollbackContractState, transactional_apply, guarded_eq_ok] at hop
      obtain ⟨_, working₁, _, hrollback⟩ := bind_eq_ok.mp hop
      exact topIsLatest_of_rollback hrollback
  | error e service' =>
      obtain ⟨htable, hagree⟩ := rollbackContractState_error_restores destCommitId hrun
      exact topIsLatest_of_same hlatest htable (hagree .topRootStateHash rfl)

include hsha in
theorem topIsLatest_commitContractChanges (changes : ContractChanges) :
    TopIsLatest (resultState (runOp (commitContractChanges env changes) service)) := by
  rw [resultState_runOp, commitContractChanges_apply]
  have hlazy := rollbackPendingReset_preserves ⟨service, []⟩ hlatest
  cases hpending : rollbackPendingReset ⟨service, []⟩ with
  | error e working' =>
      rw [hpending] at hlazy
      exact hlazy.1
  | ok oldRootStateHash working' =>
      rw [hpending] at hlazy
      obtain ⟨hlatest', keep, htable⟩ := hlazy
      simp only
      split
      · exact hlatest'
      · split
        · exact hlatest'
        · rename_i hfresh
          cases hbody : commitContractChangesBody changes (generateNextRootHash env
              working'.service.currentBlockHeight oldRootStateHash (orderedJsonDigest env changes.toJson))
              working' with
          | ok root working'' =>
              rw [guarded_of_ok _ hbody, resultState_ok]
              exact topIsLatest_of_endsWithCommit hsha
                (triple_commitContractChangesBody env changes _ working' root working'' trivial hbody)
          | error e working'' =>
              -- the guard puts back the top root key; the table stays as the lazy rollback left it
              rw [guarded_of_error _ hbody, resultState_error]
              have hwrites : RecordedWrites ⟨service, []⟩ working'' := by
                have hfirst : RecordedWrites ⟨service, []⟩ working' := by
                  simpa [hpending] using rollbackPendingReset_recordedWrites ⟨service, []⟩
                have hsecond := writeSteps_recordedWrites.toBodySteps.commitContractChangesBody changes
                  (generateNextRootHash env working'.service.currentBlockHeight oldRootStateHash
                    (orderedJsonDigest env changes.toJson)) working'
                rw [hbody, resultState_error] at hsecond
                exact trans_of RecordedWrites hfirst hsecond
              have htop : service.AgreeAt (rollbackTransactions service working'.service.commitInfos
                  working'').service .topRootStateHash := rollbackTransactions_agreeAt hwrites rfl
              exact topIsLatest_of_filter keep hlatest htable htop.symm

theorem topIsLatest_resetRootStateHash (destCommitId : String) :
    TopIsLatest (resultState (runOp (resetRootStateHash destCommitId) service)) := by
  rw [resultState_runOp, resetRootStateHash_apply, checkCommitExists_apply]
  by_cases hmissing : destCommitId ≠ emptyCommitId ∧
      (getCommitInfo service.commitInfos destCommitId).isNone
  · rw [if_pos hmissing]
    exact hlatest
  · rw [if_neg hmissing]
    exact hlatest

include hsha in
theorem topIsLatest_apply (op : ContractStorageOp) : TopIsLatest (op.apply env service) := by
  cases op with
  | saveContractInfo info => exact topIsLatest_saveContractInfo hsha hlatest info
  | commitContractChanges changes => exact topIsLatest_commitContractChanges hsha hlatest changes
  | rollbackContractState destCommitId => exact topIsLatest_rollbackContractState hlatest destCommitId
  | resetRootStateHash destCommitId => exact topIsLatest_resetRootStateHash hlatest destCommitId
  | setCurrentBlockHeight height => exact hlatest

end Operations

/-- In every reachable state the top root key names the newest commit. -/
theorem topIsLatest_of_reachable {env : ContractStorageEnv}
    (hsha : ∀ input, env.sha256 input ≠ emptyCommitId) {service : ContractStorageService}
    (hreach : Reachable env service) : TopIsLatest service := by
  induction hreach with
  | empty => exact topIsLatest_empty
  | step op _ ih => exact topIsLatest_apply hsha ih op

end UnitedBitcoin.ContractStorage
