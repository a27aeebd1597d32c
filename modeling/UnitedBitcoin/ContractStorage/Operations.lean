import Mathlib
import UnitedBitcoin.ContractStorage.Frame

/-!
# The operations step by step

One equation for each operation of the service that says how a run goes
through its parts, and what the rollback of commits and the recording of a
new commit do to the `commit_info` table and the root keys. Later proofs
follow these equations instead of unfolding the `do` blocks.
-/

namespace UnitedBitcoin.ContractStorage

open UnitedBitcoin.Json UnitedBitcoin.Library

variable (working : Working)

/-! ## Equations of the operations -/

omit working in
theorem runOp_eq_ok {α : Type} {op : StorageM α} {service service' : ContractStorageService} {value : α} :
    runOp op service = .ok value service' ↔
      ∃ working', op ⟨service, []⟩ = .ok value working' ∧ working'.service = service' := by
  unfold runOp
  cases op ⟨service, []⟩ <;> simp

omit working in
theorem runOp_eq_error {α : Type} {op : StorageM α} {service service' : ContractStorageService}
    {e : StorageError} :
    runOp op service = .error e service' ↔
      ∃ working', op ⟨service, []⟩ = .error e working' ∧ working'.service = service' := by
  unfold runOp
  cases op ⟨service, []⟩ <;> simp

theorem transactional_apply {α : Type} (body : StorageM α) :
    transactional body working =
      guarded working.service working.service.commitInfos body working := rfl

theorem checkCommitExists_apply (destCommitId : String) :
    checkCommitExists destCommitId working =
      if destCommitId ≠ emptyCommitId ∧
          (getCommitInfo working.service.commitInfos destCommitId).isNone then
        .error (.contractStorageException ("Can't find commit " ++ destCommitId)) working
      else .ok () working := by
  simp only [checkCommitExists, estate_bind_apply, readCommitInfos_apply]
  split <;> rfl

theorem rollbackToRootStateHashWithoutTransactional_apply (destCommitId : String) :
    rollbackToRootStateHashWithoutTransactional destCommitId working =
      match rollbackCommitsAfter destCommitId working with
      | .ok _ working' =>
          .ok () { service := { working'.service with
                     rootStateHash := destCommitId, topRootStateHash := destCommitId }
                   changedKeys := working'.changedKeys ++ [.rootStateHash, .topRootStateHash] }
      | .error e working' => .error e working' := by
  unfold rollbackToRootStateHashWithoutTransactional
  rw [estate_bind_apply]
  cases rollbackCommitsAfter destCommitId working with
  | ok _ working' => exact writeRootStateHashes_apply working' destCommitId
  | error e working' => rfl

/-- A rollback that returns leaves both root keys at its destination. -/
theorem rollbackToRootStateHashWithoutTransactional_roots {destCommitId : String} {working' : Working}
    (h : rollbackToRootStateHashWithoutTransactional destCommitId working = .ok () working') :
    working'.service.rootStateHash = destCommitId ∧
      working'.service.topRootStateHash = destCommitId := by
  rw [rollbackToRootStateHashWithoutTransactional_apply] at h
  split at h
  · cases h
    exact ⟨rfl, rfl⟩
  · cases h

/-- The lazy rollback: nothing when no reset is pending, otherwise the
rollback to the root key, whose assertion then holds. -/
theorem rollbackPendingReset_apply :
    rollbackPendingReset working =
      if working.service.rootStateHash = working.service.topRootStateHash then
        .ok working.service.rootStateHash working
      else
        match rollbackToRootStateHashWithoutTransactional working.service.rootStateHash working with
        | .ok _ working' => .ok working.service.rootStateHash working'
        | .error e working' => .error e working' := by
  simp only [rollbackPendingReset, estate_bind_apply, readRootStateHashes_apply]
  by_cases hlatest : working.service.rootStateHash = working.service.topRootStateHash
  · simp [hlatest]
  · simp only [hlatest, ne_eq, not_false_eq_true, ↓reduceIte]
    cases hrun : rollbackToRootStateHashWithoutTransactional working.service.rootStateHash working with
    | ok _ working' =>
        have hroot := (rollbackToRootStateHashWithoutTransactional_roots working hrun).1
        rw [bind_apply_of_ok hrun]
        simp [estate_bind_apply, hroot]
    | error e working' =>
        rw [bind_apply_of_error hrun]

/-- With no reset pending, the lazy rollback does nothing. -/
theorem rollbackPendingReset_of_latest
    (hlatest : working.service.rootStateHash = working.service.topRootStateHash) :
    rollbackPendingReset working = .ok working.service.rootStateHash working := by
  rw [rollbackPendingReset_apply, if_pos hlatest]

/-- `commit_contract_changes`: the lazy rollback, the empty case, the
duplicate check, then the guarded body under the snapshot taken first. -/
theorem commitContractChanges_apply (env : ContractStorageEnv) (changes : ContractChanges) :
    commitContractChanges env changes working =
      match rollbackPendingReset working with
      | .error e working' => .error e working'
      | .ok oldRootStateHash working' =>
          if changes.empty then .ok oldRootStateHash working'
          else
            let rootStateHash := generateNextRootHash env working'.service.currentBlockHeight
              oldRootStateHash (orderedJsonDigest env changes.toJson)
            if (getCommitInfo working'.service.commitInfos rootStateHash).isSome then
              .error (.contractStorageException "same commitId existed before") working'
            else
              guarded working.service working'.service.commitInfos
                (commitContractChangesBody changes rootStateHash) working' := by
  simp only [commitContractChanges, estate_bind_apply, readService_apply]
  cases rollbackPendingReset working with
  | error e working' => rfl
  | ok oldRootStateHash working' =>
      simp only
      split
      · rfl
      · simp only [estate_bind_apply, readBlockHeight_apply]
        by_cases hdup : (getCommitInfo working'.service.commitInfos
            (generateNextRootHash env working'.service.currentBlockHeight oldRootStateHash
              (orderedJsonDigest env changes.toJson))).isSome
        · simp [hdup]
        · simp [hdup]

theorem resetRootStateHash_apply (destCommitId : String) :
    resetRootStateHash destCommitId working =
      match checkCommitExists destCommitId working with
      | .ok _ working' => .ok () (working'.setRootStateHash destCommitId)
      | .error e working' => .error e working' := by
  unfold resetRootStateHash
  rw [estate_bind_apply]
  cases checkCommitExists destCommitId working <;> rfl

/-! ## The table under a rollback -/

/-- Reading one commit backwards deletes the rows of its commit id and
keeps the top root key. -/
theorem rollbackCommit_table {row : ContractCommitInfo} {working' : Working}
    (h : rollbackCommit row working = .ok () working') :
    working'.service.commitInfos =
        working.service.commitInfos.filter (fun other => other.commitId != row.commitId) ∧
      working'.service.topRootStateHash = working.service.topRootStateHash := by
  unfold rollbackCommit at h
  obtain ⟨_, middle, hbody, hrest⟩ := bind_eq_ok.mp h
  -- the commit's own rollback keeps the table; its rows go afterwards
  have hkept : TableKept working middle := by
    have hguarantee : Guarantees TableKept
        (if row.changeType = contractInfoChangeType then rollbackContractInfoCommit row
          else if row.changeType = contractStorageChangeType then
            rollbackStorageChangeCommit row.commitId
          else throwStorage ("not supported change type " ++ row.changeType)) := by
      split
      · exact storeSteps_tableKept.rollbackContractInfoCommit row
      · split
        · exact storeSteps_tableKept.rollbackStorageChangeCommit _
        · exact guarantees_throw _
    simpa [hbody] using hguarantee working
  simp only [estate_bind_apply, modifyCommitInfos_apply, modifyDb_apply] at hrest
  cases hrest
  exact ⟨by rw [hkept.1], hkept.2⟩

/-- Reading a list of commits backwards deletes the rows of all their commit
ids. -/
theorem forM_rollbackCommit_table (rows : List ContractCommitInfo) :
    ∀ {working working' : Working}, rows.forM rollbackCommit working = .ok () working' →
      working'.service.commitInfos =
          working.service.commitInfos.filter (fun other => other.commitId ∉ rows.map (·.commitId)) ∧
        working'.service.topRootStateHash = working.service.topRootStateHash := by
  induction rows with
  | nil =>
      intro working working' h
      cases h
      simp
  | cons row rest ih =>
      intro working working' h
      obtain ⟨_, middle, hfirst, hrest⟩ := bind_eq_ok.mp h
      obtain ⟨hfirstTable, hfirstTop⟩ := rollbackCommit_table working hfirst
      obtain ⟨hrestTable, hrestTop⟩ := ih hrest
      refine ⟨?_, hrestTop.trans hfirstTop⟩
      rw [hrestTable, hfirstTable, List.filter_filter]
      congr 1
      funext other
      simp [bne, beq_eq_decide, Bool.and_comm]

/-- The rollback of the commits after a destination deletes exactly the rows
of the commit ids after it. -/
theorem rollbackCommitsAfter_table {destCommitId : String} {working' : Working}
    (h : rollbackCommitsAfter destCommitId working = .ok () working') :
    working'.service.commitInfos =
        working.service.commitInfos.filter (fun other =>
          other.commitId ∉ (commitsAfter working.service.commitInfos destCommitId).map (·.commitId)) ∧
      working'.service.topRootStateHash = working.service.topRootStateHash := by
  unfold rollbackCommitsAfter at h
  obtain ⟨_, checked, hcheck, hloop⟩ := bind_eq_ok.mp h
  have hsame : checked = working := by
    rw [checkCommitExists_apply] at hcheck
    split at hcheck
    · cases hcheck
    · cases hcheck
      rfl
  subst hsame
  simp only [estate_bind_apply, readCommitInfos_apply] at hloop
  exact forM_rollbackCommit_table _ hloop

/-! ## The commits after a destination -/

/-- The newest commit comes after every commit of the table. -/
theorem id_lt_nextRowId {commitInfos : List ContractCommitInfo} {row : ContractCommitInfo}
    (hmem : row ∈ commitInfos) : row.id < nextRowId commitInfos := by
  have hle : ∀ (start : Nat) (rows : List ContractCommitInfo),
      start ≤ rows.foldl (fun acc row => max acc row.id) start ∧
        ∀ row ∈ rows, row.id ≤ rows.foldl (fun acc row => max acc row.id) start := by
    intro start rows
    induction rows generalizing start with
    | nil => simp
    | cons first rest ih =>
        obtain ⟨hstart, hrest⟩ := ih (max start first.id)
        refine ⟨le_trans (le_max_left _ _) hstart, ?_⟩
        intro other hother
        rcases List.mem_cons.mp hother with hfirst | hmid
        · subst hfirst
          exact le_trans (le_max_right _ _) hstart
        · exact hrest other hmid
  exact Nat.lt_succ_of_le ((hle 0 commitInfos).2 row hmem)

theorem mem_commitsAfter {commitInfos : List ContractCommitInfo} {destCommitId : String}
    {row : ContractCommitInfo} :
    row ∈ commitsAfter commitInfos destCommitId ↔
      row ∈ commitInfos ∧
        (destCommitId = emptyCommitId ∨
          ∃ dest, getCommitInfo commitInfos destCommitId = some dest ∧ dest.id < row.id) := by
  unfold commitsAfter
  rw [List.mem_mergeSort]
  by_cases hempty : destCommitId = emptyCommitId
  · simp [hempty]
  · simp only [hempty, ↓reduceIte, false_or]
    cases hfind : getCommitInfo commitInfos destCommitId with
    | none => simp
    | some dest => simp [List.mem_filter, and_comm]

theorem getCommitInfo_eq_some {commitInfos : List ContractCommitInfo} {commitId : String}
    {row : ContractCommitInfo} (h : getCommitInfo commitInfos commitId = some row) :
    row ∈ commitInfos ∧ row.commitId = commitId := by
  unfold getCommitInfo at h
  exact ⟨List.mem_of_find?_eq_some h, by simpa using List.find?_some h⟩

/-- After the commits after a destination are deleted, none is after it. -/
theorem commitsAfter_filter_commitsAfter (commitInfos : List ContractCommitInfo)
    (destCommitId : String) :
    commitsAfter (commitInfos.filter fun other =>
      other.commitId ∉ (commitsAfter commitInfos destCommitId).map (·.commitId)) destCommitId = [] := by
  apply List.eq_nil_iff_forall_not_mem.mpr
  intro row hrow
  obtain ⟨hmemFiltered, hafter⟩ := mem_commitsAfter.mp hrow
  obtain ⟨hmem, hkept⟩ := List.mem_filter.mp hmemFiltered
  have hremoved : row.commitId ∈ (commitsAfter commitInfos destCommitId).map (·.commitId) := by
    apply List.mem_map.mpr
    refine ⟨row, mem_commitsAfter.mpr ⟨hmem, ?_⟩, rfl⟩
    rcases hafter with hempty | ⟨dest, hdest, hlt⟩
    · exact Or.inl hempty
    · -- the destination's row is still the first of its commit id in the full table
      right
      obtain ⟨hdestMem, hdestId⟩ := getCommitInfo_eq_some hdest
      have hdestKept := (List.mem_filter.mp hdestMem).2
      unfold getCommitInfo at hdest
      rw [List.find?_filter] at hdest
      refine ⟨dest, ?_, hlt⟩
      unfold getCommitInfo
      rw [← hdest]
      congr 1
      funext other
      by_cases hid : other.commitId = destCommitId
      · have hkeptDest : destCommitId ∉ (commitsAfter commitInfos destCommitId).map (·.commitId) := by
          have hdestNotRemoved := of_decide_eq_true hdestKept
          rwa [hdestId] at hdestNotRemoved
        simp [hid, hkeptDest]
      · simp [hid]
  simp [hremoved] at hkept

/-! ## Recording a commit -/

/-- Recording a commit adds its row after every other, with the commit id
not seen before, and moves both root keys to it. -/
theorem recordCommit_ok {commitId changeType contractId : String} {diff : JsonValue}
    {working' : Working} (h : recordCommit commitId changeType diff contractId working = .ok () working') :
    getCommitInfo working.service.commitInfos commitId = none ∧
      working'.service.commitInfos = working.service.commitInfos ++
        [⟨nextRowId working.service.commitInfos, commitId, changeType, contractId⟩] ∧
      working'.service.rootStateHash = commitId ∧ working'.service.topRootStateHash = commitId := by
  unfold recordCommit addCommitInfo at h
  simp only [estate_bind_apply, readCommitInfos_apply] at h
  by_cases hdup : (getCommitInfo working.service.commitInfos commitId).isSome
  · simp [hdup] at h
  · simp only [hdup, Bool.false_eq_true, ↓reduceIte, estate_pure_apply, modifyCommitInfos_apply,
      modifyDb_apply, writeRootStateHashes_apply] at h
    cases h
    exact ⟨by simpa using hdup, rfl, rfl, rfl⟩

/-- Recording a commit throws only at its duplicate check, before any
write. -/
theorem recordCommit_error {commitId changeType contractId : String} {diff : JsonValue}
    {e : StorageError} {working' : Working}
    (h : recordCommit commitId changeType diff contractId working = .error e working') :
    working' = working := by
  unfold recordCommit addCommitInfo at h
  simp only [estate_bind_apply, readCommitInfos_apply] at h
  by_cases hdup : (getCommitInfo working.service.commitInfos commitId).isSome
  · simp only [hdup, ↓reduceIte, throwStorage_apply] at h
    cases h
    rfl
  · simp [hdup, modifyCommitInfos_apply, modifyDb_apply, writeRootStateHashes_apply] at h

end UnitedBitcoin.ContractStorage
