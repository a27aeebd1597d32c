import Mathlib
import UnitedBitcoin.Primitives.Transaction

/-!
# The balance changes of a contract run

While a contract op runs, `PendingState` (`contract_engine/pending_state.cpp`) collects
its balance changes. `add_balance_change` nets each change into the entry of the same
address and kind, so that an address has at most one entry, a credit or a debit.
`get_contract_balance` reads a contract's stored asset-0 balance through the pending
entries.

A UVM contract moves money only through
`BtcUvmChainApi::transfer_from_contract_to_address` (`btc_uvm_api.cpp`). It debits the
contract and credits the recipient when the contract can pay. The recipient's entry is
a contract entry when its address has the contract-address format. After the run,
`ContractExecResult::match_contract_withdraw_infos` (`validation.cpp`) pairs the net
debits of contracts with the `OP_SPEND` outputs of the transaction. No part of this
looks at the credits of addresses that are not contracts.

Amounts are `uint64_t`. Sums wrap modulo `2 ^ 64`; differences are only taken under a
comparison that keeps them in range.
-/

namespace UnitedBitcoin.Contract

/-- `ContractResultTransferInfo`: the net change of one address's balance. `add` tells
a credit from a debit. -/
structure ContractResultTransferInfo where
  address : String
  add : Bool
  isContract : Bool
  amount : Nat
  deriving DecidableEq, Repr

namespace ContractResultTransferInfo

/-- The change as a signed amount. -/
def signedAmount (info : ContractResultTransferInfo) : Int :=
  if info.add then info.amount else -info.amount

/-- The entry's key: its address and whether the address is a contract's. -/
def key (info : ContractResultTransferInfo) : String × Bool := (info.address, info.isContract)

end ContractResultTransferInfo

open ContractResultTransferInfo

/-- A change as a signed amount. -/
def signed (add : Bool) (amount : Nat) : Int := if add then amount else -amount

/-- `PendingState::add_balance_change`. The change is netted into the first entry with
the same address and kind: added to a change of the same sign, subtracted from one of
the other sign, which flips when the change is larger and is erased when the two
cancel. Without such an entry, a new one is appended. -/
def addBalanceChange (address : String) (isContract add : Bool) (amount : Nat) :
    List ContractResultTransferInfo → List ContractResultTransferInfo
  | [] => [⟨address, add, isContract, amount⟩]
  | info :: rest =>
    if info.address == address && info.isContract == isContract then
      if info.add == add then { info with amount := (info.amount + amount) % 2 ^ 64 } :: rest
      else if amount < info.amount then { info with amount := info.amount - amount } :: rest
      else if info.amount < amount then
        { info with add := !info.add, amount := amount - info.amount } :: rest
      else rest
    else info :: addBalanceChange address isContract add amount rest

/-- `PendingState::get_contract_balance`, from the stored asset-0 balance on: the
contract's pending entries are applied in order, and a debit larger than the balance
reached makes the result `0`. -/
def getContractBalance (address : String) : Nat → List ContractResultTransferInfo → Nat
  | balance, [] => balance
  | balance, info :: rest =>
    if info.isContract && info.address == address then
      if info.add then getContractBalance address ((balance + info.amount) % 2 ^ 64) rest
      else if balance < info.amount then 0
      else getContractBalance address (balance - info.amount) rest
    else getContractBalance address balance rest

/-- The keys of the entries. -/
def balanceKeys (changes : List ContractResultTransferInfo) : List (String × Bool) :=
  changes.map key

/-- The net change of one address of one kind over all entries. -/
def netChange (address : String) (isContract : Bool) (changes : List ContractResultTransferInfo) :
    Int :=
  ((changes.filter fun info => info.address == address && info.isContract == isContract).map
    signedAmount).sum

/-! ## Netting -/

/-- What netting a change into an entry of the same key leaves of the entry: the entry
with its new amount, or nothing when the two cancel. -/
def nettedEntry (info : ContractResultTransferInfo) (add : Bool) (amount : Nat) :
    List ContractResultTransferInfo :=
  if info.add == add then [{ info with amount := (info.amount + amount) % 2 ^ 64 }]
  else if amount < info.amount then [{ info with amount := info.amount - amount }]
  else if info.amount < amount then
    [{ info with add := !info.add, amount := amount - info.amount }]
  else []

section Netting

variable {address : String} {isContract add : Bool} {amount : Nat}

theorem addBalanceChange_cons_of_match {info : ContractResultTransferInfo}
    (rest : List ContractResultTransferInfo)
    (hmatch : (info.address == address && info.isContract == isContract) = true) :
    addBalanceChange address isContract add amount (info :: rest) =
      nettedEntry info add amount ++ rest := by
  simp only [addBalanceChange, hmatch, if_true, nettedEntry]
  split_ifs <;> rfl

theorem addBalanceChange_cons_of_not_match {info : ContractResultTransferInfo}
    (rest : List ContractResultTransferInfo)
    (hmatch : (info.address == address && info.isContract == isContract) = false) :
    addBalanceChange address isContract add amount (info :: rest) =
      info :: addBalanceChange address isContract add amount rest := by
  simp [addBalanceChange, hmatch]

theorem balanceKeys_nettedEntry_sublist (info : ContractResultTransferInfo) (add : Bool)
    (amount : Nat) : List.Sublist (balanceKeys (nettedEntry info add amount)) [info.key] := by
  unfold nettedEntry
  split_ifs <;> simp [balanceKeys, key]

theorem key_of_mem_nettedEntry {info entry : ContractResultTransferInfo}
    (hmem : entry ∈ nettedEntry info add amount) : entry.key = info.key := by
  unfold nettedEntry at hmem
  split_ifs at hmem <;> simp_all [key]

/-- Without a wrapping sum, netting into an entry adds the change to its signed amount.
Only a change of the entry's own direction is summed, so only that sum must fit. -/
theorem sum_signedAmount_nettedEntry (info : ContractResultTransferInfo)
    (hwrap : info.add = add → info.amount + amount < 2 ^ 64) :
    ((nettedEntry info add amount).map signedAmount).sum = info.signedAmount + signed add amount := by
  obtain ⟨address, infoAdd, isContract, infoAmount⟩ := info
  simp only at hwrap
  unfold nettedEntry
  split_ifs with hsame
  · rw [Nat.mod_eq_of_lt (hwrap (by simpa using hsame))]
    cases infoAdd <;> cases add <;> simp_all [signedAmount, signed]
    omega
  all_goals cases infoAdd <;> cases add <;> simp_all [signedAmount, signed] <;> omega

/-- Netting a change only touches the entry of its own key. -/
theorem balanceKeys_addBalanceChange_subset (changes : List ContractResultTransferInfo) :
    ∀ k ∈ balanceKeys (addBalanceChange address isContract add amount changes),
      k ∈ balanceKeys changes ∨ k = (address, isContract) := by
  induction changes with
  | nil => simp [addBalanceChange, balanceKeys, key]
  | cons info rest ih =>
    intro k hk
    cases hmatch : (info.address == address && info.isContract == isContract)
    · rw [addBalanceChange_cons_of_not_match rest hmatch] at hk
      simp only [balanceKeys, List.map_cons, List.mem_cons] at hk
      rcases hk with rfl | hk
      · exact .inl (by simp [balanceKeys])
      · rcases ih k hk with h | h
        · exact .inl (List.mem_cons_of_mem _ h)
        · exact .inr h
    · rw [addBalanceChange_cons_of_match rest hmatch] at hk
      have hsub : List.Sublist (balanceKeys (nettedEntry info add amount ++ rest))
          (balanceKeys (info :: rest)) := by
        simpa [balanceKeys] using (balanceKeys_nettedEntry_sublist info add amount).append
          (List.Sublist.refl (rest.map key))
      exact .inl (hsub.subset hk)

/-- Netting keeps one entry per key. -/
theorem nodup_balanceKeys_addBalanceChange {changes : List ContractResultTransferInfo}
    (hnodup : (balanceKeys changes).Nodup) :
    (balanceKeys (addBalanceChange address isContract add amount changes)).Nodup := by
  induction changes with
  | nil => simp [addBalanceChange, balanceKeys]
  | cons info rest ih =>
    cases hmatch : (info.address == address && info.isContract == isContract)
    · rw [addBalanceChange_cons_of_not_match rest hmatch]
      simp only [balanceKeys, List.map_cons, List.nodup_cons] at hnodup ⊢
      refine ⟨fun hmem => ?_, ih hnodup.2⟩
      -- the head's key is neither in the rest nor the key of the change
      rcases balanceKeys_addBalanceChange_subset rest _ hmem with h | h
      · exact hnodup.1 h
      · simp only [key, Prod.mk.injEq] at h
        simp [h.1, h.2] at hmatch
    · rw [addBalanceChange_cons_of_match rest hmatch]
      have hsub : List.Sublist (balanceKeys (nettedEntry info add amount ++ rest))
          (balanceKeys (info :: rest)) := by
        simpa [balanceKeys] using (balanceKeys_nettedEntry_sublist info add amount).append
          (List.Sublist.refl (rest.map key))
      exact hnodup.sublist hsub

/-- The net of a key over an entry followed by more entries. -/
theorem netChange_cons (other : String) (otherIsContract : Bool) (info : ContractResultTransferInfo)
    (rest : List ContractResultTransferInfo) :
    netChange other otherIsContract (info :: rest) =
      (if info.key = (other, otherIsContract) then info.signedAmount else 0) +
        netChange other otherIsContract rest := by
  by_cases h : info.key = (other, otherIsContract)
  · simp only [key, Prod.mk.injEq] at h
    obtain ⟨haddr, hkind⟩ := h
    simp [netChange, key, haddr, hkind]
  · have : (info.address == other && info.isContract == otherIsContract) = false := by
      simp only [key, Prod.mk.injEq, not_and] at h
      simpa using h
    simp [netChange, this, h]

theorem netChange_append (other : String) (otherIsContract : Bool)
    (first second : List ContractResultTransferInfo) :
    netChange other otherIsContract (first ++ second) =
      netChange other otherIsContract first + netChange other otherIsContract second := by
  simp [netChange, List.filter_append]

/-- The net of a key over entries that all have one key. -/
theorem netChange_of_forall_key (other : String) (otherIsContract : Bool) {k : String × Bool}
    {entries : List ContractResultTransferInfo} (hkeys : ∀ entry ∈ entries, entry.key = k) :
    netChange other otherIsContract entries =
      if k = (other, otherIsContract) then (entries.map signedAmount).sum else 0 := by
  induction entries with
  | nil => simp [netChange]
  | cons entry rest ih =>
    rw [netChange_cons, ih fun e he => hkeys e (List.mem_cons_of_mem _ he),
      hkeys entry (by simp)]
    split_ifs <;> simp

/-- Without a wrapping sum, netting adds the change to the net of its key and leaves
every other key's net alone. -/
theorem netChange_addBalanceChange (other : String) (otherIsContract : Bool)
    {changes : List ContractResultTransferInfo}
    (hwrap : ∀ info ∈ changes, info.key = (address, isContract) → info.add = add →
      info.amount + amount < 2 ^ 64) :
    netChange other otherIsContract (addBalanceChange address isContract add amount changes) =
      netChange other otherIsContract changes +
        if (address, isContract) = (other, otherIsContract) then signed add amount else 0 := by
  induction changes with
  | nil =>
    simp only [addBalanceChange, netChange_cons]
    simp [netChange, key, signedAmount, signed]
  | cons info rest ih =>
    cases hmatch : (info.address == address && info.isContract == isContract)
    · rw [addBalanceChange_cons_of_not_match rest hmatch, netChange_cons, netChange_cons,
        ih fun i hi => hwrap i (List.mem_cons_of_mem _ hi)]
      ring
    · have hkey : info.key = (address, isContract) := by
        simpa [key] using hmatch
      -- what is left of the head entry keeps the head's key
      have hnetted : ∀ entry ∈ nettedEntry info add amount, entry.key = (address, isContract) :=
        fun entry hentry => (key_of_mem_nettedEntry hentry).trans hkey
      rw [addBalanceChange_cons_of_match rest hmatch, netChange_append, netChange_cons,
        netChange_of_forall_key other otherIsContract hnetted, hkey,
        sum_signedAmount_nettedEntry info (hwrap info (by simp) hkey)]
      split_ifs <;> ring

end Netting

/-! ## Runs of `add_balance_change` -/

/-- A call of `PendingState::add_balance_change`. -/
structure BalanceChangeCall where
  address : String
  isContract : Bool
  add : Bool
  amount : Nat
  deriving DecidableEq, Repr

namespace BalanceChangeCall

/-- The call applied to the balance changes. -/
def apply (call : BalanceChangeCall) (changes : List ContractResultTransferInfo) :
    List ContractResultTransferInfo :=
  addBalanceChange call.address call.isContract call.add call.amount changes

/-- The call does not wrap the entry of its key when it has the entry's direction. -/
def Fits (call : BalanceChangeCall) (changes : List ContractResultTransferInfo) : Prop :=
  ∀ info ∈ changes, info.key = (call.address, call.isContract) → info.add = call.add →
    info.amount + call.amount < 2 ^ 64

instance (call : BalanceChangeCall) (changes : List ContractResultTransferInfo) :
    Decidable (call.Fits changes) :=
  inferInstanceAs (Decidable (∀ info ∈ changes, info.key = (call.address, call.isContract) →
    info.add = call.add → info.amount + call.amount < 2 ^ 64))

end BalanceChangeCall

/-- The balance changes after a sequence of calls. -/
def runBalanceChanges (changes : List ContractResultTransferInfo) (calls : List BalanceChangeCall) :
    List ContractResultTransferInfo :=
  calls.foldl (fun changes call => call.apply changes) changes

/-- No call of the sequence wraps a same-direction sum. -/
def FitsRun : List ContractResultTransferInfo → List BalanceChangeCall → Prop
  | _, [] => True
  | changes, call :: calls => call.Fits changes ∧ FitsRun (call.apply changes) calls

instance decidableFitsRun :
    (changes : List ContractResultTransferInfo) → (calls : List BalanceChangeCall) →
      Decidable (FitsRun changes calls)
  | _, [] => .isTrue trivial
  | changes, call :: calls =>
    have := decidableFitsRun (call.apply changes) calls
    inferInstanceAs (Decidable (call.Fits changes ∧ FitsRun (call.apply changes) calls))

/-- The sum of the signed amounts of the calls of one key. -/
def callsNet (address : String) (isContract : Bool) (calls : List BalanceChangeCall) : Int :=
  ((calls.filter fun call => call.address == address && call.isContract == isContract).map
    fun call => signed call.add call.amount).sum

/-- The signed amount of the first entry of a key, `0` when there is none. -/
def signedEntry (address : String) (isContract : Bool) (changes : List ContractResultTransferInfo) :
    Int :=
  match changes.find? (fun info => info.address == address && info.isContract == isContract) with
  | some info => info.signedAmount
  | none => 0

section Runs

variable {address : String} {isContract : Bool}

theorem runBalanceChanges_cons (changes : List ContractResultTransferInfo) (call : BalanceChangeCall)
    (calls : List BalanceChangeCall) :
    runBalanceChanges changes (call :: calls) = runBalanceChanges (call.apply changes) calls := rfl

theorem callsNet_cons (call : BalanceChangeCall) (calls : List BalanceChangeCall) :
    callsNet address isContract (call :: calls) =
      (if (call.address, call.isContract) = (address, isContract) then signed call.add call.amount
        else 0) + callsNet address isContract calls := by
  by_cases h : (call.address, call.isContract) = (address, isContract)
  · simp only [Prod.mk.injEq] at h
    simp [callsNet, h.1, h.2]
  · have : (call.address == address && call.isContract == isContract) = false := by
      simp only [Prod.mk.injEq, not_and] at h
      simpa using h
    simp [callsNet, this, h]

/-- Every run keeps one entry per key. -/
theorem nodup_balanceKeys_runBalanceChanges (calls : List BalanceChangeCall) :
    ∀ {changes : List ContractResultTransferInfo}, (balanceKeys changes).Nodup →
      (balanceKeys (runBalanceChanges changes calls)).Nodup := by
  induction calls with
  | nil => exact id
  | cons call calls ih =>
    intro changes hnodup
    exact ih (nodup_balanceKeys_addBalanceChange hnodup)

/-- Over a run without a wrapping sum, the net of every key moves by the calls of that key. -/
theorem netChange_runBalanceChanges (calls : List BalanceChangeCall) :
    ∀ {changes : List ContractResultTransferInfo}, FitsRun changes calls →
      netChange address isContract (runBalanceChanges changes calls) =
        netChange address isContract changes + callsNet address isContract calls := by
  induction calls with
  | nil =>
    intro changes _
    simp [runBalanceChanges, callsNet]
  | cons call calls ih =>
    intro changes hfits
    rw [runBalanceChanges_cons, ih hfits.2, BalanceChangeCall.apply,
      netChange_addBalanceChange address isContract hfits.1, callsNet_cons]
    ring

theorem netChange_of_not_mem {changes : List ContractResultTransferInfo}
    (habsent : (address, isContract) ∉ balanceKeys changes) :
    netChange address isContract changes = 0 := by
  induction changes with
  | nil => rfl
  | cons info rest ih =>
    simp only [balanceKeys, List.map_cons, List.mem_cons, not_or] at habsent
    rw [netChange_cons, if_neg (Ne.symm habsent.1), ih habsent.2, zero_add]

/-- With one entry per key, the net of a key is the signed amount of its entry. -/
theorem netChange_eq_signedEntry {changes : List ContractResultTransferInfo}
    (hnodup : (balanceKeys changes).Nodup) :
    netChange address isContract changes = signedEntry address isContract changes := by
  induction changes with
  | nil => rfl
  | cons info rest ih =>
    simp only [balanceKeys, List.map_cons, List.nodup_cons] at hnodup
    by_cases h : info.key = (address, isContract)
    · have hmatch : (info.address == address && info.isContract == isContract) = true := by
        simpa [key] using h
      rw [netChange_cons, if_pos h, netChange_of_not_mem (h ▸ hnodup.1), add_zero]
      simp only [signedEntry, List.find?_cons, hmatch]
    · have hmatch : (info.address == address && info.isContract == isContract) = false := by
        simp only [key, Prod.mk.injEq, not_and] at h
        simpa using h
      rw [netChange_cons, if_neg h, zero_add, ih hnodup.2]
      simp only [signedEntry, List.find?_cons, hmatch]

/-- A contract without an entry reads its stored balance. -/
theorem getContractBalance_of_not_mem {changes : List ContractResultTransferInfo}
    (habsent : (address, true) ∉ balanceKeys changes) (balance : Nat) :
    getContractBalance address balance changes = balance := by
  induction changes with
  | nil => rfl
  | cons info rest ih =>
    simp only [balanceKeys, List.map_cons, List.mem_cons, not_or] at habsent
    have hskip : ¬ (info.isContract && info.address == address) = true := by
      intro hread
      apply habsent.1
      simp only [Bool.and_eq_true, beq_iff_eq] at hread
      simp [key, hread.1, hread.2]
    rw [getContractBalance, if_neg hskip, ih habsent.2]

/-- With one entry per key and a net credit, a contract reads its stored balance plus
the credit, as a `uint64_t` sum. -/
theorem getContractBalance_of_nodup {changes : List ContractResultTransferInfo}
    (hnodup : (balanceKeys changes).Nodup) {balance : Nat} (hbalance : balance < 2 ^ 64)
    (hcredit : 0 ≤ signedEntry address true changes) :
    getContractBalance address balance changes =
      (balance + (signedEntry address true changes).toNat) % 2 ^ 64 := by
  induction changes with
  | nil => simpa [signedEntry, getContractBalance] using (Nat.mod_eq_of_lt hbalance).symm
  | cons info rest ih =>
    simp only [balanceKeys, List.map_cons, List.nodup_cons] at hnodup
    by_cases h : info.key = (address, true)
    · have hmatch : (info.address == address && info.isContract == true) = true := by
        simpa [key] using h
      have hentry : signedEntry address true (info :: rest) = info.signedAmount := by
        simp only [signedEntry, List.find?_cons, hmatch]
      have hread : (info.isContract && info.address == address) = true := by
        simpa [Bool.and_comm] using hmatch
      rw [hentry] at hcredit ⊢
      obtain ⟨infoAddress, infoAdd, infoIsContract, amount⟩ := info
      -- the entry is a credit, or a debit of nothing
      cases infoAdd with
      | true =>
        simp only at hread
        rw [getContractBalance, if_pos hread, if_pos rfl,
          getContractBalance_of_not_mem (h ▸ hnodup.1)]
        simp [signedAmount]
      | false =>
        have hzero : amount = 0 := by
          simp only [signedAmount, Bool.false_eq_true, if_false, Left.nonneg_neg_iff] at hcredit
          omega
        subst hzero
        rw [getContractBalance, if_pos hread, if_neg (by simp), if_neg (Nat.not_lt_zero balance),
          getContractBalance_of_not_mem (h ▸ hnodup.1)]
        simpa [signedAmount] using (Nat.mod_eq_of_lt hbalance).symm
    · have hmatch : (info.address == address && info.isContract == true) = false := by
        simp only [key, Prod.mk.injEq, not_and] at h
        simpa using h
      have hentry : signedEntry address true (info :: rest) = signedEntry address true rest := by
        simp only [signedEntry, List.find?_cons, hmatch]
      have hskip : ¬ (info.isContract && info.address == address) = true := by
        simpa [Bool.and_comm] using hmatch
      rw [hentry] at hcredit ⊢
      rw [getContractBalance, if_neg hskip, ih hnodup.2 hcredit]

/-- `add_balance_change` keeps one net entry per account. From no changes, and while no
same-direction sum wraps, every address and kind has at most one entry, its signed
amount is the sum of the calls for it, and a contract with a net credit reads its stored
balance plus that credit. -/
theorem runBalanceChanges_nets (calls : List BalanceChangeCall) (hfits : FitsRun [] calls) :
    (balanceKeys (runBalanceChanges [] calls)).Nodup ∧
    (∀ address isContract,
      signedEntry address isContract (runBalanceChanges [] calls) = callsNet address isContract calls) ∧
    ∀ address balance, balance < 2 ^ 64 → 0 ≤ callsNet address true calls →
      getContractBalance address balance (runBalanceChanges [] calls) =
        (balance + (callsNet address true calls).toNat) % 2 ^ 64 := by
  have hempty : (balanceKeys ([] : List ContractResultTransferInfo)).Nodup := List.nodup_nil
  have hnodup := nodup_balanceKeys_runBalanceChanges calls hempty
  have hentry : ∀ address isContract,
      signedEntry address isContract (runBalanceChanges [] calls) = callsNet address isContract calls := by
    intro address isContract
    rw [← netChange_eq_signedEntry hnodup, netChange_runBalanceChanges calls hfits]
    simp [netChange]
  refine ⟨hnodup, hentry, fun address balance hbalance hcredit => ?_⟩
  rw [← hentry] at hcredit ⊢
  exact getContractBalance_of_nodup hnodup hbalance hcredit

/-- Calls of two accounts, one of them a credit, a debit and a credit again. -/
def exampleCalls : List BalanceChangeCall :=
  [⟨"c1", true, true, 5⟩, ⟨"x", false, true, 2⟩, ⟨"c1", true, false, 8⟩, ⟨"c1", true, true, 4⟩]

theorem runBalanceChanges_nets_exampleCalls :
    FitsRun [] exampleCalls ∧
    (balanceKeys (runBalanceChanges [] exampleCalls)).Nodup ∧
    (∀ address isContract, signedEntry address isContract (runBalanceChanges [] exampleCalls) =
      callsNet address isContract exampleCalls) ∧
    ∀ address balance, balance < 2 ^ 64 → 0 ≤ callsNet address true exampleCalls →
      getContractBalance address balance (runBalanceChanges [] exampleCalls) =
        (balance + (callsNet address true exampleCalls).toNat) % 2 ^ 64 :=
  ⟨by decide, runBalanceChanges_nets exampleCalls (by decide)⟩

end Runs

/-! ## Transfers from contracts -/

/-- The address checks of the chain API. -/
structure AddressFormat where
  /-- `ContractHelper::is_valid_contract_address_format`: the `CON` prefix on a base58
  body with its checksum. -/
  isValidContractAddress : String → Bool
  /-- `IsValidDestination(DecodeDestination(address))`. -/
  isValidDestination : String → Bool

/-- `BtcUvmChainApi::is_valid_address`: a contract address or a chain address. -/
def AddressFormat.isValidAddress (format : AddressFormat) (address : String) : Bool :=
  format.isValidContractAddress address || format.isValidDestination address

/-- `BtcUvmChainApi::get_system_asset_symbol`. -/
def systemAssetSymbol : String := "UBTC"

/-- `PendingState`: the opcode of the op that runs and the balance changes so far. -/
structure PendingState where
  originOpcode : UInt8
  balanceChanges : List ContractResultTransferInfo
  deriving DecidableEq, Repr

/-- A call of `transfer_from_contract_to_address` with its arguments. The amount is a
Lua integer, an `int64_t`. -/
structure TransferCall where
  contractAddress : String
  toAddress : String
  assetType : String
  amount : Int
  amount_inRange : -2 ^ 63 ≤ amount ∧ amount < 2 ^ 63
  deriving DecidableEq

section Transfer

variable (format : AddressFormat) (storedBalance : String → Nat)

/-- `BtcUvmChainApi::transfer_from_contract_to_address`: the code it returns to the
contract and the pending state after the call. The contract's balance is its stored
balance, read from the storage service, through the pending entries. -/
def transferFromContractToAddress (state : PendingState) (call : TransferCall) :
    Int × PendingState :=
  if call.amount ≤ 0 then (-6, state)
  else if !format.isValidAddress call.toAddress then (-4, state)
  else if !format.isValidContractAddress call.contractAddress then (-3, state)
  else if call.assetType ≠ systemAssetSymbol then (-2, state)
  else if state.originOpcode = opDepositToContract then (-7, state)
  else if (getContractBalance call.contractAddress (storedBalance call.contractAddress)
      state.balanceChanges : Int) < call.amount then (-5, state)
  else
    let debited :=
      addBalanceChange call.contractAddress true false call.amount.toNat state.balanceChanges
    let credited := addBalanceChange call.toAddress
      (format.isValidContractAddress call.toAddress) true call.amount.toNat debited
    (0, { state with balanceChanges := credited })

/-- A contract's run, as the sequence of its transfer calls. A call the API refuses
leaves the state as it is. -/
def runTransfers (state : PendingState) (calls : List TransferCall) : PendingState :=
  calls.foldl (fun state call => (transferFromContractToAddress format storedBalance state call).2)
    state

/-- A transfer keeps one entry per key. -/
theorem nodup_balanceKeys_transfer {state : PendingState}
    (hnodup : (balanceKeys state.balanceChanges).Nodup) (call : TransferCall) :
    (balanceKeys (transferFromContractToAddress format storedBalance state call).2.balanceChanges).Nodup := by
  unfold transferFromContractToAddress
  split_ifs
  all_goals first
    | exact hnodup
    | exact nodup_balanceKeys_addBalanceChange (nodup_balanceKeys_addBalanceChange hnodup)

/-- Over any run, the pending state keeps one entry per key. -/
theorem nodup_balanceKeys_runTransfers {state : PendingState}
    (hnodup : (balanceKeys state.balanceChanges).Nodup) (calls : List TransferCall) :
    (balanceKeys (runTransfers format storedBalance state calls).balanceChanges).Nodup := by
  induction calls generalizing state with
  | nil => exact hnodup
  | cons call rest ih => exact ih (nodup_balanceKeys_transfer format storedBalance hnodup call)

/-- Two transfers of 3 from the contract `CONa`, holding 10, to the address `b`: each nets
into the entry its key already has. -/
theorem nodup_balanceKeys_runTransfers_twice :
    let format : AddressFormat := ⟨fun address => address == "CONa", fun address => address == "b"⟩
    let call : TransferCall := ⟨"CONa", "b", systemAssetSymbol, 3, by decide⟩
    (runTransfers format (fun _ => 10) ⟨0, []⟩ [call, call]).balanceChanges =
        [⟨"CONa", false, true, 6⟩, ⟨"b", true, false, 6⟩] ∧
      (balanceKeys (runTransfers format (fun _ => 10) ⟨0, []⟩ [call, call]).balanceChanges).Nodup := by
  intro format call
  exact ⟨by decide, @nodup_balanceKeys_runTransfers format (fun _ => 10) ⟨0, []⟩ List.nodup_nil [call, call]⟩

end Transfer

/-! ## Withdrawals -/

/-- `ContractWithdrawInfo`: the contract and the amount of an `OP_SPEND` output. -/
structure ContractWithdrawInfo where
  fromContractAddress : String
  amount : Nat
  deriving DecidableEq, Repr

/-- `ContractExecResult::match_contract_withdraw_infos`: every net debit of a contract
has the first withdraw info of its contract, with its amount, and there are as many
withdraw infos as debits. -/
def matchContractWithdrawInfos (balanceChanges : List ContractResultTransferInfo)
    (withdrawInfos : List ContractWithdrawInfo) : Bool :=
  let debits := balanceChanges.filter fun info => info.isContract && !info.add
  debits.all (fun info =>
      match withdrawInfos.find? (·.fromContractAddress == info.address) with
      | some withdrawInfo => withdrawInfo.amount == info.amount
      | none => false) &&
    debits.length == withdrawInfos.length

end UnitedBitcoin.Contract
