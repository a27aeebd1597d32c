import Mathlib
import UnitedBitcoin.JsonDiff.Diff
import UnitedBitcoin.Uvm.Storage

/-!
# Committing contract storage changes

At the end of a contract call `luaL_commit_storage_changes` (`uvm_storage.cpp`)
merges the storage change list into one change per contract and property,
normalises each change against the property's type in the contract's code and
drops the changes that change nothing; `commit_storage_changes_to_uvm`
(`btc_uvm_api.cpp`) then turns each change into its JSON diff.

The merged changes are `std::unordered_map`s, whose iteration order the source
does not fix; the model iterates them in the order of first insertion. The
parts of `luaL_commit_storage_changes` that read the Lua state (the pending
exception, the tables read during the call, the sandbox) and the gas charged
for the size of the printed diffs are left out.

Two results are about values that come from the contract storage service: an
unchanged value gives the null diff, and values whose scalars fit the VM come
back equal as maps (`jsonBridge_roundTrip`). The last section shows that the
check meant to keep the items of a committed table of one type never compares
two items.
-/

namespace UnitedBitcoin.Uvm

open UnitedBitcoin.Json UnitedBitcoin.Library UnitedBitcoin.ContractStorage

/-! ## The diff of a value with itself -/

theorem distinctKeysEntries_iff (entries : JsonObject) :
    distinctKeysEntries entries = true ↔ ∀ entry ∈ entries, distinctKeys entry.2 = true := by
  induction entries with
  | nil => simp [distinctKeysEntries]
  | cons entry rest ih =>
      obtain ⟨k, v⟩ := entry
      simp [distinctKeysEntries, ih]

mutual
/-- What comes back from the VM has distinct keys in every object: its objects are
`UvmTableMap`s. -/
theorem distinctKeys_storageJson : ∀ value : JsonValue, distinctKeys (storageJson value) = true
  | .null => rfl
  | .bool _ => rfl
  | .int _ => rfl
  | .str _ => rfl
  | .arr items => by
    simp only [storageJson, distinctKeys]
    exact distinctKeysItems_storageJsonItems items
  | .obj entries => by
    simp only [storageJson, distinctKeys, Bool.and_eq_true, decide_eq_true_eq]
    have hsorted : ((assignAll luaTableLess [] (storageJsonEntries entries)).map Prod.fst).Pairwise
        (fun a b => luaTableLess a b = true) :=
      assignAll_sorted luaTableLess_strictTotal _ (by simp)
    refine ⟨keys_nodup_of_sorted hsorted, ?_⟩
    rw [distinctKeysEntries_iff]
    intro entry hentry
    rcases mem_assignAll hentry with hnil | hmem
    · simp at hnil
    · exact (distinctKeysEntries_iff _).mp (distinctKeysEntries_storageJsonEntries entries) entry hmem
  termination_by structural value => value

/-- `distinctKeys_storageJson` of every item. -/
theorem distinctKeysItems_storageJsonItems : ∀ items : List JsonValue,
    distinctKeysItems (storageJsonItems items) = true
  | [] => rfl
  | item :: rest => by
    simp only [storageJsonItems, distinctKeysItems, distinctKeys_storageJson item,
      distinctKeysItems_storageJsonItems rest, Bool.and_self]
  termination_by structural items => items

/-- `distinctKeys_storageJson` of the value of every entry. -/
theorem distinctKeysEntries_storageJsonEntries : ∀ entries : JsonObject,
    distinctKeysEntries (storageJsonEntries entries) = true
  | [] => rfl
  | (_, value) :: rest => by
    simp only [storageJsonEntries, distinctKeysEntries, distinctKeys_storageJson value,
      distinctKeysEntries_storageJsonEntries rest, Bool.and_self]
  termination_by structural entries => entries
end

theorem find_of_mem_of_nodup {entries : JsonObject} (hnodup : (entries.map Prod.fst).Nodup)
    {entry : String × JsonValue} (h : entry ∈ entries) :
    JsonObject.find entries entry.1 = some entry.2 := by
  induction entries with
  | nil => cases h
  | cons head rest ih =>
      obtain ⟨k, v⟩ := head
      simp only [List.map_cons, List.nodup_cons] at hnodup
      rcases List.mem_cons.mp h with heq | hrest
      · simp [heq, JsonObject.find_cons]
      · have hne : entry.1 ≠ k := fun heq => hnodup.1 (heq ▸ List.mem_map_of_mem hrest)
        rw [JsonObject.find_cons, if_neg hne]
        exact ih hnodup.2 hrest

/-- The first loop of the object case adds nothing for entries the new object holds
unchanged. -/
theorem diffObjectEntries_of_unchanged (newEntries acc : JsonObject) (rest : JsonObject)
    (h : ∀ entry ∈ rest, JsonObject.find newEntries entry.1 = some entry.2 ∧
      JsonDiff.diff entry.2 entry.2 = .null) :
    JsonDiff.diffObjectEntries rest newEntries acc = acc := by
  induction rest with
  | nil => rfl
  | cons entry rest ih =>
      obtain ⟨k, v⟩ := entry
      obtain ⟨hfind, hdiff⟩ := h (k, v) List.mem_cons_self
      simp only [JsonDiff.diffObjectEntries, hfind, hdiff, if_true]
      exact ih fun other hother => h other (List.mem_cons_of_mem _ hother)

/-- The second loop of the object case adds nothing for keys the old object has. -/
theorem addedEntries_of_found (oldEntries acc : JsonObject) (rest : JsonObject)
    (h : ∀ entry ∈ rest, (JsonObject.find oldEntries entry.1).isSome) :
    JsonDiff.addedEntries oldEntries rest acc = acc := by
  induction rest with
  | nil => rfl
  | cons entry rest ih =>
      obtain ⟨k, v⟩ := entry
      have hfound : (JsonObject.find oldEntries k).isNone = false := by
        simpa using h (k, v) List.mem_cons_self
      simp only [JsonDiff.addedEntries, hfound]
      exact ih fun other hother => h other (List.mem_cons_of_mem _ hother)

/-- The first loop of the array case adds nothing over the items from index `index`
on when each is unchanged. -/
theorem diffArrayItems_of_unchanged (items : List JsonValue) (rest : List JsonValue) (index : Nat)
    (hrest : items.drop index = rest) (h : ∀ item ∈ rest, JsonDiff.diff item item = .null) :
    JsonDiff.diffArrayItems items index rest = [] := by
  induction rest generalizing index with
  | nil => rfl
  | cons item rest ih =>
      have hitem : items[index]? = some item := by
        rw [← List.head?_drop, hrest]
        rfl
      have hnext : items.drop (index + 1) = rest := by
        rw [← List.drop_drop, hrest]
        rfl
      simp only [JsonDiff.diffArrayItems, hitem, h item List.mem_cons_self, if_true]
      exact ih (index + 1) hnext fun other hother => h other (List.mem_cons_of_mem _ hother)

mutual
/-- A value with distinct keys has the null diff with itself. -/
theorem diff_self : ∀ value : JsonValue, distinctKeys value = true → JsonDiff.diff value value = .null
  | .null, _ => by simp [JsonDiff.diff]
  | .bool _, _ => by simp [JsonDiff.diff]
  | .int _, _ => by simp [JsonDiff.diff]
  | .str _, _ => by simp [JsonDiff.diff]
  | .arr items, h => by
    simp only [distinctKeys] at h
    have hops : JsonDiff.diffArrayItems items 0 items = [] :=
      diffArrayItems_of_unchanged items items 0 rfl (diff_self_items items h)
    simp [JsonDiff.diff, hops, JsonDiff.addedItems]
  | .obj entries, h => by
    simp only [distinctKeys, Bool.and_eq_true, decide_eq_true_eq] at h
    have hold : JsonDiff.diffObjectEntries entries entries [] = [] :=
      diffObjectEntries_of_unchanged entries [] entries fun entry hentry =>
        ⟨find_of_mem_of_nodup h.1 hentry, diff_self_entries entries h.2 entry hentry⟩
    have hadded : JsonDiff.addedEntries entries entries [] = [] :=
      addedEntries_of_found entries [] entries fun entry hentry => by
        rw [find_of_mem_of_nodup h.1 hentry]
        rfl
    simp [JsonDiff.diff, hold, hadded]
  termination_by structural value => value

/-- `diff_self` of every item. -/
theorem diff_self_items : ∀ items : List JsonValue, distinctKeysItems items = true →
    ∀ item ∈ items, JsonDiff.diff item item = .null
  | [], _ => by simp
  | first :: rest, h => by
    simp only [distinctKeysItems, Bool.and_eq_true] at h
    intro item hitem
    rcases List.mem_cons.mp hitem with heq | hrest
    · rw [heq]
      exact diff_self first h.1
    · exact diff_self_items rest h.2 item hrest
  termination_by structural items => items

/-- `diff_self` of the value of every entry. -/
theorem diff_self_entries : ∀ entries : JsonObject, distinctKeysEntries entries = true →
    ∀ entry ∈ entries, JsonDiff.diff entry.2 entry.2 = .null
  | [], _ => by simp
  | (key, value) :: rest, h => by
    simp only [distinctKeysEntries, Bool.and_eq_true] at h
    intro entry hentry
    rcases List.mem_cons.mp hentry with heq | hrest
    · rw [heq]
      exact diff_self value h.1
    · exact diff_self_entries rest h.2 entry hrest
  termination_by structural entries => entries
end

/-! ## Change items and `commit_storage_changes_to_uvm` -/

/-- `UvmStorageChangeItem`. `diff` is the `jsondiff::DiffResult`, null when undefined. -/
structure UvmStorageChangeItem where
  contractId : String
  key : String
  diff : JsonValue
  fastMapKey : String
  isFastMap : Bool
  before : UvmStorageValue
  after : UvmStorageValue
  deriving Repr

/-- `UvmStorageChangeItem::full_key`, also the storage key of the commit. -/
def UvmStorageChangeItem.fullKey (item : UvmStorageChangeItem) : String :=
  if item.isFastMap then item.key ++ "." ++ item.fastMapKey else item.key

/-- The changes of one contract, `storage_unique_key => change_item`. -/
abbrev ContractChanges := List (String × UvmStorageChangeItem)

/-- `AllContractsChangesMap`: `contract_id => (storage_unique_key => change_item)`. -/
abbrev AllContractsChangesMap := List (String × ContractChanges)

section Commit

variable (jsonOfDouble : Float → JsonValue)

/-- The diff `commit_storage_changes_to_uvm` records for a change: the change's own
diff, or, when that is undefined, the diff of its values as JSON. -/
def storageChangeDiff (item : UvmStorageChangeItem) : Except String JsonValue :=
  if item.diff = .null then do
    let beforeJson ← uvmStorageValueToJson jsonOfDouble item.before
    let afterJson ← uvmStorageValueToJson jsonOfDouble item.after
    pure (JsonDiff.diff beforeJson afterJson)
  else .ok item.diff

/-- The loop of `commit_storage_changes_to_uvm` that builds a contract's
`nested_changes`. -/
def nestedChanges (acc : JsonObject) : ContractChanges → Except String JsonObject
  | [] => .ok acc
  | (_, item) :: rest => do
      let change ← storageChangeDiff jsonOfDouble item
      nestedChanges (JsonObject.set acc item.fullKey change) rest

/-- `commit_storage_changes_to_uvm`: the diff object recorded for each contract. -/
def commitStorageChangesToUvm : AllContractsChangesMap → Except String (List (String × JsonObject))
  | [] => .ok []
  | (contractId, contractChanges) :: rest => do
      let changes ← nestedChanges jsonOfDouble [] contractChanges
      let others ← commitStorageChangesToUvm rest
      pure ((contractId, changes) :: others)

end Commit

/-! ## The storage round trip -/

/-- Values from the contract storage service survive the VM: one whose strings have
no NUL and whose integers are `int64`s comes back equal as a map (and the
conversion back does not throw), and a value read and left unchanged commits the
null diff, for every value. -/
theorem jsonBridge_roundTrip (jsonOfDouble : Float → JsonValue) :
    (∀ value : JsonValue, scalarsFitUvm value = true → distinctKeys value = true →
      ∃ back, uvmStorageValueToJson jsonOfDouble (jsonToUvmStorageValue value) = .ok back ∧
        back.EquivAsMaps value) ∧
    (∀ (value : JsonValue) (item : UvmStorageChangeItem),
      item.before = jsonToUvmStorageValue value → item.after = jsonToUvmStorageValue value →
      item.diff = .null → storageChangeDiff jsonOfDouble item = .ok .null) := by
  refine ⟨fun value hfit hkeys => ?_, fun value item hbefore hafter hdiff => ?_⟩
  · exact ⟨storageJson value, uvmStorageValueToJson_jsonToUvmStorageValue jsonOfDouble value,
      storageJson_canonical value hfit hkeys⟩
  · rw [storageChangeDiff, if_pos hdiff, hbefore, hafter,
      uvmStorageValueToJson_jsonToUvmStorageValue]
    simp only [bind, Except.bind, pure, Except.pure]
    rw [diff_self _ (distinctKeys_storageJson value)]

/-- Strings are cut at their first NUL, a `uint64` of `2 ^ 63` comes back negative, and
of two entries of one key the later one comes back. No number is involved, so the printer of
doubles is taken to print null. -/
theorem jsonBridge_changes_values :
    uvmStorageValueToJson (fun _ => .null)
        (jsonToUvmStorageValue (.str (String.ofList ['a', nulChar, 'b']))) = .ok (.str "a") ∧
      ¬ JsonValue.EquivAsMaps (.str "a") (.str (String.ofList ['a', nulChar, 'b'])) ∧
      uvmStorageValueToJson (fun _ => .null) (jsonToUvmStorageValue (.int (2 ^ 63))) =
        .ok (.int (-2 ^ 63)) ∧
      uvmStorageValueToJson (fun _ => .null)
          (jsonToUvmStorageValue (.obj [("a", .int 1), ("a", .int 2)])) =
        .ok (.obj [("a", .int 2)]) ∧
      ¬ JsonValue.EquivAsMaps (.obj [("a", .int 2)]) (.obj [("a", .int 1), ("a", .int 2)]) := by
  simp only [uvmStorageValueToJson_jsonToUvmStorageValue]
  exact ⟨by decide, by decide, by decide, by decide, by decide⟩

/-! ## `luaL_commit_storage_changes` -/

/-- Writing `value` at `key` of an `unordered_map`: the entry of `key` is replaced, or a
new entry is added after the others. -/
def unorderedAssign {β : Type} (key : String) (value : β) : List (String × β) → List (String × β)
  | [] => [(key, value)]
  | (k, v) :: rest => if k = key then (key, value) :: rest else (k, v) :: unorderedAssign key value rest

/-- One step of the merge loop: a later change of a property already in the merged
changes only replaces its `after`. -/
def mergeChange (changes : AllContractsChangesMap) (item : UvmStorageChangeItem) :
    AllContractsChangesMap :=
  let contractChanges := (changes.lookup item.contractId).getD []
  let merged :=
    match contractChanges.lookup item.fullKey with
    | some found => unorderedAssign item.fullKey { found with after := item.after } contractChanges
    | none => unorderedAssign item.fullKey item contractChanges
  unorderedAssign item.contractId merged changes

/-- The merge loop over the change list. -/
def mergeChanges (list : List UvmStorageChangeItem) : AllContractsChangesMap :=
  list.foldl mergeChange []

/-- `(lua_Integer)number_value`. -/
def luaIntegerOfNumber (x : Float) : Int := x.toInt64.toInt

/-- `UvmStorageValue::try_parse_type`: a number read as an `int` property, or an
integer read as a `number` property, changes its type. -/
def UvmStorageValue.tryParseType (newType : StorageValueTypes) : UvmStorageValue → UvmStorageValue
  | .number x => if newType = .int then .int (luaIntegerOfNumber x) else .number x
  | .int i => if newType = .number then .number (Float.ofInt i) else .int i
  | value => value

/-- `value.type = newType` for a table or array. -/
def UvmStorageValue.setTableType (newType : StorageValueTypes)
    (hnew : luaStorageIsTable newType = true) : UvmStorageValue → UvmStorageValue
  | .table _ entries _ => .table newType entries hnew
  | value => value

/-- The check of a change's `after` value against the property's type in the
contract's code, `storage_info_in_chain`, with the retyping it does; the error names
`name`. The source tests that the type is neither a table nor an array type. -/
def matchTypeInChain (name : String) (storageInfoInChain : StorageValueTypes) :
    UvmStorageValue → Except String UvmStorageValue
  | .table type entries htable =>
      if hchain : luaStorageIsTable storageInfoInChain = true then do
        -- every item is retyped in place, then the first one is compared
        let entries := entries.map
          (Prod.map id (UvmStorageValue.tryParseType (getStorageBaseType storageInfoInChain)))
        if let (_, itemAfter) :: _ := entries then
          if itemAfter.type ≠ getItemTypeInTableOrArray storageInfoInChain then
            throw ("storage " ++ name ++ " type not matched in chain")
        if type = .unknownTable ∨ type = .unknownArray then
          pure (.table storageInfoInChain entries hchain)
        else pure (.table type entries htable)
      else .error ("storage " ++ name ++ " type not matched in chain")
  | .number x =>
      if storageInfoInChain = .int then .ok (.int (luaIntegerOfNumber x)) else .ok (.number x)
  | .int i =>
      if storageInfoInChain = .number then .ok (.number (Float.ofInt i)) else .ok (.int i)
  | value => .ok value

theorem luaStorageIsTable_of_isArray {type : StorageValueTypes}
    (h : luaStorageIsArray type = true) : luaStorageIsTable type = true := by
  unfold luaStorageIsArray at h
  simp [luaStorageIsTable, h]

/-- A changed table keeps the type of the value it replaces: an empty table replacing
an array, or any table replacing a non-empty table or array. -/
def adoptBeforeType (before after : UvmStorageValue) : UvmStorageValue :=
  if harray : luaStorageIsArray before.type = true ∧ after.tableEntries.length = 0 then
    after.setTableType before.type (luaStorageIsTable_of_isArray harray.1)
  else if htable : luaStorageIsTable before.type = true ∧ 0 < before.tableEntries.length then
    after.setTableType before.type htable.1
  else after

section Normalise

variable (jsonOfDouble : Float → JsonValue)

/-- `diff_storage_change_if_is_table`: the diff of two tables, kept unchanged when a
value cannot be printed. -/
def diffStorageChangeIfIsTable (item : UvmStorageChangeItem) : UvmStorageChangeItem :=
  if !luaStorageIsTable item.after.type then item
  else if !luaStorageIsTable item.before.type || !luaStorageIsTable item.after.type then item
  else
    match uvmStorageValueToJson jsonOfDouble item.before,
        uvmStorageValueToJson jsonOfDouble item.after with
    | .ok beforeJson, .ok afterJson => { item with diff := JsonDiff.diff beforeJson afterJson }
    | _, _ => item

/-- The loop meant to check that a table's items have one type. `is_first` is set
again on every item and never cleared, so every item only records its type. -/
def checkItemTypes : Bool → StorageValueTypes → List (String × UvmStorageValue) →
    Except String Unit
  | _, _, [] => .ok ()
  | isFirst, itemValueType, (_, value) :: rest =>
      if isFirst then checkItemTypes isFirst value.type rest
      else if !isSameBaseTypeWithTypeParse value.type itemValueType then
        .error "array/map's value type must be same in contract storage"
      else checkItemTypes true itemValueType rest

/-- Whether a change changes nothing, by the comparisons for its type: equal integers,
booleans, strings or streams, numbers within `1e-7` or bitwise equal, or two empty
tables. Two non-empty tables are never equal here. -/
def isUnchanged (before after : UvmStorageValue) : Bool :=
  after.type == before.type &&
    match after, before with
    | .int a, .int b => a == b
    | .bool a, .bool b => a == b
    | .number a, .number b => (a - b).abs < 0.0000001 || a.toBits == b.toBits
    | .string a, .string b => a == b
    | .stream a, .stream b => a == b
    | .table _ a _, .table _ b _ => a.isEmpty && b.isEmpty
    | .userdata a, .userdata b => a == b
    | .null, .null | .notSupport, .notSupport => true
    | _, _ => false

/-- The body of the loop over a contract's merged changes: `none` when the change is
erased as no change. Outside the starting contract's init, a change of a property
that had a value and that the contract's code declares is checked against the
declared type. -/
def normalizeChange (storagePropertiesInChain : List (String × StorageValueTypes))
    (isInStartingContractInit : Bool) (fullKey : String) (item : UvmStorageChangeItem) :
    Except String (Option UvmStorageChangeItem) := do
  let item :=
    if luaStorageIsTable item.after.type then
      diffStorageChangeIfIsTable jsonOfDouble
        { item with after := adoptBeforeType item.before item.after }
    else item
  let item ←
    if !isInStartingContractInit && item.before.type ≠ .null then
      match storagePropertiesInChain.lookup fullKey with
      | some storageInfoInChain => do
          let after ← matchTypeInChain fullKey storageInfoInChain item.after
          pure { item with after := after }
      | none => pure item
    else pure item
  if luaStorageIsTable item.after.type then
    checkItemTypes true .null item.after.tableEntries
  if isUnchanged item.before item.after then pure none else pure (some item)

/-- The loop over the merged changes of a contract in its init API: every property
but a fast-map entry must be declared, and is checked against the declared type. -/
def checkInitChanges (storagePropertiesInChain : List (String × StorageValueTypes)) :
    ContractChanges → Except String ContractChanges
  | [] => .ok []
  | (fullKey, item) :: rest => do
      let item ←
        if item.isFastMap then pure item
        else
          match storagePropertiesInChain.lookup item.key with
          | none => throw ("Can't find storage " ++ item.key)
          | some storageInfoInChain => do
              let after ← matchTypeInChain item.key storageInfoInChain item.after
              pure { item with after := after }
      let others ← checkInitChanges storagePropertiesInChain rest
      pure ((fullKey, item) :: others)

/-- The normalisation loop over a contract's merged changes. -/
def normalizeChanges (storagePropertiesInChain : List (String × StorageValueTypes))
    (isInStartingContractInit : Bool) : ContractChanges → Except String ContractChanges
  | [] => .ok []
  | (fullKey, item) :: rest => do
      let kept ← normalizeChange jsonOfDouble storagePropertiesInChain isInStartingContractInit
        fullKey item
      let others ← normalizeChanges storagePropertiesInChain isInStartingContractInit rest
      match kept with
      | some item => pure ((fullKey, item) :: others)
      | none => pure others

/-- The loop over the contracts. `contracts` gives the storage properties declared
in a contract's code, or nothing for an address with no contract. -/
def normalizeContracts (contracts : String → Option (List (String × StorageValueTypes)))
    (isCallingContractInitApi : Bool) (startingContractAddress : String) :
    AllContractsChangesMap → Except String AllContractsChangesMap
  | [] => .ok []
  | (contractId, contractChanges) :: rest => do
      let some storagePropertiesInChain := contracts contractId
        | throw ("Can't get contract info by contract address " ++ contractId)
      let isInStartingContractInit :=
        isCallingContractInitApi && contractId == startingContractAddress
      let contractChanges ←
        if isInStartingContractInit then checkInitChanges storagePropertiesInChain contractChanges
        else pure contractChanges
      let contractChanges ← normalizeChanges jsonOfDouble storagePropertiesInChain
        isInStartingContractInit contractChanges
      let others ← normalizeContracts contracts isCallingContractInitApi startingContractAddress rest
      pure ((contractId, contractChanges) :: others)

/-- `luaL_commit_storage_changes` from the change list on: the changes it hands to
`commit_storage_changes_to_uvm`, or the message of the exception it throws. -/
def luaLCommitStorageChanges (contracts : String → Option (List (String × StorageValueTypes)))
    (isCallingContractInitApi : Bool) (startingContractAddress : String)
    (list : List UvmStorageChangeItem) : Except String AllContractsChangesMap := do
  let changes := mergeChanges list
  if isCallingContractInitApi && changes.isEmpty then
    if let some properties := contracts startingContractAddress then
      if 0 < properties.length then throw "some storage of this contract not init"
  normalizeContracts jsonOfDouble contracts isCallingContractInitApi startingContractAddress changes

end Normalise

/-! ## Committed tables may mix item types -/

/-- A new property assigned a table of an integer and a string, outside the contract's
init: the change is committed with its items of two types. -/
def mixedTableChange : UvmStorageChangeItem where
  contractId := "contract"
  key := "records"
  diff := .null
  fastMapKey := ""
  isFastMap := false
  before := .null
  after := .table .unknownTable [("a", .int 1), ("b", .string "x")] luaStorageIsTable_unknownTable

/-- The types of the items of the tables among committed changes. -/
def committedItemTypes (changes : AllContractsChangesMap) :
    List (String × List (String × List StorageValueTypes)) :=
  changes.map fun contract =>
    (contract.1, contract.2.map fun change =>
      (change.1, change.2.after.tableEntries.map fun entry => entry.2.type))

theorem luaLCommitStorageChanges_commits_mixed_table (jsonOfDouble : Float → JsonValue) :
    (luaLCommitStorageChanges jsonOfDouble (fun _ => some [("records", .intTable)]) false ""
        [mixedTableChange]).map committedItemTypes =
      .ok [("contract", [("records", [.int, .string])])] ∧
    ¬ isSameBaseTypeWithTypeParse StorageValueTypes.int StorageValueTypes.string :=
  ⟨rfl, by decide⟩

end UnitedBitcoin.Uvm
