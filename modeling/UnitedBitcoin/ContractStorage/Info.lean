import Mathlib
import UnitedBitcoin.JsonDiff.Diff

/-!
# Contract records and their JSON forms

`ContractInfo`, `ContractBalance` and the parts of `ContractChanges`, with
`to_json` and `from_json` as `contract_info.cpp` and `change.cpp` write them,
and the ordered digest that `generate_next_root_hash` hashes.

Values are read back through the three ways `fjson` offers: a `const`
`operator[]` (a missing key throws), the `operator[]` of a local copy (a
missing key reads as null) and `find`. `fjson` exceptions do not derive from
`std::exception`, so the `catch` in `ContractInfo::from_json` lets them
through.
-/

namespace UnitedBitcoin.ContractStorage

open UnitedBitcoin.Json UnitedBitcoin.JsonDiff

/-- The exceptions the storage service lets out, and the undefined behaviour
of dereferencing a null `ContractBalance` pointer. -/
inductive StorageError where
  | contractStorageException (msg : String)
  | jsonDiffException (e : JsonDiffError)
  | fjsonException (e : FjsonException)
  | nullDereference
  | assertionFailure (condition : String)
  deriving DecidableEq, Repr

/-- An `fjson` conversion inside the service. -/
def liftFjson {α : Type} : Except FjsonException α → Except StorageError α :=
  Except.mapError .fjsonException

/-- A `jsondiff` call inside the service. -/
def liftJsonDiff {α : Type} : Except JsonDiffError α → Except StorageError α :=
  Except.mapError .jsonDiffException

/-! ## Sorting as the source sorts -/

/-- `std::sort` of strings with `std::less`. -/
def sortStrings (items : List String) : List String :=
  items.mergeSort fun a b => decide (a ≤ b)

/-- `std::map<std::string, uint32_t>` built from the storage types: ordered
by name. -/
def sortByName (items : List (String × Nat)) : List (String × Nat) :=
  items.mergeSort fun a b => decide (a.1 ≤ b.1)

/-- libstdc++'s `__insertion_sort`, which `std::sort` runs alone on at most
sixteen elements: an element that compares below the first goes to the
front; any other moves left past the elements it compares below. The
comparator need not be a strict weak order. -/
def insertionSortBy {α : Type} (lt : α → α → Bool) : List α → List α :=
  List.foldl (fun sorted next =>
    match sorted with
    | [] => [next]
    | first :: _ =>
        if lt next first then next :: sorted
        else
          let (passed, kept) := sorted.reverse.span (lt next)
          kept.reverse ++ next :: passed.reverse) []

/-! ## `ContractBalance` and `ContractInfo` -/

/-- `ContractBalance`. -/
structure ContractBalance where
  assetId : Nat
  amount : Nat
  deriving DecidableEq, Repr

/-- `ContractBalance::to_json`. -/
def ContractBalance.toJson (balance : ContractBalance) : JsonValue :=
  .obj [("asset_id", .int balance.assetId), ("amount", .int balance.amount)]

/-- `ContractBalance::from_json`: null for a value that is no object. -/
def ContractBalance.fromJson : JsonValue → Except FjsonException (Option ContractBalance)
  | .obj entries => do
      let assetId ← (JsonObject.field entries "asset_id").asUint64
      let amount ← (JsonObject.field entries "amount").asUint64
      .ok (some ⟨assetId % 2 ^ 32, amount⟩)
  | _ => .ok none

/-- `ContractInfo`. The bytecode is kept as its base64 text, which
`fjson::base64_encode` and `base64_decode` carry unchanged. -/
structure ContractInfo where
  bytecode : String
  id : String
  creatorAddress : String
  txid : String
  isNative : Bool
  contractTemplateKey : String
  name : String
  description : String
  version : Nat
  apis : List String
  offlineApis : List String
  storageTypes : List (String × Nat)
  balances : List ContractBalance
  deriving DecidableEq, Repr

/-- A default-constructed `ContractInfo`. -/
def ContractInfo.empty : ContractInfo :=
  ⟨"", "", "", "", false, "", "", "", 0, [], [], [], []⟩

/-- The comparator `to_json` sorts balances with, `a.asset_id - b.asset_id`
read as a `bool`. -/
def balanceIdsDiffer (a b : ContractBalance) : Bool :=
  a.assetId != b.assetId

/-- `ContractInfo::to_json`: sorted API lists and storage types, balances
without the zero ones. -/
def ContractInfo.toJson (info : ContractInfo) : JsonValue :=
  .obj [("version", .int info.version), ("id", .str info.id),
    ("creator_address", .str info.creatorAddress), ("name", .str info.name),
    ("description", .str info.description), ("txid", .str info.txid),
    ("is_native", .bool info.isNative), ("contract_template_key", .str info.contractTemplateKey),
    ("apis", .arr ((sortStrings info.apis).map .str)),
    ("offline_apis", .arr ((sortStrings info.offlineApis).map .str)),
    ("storage_types", .arr ((sortByName info.storageTypes).map fun entry =>
      .arr [.str entry.1, .int entry.2])),
    ("balances", .arr (((insertionSortBy balanceIdsDiffer info.balances).filter
      fun balance => balance.amount != 0).map ContractBalance.toJson)),
    ("bytecode", .str info.bytecode)]

/-- The balances array of a contract's JSON. -/
def balancesOfJson : JsonValue → Option JsonValue
  | .obj entries => JsonObject.find entries "balances"
  | _ => none

/-- A contract `c1` holding the balances given, listed in that order. -/
def contractWithBalances (balances : List ContractBalance) : ContractInfo :=
  { ContractInfo.empty with id := "c1", balances := balances }

/-- `a.asset_id - b.asset_id` is true of any two distinct ids in both orders, so the
insertion sort puts each balance in front of the one before it. The same two balances
listed in the two orders give two different `balances` arrays, and the first lists asset
2 before asset 1. -/
theorem contractInfo_toJson_depends_on_balance_order :
    List.Perm (contractWithBalances [⟨1, 5⟩, ⟨2, 7⟩]).balances
        (contractWithBalances [⟨2, 7⟩, ⟨1, 5⟩]).balances ∧
      balancesOfJson (contractWithBalances [⟨1, 5⟩, ⟨2, 7⟩]).toJson =
        some (.arr [ContractBalance.toJson ⟨2, 7⟩, ContractBalance.toJson ⟨1, 5⟩]) ∧
      balancesOfJson (contractWithBalances [⟨2, 7⟩, ⟨1, 5⟩]).toJson =
        some (.arr [ContractBalance.toJson ⟨1, 5⟩, ContractBalance.toJson ⟨2, 7⟩]) :=
  ⟨List.Perm.swap _ _ _, by decide, by decide⟩

/-- `storage_types[name] = type` on the `unordered_map`. -/
def setStorageType : List (String × Nat) → String → Nat → List (String × Nat)
  | [], name, type => [(name, type)]
  | (k, v) :: rest, name, type =>
      if k = name then (name, type) :: rest else (k, v) :: setStorageType rest name type

/-- One item of `storage_types`: at least two entries, a name and a type. -/
def readStorageType (types : List (String × Nat)) (item : JsonValue) :
    Except FjsonException (List (String × Nat)) := do
  let entry ← item.asArray
  match entry with
  | nameJson :: typeJson :: _ =>
      let name ← nameJson.asString
      let type ← typeJson.asUint64
      .ok (setStorageType types name (type % 2 ^ 32))
  | _ => .error (.assertion "contract info format error")

/-- One item of `balances`; a zero balance is skipped and an item that is no
object is dereferenced as a null pointer. -/
def readBalance (balances : List ContractBalance) (item : JsonValue) :
    Except StorageError (List ContractBalance) := do
  match ← liftFjson (ContractBalance.fromJson item) with
  | none => .error .nullDereference
  | some balance => .ok (if balance.amount = 0 then balances else balances ++ [balance])

/-- A string field read only when `find` sees it, otherwise the default. -/
def optionalString (entries : JsonObject) (key : String) (default : String) :
    Except FjsonException String :=
  match JsonObject.find entries key with
  | some value => value.asString
  | none => .ok default

/-- `ContractInfo::from_json`: null for null and for an empty object. -/
def ContractInfo.fromJson (value : JsonValue) : Except StorageError (Option ContractInfo) := do
  if value = .null then return none
  let entries ← liftFjson value.asObject
  if entries.length < 1 then return none
  let version ←
    if (JsonObject.field entries "version").isInteger then
      liftFjson ((JsonObject.field entries "version").asUint64) <&> (· % 2 ^ 32)
    else pure 0
  let id ← liftFjson (JsonObject.field entries "id").asString
  let name ← liftFjson (JsonObject.field entries "name").asString
  let description ← liftFjson (optionalString entries "description" "")
  let txid ← liftFjson (optionalString entries "txid" "")
  let isNative ← liftFjson (match JsonObject.find entries "is_native" with
    | some isNativeJson => isNativeJson.asBool
    | none => .ok false)
  let contractTemplateKey ← liftFjson (optionalString entries "contract_template_key" "")
  let creatorAddress ← liftFjson (optionalString entries "creator_address" "")
  let bytecode ← liftFjson (JsonObject.field entries "bytecode").asString
  let apisJson ← liftFjson (JsonObject.field entries "apis").asArray
  let offlineApisJson ← liftFjson (JsonObject.field entries "offline_apis").asArray
  let apis ← liftFjson (apisJson.mapM JsonValue.asString)
  let offlineApis ← liftFjson (offlineApisJson.mapM JsonValue.asString)
  let storageTypes ← liftFjson (match JsonObject.field entries "storage_types" with
    | .arr items => items.foldlM readStorageType []
    | _ => .ok [])
  let balances ← match JsonObject.field entries "balances" with
    | .arr items => items.foldlM readBalance []
    | _ => .ok []
  return some ⟨bytecode, id, creatorAddress, txid, isNative, contractTemplateKey, name,
    description, version, apis, offlineApis, storageTypes, balances⟩

/-! ## `ContractChanges` -/

/-- `ContractBalanceChange`; `add` tells a credit from a debit. -/
structure ContractBalanceChange where
  assetId : Nat
  address : String
  amount : Nat
  add : Bool
  isContract : Bool
  memo : String
  deriving DecidableEq, Repr

/-- `ContractStorageItemChange`: a storage name and the diff of its value. -/
structure ContractStorageItemChange where
  name : String
  diff : JsonValue
  deriving DecidableEq, Repr

/-- `ContractStorageChange`: the changed storages of one contract. -/
structure ContractStorageChange where
  contractId : String
  items : List ContractStorageItemChange
  deriving DecidableEq, Repr

/-- `ContractEventInfo`. -/
structure ContractEventInfo where
  transactionId : String
  contractId : String
  eventName : String
  eventArg : String
  deriving DecidableEq, Repr

/-- `ContractUpgradeInfo`: diffs of the name and the description, when set. -/
structure ContractUpgradeInfo where
  contractId : String
  nameDiff : Option JsonValue
  descriptionDiff : Option JsonValue
  deriving DecidableEq, Repr

/-- `ContractChanges`. -/
structure ContractChanges where
  balanceChanges : List ContractBalanceChange
  storageChanges : List ContractStorageChange
  events : List ContractEventInfo
  upgradeInfos : List ContractUpgradeInfo
  deriving DecidableEq, Repr

/-- `ContractChanges::empty`. -/
def ContractChanges.empty (changes : ContractChanges) : Bool :=
  changes.balanceChanges.isEmpty && changes.storageChanges.isEmpty && changes.events.isEmpty &&
    changes.upgradeInfos.isEmpty

/-- `ContractBalanceChange::to_json`. -/
def ContractBalanceChange.toJson (change : ContractBalanceChange) : JsonValue :=
  .obj [("asset_id", .int change.assetId), ("address", .str change.address),
    ("amount", .int change.amount), ("add", .bool change.add),
    ("is_contract", .bool change.isContract), ("memo", .str change.memo)]

/-- `ContractBalanceChange::from_json` on a `const` object: every key must be
there. -/
def ContractBalanceChange.fromJson (value : JsonValue) :
    Except FjsonException ContractBalanceChange := do
  let assetId ← (← value.getKey "asset_id").asUint64
  let address ← (← value.getKey "address").asString
  let amount ← (← value.getKey "amount").asUint64
  let add ← (← value.getKey "add").asBool
  let isContract ← (← value.getKey "is_contract").asBool
  let memo ← (← value.getKey "memo").asString
  .ok ⟨assetId % 2 ^ 32, address, amount, add, isContract, memo⟩

/-- `ContractStorageChange::to_json`. -/
def ContractStorageChange.toJson (change : ContractStorageChange) : JsonValue :=
  .obj [("contract_id", .str change.contractId),
    ("items", .arr (change.items.map fun item => .obj [("name", .str item.name), ("diff", item.diff)]))]

/-- One item of `ContractStorageChange::from_json`, read from a local copy: a
missing name reads as null, a missing diff is an undefined diff. -/
def ContractStorageItemChange.fromJson (value : JsonValue) :
    Except FjsonException ContractStorageItemChange := do
  let entries ← value.asObject
  let name ← (JsonObject.field entries "name").asString
  .ok ⟨name, (JsonObject.find entries "diff").getD .null⟩

/-- `ContractStorageChange::from_json`. -/
def ContractStorageChange.fromJson (value : JsonValue) :
    Except FjsonException ContractStorageChange := do
  let contractId ← (← value.getKey "contract_id").asString
  let items ← (← value.getKey "items").asArray
  let items ← items.mapM ContractStorageItemChange.fromJson
  .ok ⟨contractId, items⟩

/-- `ContractEventInfo::to_json`. -/
def ContractEventInfo.toJson (event : ContractEventInfo) : JsonValue :=
  .obj [("tx_id", .str event.transactionId), ("contract_id", .str event.contractId),
    ("name", .str event.eventName), ("arg", .str event.eventArg)]

/-- `ContractEventInfo::from_json`. -/
def ContractEventInfo.fromJson (value : JsonValue) : Except FjsonException ContractEventInfo := do
  let transactionId ← (← value.getKey "tx_id").asString
  let contractId ← (← value.getKey "contract_id").asString
  let eventName ← (← value.getKey "name").asString
  let eventArg ← (← value.getKey "arg").asString
  .ok ⟨transactionId, contractId, eventName, eventArg⟩

/-- `ContractUpgradeInfo::to_json`: the diffs only when set. -/
def ContractUpgradeInfo.toJson (info : ContractUpgradeInfo) : JsonValue :=
  .obj ([("contract_id", .str info.contractId)] ++
    (info.nameDiff.map fun diff => ("name_diff", diff)).toList ++
    (info.descriptionDiff.map fun diff => ("description_diff", diff)).toList)

/-- `ContractUpgradeInfo::from_json`. -/
def ContractUpgradeInfo.fromJson (value : JsonValue) : Except FjsonException ContractUpgradeInfo := do
  let contractId ← (← value.getKey "contract_id").asString
  let entries ← value.asObject
  .ok ⟨contractId, JsonObject.find entries "name_diff", JsonObject.find entries "description_diff"⟩

/-- `ContractChanges::events_to_json`. -/
def eventsToJson (events : List ContractEventInfo) : JsonValue :=
  .arr (events.map ContractEventInfo.toJson)

/-- `ContractChanges::events_from_json`. -/
def eventsFromJson (items : List JsonValue) : Except FjsonException (List ContractEventInfo) :=
  items.mapM ContractEventInfo.fromJson

/-- `ContractChanges::to_json`. -/
def ContractChanges.toJson (changes : ContractChanges) : JsonValue :=
  .obj [("balance_changes", .arr (changes.balanceChanges.map ContractBalanceChange.toJson)),
    ("storage_changes", .arr (changes.storageChanges.map ContractStorageChange.toJson)),
    ("events", eventsToJson changes.events),
    ("upgrade_infos", .arr (changes.upgradeInfos.map ContractUpgradeInfo.toJson))]

/-- `ContractChanges::from_json`: events and upgrade infos only when present. -/
def ContractChanges.fromJson (value : JsonValue) : Except FjsonException ContractChanges := do
  let balanceChangesJson ← (← value.getKey "balance_changes").asArray
  let storageChangesJson ← (← value.getKey "storage_changes").asArray
  let balanceChanges ← balanceChangesJson.mapM ContractBalanceChange.fromJson
  let storageChanges ← storageChangesJson.mapM ContractStorageChange.fromJson
  let entries ← value.asObject
  let events ← match JsonObject.find entries "events" with
    | some eventsJson => do eventsFromJson (← eventsJson.asArray)
    | none => .ok []
  let upgradeInfos ← match JsonObject.find entries "upgrade_infos" with
    | some infosJson => do (← infosJson.asArray).mapM ContractUpgradeInfo.fromJson
    | none => .ok []
  .ok ⟨balanceChanges, storageChanges, events, upgradeInfos⟩

/-! ## The ordered digest -/

/-- A byte read as the signed `char` of x86 C++. -/
def signedChar (byte : UInt8) : Int :=
  if byte.toNat < 128 then byte.toNat else byte.toNat - 256

/-- `compare_key`: byte-wise on signed chars, a proper prefix first. -/
def compareKeyBytes : List UInt8 → List UInt8 → Bool
  | a :: first, b :: second =>
      if signedChar a < signedChar b then true
      else if signedChar a > signedChar b then false
      else compareKeyBytes first second
  | [], _ :: _ => true
  | _, [] => false

/-- `compare_key` on two keys. -/
def compareKey (first second : String) : Bool :=
  compareKeyBytes first.toUTF8.toList second.toUTF8.toList

mutual
/-- `nested_json_object_to_array`: every object becomes the array of its
`[key, value]` pairs, keys sorted by `compare_key`, each key with its first
value. -/
def nestedJsonObjectToArray : JsonValue → JsonValue
  | .obj entries =>
      let nested := nestedEntries entries
      .arr (((entries.map Prod.fst).mergeSort fun a b => !compareKey b a).map fun key =>
        .arr [.str key, (JsonObject.find nested key).getD .null])
  | .arr items => .arr (nestedItems items)
  | value => value
  termination_by structural value => value

/-- `nestedJsonObjectToArray` on every item. -/
def nestedItems : List JsonValue → List JsonValue
  | [] => []
  | item :: rest => nestedJsonObjectToArray item :: nestedItems rest
  termination_by structural items => items

/-- `nestedJsonObjectToArray` on the value of every entry. -/
def nestedEntries : JsonObject → JsonObject
  | [] => []
  | (key, value) :: rest => (key, nestedJsonObjectToArray value) :: nestedEntries rest
  termination_by structural entries => entries
end

end UnitedBitcoin.ContractStorage
