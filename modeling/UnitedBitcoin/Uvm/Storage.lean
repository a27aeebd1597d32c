import Mathlib
import UnitedBitcoin.Library.OrderedMap
import UnitedBitcoin.Coins.Compressor
import UnitedBitcoin.ContractStorage.CanonicalDigest

/-!
# UVM storage values and their JSON bridge

A contract's storage property lives in the contract storage service as JSON
and in the Lua VM as a `UvmStorageValue` (`uvm_api.h`): a type tag from
`StorageValueTypes` and the member of `UvmStorageValueUnion` it selects. A
table or array is a `UvmTableMap`, a `std::map` from string keys ordered by
`lua_table_less`, which compares keys by length and then byte by byte.
`json_to_uvm_storage_value` brings a stored value into the VM and
`uvm_storage_value_to_json` takes it back (`uvm_storage.cpp`).

`storageJson` says what the two give together, for every JSON value
(`uvmStorageValueToJson_jsonToUvmStorageValue`): a string is cut at its first
NUL character, since it is copied as a C string; an integer is read by
`as_int64`, which reinterprets a `uint64` of `2 ^ 63` or more as negative; an
array keeps its items in order, because the keys `"1"`, `"2"`, ... come in
numeric order under `lua_table_less`; an object becomes a map in which a later
entry of a key overwrites an earlier one. Its items' types are guessed from the
first item and then ignored on the way back.

A `lua_Number` is a `Float`. `JsonValue` has no double, so the JSON a number
becomes is a parameter, `jsonOfDouble`; no value that comes from JSON is a
number. The `std::string` order `<` is bytewise on the UTF-8 encoding, which
orders strings as `String`'s `<` on code points does.
-/

namespace UnitedBitcoin.Uvm

open UnitedBitcoin.Json UnitedBitcoin.Library

/-- `uvm::blockchain::StorageValueTypes`. -/
inductive StorageValueTypes where
  | null
  | int
  | number
  | bool
  | string
  | stream
  | unknownTable
  | intTable
  | numberTable
  | boolTable
  | stringTable
  | streamTable
  | unknownArray
  | intArray
  | numberArray
  | boolArray
  | stringArray
  | streamArray
  | userdata
  | notSupport
  deriving DecidableEq, Repr

namespace StorageValueTypes

/-- The enumerator's value in the source. -/
def toNat : StorageValueTypes → Nat
  | .null => 0
  | .int => 1
  | .number => 2
  | .bool => 3
  | .string => 4
  | .stream => 5
  | .unknownTable => 50
  | .intTable => 51
  | .numberTable => 52
  | .boolTable => 53
  | .stringTable => 54
  | .streamTable => 55
  | .unknownArray => 100
  | .intArray => 101
  | .numberArray => 102
  | .boolArray => 103
  | .stringArray => 104
  | .streamArray => 105
  | .userdata => 201
  | .notSupport => 202

end StorageValueTypes

open StorageValueTypes

/-- `is_any_table_storage_value_type`. -/
def isAnyTableStorageValueType (type : StorageValueTypes) : Bool :=
  unknownTable.toNat ≤ type.toNat && type.toNat ≤ streamTable.toNat

/-- `is_any_array_storage_value_type`. -/
def isAnyArrayStorageValueType (type : StorageValueTypes) : Bool :=
  unknownArray.toNat ≤ type.toNat && type.toNat ≤ streamArray.toNat

/-- `lua_storage_is_table`: a table or an array. -/
def luaStorageIsTable (type : StorageValueTypes) : Bool :=
  isAnyTableStorageValueType type || isAnyArrayStorageValueType type

/-- `lua_storage_is_array`. -/
def luaStorageIsArray (type : StorageValueTypes) : Bool :=
  isAnyArrayStorageValueType type

/-- `get_storage_base_type`. -/
def getStorageBaseType : StorageValueTypes → StorageValueTypes
  | .bool | .boolArray | .boolTable => .bool
  | .int | .intArray | .intTable => .int
  | .number | .numberArray | .numberTable => .number
  | .string | .stringArray | .stringTable => .string
  | .stream | .streamArray | .streamTable => .stream
  | _ => .null

/-- `get_item_type_in_table_or_array`. -/
def getItemTypeInTableOrArray : StorageValueTypes → StorageValueTypes
  | .intTable | .intArray => .int
  | .boolTable | .boolArray => .bool
  | .numberTable | .numberArray => .number
  | .stringTable | .stringArray => .string
  | .streamTable | .streamArray => .stream
  | _ => .null

/-- `UvmStorageValue::is_same_base_type_with_type_parse`. -/
def isSameBaseTypeWithTypeParse (type1 type2 : StorageValueTypes) : Bool :=
  type1 == type2

/-- `UvmStorageValue`: its type tag with the member of `UvmStorageValueUnion` that
the tag selects. A string is the characters before its terminating NUL, a stream
its bytes, a table or array its `UvmTableMap` as the entries in iteration order,
under a tag that is a table or array type. -/
inductive UvmStorageValue where
  | null
  | int (value : Int)
  | number (value : Float)
  | bool (value : Bool)
  | string (value : String)
  | stream (bytes : List UInt8)
  | table (type : StorageValueTypes) (entries : List (String × UvmStorageValue))
      (isTable : luaStorageIsTable type = true)
  | userdata (pointer : Nat)
  | notSupport
  deriving Repr, Inhabited

namespace UvmStorageValue

/-- The `type` field. -/
def type : UvmStorageValue → StorageValueTypes
  | .null => .null
  | .int _ => .int
  | .number _ => .number
  | .bool _ => .bool
  | .string _ => .string
  | .stream _ => .stream
  | .table type _ _ => type
  | .userdata _ => .userdata
  | .notSupport => .notSupport

/-- The entries of `table_value`, for a table or array. -/
def tableEntries : UvmStorageValue → List (String × UvmStorageValue)
  | .table _ entries _ => entries
  | _ => []

end UvmStorageValue

/-- `lua_table_less`: the shorter key first, keys of one length in `<` order. A
`std::string`'s `length()` is its number of bytes. -/
def luaTableLess (left right : String) : Bool :=
  if left.utf8ByteSize ≠ right.utf8ByteSize then left.utf8ByteSize < right.utf8ByteSize
  else decide (left < right)

/-- `(*table_value)[key] = value` on a `UvmTableMap`. -/
def tableAssign (key : String) (value : UvmStorageValue) (table : List (String × UvmStorageValue)) :
    List (String × UvmStorageValue) :=
  mapAssign luaTableLess key value table

/-- `'\0'`, the end of a C string. -/
def nulChar : Char := Char.ofNat 0

/-- `malloc_and_copy_string(L, s.c_str())` read back as a C string: the copy takes
`strlen` bytes, so the characters before the first NUL. -/
def cString (s : String) : String :=
  String.ofList (s.toList.takeWhile (· ≠ nulChar))

/-- `variant::as_int64` of an integer variant: an `int64` is itself, a `uint64` is
reinterpreted in two's complement. -/
def asInt64 (i : Int) : Int :=
  Coins.toInt64 (Coins.toUInt64 i)

/-! ## `json_to_uvm_storage_value` -/

/-- The type `json_to_uvm_storage_value` gives a non-empty array (`isArray`) or object
from the type of its first item. -/
def containerType (isArray : Bool) : StorageValueTypes → StorageValueTypes
  | .bool => if isArray then .boolArray else .boolTable
  | .int => if isArray then .intArray else .intTable
  | .number => if isArray then .numberArray else .numberTable
  | .string => if isArray then .stringArray else .stringTable
  | _ => if isArray then .unknownArray else .unknownTable

theorem containerType_isTable (isArray : Bool) (type : StorageValueTypes) :
    luaStorageIsTable (containerType isArray type) = true := by
  cases isArray <;> cases type <;> rfl

theorem luaStorageIsTable_unknownTable : luaStorageIsTable .unknownTable = true := rfl

/-- The array loop `(*table_value)[std::to_string(i + 1)] = item_value`, from index `i` on. -/
def indexedEntries {α : Type} : Nat → List α → List (String × α)
  | _, [] => []
  | i, item :: rest => (toString (i + 1), item) :: indexedEntries (i + 1) rest

/-- The array case, given the converted items. -/
def arrayOfItems (itemValues : List UvmStorageValue) : UvmStorageValue :=
  match itemValues with
  | [] => .table .unknownArray [] rfl
  | first :: _ =>
      .table (containerType true first.type)
        (assignAll luaTableLess [] (indexedEntries 0 itemValues)) (containerType_isTable _ _)

/-- The object case, given the entries with converted values. -/
def tableOfEntries (entryValues : List (String × UvmStorageValue)) : UvmStorageValue :=
  match entryValues with
  | [] => .table .unknownTable [] rfl
  | first :: _ =>
      .table (containerType false first.2.type)
        (assignAll luaTableLess [] entryValues) (containerType_isTable _ _)

mutual
/-- `json_to_uvm_storage_value`. An `is_integer()` variant is an integer or a
boolean, and the boolean is tested first. -/
def jsonToUvmStorageValue : JsonValue → UvmStorageValue
  | .null => .null
  | .bool b => .bool b
  | .int i => .int (asInt64 i)
  | .str s => .string (cString s)
  | .arr items => arrayOfItems (jsonToUvmItems items)
  | .obj entries => tableOfEntries (jsonToUvmEntries entries)
  termination_by structural value => value

/-- The converted items of an array. -/
def jsonToUvmItems : List JsonValue → List UvmStorageValue
  | [] => []
  | item :: rest => jsonToUvmStorageValue item :: jsonToUvmItems rest
  termination_by structural items => items

/-- The entries of an object with converted values. -/
def jsonToUvmEntries : JsonObject → List (String × UvmStorageValue)
  | [] => []
  | (key, value) :: rest => (key, jsonToUvmStorageValue value) :: jsonToUvmEntries rest
  termination_by structural entries => entries
end

/-! ## `uvm_storage_value_to_json` -/

section ToJson

variable (jsonOfDouble : Float → JsonValue)

mutual
/-- `uvm_storage_value_to_json`. `jsonOfDouble` is the `fjson::variant` of a
`double`. -/
def uvmStorageValueToJson : UvmStorageValue → Except String JsonValue
  | .null => .ok .null
  | .bool b => .ok (.bool b)
  | .int i => .ok (.int i)
  | .number x => .ok (jsonOfDouble x)
  | .string s => .ok (.str s)
  | .table type entries _ =>
      match type with
      | .boolArray | .intArray | .numberArray | .stringArray | .unknownArray => do
          let items ← tableItemsToJson [] entries
          pure (.arr items)
      | .boolTable | .intTable | .numberTable | .stringTable | .unknownTable => do
          let jsonObject ← tableEntriesToJson [] entries
          pure (.obj jsonObject)
      | _ => .error "not supported json value type"
  | .stream _ | .userdata _ | .notSupport => .error "not supported json value type"
  termination_by structural value => value

/-- The array loop `json_array.push_back(uvm_storage_value_to_json(p.second))`. -/
def tableItemsToJson (jsonArray : List JsonValue) :
    List (String × UvmStorageValue) → Except String (List JsonValue)
  | [] => .ok jsonArray
  | (_, value) :: rest => do
      let item ← uvmStorageValueToJson value
      tableItemsToJson (jsonArray ++ [item]) rest
  termination_by structural entries => entries

/-- The object loop `json_object[p.first] = uvm_storage_value_to_json(p.second)`. -/
def tableEntriesToJson (jsonObject : JsonObject) :
    List (String × UvmStorageValue) → Except String JsonObject
  | [] => .ok jsonObject
  | (key, value) :: rest => do
      let item ← uvmStorageValueToJson value
      tableEntriesToJson (JsonObject.set jsonObject key item) rest
  termination_by structural entries => entries
end

end ToJson

/-! ## What the bridge gives back -/

mutual
/-- The JSON value that comes back from the VM for a stored value: strings cut at
their first NUL, integers read as `int64`, arrays item by item, objects as maps
ordered by `lua_table_less` in which a later entry of a key wins. -/
def storageJson : JsonValue → JsonValue
  | .null => .null
  | .bool b => .bool b
  | .int i => .int (asInt64 i)
  | .str s => .str (cString s)
  | .arr items => .arr (storageJsonItems items)
  | .obj entries => .obj (assignAll luaTableLess [] (storageJsonEntries entries))
  termination_by structural value => value

/-- `storageJson` of every item. -/
def storageJsonItems : List JsonValue → List JsonValue
  | [] => []
  | item :: rest => storageJson item :: storageJsonItems rest
  termination_by structural items => items

/-- `storageJson` of the value of every entry. -/
def storageJsonEntries : JsonObject → JsonObject
  | [] => []
  | (key, value) :: rest => (key, storageJson value) :: storageJsonEntries rest
  termination_by structural entries => entries
end

theorem jsonToUvmItems_eq_map (items : List JsonValue) :
    jsonToUvmItems items = items.map jsonToUvmStorageValue := by
  induction items with
  | nil => rfl
  | cons item rest ih => simp [jsonToUvmItems, ih]

theorem jsonToUvmEntries_eq_map (entries : JsonObject) :
    jsonToUvmEntries entries = entries.map (Prod.map id jsonToUvmStorageValue) := by
  induction entries with
  | nil => rfl
  | cons entry rest ih =>
      obtain ⟨k, v⟩ := entry
      simp [jsonToUvmEntries, ih]

theorem storageJsonItems_eq_map (items : List JsonValue) :
    storageJsonItems items = items.map storageJson := by
  induction items with
  | nil => rfl
  | cons item rest ih => simp [storageJsonItems, ih]

theorem storageJsonEntries_eq_map (entries : JsonObject) :
    storageJsonEntries entries = entries.map (Prod.map id storageJson) := by
  induction entries with
  | nil => rfl
  | cons entry rest ih =>
      obtain ⟨k, v⟩ := entry
      simp [storageJsonEntries, ih]

/-! ## `lua_table_less` and the array keys -/

theorem luaTableLess_iff {left right : String} :
    luaTableLess left right = true ↔ left.utf8ByteSize < right.utf8ByteSize ∨
      (left.utf8ByteSize = right.utf8ByteSize ∧ left < right) := by
  unfold luaTableLess
  by_cases hsize : left.utf8ByteSize = right.utf8ByteSize <;> simp [hsize]

theorem luaTableLess_strictTotal : StrictTotal luaTableLess where
  irrefl a := by
    rw [← Bool.not_eq_true, luaTableLess_iff]
    simp
  trans a b c hab hbc := by
    rw [luaTableLess_iff] at hab hbc ⊢
    rcases hab with hab | ⟨hab, hab'⟩ <;> rcases hbc with hbc | ⟨hbc, hbc'⟩
    · exact .inl (by omega)
    · exact .inl (by omega)
    · exact .inl (by omega)
    · exact .inr ⟨hab.trans hbc, lt_trans hab' hbc'⟩
  total a b := by
    simp only [luaTableLess_iff]
    rcases lt_trichotomy a.utf8ByteSize b.utf8ByteSize with hsize | hsize | hsize
    · exact .inl (.inl hsize)
    · rcases lt_trichotomy a b with h | h | h
      · exact .inl (.inr ⟨hsize, h⟩)
      · exact .inr (.inl h)
      · exact .inr (.inr (.inr ⟨hsize.symm, h⟩))
    · exact .inr (.inr (.inl hsize))

theorem utf8Len_of_forall_utf8Size {cs : List Char} (h : ∀ c ∈ cs, c.utf8Size = 1) :
    String.utf8Len cs = cs.length := by
  induction cs with
  | nil => rfl
  | cons c cs ih =>
      rw [String.utf8Len_cons, ih fun d hd => h d (List.mem_cons_of_mem _ hd),
        h c List.mem_cons_self, List.length_cons]

/-- A decimal numeral has one byte per digit. -/
theorem utf8ByteSize_toString (n : Nat) :
    (toString n).utf8ByteSize = (Nat.toDigits 10 n).length := by
  rw [Nat.toString_eq_ofList_toDigits, String.utf8ByteSize_ofList]
  apply utf8Len_of_forall_utf8Size
  intro c hc
  have hdigit := Nat.isDigit_of_mem_toDigits (by decide) (by decide) hc
  simp only [Char.isDigit, Bool.and_eq_true, decide_eq_true_eq] at hdigit
  have hnine : c.val.toNat ≤ 57 := UInt32.le_iff_toNat_le.mp hdigit.2
  rw [Char.utf8Size_eq_one_iff, UInt32.le_iff_toNat_le]
  simp only [UInt32.reduceToNat]
  omega

/-- The keys `std::to_string(i + 1)` of an array come in numeric order. -/
theorem luaTableLess_toString {m n : Nat} (hmn : m < n) :
    luaTableLess (toString m) (toString n) = true := by
  unfold luaTableLess
  rw [utf8ByteSize_toString, utf8ByteSize_toString]
  rcases toDigits_shortlex_of_lt hmn with hlen | ⟨hlen, hlt⟩
  · simp [hlen.ne, hlen]
  · simp only [hlen, ne_eq, not_true_eq_false, if_false, decide_eq_true_eq]
    rw [String.lt_iff, Nat.toString_eq_ofList_toDigits, Nat.toString_eq_ofList_toDigits,
      String.toList_ofList, String.toList_ofList]
    exact hlt

theorem mem_keys_indexedEntries {α : Type} {i : Nat} {items : List α} {key : String}
    (h : key ∈ (indexedEntries i items).map Prod.fst) : ∃ j, i ≤ j ∧ key = toString (j + 1) := by
  induction items generalizing i with
  | nil => simp [indexedEntries] at h
  | cons item rest ih =>
      simp only [indexedEntries, List.map_cons, List.mem_cons] at h
      rcases h with rfl | h
      · exact ⟨i, le_rfl, rfl⟩
      · obtain ⟨j, hj, rfl⟩ := ih h
        exact ⟨j, by omega, rfl⟩

theorem indexedEntries_sorted {α : Type} (i : Nat) (items : List α) :
    ((indexedEntries i items).map Prod.fst).Pairwise (fun a b => luaTableLess a b = true) := by
  induction items generalizing i with
  | nil => simp [indexedEntries]
  | cons item rest ih =>
      simp only [indexedEntries, List.map_cons, List.pairwise_cons]
      refine ⟨?_, ih (i + 1)⟩
      intro key hkey
      obtain ⟨j, hj, rfl⟩ := mem_keys_indexedEntries hkey
      exact luaTableLess_toString (by omega)

/-- Assigning the items of an array under their keys leaves them in order. -/
theorem assignAll_indexedEntries {α : Type} (items : List α) :
    assignAll luaTableLess [] (indexedEntries 0 items) = indexedEntries 0 items :=
  assignAll_of_sorted luaTableLess_strictTotal _ (by simpa using indexedEntries_sorted 0 items)

/-! ## The round trip -/

section RoundTrip

variable (jsonOfDouble : Float → JsonValue)

theorem tableItemsToJson_indexedEntries (jsonArray : List JsonValue) (i : Nat)
    (items : List JsonValue)
    (hitems : ∀ item ∈ items, uvmStorageValueToJson jsonOfDouble (jsonToUvmStorageValue item) =
      .ok (storageJson item)) :
    tableItemsToJson jsonOfDouble jsonArray (indexedEntries i (items.map jsonToUvmStorageValue)) =
      .ok (jsonArray ++ items.map storageJson) := by
  induction items generalizing jsonArray i with
  | nil => simp [indexedEntries, tableItemsToJson]
  | cons item rest ih =>
      have hitem := hitems item List.mem_cons_self
      have hrest := ih (jsonArray ++ [storageJson item]) (i + 1)
        fun other hother => hitems other (List.mem_cons_of_mem _ hother)
      simp only [List.map_cons, indexedEntries, tableItemsToJson, hitem, bind, Except.bind, hrest]
      simp

theorem tableEntriesToJson_map (jsonObject : JsonObject) (entries : JsonObject)
    (hentries : ∀ entry ∈ entries, uvmStorageValueToJson jsonOfDouble
      (jsonToUvmStorageValue entry.2) = .ok (storageJson entry.2)) :
    tableEntriesToJson jsonOfDouble jsonObject (entries.map (Prod.map id jsonToUvmStorageValue)) =
      .ok ((entries.map (Prod.map id storageJson)).foldl
        (fun acc entry => JsonObject.set acc entry.1 entry.2) jsonObject) := by
  induction entries generalizing jsonObject with
  | nil => rfl
  | cons entry rest ih =>
      obtain ⟨k, v⟩ := entry
      have hentry := hentries (k, v) List.mem_cons_self
      have hrest := ih (JsonObject.set jsonObject k (storageJson v))
        fun other hother => hentries other (List.mem_cons_of_mem _ hother)
      simp only [List.map_cons, Prod.map_apply, id_eq, tableEntriesToJson, hentry, bind,
        Except.bind, hrest, List.foldl_cons]

/-- `json_object[key] = value` for a key the object lacks appends the entry. -/
theorem set_of_not_mem {entries : JsonObject} {key : String} (value : JsonValue)
    (h : key ∉ entries.map Prod.fst) : JsonObject.set entries key value = entries ++ [(key, value)] := by
  induction entries with
  | nil => rfl
  | cons entry rest ih =>
      obtain ⟨k, v⟩ := entry
      simp only [List.map_cons, List.mem_cons, not_or] at h
      simp [JsonObject.set, Ne.symm h.1, ih h.2]

/-- Setting the entries of a list with distinct keys one by one rebuilds it. -/
theorem foldl_set_of_nodup (jsonObject entries : JsonObject)
    (h : ((jsonObject ++ entries).map Prod.fst).Nodup) :
    entries.foldl (fun acc entry => JsonObject.set acc entry.1 entry.2) jsonObject =
      jsonObject ++ entries := by
  induction entries generalizing jsonObject with
  | nil => simp
  | cons entry rest ih =>
      obtain ⟨k, v⟩ := entry
      have hfresh : k ∉ jsonObject.map Prod.fst := by
        simp only [List.map_append, List.map_cons, List.nodup_append, List.nodup_cons] at h
        exact fun hk => h.2.2 k hk k List.mem_cons_self rfl
      rw [List.foldl_cons, set_of_not_mem v hfresh, ih _ (by simpa using h)]
      simp

theorem keys_nodup_of_sorted {α : Type} {entries : List (String × α)}
    (h : (entries.map Prod.fst).Pairwise (fun a b => luaTableLess a b = true)) :
    (entries.map Prod.fst).Nodup :=
  h.imp fun hlt => luaTableLess_strictTotal.ne_of_lt hlt

/-- An object's entries, assigned into a `UvmTableMap` and read back, give the map of
the read-back values. -/
theorem tableEntriesToJson_assignAll (entries : JsonObject)
    (hentries : ∀ entry ∈ entries, uvmStorageValueToJson jsonOfDouble
      (jsonToUvmStorageValue entry.2) = .ok (storageJson entry.2)) :
    tableEntriesToJson jsonOfDouble [] (assignAll luaTableLess [] (jsonToUvmEntries entries)) =
      .ok (assignAll luaTableLess [] (storageJsonEntries entries)) := by
  -- assigning commutes with converting the values, so read back the map of JSON values
  rw [jsonToUvmEntries_eq_map, assignAll_map, tableEntriesToJson_map, storageJsonEntries_eq_map,
    assignAll_map]
  · -- its keys are distinct, so setting them one by one rebuilds it
    have hsorted : ((assignAll luaTableLess [] entries).map Prod.fst).Pairwise
        (fun a b => luaTableLess a b = true) :=
      assignAll_sorted luaTableLess_strictTotal entries (by simp)
    have hkeys : ((assignAll luaTableLess [] entries).map (Prod.map id storageJson)).map
        Prod.fst = (assignAll luaTableLess [] entries).map Prod.fst := by
      simp [List.map_map, Function.comp_def]
    rw [foldl_set_of_nodup [] _ (by rw [List.nil_append, hkeys]; exact keys_nodup_of_sorted hsorted)]
    rfl
  · intro entry hentry
    rcases mem_assignAll hentry with hnil | hmem
    · simp at hnil
    · exact hentries entry hmem

/-- A table whose type comes from `containerType true` is read back as an array. -/
theorem uvmStorageValueToJson_containerType_array (type : StorageValueTypes)
    (entries : List (String × UvmStorageValue)) (h : luaStorageIsTable (containerType true type)) :
    uvmStorageValueToJson jsonOfDouble (.table (containerType true type) entries h) =
      (tableItemsToJson jsonOfDouble [] entries).map .arr := by
  cases type <;> rfl

/-- A table whose type comes from `containerType false` is read back as an object. -/
theorem uvmStorageValueToJson_containerType_object (type : StorageValueTypes)
    (entries : List (String × UvmStorageValue)) (h : luaStorageIsTable (containerType false type)) :
    uvmStorageValueToJson jsonOfDouble (.table (containerType false type) entries h) =
      (tableEntriesToJson jsonOfDouble [] entries).map .obj := by
  cases type <;> rfl

theorem uvmStorageValueToJson_arrayOfItems (items : List JsonValue)
    (hitems : ∀ item ∈ items, uvmStorageValueToJson jsonOfDouble (jsonToUvmStorageValue item) =
      .ok (storageJson item)) :
    uvmStorageValueToJson jsonOfDouble (arrayOfItems (items.map jsonToUvmStorageValue)) =
      .ok (.arr (items.map storageJson)) := by
  cases items with
  | nil => rfl
  | cons first rest =>
      have hconv := tableItemsToJson_indexedEntries jsonOfDouble [] 0 (first :: rest) hitems
      rw [List.map_cons, arrayOfItems, ← List.map_cons, assignAll_indexedEntries,
        uvmStorageValueToJson_containerType_array, hconv]
      rfl

theorem uvmStorageValueToJson_tableOfEntries (entries : JsonObject)
    (hentries : ∀ entry ∈ entries, uvmStorageValueToJson jsonOfDouble
      (jsonToUvmStorageValue entry.2) = .ok (storageJson entry.2)) :
    uvmStorageValueToJson jsonOfDouble (tableOfEntries (jsonToUvmEntries entries)) =
      .ok (.obj (assignAll luaTableLess [] (storageJsonEntries entries))) := by
  have hconv := tableEntriesToJson_assignAll jsonOfDouble entries hentries
  cases entries with
  | nil => rfl
  | cons first rest =>
      obtain ⟨k, v⟩ := first
      rw [jsonToUvmEntries, tableOfEntries, uvmStorageValueToJson_containerType_object]
      rw [jsonToUvmEntries] at hconv
      rw [hconv]
      rfl

mutual
/-- Taking a stored value into the VM and back gives `storageJson` of it, for every
JSON value: the conversion back never throws on a value that came from JSON. -/
theorem uvmStorageValueToJson_jsonToUvmStorageValue : ∀ value : JsonValue,
    uvmStorageValueToJson jsonOfDouble (jsonToUvmStorageValue value) = .ok (storageJson value)
  | .null => rfl
  | .bool _ => rfl
  | .int _ => rfl
  | .str _ => rfl
  | .arr items => by
    rw [jsonToUvmStorageValue, storageJson, jsonToUvmItems_eq_map, storageJsonItems_eq_map]
    exact uvmStorageValueToJson_arrayOfItems jsonOfDouble items (roundTrip_items items)
  | .obj entries => by
    rw [jsonToUvmStorageValue, storageJson]
    exact uvmStorageValueToJson_tableOfEntries jsonOfDouble entries (roundTrip_entries entries)
  termination_by structural value => value

/-- The round trip of every item. -/
theorem roundTrip_items : ∀ items : List JsonValue, ∀ item ∈ items,
    uvmStorageValueToJson jsonOfDouble (jsonToUvmStorageValue item) = .ok (storageJson item)
  | [] => by simp
  | first :: rest => by
    intro item hitem
    rcases List.mem_cons.mp hitem with heq | hrest
    · rw [heq]
      exact uvmStorageValueToJson_jsonToUvmStorageValue first
    · exact roundTrip_items rest item hrest
  termination_by structural items => items

/-- The round trip of the value of every entry. -/
theorem roundTrip_entries : ∀ entries : JsonObject, ∀ entry ∈ entries,
    uvmStorageValueToJson jsonOfDouble (jsonToUvmStorageValue entry.2) = .ok (storageJson entry.2)
  | [] => by simp
  | (key, value) :: rest => by
    intro entry hentry
    rcases List.mem_cons.mp hentry with heq | hrest
    · rw [heq]
      exact uvmStorageValueToJson_jsonToUvmStorageValue value
    · exact roundTrip_entries rest entry hrest
  termination_by structural entries => entries
end

end RoundTrip

/-! ## When the bridge gives the value back -/

mutual
/-- Every string of the value, at any depth, is free of NUL characters and every
integer is an `int64`: the scalars the VM holds as they are. Keys are
`std::string`s and may hold anything. -/
def scalarsFitUvm : JsonValue → Bool
  | .int i => decide (-2 ^ 63 ≤ i ∧ i < 2 ^ 63)
  | .str s => decide (nulChar ∉ s.toList)
  | .arr items => scalarsFitUvmItems items
  | .obj entries => scalarsFitUvmEntries entries
  | .null | .bool _ => true
  termination_by structural value => value

/-- `scalarsFitUvm` of every item. -/
def scalarsFitUvmItems : List JsonValue → Bool
  | [] => true
  | item :: rest => scalarsFitUvm item && scalarsFitUvmItems rest
  termination_by structural items => items

/-- `scalarsFitUvm` of the value of every entry. -/
def scalarsFitUvmEntries : JsonObject → Bool
  | [] => true
  | (_, value) :: rest => scalarsFitUvm value && scalarsFitUvmEntries rest
  termination_by structural entries => entries
end

theorem cString_of_not_mem {s : String} (h : nulChar ∉ s.toList) : cString s = s := by
  have hall : s.toList.takeWhile (· ≠ nulChar) = s.toList :=
    List.takeWhile_eq_self_iff.mpr fun c hc => by simpa using ne_of_mem_of_not_mem hc h
  rw [cString, hall, String.ofList_toList]

theorem asInt64_of_int64 {i : Int} (hlow : -2 ^ 63 ≤ i) (hhigh : i < 2 ^ 63) : asInt64 i = i := by
  unfold asInt64 Coins.toInt64 Coins.toUInt64
  rcases le_or_gt 0 i with hi | hi
  · -- a nonnegative `int64` is its own `uint64`
    rw [Int.emod_eq_of_lt hi (by omega)]
    split <;> omega
  · -- a negative one is `2 ^ 64` above its `uint64` reading
    have hmod : i % 2 ^ 64 = i + 2 ^ 64 := by
      rw [← Int.add_emod_right, Int.emod_eq_of_lt (by omega) (by omega)]
    rw [hmod]
    split <;> omega

theorem storageJsonEntries_keys (entries : JsonObject) :
    (storageJsonEntries entries).map Prod.fst = entries.map Prod.fst := by
  simp [storageJsonEntries_eq_map, List.map_map, Function.comp_def]

/-- A lookup in the `UvmTableMap` of an object with distinct keys finds the object's value. -/
theorem find_assignAll_storageJsonEntries {entries : JsonObject}
    (hnodup : (entries.map Prod.fst).Nodup) (key : String) :
    JsonObject.find (assignAll luaTableLess [] (storageJsonEntries entries)) key =
      JsonObject.find (storageJsonEntries entries) key := by
  unfold JsonObject.find
  rw [lookup_assignAll luaTableLess_strictTotal key [] _ (by rwa [storageJsonEntries_keys])]
  simp

mutual
/-- A value whose scalars fit the VM and whose objects have distinct keys comes back
equal to itself as a map. -/
theorem storageJson_canonical : ∀ value : JsonValue, scalarsFitUvm value = true →
    ContractStorage.distinctKeys value = true → (storageJson value).canonical = value.canonical
  | .null, _, _ => rfl
  | .bool _, _, _ => rfl
  | .int i, hfit, _ => by
    simp only [scalarsFitUvm, decide_eq_true_eq] at hfit
    rw [storageJson, asInt64_of_int64 hfit.1 hfit.2]
  | .str s, hfit, _ => by
    simp only [scalarsFitUvm, decide_eq_true_eq] at hfit
    rw [storageJson, cString_of_not_mem hfit]
  | .arr items, hfit, hkeys => by
    simp only [scalarsFitUvm] at hfit
    simp only [ContractStorage.distinctKeys] at hkeys
    simp only [storageJson, JsonValue.canonical]
    rw [storageJson_canonicalItems items hfit hkeys]
  | .obj entries, hfit, hkeys => by
    simp only [scalarsFitUvm] at hfit
    simp only [ContractStorage.distinctKeys, Bool.and_eq_true, decide_eq_true_eq] at hkeys
    simp only [storageJson, JsonValue.canonical]
    -- the map finds each key's value, which is the value itself as a map
    congr 1
    apply JsonValue.canonicalEntries_eq_of_find_map_eq
    intro key
    rw [find_assignAll_storageJsonEntries hkeys.1,
      find_storageJsonEntries_canonical entries hfit hkeys.2 key]
  termination_by structural value => value

/-- `storageJson_canonical` on every item. -/
theorem storageJson_canonicalItems : ∀ items : List JsonValue, scalarsFitUvmItems items = true →
    ContractStorage.distinctKeysItems items = true →
    JsonValue.canonicalItems (storageJsonItems items) = JsonValue.canonicalItems items
  | [], _, _ => rfl
  | item :: rest, hfit, hkeys => by
    simp only [scalarsFitUvmItems, Bool.and_eq_true] at hfit
    simp only [ContractStorage.distinctKeysItems, Bool.and_eq_true] at hkeys
    simp only [storageJsonItems, JsonValue.canonicalItems,
      storageJson_canonical item hfit.1 hkeys.1, storageJson_canonicalItems rest hfit.2 hkeys.2]
  termination_by structural items => items

/-- `storageJson_canonical` on the value an object finds for a key. -/
theorem find_storageJsonEntries_canonical : ∀ entries : JsonObject,
    scalarsFitUvmEntries entries = true → ContractStorage.distinctKeysEntries entries = true →
    ∀ key, (JsonObject.find (storageJsonEntries entries) key).map JsonValue.canonical =
      (JsonObject.find entries key).map JsonValue.canonical
  | [], _, _, _ => rfl
  | (k, value) :: rest, hfit, hkeys, key => by
    simp only [scalarsFitUvmEntries, Bool.and_eq_true] at hfit
    simp only [ContractStorage.distinctKeysEntries, Bool.and_eq_true] at hkeys
    rw [storageJsonEntries, JsonObject.find_cons, JsonObject.find_cons]
    by_cases hkey : key = k
    · simp [hkey, storageJson_canonical value hfit.1 hkeys.1]
    · simp only [hkey, if_false]
      exact find_storageJsonEntries_canonical rest hfit.2 hkeys.2 key
  termination_by structural entries => entries
end

end UnitedBitcoin.Uvm
