import UnitedBitcoin.ContractStorage.Service

/-!
# The canonical form behind the contract state hash

`ordered_json_digest` hashes `nested_json_object_to_array` of a value: every
object, at every depth, becomes the array of its `[key, value]` pairs with the
keys sorted by `compare_key`. The digest of a commit is meant not to depend on
the order in which an object's keys happen to be stored.

`compare_key` is the lexicographic order on the keys' bytes read as signed
chars, a strict total order on strings (`compareKey_eq_lt`), so sorting gives
one list for every permutation of the keys. From this,
`nestedJsonObjectToArray_canonical` shows that a value with distinct keys in
every object has the canonical form of its canonical representative, and two
values equal as maps have one canonical form and one digest.

The converse fails, and so does the statement for repeated keys:
`nestedJsonObjectToArray_not_injective` shows an object and an array of
`[key, value]` pairs with one canonical form, and an object with a repeated
key whose canonical form repeats the pair of the key's first value.
-/

namespace UnitedBitcoin.ContractStorage

open UnitedBitcoin.Json

/-! ## `compare_key` is a strict total order -/

/-- The loop of `ByteArray.toList` reads the bytes from `i` on after those
already collected in reverse. -/
theorem byteArray_toList_loop (bytes : ByteArray) (i : Nat) (collected : List UInt8) :
    ByteArray.toList.loop bytes i collected = collected.reverse ++ bytes.data.toList.drop i := by
  fun_induction ByteArray.toList.loop bytes i collected with
  | case1 i collected hi ih =>
    have hdrop : bytes.data.toList.drop i = bytes.get! i :: bytes.data.toList.drop (i + 1) := by
      rw [List.drop_eq_getElem_cons (by simpa using hi)]
      simp [ByteArray.get!, hi]
    rw [ih, hdrop]
    simp
  | case2 i collected hi =>
    rw [List.drop_eq_nil_of_le (by simpa using hi), List.append_nil]

theorem byteArray_toList_eq (bytes : ByteArray) : bytes.toList = bytes.data.toList := by
  simp [ByteArray.toList, byteArray_toList_loop]

/-- Distinct strings have distinct UTF-8 bytes. -/
theorem toUTF8_toList_injective : Function.Injective fun s : String => s.toUTF8.toList := by
  intro s t hst
  apply String.toByteArray_inj.mp
  apply ByteArray.ext
  apply Array.toList_inj.mp
  simpa [byteArray_toList_eq] using hst

theorem signedChar_injective : Function.Injective signedChar := by
  intro a b hab
  have ha := a.toNat_lt
  have hb := b.toNat_lt
  apply UInt8.toNat_inj.mp
  unfold signedChar at hab
  split at hab <;> split at hab <;> omega

/-- The key `compare_key` sorts a string by: its bytes as signed chars. -/
def keySortKey (key : String) : List Int := key.toUTF8.toList.map signedChar

theorem keySortKey_injective : Function.Injective keySortKey := by
  intro s t hst
  exact toUTF8_toList_injective ((List.map_injective_iff.mpr signedChar_injective) hst)

/-- `compare_key` is the lexicographic order on the signed chars, a proper prefix first. -/
theorem compareKeyBytes_eq_lt (first second : List UInt8) :
    compareKeyBytes first second = decide (first.map signedChar < second.map signedChar) := by
  induction first generalizing second with
  | nil => cases second <;> simp [compareKeyBytes]
  | cons a first ih =>
    cases second with
    | nil => simp [compareKeyBytes]
    | cons b second =>
      -- the first differing byte decides; equal bytes pass to the rest
      simp only [compareKeyBytes, List.map_cons, List.cons_lt_cons_iff, ih]
      by_cases hlt : signedChar a < signedChar b
      · simp [hlt]
      · by_cases hgt : signedChar a > signedChar b
        · have hne : signedChar a ≠ signedChar b := ne_of_gt hgt
          simp [hlt, hgt, hne]
        · have heq : signedChar a = signedChar b := by omega
          simp [heq]

theorem compareKey_eq_lt (first second : String) :
    compareKey first second = decide (keySortKey first < keySortKey second) :=
  compareKeyBytes_eq_lt _ _

/-- The order `std::list::sort` with `compare_key` arranges keys in. -/
theorem sortedBefore_iff (first second : String) :
    (!compareKey second first) = true ↔ keySortKey first ≤ keySortKey second := by
  simp [compareKey_eq_lt]

/-- Sorting the keys of an object with `compare_key` gives one list for every
order the keys were stored in. -/
theorem mergeSort_compareKey_eq_of_perm {first second : List String} (hperm : first.Perm second) :
    first.mergeSort (fun a b => !compareKey b a) = second.mergeSort (fun a b => !compareKey b a) := by
  have htrans : ∀ a b c : String, (!compareKey b a) = true → (!compareKey c b) = true →
      (!compareKey c a) = true := by
    intro a b c hab hbc
    rw [sortedBefore_iff] at hab hbc ⊢
    exact le_trans hab hbc
  have htotal : ∀ a b : String, ((!compareKey b a) || (!compareKey a b)) = true := by
    intro a b
    rcases le_total (keySortKey a) (keySortKey b) with hab | hba
    · simp [(sortedBefore_iff a b).mpr hab]
    · simp [(sortedBefore_iff b a).mpr hba]
  refine List.Perm.eq_of_pairwise ?_ (List.pairwise_mergeSort htrans htotal first)
    (List.pairwise_mergeSort htrans htotal second)
    ((List.mergeSort_perm _ _).trans (hperm.trans (List.mergeSort_perm _ _).symm))
  -- keys sorted both ways have one sort key, hence are one string
  intro a b _ _ hab hba
  rw [sortedBefore_iff] at hab hba
  exact keySortKey_injective (le_antisymm hab hba)

/-! ## Values with distinct keys -/

mutual
/-- No object in the value, at any depth, repeats a key. -/
def distinctKeys : JsonValue → Bool
  | .obj entries => decide (entries.map Prod.fst).Nodup && distinctKeysEntries entries
  | .arr items => distinctKeysItems items
  | _ => true
  termination_by structural value => value

/-- `distinctKeys` of every item. -/
def distinctKeysItems : List JsonValue → Bool
  | [] => true
  | item :: rest => distinctKeys item && distinctKeysItems rest
  termination_by structural items => items

/-- `distinctKeys` of the value of every entry. -/
def distinctKeysEntries : JsonObject → Bool
  | [] => true
  | (_, value) :: rest => distinctKeys value && distinctKeysEntries rest
  termination_by structural entries => entries
end

theorem find_nestedEntries (entries : JsonObject) (key : String) :
    JsonObject.find (nestedEntries entries) key =
      (JsonObject.find entries key).map nestedJsonObjectToArray := by
  induction entries with
  | nil => rfl
  | cons entry rest ih =>
    obtain ⟨k, v⟩ := entry
    by_cases h : key = k
    · simp [nestedEntries, JsonObject.find_cons, h]
    · simp [nestedEntries, JsonObject.find_cons, h, ih]

/-! ## The canonical form depends on the value as a map -/

mutual
/-- A value with distinct keys has the canonical form of its representative as a map:
the keys of every object are sorted into one order whatever order they were in. -/
theorem nestedJsonObjectToArray_canonical : ∀ value : JsonValue, distinctKeys value = true →
    nestedJsonObjectToArray value.canonical = nestedJsonObjectToArray value
  | .null, _ => rfl
  | .bool _, _ => rfl
  | .int _, _ => rfl
  | .str _, _ => rfl
  | .arr items, h => by
    have hitems : distinctKeysItems items = true := by simpa [distinctKeys] using h
    simp only [JsonValue.canonical, nestedJsonObjectToArray]
    rw [nestedItems_canonicalItems items hitems]
  | .obj entries, h => by
    simp only [distinctKeys, Bool.and_eq_true, decide_eq_true_eq] at h
    obtain ⟨hnodup, hvalues⟩ := h
    simp only [JsonValue.canonical, nestedJsonObjectToArray]
    -- the same keys in another order sort into the same list
    rw [mergeSort_compareKey_eq_of_perm (JsonValue.canonicalEntries_keys_perm hnodup)]
    -- and each key finds a value of the same canonical form
    congr 1
    apply List.map_congr_left
    intro key _
    rw [find_nestedEntries, find_nestedEntries, JsonValue.find_canonicalEntries, Option.map_map,
      find_map_nested_canonical entries hvalues key]
  termination_by structural value => value

/-- `nestedJsonObjectToArray_canonical` on every item. -/
theorem nestedItems_canonicalItems : ∀ items : List JsonValue, distinctKeysItems items = true →
    nestedItems (JsonValue.canonicalItems items) = nestedItems items
  | [], _ => rfl
  | item :: rest, h => by
    simp only [distinctKeysItems, Bool.and_eq_true] at h
    simp only [JsonValue.canonicalItems, nestedItems,
      nestedJsonObjectToArray_canonical item h.1, nestedItems_canonicalItems rest h.2]
  termination_by structural items => items

/-- `nestedJsonObjectToArray_canonical` on the value an object finds for a key. -/
theorem find_map_nested_canonical : ∀ entries : JsonObject, distinctKeysEntries entries = true →
    ∀ key, (JsonObject.find entries key).map (nestedJsonObjectToArray ∘ JsonValue.canonical) =
      (JsonObject.find entries key).map nestedJsonObjectToArray
  | [], _, _ => rfl
  | (k, value) :: rest, h, key => by
    simp only [distinctKeysEntries, Bool.and_eq_true] at h
    rw [JsonObject.find_cons]
    by_cases hkey : key = k
    · simp [hkey, nestedJsonObjectToArray_canonical value h.1]
    · simp only [hkey, if_false]
      exact find_map_nested_canonical rest h.2 key
  termination_by structural entries => entries
end

/-- Two values with distinct keys that are equal as maps have one canonical form,
and hence one ordered digest. -/
theorem nestedJsonObjectToArray_eq_of_equivAsMaps (env : ContractStorageEnv) {a b : JsonValue}
    (ha : distinctKeys a = true) (hb : distinctKeys b = true) (hab : JsonValue.EquivAsMaps a b) :
    nestedJsonObjectToArray a = nestedJsonObjectToArray b ∧
      orderedJsonDigest env a = orderedJsonDigest env b := by
  have hnested : nestedJsonObjectToArray a = nestedJsonObjectToArray b :=
    calc nestedJsonObjectToArray a = nestedJsonObjectToArray a.canonical :=
          (nestedJsonObjectToArray_canonical a ha).symm
      _ = nestedJsonObjectToArray b.canonical := by rw [show a.canonical = b.canonical from hab]
      _ = nestedJsonObjectToArray b := nestedJsonObjectToArray_canonical b hb
  exact ⟨hnested, by rw [orderedJsonDigest, orderedJsonDigest, hnested]⟩

/-- An object stored with its keys in two orders has one digest. -/
theorem nestedJsonObjectToArray_eq_of_equivAsMaps_swapped :
    nestedJsonObjectToArray (.obj [("b", .int 1), ("a", .int 2)]) =
        nestedJsonObjectToArray (.obj [("a", .int 2), ("b", .int 1)]) ∧
      orderedJsonDigest ⟨fun input => "h" ++ input, fun _ => ""⟩ (.obj [("b", .int 1), ("a", .int 2)]) =
        orderedJsonDigest ⟨fun input => "h" ++ input, fun _ => ""⟩ (.obj [("a", .int 2), ("b", .int 1)]) :=
  nestedJsonObjectToArray_eq_of_equivAsMaps _ (by decide) (by decide) (by decide)

/-- The canonical form is not injective up to key order, and it separates values
equal as maps when a key repeats: the object `{"k": 1}` and the array `[["k", 1]]`
have one canonical form, and `{"a": 1, "a": 2}`, equal as a map to `{"a": 1}`,
becomes `[["a", 1], ["a", 1]]`. -/
theorem nestedJsonObjectToArray_not_injective :
    (nestedJsonObjectToArray (.obj [("k", .int 1)]) =
        nestedJsonObjectToArray (.arr [.arr [.str "k", .int 1]]) ∧
      ¬ JsonValue.EquivAsMaps (.obj [("k", .int 1)]) (.arr [.arr [.str "k", .int 1]])) ∧
    (JsonValue.EquivAsMaps (.obj [("a", .int 1), ("a", .int 2)]) (.obj [("a", .int 1)]) ∧
      nestedJsonObjectToArray (.obj [("a", .int 1), ("a", .int 2)]) ≠
        nestedJsonObjectToArray (.obj [("a", .int 1)])) := by
  refine ⟨⟨?_, by decide⟩, by decide, ?_⟩
  · simp [nestedJsonObjectToArray, nestedEntries, nestedItems, JsonObject.find]
  · -- the two canonical forms have two pairs and one
    intro h
    have hlength := congrArg (fun value : JsonValue => value.asArray.toOption.map List.length) h
    simp [nestedJsonObjectToArray, JsonValue.asArray, Except.toOption, List.length_mergeSort] at hlength

end UnitedBitcoin.ContractStorage
