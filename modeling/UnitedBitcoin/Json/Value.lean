import Mathlib

/-!
# fjson values

The `fjson::variant` values that the JSON diff and the contract storage
exchange: null, booleans, integers, strings, arrays and objects. An object is
the entry vector of `fjson::mutable_variant_object`: `find` returns the first
entry with a key, assignment through `operator[]` overwrites that entry or
appends a new one, and `erase` removes the first entry with the key.

`int64` and `uint64` variants print alike, and the diff compares scalars
through their printed form, so one integer constructor stands for both.
Doubles and blobs never occur in the values this development follows.
-/

namespace UnitedBitcoin.Json

/-- An `fjson::variant` holding a JSON value. -/
inductive JsonValue where
  | null
  | bool (b : Bool)
  | int (i : Int)
  | str (s : String)
  | arr (items : List JsonValue)
  | obj (entries : List (String × JsonValue))
  deriving Repr, Inhabited

/-- `jsondiff::JsonObject`, the entry vector of a `mutable_variant_object`. -/
abbrev JsonObject := List (String × JsonValue)

/-- `jsondiff::JsonArray`, a `fjson::variants` vector. -/
abbrev JsonArray := List JsonValue

namespace JsonValue

mutual
/-- Structural decision of equality; `deriving` does not reach through the
nested lists. -/
def decEq : (a b : JsonValue) → Decidable (a = b)
  | .null, .null => isTrue rfl
  | .bool x, .bool y =>
      if h : x = y then isTrue (h ▸ rfl) else isFalse (by intro e; cases e; exact h rfl)
  | .int x, .int y =>
      if h : x = y then isTrue (h ▸ rfl) else isFalse (by intro e; cases e; exact h rfl)
  | .str x, .str y =>
      if h : x = y then isTrue (h ▸ rfl) else isFalse (by intro e; cases e; exact h rfl)
  | .arr xs, .arr ys =>
      match decEqItems xs ys with
      | isTrue h => isTrue (h ▸ rfl)
      | isFalse h => isFalse (by intro e; cases e; exact h rfl)
  | .obj xs, .obj ys =>
      match decEqEntries xs ys with
      | isTrue h => isTrue (h ▸ rfl)
      | isFalse h => isFalse (by intro e; cases e; exact h rfl)
  | .null, .bool _ | .null, .int _ | .null, .str _ | .null, .arr _ | .null, .obj _
  | .bool _, .null | .bool _, .int _ | .bool _, .str _ | .bool _, .arr _ | .bool _, .obj _
  | .int _, .null | .int _, .bool _ | .int _, .str _ | .int _, .arr _ | .int _, .obj _
  | .str _, .null | .str _, .bool _ | .str _, .int _ | .str _, .arr _ | .str _, .obj _
  | .arr _, .null | .arr _, .bool _ | .arr _, .int _ | .arr _, .str _ | .arr _, .obj _
  | .obj _, .null | .obj _, .bool _ | .obj _, .int _ | .obj _, .str _ | .obj _, .arr _ =>
      isFalse (by intro e; cases e)

/-- Equality of item vectors, element by element. -/
def decEqItems : (a b : List JsonValue) → Decidable (a = b)
  | [], [] => isTrue rfl
  | [], _ :: _ | _ :: _, [] => isFalse (by intro e; cases e)
  | x :: xs, y :: ys =>
      match decEq x y, decEqItems xs ys with
      | isTrue h, isTrue h' => isTrue (h ▸ h' ▸ rfl)
      | isFalse h, _ => isFalse (by intro e; cases e; exact h rfl)
      | _, isFalse h' => isFalse (by intro e; cases e; exact h' rfl)

/-- Equality of entry vectors, key order included. -/
def decEqEntries : (a b : List (String × JsonValue)) → Decidable (a = b)
  | [], [] => isTrue rfl
  | [], _ :: _ | _ :: _, [] => isFalse (by intro e; cases e)
  | (k, x) :: xs, (l, y) :: ys =>
      if hk : k = l then
        match decEq x y, decEqEntries xs ys with
        | isTrue h, isTrue h' => isTrue (hk ▸ h ▸ h' ▸ rfl)
        | isFalse h, _ => isFalse (by intro e; cases e; exact h rfl)
        | _, isFalse h' => isFalse (by intro e; cases e; exact h' rfl)
      else isFalse (by intro e; cases e; exact hk rfl)
end

instance : DecidableEq JsonValue := decEq

end JsonValue

namespace JsonObject

/-- `mutable_variant_object::find`: the value of the first entry with `key`. -/
def find (entries : JsonObject) (key : String) : Option JsonValue :=
  entries.lookup key

/-- `mutable_variant_object::operator[]` followed by an assignment: the first
entry with `key` gets `value`, or a new entry is appended at the end. -/
def set : JsonObject → String → JsonValue → JsonObject
  | [], key, value => [(key, value)]
  | (k, v) :: rest, key, value =>
      if k = key then (key, value) :: rest else (k, v) :: set rest key value

/-- The non-const `mutable_variant_object::operator[]` read on a local copy:
a missing key reads as null (the copy gains a null entry that no caller sees
again). -/
def field (entries : JsonObject) (key : String) : JsonValue :=
  (find entries key).getD .null

/-- `mutable_variant_object::erase`: drop the first entry with `key`. -/
def erase : JsonObject → String → JsonObject
  | [], _ => []
  | (k, v) :: rest, key => if k = key then rest else (k, v) :: erase rest key

@[simp]
theorem find_nil (key : String) : find [] key = none := rfl

theorem find_cons (k key : String) (v : JsonValue) (rest : JsonObject) :
    find ((k, v) :: rest) key = if key = k then some v else find rest key := by
  by_cases h : key = k
  · subst h
    simp [find]
  · have hbeq : (key == k) = false := beq_eq_false_iff_ne.mpr h
    simp [find, List.lookup_cons, hbeq, h]

@[simp]
theorem find_set_self (entries : JsonObject) (key : String) (value : JsonValue) :
    find (set entries key value) key = some value := by
  induction entries with
  | nil => simp [set, find_cons]
  | cons entry rest ih =>
      obtain ⟨k, v⟩ := entry
      by_cases h : k = key
      · simp [set, h, find_cons]
      · simp only [set, h, if_false, find_cons]
        simp [Ne.symm h, ih]

end JsonObject

/-- Failures that `fjson` raises while converting or indexing a variant. -/
inductive FjsonException where
  /-- `bad_cast_exception`: the variant does not hold the requested kind. -/
  | badCast (target : String)
  /-- `key_not_found_exception` from a `const operator[]` on an object. -/
  | keyNotFound (key : String)
  /-- `parse_error_exception` from a string that does not hold a number. -/
  | parseError
  /-- `assert_exception` from a failed `FJSON_ASSERT`, with its message. -/
  | assertion (msg : String)
  deriving Repr, DecidableEq

namespace JsonValue

/-- `variant::as_string`. -/
def asString : JsonValue → Except FjsonException String
  | .str s => .ok s
  | .int i => .ok (toString i)
  | .bool b => .ok (if b then "true" else "false")
  | .null => .ok ""
  | .arr _ | .obj _ => .error (.badCast "string")

/-- `variant::as_uint64`: integers are reinterpreted modulo `2^64`; a string
is read as a decimal number. -/
def asUint64 : JsonValue → Except FjsonException Nat
  | .int i => .ok (i % 2 ^ 64).toNat
  | .bool b => .ok (if b then 1 else 0)
  | .null => .ok 0
  | .str s =>
      match s.toNat? with
      | some n => if n < 2 ^ 64 then .ok n else .error .parseError
      | none => .error .parseError
  | .arr _ | .obj _ => .error (.badCast "uint64")

/-- `variant::as_bool`. -/
def asBool : JsonValue → Except FjsonException Bool
  | .str s =>
      if s = "true" then .ok true
      else if s = "false" then .ok false
      else .error (.badCast "bool")
  | .int i => .ok (i != 0)
  | .bool b => .ok b
  | .null => .ok false
  | .arr _ | .obj _ => .error (.badCast "bool")

/-- `variant::is_integer`: the integer kinds and `bool`. -/
def isInteger : JsonValue → Bool
  | .int _ | .bool _ => true
  | _ => false

/-- `variant::is_array`. -/
def isArray : JsonValue → Bool
  | .arr _ => true
  | _ => false

/-- `variant::get_array`, the conversion `as<fjson::variants>()`. -/
def asArray : JsonValue → Except FjsonException JsonArray
  | .arr items => .ok items
  | _ => .error (.badCast "array")

/-- `variant::get_object`, the conversion `as<mutable_variant_object>()`. -/
def asObject : JsonValue → Except FjsonException JsonObject
  | .obj entries => .ok entries
  | _ => .error (.badCast "object")

/-- `variant::operator[](const char*) const` on an object. -/
def getKey (value : JsonValue) (key : String) : Except FjsonException JsonValue := do
  let entries ← value.asObject
  match JsonObject.find entries key with
  | some item => .ok item
  | none => .error (.keyNotFound key)

end JsonValue

/-!
## Objects as maps

`JsonDiff` compares objects as maps from keys to values. `canonical`
rewrites every object, at every depth, into its entries sorted by key with
only the first entry of each key kept, which is the entry `find` reports.
-/

/-- Insert into a key-sorted entry list; an equal key is overwritten, so that
folding from the right keeps the leftmost entry of a key. -/
def insertSorted (key : String) (value : JsonValue) : JsonObject → JsonObject
  | [] => [(key, value)]
  | (k, v) :: rest =>
      if key < k then (key, value) :: (k, v) :: rest
      else if key = k then (key, value) :: rest
      else (k, v) :: insertSorted key value rest

namespace JsonValue

mutual
/-- The key-order-free representative of a value. -/
def canonical : JsonValue → JsonValue
  | .arr items => .arr (canonicalItems items)
  | .obj entries => .obj (canonicalEntries entries)
  | value => value

/-- `canonical` on every item of an array, in order. -/
def canonicalItems : List JsonValue → List JsonValue
  | [] => []
  | item :: rest => canonical item :: canonicalItems rest

/-- The sorted, first-entry-wins form of an object's entries. -/
def canonicalEntries : JsonObject → JsonObject
  | [] => []
  | (k, v) :: rest => insertSorted k (canonical v) (canonicalEntries rest)
end

/-- Two values are equal when objects are read as maps from keys to values
(key order ignored) and arrays element-wise in order. -/
def EquivAsMaps (a b : JsonValue) : Prop :=
  a.canonical = b.canonical

instance : DecidableRel EquivAsMaps := fun a b =>
  inferInstanceAs (Decidable (a.canonical = b.canonical))

theorem find_insertSorted (key other : String) (value : JsonValue) (entries : JsonObject) :
    JsonObject.find (insertSorted key value entries) other =
      if other = key then some value else JsonObject.find entries other := by
  induction entries with
  | nil => simp [insertSorted, JsonObject.find_cons]
  | cons entry rest ih =>
      obtain ⟨k, v⟩ := entry
      simp only [insertSorted]
      split_ifs with hlt heq hok hok' <;>
        simp_all [JsonObject.find_cons]

/-- The canonical entries answer every lookup as the original object does. -/
theorem find_canonicalEntries (entries : JsonObject) (key : String) :
    JsonObject.find (canonicalEntries entries) key =
      (JsonObject.find entries key).map canonical := by
  induction entries with
  | nil => rfl
  | cons entry rest ih =>
      obtain ⟨k, v⟩ := entry
      rw [canonicalEntries, find_insertSorted, JsonObject.find_cons]
      by_cases h : key = k
      · simp [h]
      · simp [h, ih]

theorem find_isSome_iff (entries : JsonObject) (key : String) :
    (JsonObject.find entries key).isSome ↔ key ∈ entries.map Prod.fst := by
  induction entries with
  | nil => simp
  | cons entry rest ih =>
      obtain ⟨k, v⟩ := entry
      by_cases h : key = k
      · simp [JsonObject.find_cons, h]
      · simp [JsonObject.find_cons, h, ih]

theorem mem_keys_insertSorted {key other : String} {value : JsonValue} {entries : JsonObject}
    (h : other ∈ (insertSorted key value entries).map Prod.fst) :
    other = key ∨ other ∈ entries.map Prod.fst := by
  induction entries with
  | nil => simpa [insertSorted] using h
  | cons entry rest ih =>
      obtain ⟨k, v⟩ := entry
      simp only [insertSorted] at h
      split_ifs at h with hlt heq
      · simpa using h
      · simp only [List.map_cons, List.mem_cons] at h ⊢
        rcases h with h | h
        · exact .inl h
        · exact .inr (.inr h)
      · simp only [List.map_cons, List.mem_cons] at h ⊢
        rcases h with h | h
        · exact .inr (.inl h)
        · rcases ih h with h | h
          · exact .inl h
          · exact .inr (.inr h)

/-- Inserting into entries with strictly increasing keys keeps them strictly increasing. -/
theorem insertSorted_keysSorted {key : String} {value : JsonValue} {entries : JsonObject}
    (h : (entries.map Prod.fst).Pairwise (· < ·)) :
    ((insertSorted key value entries).map Prod.fst).Pairwise (· < ·) := by
  induction entries with
  | nil => simp [insertSorted]
  | cons entry rest ih =>
      obtain ⟨k, v⟩ := entry
      simp only [List.map_cons, List.pairwise_cons] at h
      obtain ⟨hk, hrest⟩ := h
      simp only [insertSorted]
      split_ifs with hlt heq
      · -- the new key goes in front of `k`
        simp only [List.map_cons, List.pairwise_cons, List.mem_cons]
        refine ⟨?_, hk, hrest⟩
        rintro other (rfl | hother)
        · exact hlt
        · exact lt_trans hlt (hk other hother)
      · -- the new value replaces the one of `k`
        subst heq
        simp only [List.map_cons, List.pairwise_cons]
        exact ⟨hk, hrest⟩
      · -- `k` stays in front, and the new key goes into the rest
        have hkey : k < key := lt_of_le_of_ne (not_lt.mp hlt) (Ne.symm heq)
        simp only [List.map_cons, List.pairwise_cons]
        refine ⟨?_, ih hrest⟩
        intro other hother
        rcases mem_keys_insertSorted hother with rfl | hother
        · exact hkey
        · exact hk other hother

/-- The keys of the canonical entries are strictly increasing, so no key repeats. -/
theorem canonicalEntries_keysSorted (entries : JsonObject) :
    ((canonicalEntries entries).map Prod.fst).Pairwise (· < ·) := by
  induction entries with
  | nil => simp [canonicalEntries]
  | cons entry rest ih =>
      obtain ⟨k, v⟩ := entry
      exact insertSorted_keysSorted ih

/-- An object with distinct keys keeps its keys, in another order, in its canonical entries. -/
theorem canonicalEntries_keys_perm {entries : JsonObject} (hnodup : (entries.map Prod.fst).Nodup) :
    ((canonicalEntries entries).map Prod.fst).Perm (entries.map Prod.fst) := by
  rw [List.perm_ext_iff_of_nodup (canonicalEntries_keysSorted entries).nodup hnodup]
  intro key
  rw [← find_isSome_iff, ← find_isSome_iff, find_canonicalEntries, Option.isSome_map]

theorem find_eq_none_of_forall_lt {entries : JsonObject} {key : String}
    (h : ∀ k ∈ entries.map Prod.fst, key < k) : JsonObject.find entries key = none := by
  have hmem : key ∉ entries.map Prod.fst := fun hkey => lt_irrefl key (h key hkey)
  rw [← Option.not_isSome_iff_eq_none, find_isSome_iff]
  exact hmem

/-- Entry lists with strictly increasing keys that answer every lookup alike are equal. -/
theorem eq_of_keysSorted_of_find_eq {l₁ l₂ : JsonObject}
    (h₁ : (l₁.map Prod.fst).Pairwise (· < ·)) (h₂ : (l₂.map Prod.fst).Pairwise (· < ·))
    (hfind : ∀ key, JsonObject.find l₁ key = JsonObject.find l₂ key) : l₁ = l₂ := by
  induction l₁ generalizing l₂ with
  | nil =>
      cases l₂ with
      | nil => rfl
      | cons entry rest =>
          obtain ⟨k, v⟩ := entry
          have hk := hfind k
          simp [JsonObject.find_cons] at hk
  | cons entry₁ rest₁ ih =>
      cases l₂ with
      | nil =>
          obtain ⟨k, v⟩ := entry₁
          have hk := hfind k
          simp [JsonObject.find_cons] at hk
      | cons entry₂ rest₂ =>
          obtain ⟨k₁, v₁⟩ := entry₁
          obtain ⟨k₂, v₂⟩ := entry₂
          simp only [List.map_cons, List.pairwise_cons] at h₁ h₂
          -- the first keys agree: the smaller one would be missing from the other list
          have hkeys : k₁ = k₂ := by
            rcases lt_trichotomy k₁ k₂ with hlt | heq | hgt
            · have hmiss : JsonObject.find rest₂ k₁ = none :=
                find_eq_none_of_forall_lt fun k hk => lt_trans hlt (h₂.1 k hk)
              have hk := hfind k₁
              simp [JsonObject.find_cons, hlt.ne, hmiss] at hk
            · exact heq
            · have hmiss : JsonObject.find rest₁ k₂ = none :=
                find_eq_none_of_forall_lt fun k hk => lt_trans hgt (h₁.1 k hk)
              have hk := hfind k₂
              simp [JsonObject.find_cons, hgt.ne, hmiss] at hk
          subst hkeys
          have hvalues : v₁ = v₂ := by simpa [JsonObject.find_cons] using hfind k₁
          subst hvalues
          have hrest : ∀ key, JsonObject.find rest₁ key = JsonObject.find rest₂ key := by
            intro key
            by_cases hkey : key = k₁
            · subst hkey
              rw [find_eq_none_of_forall_lt h₁.1, find_eq_none_of_forall_lt h₂.1]
            · simpa [JsonObject.find_cons, hkey] using hfind key
          rw [ih h₁.2 h₂.2 hrest]

/-- Objects whose lookups agree up to `canonical` have the same canonical entries. -/
theorem canonicalEntries_eq_of_find_map_eq {a b : JsonObject}
    (h : ∀ key, (JsonObject.find a key).map canonical = (JsonObject.find b key).map canonical) :
    canonicalEntries a = canonicalEntries b :=
  eq_of_keysSorted_of_find_eq (canonicalEntries_keysSorted a) (canonicalEntries_keysSorted b)
    fun key => by rw [find_canonicalEntries, find_canonicalEntries, h]

end JsonValue

end UnitedBitcoin.Json
