import Mathlib
import UnitedBitcoin.JsonDiff.Helper

/-!
# JsonDiff: diff, patch and rollback

`JsonDiff::diff` compares two values and returns a diff JSON, `patch` applies a
diff to the old value and `rollback` applies it backwards to the new value
(`jsondiff.cpp`). A `DiffResult` is undefined exactly when its JSON is null,
so the model returns the diff JSON itself with `null` for "no change".

The diff format:
* two different scalars (or values of different kinds) give
  `{__old: old, __new: new}`;
* objects give `{k__deleted: old}`, `{k__added: new}` and `{k: subdiff}`
  entries;
* arrays give a list of `[op, index, payload]` triples with op `-`, `~` or
  `+`; all indices are indices of the *original* arrays.

`patch` and `rollback` are one interpreter read in two directions
(`Direction`). Both deep-clone their input by printing and re-parsing it; the
model takes the clone to be the value itself.
-/

namespace UnitedBitcoin.JsonDiff

open UnitedBitcoin.Json

/-- The change `{__old: old, __new: new}`, built by `operator[]` on an empty
object. -/
def scalarChange (old new : JsonValue) : JsonValue :=
  .obj [(keyOldValue, old), (keyNewValue, new)]

/-- The `+` triples for the items that only the new array has, from index
`index` on. -/
def addedItems : Nat → List JsonValue → List JsonValue
  | _, [] => []
  | index, item :: rest => .arr [.str "+", .int index, item] :: addedItems (index + 1) rest

/-- The second loop of the object case: a `k__added` entry for each key of the
new object that the old object lacks. -/
def addedEntries (oldEntries : JsonObject) : JsonObject → JsonObject → JsonObject
  | [], acc => acc
  | (key, value) :: rest, acc =>
      if (JsonObject.find oldEntries key).isNone then
        addedEntries oldEntries rest (JsonObject.set acc (key ++ keyAddedPostfix) value)
      else addedEntries oldEntries rest acc

mutual
/-- `JsonDiff::diff`; `null` stands for the undefined result. Values of the
kinds modelled here never reach the source's "not supported" branch. -/
def diff : JsonValue → JsonValue → JsonValue
  | .obj oldEntries, .obj newEntries =>
      let entries := addedEntries oldEntries newEntries (diffObjectEntries oldEntries newEntries [])
      if entries.length < 1 then .null else .obj entries
  | .arr oldItems, .arr newItems =>
      let ops := diffArrayItems newItems 0 oldItems ++
        addedItems oldItems.length (newItems.drop oldItems.length)
      if ops.length < 1 then .null else .arr ops
  | old, new =>
      -- the old value is a scalar or the kinds differ; `old ≠ new` is the
      -- comparison of the printed forms, which the printer keeps apart
      if guessJsonValueType old ≠ guessJsonValueType new ∨ old ≠ new then scalarChange old new
      else .null
termination_by structural old => old

/-- The first loop of the object case, over the old object's entries. -/
def diffObjectEntries : JsonObject → JsonObject → JsonObject → JsonObject
  | [], _, acc => acc
  | (key, value) :: rest, newEntries, acc =>
      match JsonObject.find newEntries key with
      | none =>
          diffObjectEntries rest newEntries (JsonObject.set acc (key ++ keyDeletedPostfix) value)
      | some newValue =>
          if diff value newValue = .null then diffObjectEntries rest newEntries acc
          else diffObjectEntries rest newEntries (JsonObject.set acc key (diff value newValue))
termination_by structural entries => entries

/-- The first loop of the array case, over the old array's items: `-` past the
end of the new array, `~` where the items differ. -/
def diffArrayItems (newItems : List JsonValue) : Nat → List JsonValue → List JsonValue
  | _, [] => []
  | index, item :: rest =>
      match newItems[index]? with
      | none => .arr [.str "-", .int index, item] :: diffArrayItems newItems (index + 1) rest
      | some newItem =>
          if diff item newItem = .null then diffArrayItems newItems (index + 1) rest
          else .arr [.str "~", .int index, diff item newItem] :: diffArrayItems newItems (index + 1) rest
termination_by structural _ items => items
end

/-- What tells `patch` and `rollback` apart: the value read from a scalar
change, the marker whose base key is erased when the base has it (tested
first), the marker whose base key is assigned, and the array ops that insert
and erase. -/
structure Direction where
  valueKey : String
  erasePostfix : String
  assignPostfix : String
  insertOp : String
  eraseOp : String

/-- `patch` reads `__new`, erases `k` for `k__deleted`, assigns `k` for
`k__added`, inserts for `+` and erases for `-`. -/
def patchDirection : Direction :=
  ⟨keyNewValue, keyDeletedPostfix, keyAddedPostfix, "+", "-"⟩

/-- `rollback` reads `__old`, erases `k` for `k__added`, assigns `k` for
`k__deleted`, inserts for `-` and erases for `+`. -/
def rollbackDirection : Direction :=
  ⟨keyOldValue, keyAddedPostfix, keyDeletedPostfix, "-", "+"⟩

/-- How applying a diff fails. -/
inductive JsonDiffError where
  /-- A `JsonDiffException` with its message. -/
  | jsonDiffException (msg : String)
  /-- A conversion or lookup failure raised by `fjson`. -/
  | fjson (e : FjsonException)
  /-- A vector position at or past the end: undefined behaviour in the source. -/
  | outOfRange
  deriving Repr, DecidableEq

/-- The scalar branch: the result is the diff's `valueKey` entry. -/
def applyScalarChange (dir : Direction) : JsonValue → Except JsonDiffError JsonValue
  | .obj entries =>
      match JsonObject.find entries dir.valueKey with
      | some value => .ok value
      | none => .error (.fjson (.keyNotFound dir.valueKey))
  | _ => .error (.jsonDiffException "wrong format of diffjson of scalar json value")

/-- Whether an object-diff key carries `marker`:
`string_ends_with(key, marker) && key.size() > strlen(marker)`. -/
def hasMarker (key marker : String) : Bool :=
  stringEndsWith key marker && decide (marker.utf8ByteSize < key.utf8ByteSize)

mutual
/-- `JsonDiff::patch` (`patchDirection`) and `JsonDiff::rollback`
(`rollbackDirection`) applied to `base`. -/
def applyDiff (dir : Direction) (base : JsonValue) : JsonValue → Except JsonDiffError JsonValue
  | .null => .ok base
  | diffJson@(.obj diffEntries) =>
      if isScalarJsonValueType (guessJsonValueType base) || isScalarValueDiffFormat diffJson then
        applyScalarChange dir diffJson
      else
        match base with
        | .obj baseEntries => .obj <$> applyObjectEntries dir baseEntries diffEntries baseEntries
        | _ => .error (.fjson (.badCast "array"))
  | diffJson@(.arr ops) =>
      if isScalarJsonValueType (guessJsonValueType base) then applyScalarChange dir diffJson
      else
        match base with
        | .arr baseItems => .arr <$> applyArrayOps dir baseItems 0 ops baseItems
        | _ => .error (.fjson (.badCast "object"))
  | diffJson =>
      if isScalarJsonValueType (guessJsonValueType base) then applyScalarChange dir diffJson
      else
        match base with
        | .obj _ => .error (.fjson (.badCast "object"))
        | _ => .error (.fjson (.badCast "array"))
termination_by structural diffJson => diffJson

/-- The loop over the diff object's entries; `result` starts as the base. -/
def applyObjectEntries (dir : Direction) (baseEntries : JsonObject) :
    JsonObject → JsonObject → Except JsonDiffError JsonObject
  | [], result => .ok result
  | (key, item) :: rest, result =>
      if hasMarker key dir.erasePostfix &&
          (JsonObject.find baseEntries (stringWithoutExt key dir.erasePostfix)).isSome then
        applyObjectEntries dir baseEntries rest
          (JsonObject.erase result (stringWithoutExt key dir.erasePostfix))
      else if !hasMarker key dir.erasePostfix && hasMarker key dir.assignPostfix then
        applyObjectEntries dir baseEntries rest
          (JsonObject.set result (stringWithoutExt key dir.assignPostfix) item)
      else
        -- an erase marker whose base key is absent falls through to here
        match JsonObject.find baseEntries key with
        | none => .error (.jsonDiffException "wrong format of diffjson of this old version json")
        | some baseValue => do
            let sub ← applyDiff dir baseValue item
            applyObjectEntries dir baseEntries rest (JsonObject.set result key sub)
termination_by structural diffEntries => diffEntries

/-- The loop over the diff array's triples; `index` is the loop counter `i`,
`result` starts as the base. A `~` triple recurses into the base item at the
loop counter and stores the result at the triple's position. -/
def applyArrayOps (dir : Direction) (baseItems : List JsonValue) :
    Nat → List JsonValue → List JsonValue → Except JsonDiffError (List JsonValue)
  | _, [], result => .ok result
  | index, .arr [opItem, posItem, inner] :: rest, result => do
      let opName ← opItem.asString.mapError .fjson
      let pos ← posItem.asUint64.mapError .fjson
      if opName = dir.insertOp then
        if pos ≤ result.length then
          applyArrayOps dir baseItems (index + 1) rest (result.insertIdx pos inner)
        else .error .outOfRange
      else if opName = dir.eraseOp then
        if pos < result.length then
          applyArrayOps dir baseItems (index + 1) rest (result.eraseIdx pos)
        else .error .outOfRange
      else if opName = "~" then
        match baseItems[index]? with
        | none => .error .outOfRange
        | some baseItem => do
            let sub ← applyDiff dir baseItem inner
            if pos < result.length then
              applyArrayOps dir baseItems (index + 1) rest (result.set pos sub)
            else .error .outOfRange
      else .error (.jsonDiffException ("not supported diff array op now: " ++ opName))
  | _, _ :: _, _ => .error (.jsonDiffException "diffjson format error for array diff")
termination_by structural _ ops => ops
end

/-- `JsonDiff::patch`. -/
def patch (oldJson diffJson : JsonValue) : Except JsonDiffError JsonValue :=
  applyDiff patchDirection oldJson diffJson

/-- `JsonDiff::rollback`. -/
def rollback (newJson diffJson : JsonValue) : Except JsonDiffError JsonValue :=
  applyDiff rollbackDirection newJson diffJson

/-- `patch` does not undo `diff`: in `[[1,2],[5]]` against `[[1,2],[6]]` the
only triple is `["~", 1, [["~", 0, {__old: 5, __new: 6}]]]`, and `patch`
applies its payload to the base item at the loop counter `0`, giving
`[[1,2],[6,2]]`. -/
theorem patch_diff_not_inverse :
    ¬ ∀ a b : JsonValue, ∃ r, patch a (diff a b) = .ok r ∧ r.EquivAsMaps b := by
  intro hall
  obtain ⟨r, hpatch, hequiv⟩ :=
    hall (.arr [.arr [.int 1, .int 2], .arr [.int 5]]) (.arr [.arr [.int 1, .int 2], .arr [.int 6]])
  have hrun : patch (.arr [.arr [.int 1, .int 2], .arr [.int 5]])
      (diff (.arr [.arr [.int 1, .int 2], .arr [.int 5]]) (.arr [.arr [.int 1, .int 2], .arr [.int 6]])) =
      .ok (.arr [.arr [.int 1, .int 2], .arr [.int 6, .int 2]]) := by decide
  rw [hrun, Except.ok.injEq] at hpatch
  subst hpatch
  revert hequiv
  decide

/-- `rollback` does not undo `diff` either: on the same pair it rebuilds
`[[1,2],[5,2]]` from the new value. -/
theorem rollback_diff_not_inverse :
    ¬ ∀ a b : JsonValue, ∃ r, rollback b (diff a b) = .ok r ∧ r.EquivAsMaps a := by
  intro hall
  obtain ⟨r, hrollback, hequiv⟩ :=
    hall (.arr [.arr [.int 1, .int 2], .arr [.int 5]]) (.arr [.arr [.int 1, .int 2], .arr [.int 6]])
  have hrun : rollback (.arr [.arr [.int 1, .int 2], .arr [.int 6]])
      (diff (.arr [.arr [.int 1, .int 2], .arr [.int 5]]) (.arr [.arr [.int 1, .int 2], .arr [.int 6]])) =
      .ok (.arr [.arr [.int 1, .int 2], .arr [.int 5, .int 2]]) := by decide
  rw [hrun, Except.ok.injEq] at hrollback
  subst hrollback
  revert hequiv
  decide

end UnitedBitcoin.JsonDiff
