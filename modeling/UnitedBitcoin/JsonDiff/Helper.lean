import Mathlib
import UnitedBitcoin.Json.Value

/-!
# jsondiff helpers

The suffix test behind the diff markers (`helper.cpp`), the value
classification (`json_value_types.cpp`) and the marker keys (`config.h`).

`std::string` sizes and positions count bytes. `string_ends_with` takes the
position of the *first* occurrence of the suffix and compares it with the
string's size in `size_t` arithmetic, so a missing suffix yields
`npos + size`, which wraps around `2^64`. The model keeps both behaviours.
-/

namespace UnitedBitcoin.JsonDiff

open UnitedBitcoin.Json

/-- `JSONDIFF_KEY_ADDED_POSTFIX`. -/
def keyAddedPostfix : String := "__added"

/-- `JSONDIFF_KEY_DELETED_POSTFIX`. -/
def keyDeletedPostfix : String := "__deleted"

/-- `JSONDIFF_KEY_OLD_VALUE`. -/
def keyOldValue : String := "__old"

/-- `JSONDIFF_KEY_NEW_VALUE`. -/
def keyNewValue : String := "__new"

/-- `std::string::npos`, the largest `size_t`. -/
def npos : Nat := 2 ^ 64 - 1

/-- Byte offset of the first occurrence of `pattern` in `chars`, counting from
`offset`; `std::string::find` on valid UTF-8 text. -/
def findFrom (pattern : List Char) : List Char → Nat → Option Nat
  | chars, offset =>
      if pattern.isPrefixOf chars then some offset
      else
        match chars with
        | [] => none
        | c :: rest => findFrom pattern rest (offset + c.utf8Size)

/-- `std::string::find`: the byte position of the first occurrence, or `npos`. -/
def stringFind (str pattern : String) : Nat :=
  (findFrom pattern.toList str.toList 0).getD npos

/-- `utils::string_ends_with`: the first occurrence of `end` ends where `str`
ends, computed as `pos + end.size() == str.size()` over `size_t`. -/
def stringEndsWith (str ending : String) : Bool :=
  (stringFind str ending + ending.utf8ByteSize) % 2 ^ 64 == str.utf8ByteSize

/-- The longest prefix of `chars` of at most `budget` bytes. -/
def takeBytes : List Char → Nat → List Char
  | [], _ => []
  | c :: rest, budget =>
      if c.utf8Size ≤ budget then c :: takeBytes rest (budget - c.utf8Size) else []

/-- `utils::string_without_ext`: `str.substr(0, str.size() - ext.size())` when
`string_ends_with` holds, where the subtraction is over `size_t`. -/
def stringWithoutExt (str ext : String) : String :=
  if !stringEndsWith str ext then str
  else
    let count := (str.utf8ByteSize + 2 ^ 64 - ext.utf8ByteSize) % 2 ^ 64
    String.ofList (takeBytes str.toList count)

/-! ## What the suffix test decides -/

section EndsWith

variable {str ending : String}

theorem utf8ByteSize_eq_utf8Len (str : String) : str.utf8ByteSize = String.utf8Len str.toList := by
  rw [← String.utf8ByteSize_ofList, String.ofList_toList]

theorem eq_nil_of_utf8Len_eq_zero {chars : List Char} (h : String.utf8Len chars = 0) : chars = [] := by
  cases chars with
  | nil => rfl
  | cons c rest =>
    rw [String.utf8Len_cons] at h
    have := Char.utf8Size_pos c
    omega

/-- A position that `findFrom` returns is the byte length of the characters before an
occurrence of the pattern. -/
theorem findFrom_eq_some {pattern chars : List Char} {offset position : Nat}
    (h : findFrom pattern chars offset = some position) :
    ∃ before after, chars = before ++ after ∧ pattern <+: after ∧
      position = offset + String.utf8Len before := by
  induction chars generalizing offset with
  | nil =>
    unfold findFrom at h
    split_ifs at h with hprefix
    cases h
    exact ⟨[], [], rfl, List.isPrefixOf_iff_prefix.mp hprefix, by simp⟩
  | cons c rest ih =>
    unfold findFrom at h
    split_ifs at h with hprefix
    · cases h
      exact ⟨[], c :: rest, rfl, List.isPrefixOf_iff_prefix.mp hprefix, by simp⟩
    · obtain ⟨before, after, hsplit, hoccurs, hposition⟩ := ih h
      refine ⟨c :: before, after, by rw [hsplit, List.cons_append], hoccurs, ?_⟩
      rw [hposition, String.utf8Len_cons]
      omega

/-- Where the ending occurs in the string, a true answer is right: the ending is a suffix. -/
theorem isSuffix_of_stringEndsWith (hsize : str.utf8ByteSize < 2 ^ 64)
    (hfound : (findFrom ending.toList str.toList 0).isSome) (h : stringEndsWith str ending = true) :
    ending.toList <:+ str.toList := by
  obtain ⟨position, hposition⟩ := Option.isSome_iff_exists.mp hfound
  obtain ⟨before, after, hsplit, ⟨rest, hrest⟩, rfl⟩ := findFrom_eq_some hposition
  have hstr := utf8ByteSize_eq_utf8Len str
  have hend := utf8ByteSize_eq_utf8Len ending
  rw [hsplit, String.utf8Len_append, ← hrest, String.utf8Len_append] at hstr
  -- no wrap: the occurrence ends within the string
  rw [stringEndsWith, stringFind, hposition, Option.getD_some, zero_add, beq_iff_eq,
    Nat.mod_eq_of_lt (by omega)] at h
  have hnil : rest = [] := eq_nil_of_utf8Len_eq_zero (by omega)
  rw [hsplit, ← hrest, hnil, List.append_nil]
  exact List.suffix_append before ending.toList

/-- Where the ending does not occur, `npos + end.size()` wraps to `end.size() - 1`: the
answer is true exactly for strings one byte shorter than the ending. -/
theorem stringEndsWith_of_not_found (hnone : findFrom ending.toList str.toList 0 = none)
    (hpos : 0 < ending.utf8ByteSize) (hsize : ending.utf8ByteSize ≤ 2 ^ 64) :
    stringEndsWith str ending = decide (str.utf8ByteSize + 1 = ending.utf8ByteSize) := by
  have hwrap : (npos + ending.utf8ByteSize) % 2 ^ 64 = ending.utf8ByteSize - 1 := by
    rw [npos, show 2 ^ 64 - 1 + ending.utf8ByteSize = (ending.utf8ByteSize - 1) + 2 ^ 64 by omega,
      Nat.add_mod_right, Nat.mod_eq_of_lt (by omega)]
  rw [stringEndsWith, stringFind, hnone, Option.getD_none, hwrap]
  by_cases heq : str.utf8ByteSize + 1 = ending.utf8ByteSize
  · rw [decide_eq_true heq, beq_iff_eq]
    omega
  · rw [decide_eq_false heq, beq_eq_false_iff_ne]
    omega

/-- What `string_ends_with` answers, for sizes that fit a `size_t`: where the ending occurs, a
true answer means a suffix; where it does not, the answer is true exactly for strings one byte
shorter than the ending. -/
theorem stringEndsWith_answers (hsize : str.utf8ByteSize < 2 ^ 64)
    (hend : 0 < ending.utf8ByteSize ∧ ending.utf8ByteSize ≤ 2 ^ 64) :
    ((findFrom ending.toList str.toList 0).isSome → stringEndsWith str ending = true →
        ending.toList <:+ str.toList) ∧
      (findFrom ending.toList str.toList 0 = none →
        stringEndsWith str ending = decide (str.utf8ByteSize + 1 = ending.utf8ByteSize)) :=
  ⟨fun hfound h => isSuffix_of_stringEndsWith hsize hfound h,
    fun hnone => stringEndsWith_of_not_found hnone hend.1 hend.2⟩

/-- `"x__added"` ends with `"__added"`, which occurs in it once: the answer is true and right. -/
theorem stringEndsWith_answers_added :
    (findFrom keyAddedPostfix.toList "x__added".toList 0).isSome ∧ stringEndsWith "x__added" keyAddedPostfix = true ∧
      keyAddedPostfix.toList <:+ "x__added".toList := by
  have hfound : (findFrom keyAddedPostfix.toList "x__added".toList 0).isSome := by decide +kernel
  have htrue : stringEndsWith "x__added" keyAddedPostfix = true := by decide +kernel
  exact ⟨hfound, htrue, (stringEndsWith_answers (by decide +kernel) (by decide +kernel)).1 hfound htrue⟩

/-- `string_ends_with` is not the suffix test: `"x__added__added"` ends with `"__added"`, yet
the first occurrence of `"__added"` is the earlier one and the test answers false, so
`string_without_ext` keeps the string. `"abcdef"`, one byte shorter than `"__added"`, does not
end with it, yet the wrap of `npos + 7` makes the test answer true. -/
theorem stringEndsWith_not_suffix_test :
    keyAddedPostfix.toList <:+ "x__added__added".toList ∧
      stringEndsWith "x__added__added" keyAddedPostfix = false ∧
      stringWithoutExt "x__added__added" keyAddedPostfix = "x__added__added" ∧
    ¬ keyAddedPostfix.toList <:+ "abcdef".toList ∧ stringEndsWith "abcdef" keyAddedPostfix = true := by
  decide +kernel

end EndsWith

/-- `jsondiff::JsonValueType`. -/
inductive JsonValueType where
  | null
  | integer
  | float
  | boolean
  | string
  | object
  | array
  | undefined
  deriving Repr, DecidableEq

/-- `guess_json_value_type`. Integer variants satisfy `is_numeric() &&
is_integer()` and so are classified as `JVT_FLOAT`, as in the source. -/
def guessJsonValueType : JsonValue → JsonValueType
  | .null => .null
  | .obj _ => .object
  | .arr _ => .array
  | .str _ => .string
  | .bool _ => .boolean
  | .int _ => .float

/-- `is_scalar_json_value_type`. -/
def isScalarJsonValueType : JsonValueType → Bool
  | .null | .integer | .float | .boolean | .string | .undefined => true
  | .object | .array => false

/-- `is_scalar_value_diff_format`: an object holding both `__old` and `__new`. -/
def isScalarValueDiffFormat : JsonValue → Bool
  | .obj entries =>
      (JsonObject.find entries keyOldValue).isSome && (JsonObject.find entries keyNewValue).isSome
  | _ => false

@[simp]
theorem isScalarJsonValueType_guess_iff (value : JsonValue) :
    isScalarJsonValueType (guessJsonValueType value) = false ↔
      (∃ items, value = .arr items) ∨ ∃ entries, value = .obj entries := by
  cases value <;> simp [guessJsonValueType, isScalarJsonValueType]

end UnitedBitcoin.JsonDiff
