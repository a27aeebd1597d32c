import Mathlib
import UnitedBitcoin.Library.Radix

/-!
# Base58 (`base58.cpp`)

`EncodeBase58` counts the leading zero bytes, converts the other bytes from base 256 to
base 58 in a buffer of `n * 138 / 100 + 1` digits, and writes a `1` for each zero byte
and then the alphabet character of each digit. `DecodeBase58` skips leading spaces,
counts the leading `1`s, converts the characters up to the next space or the end from
base 58 to base 256 in a buffer of `strlen * 733 / 1000 + 1` bytes, and accepts when only
spaces follow. Both conversions are `Library.convertDigits`.

A C string is a list of characters whose end stands for the NUL that ends it; a NUL
inside the list ends the string there, as it does for the `std::string` overload, which
passes `str.c_str()`. The buffer sizes are computed as a `ptrdiff_t` or a `size_t` and
stored in an `int` (`intOfCount`): past `2 ^ 31` they wrap, a negative size makes
`std::vector` throw, and a small positive one stops the conversion at `assert(carry == 0)`;
the `int` counters of leading zeros have no defined value past `INT_MAX`.

* `encodeBase58_replicate_append` and `decodeBase58_replicate_append` compute the two
  functions on a run of zeros followed by the digits of a number, when the counts fit in an
  `int`; `decodeBase58_eq_ok` says what every string that `DecodeBase58` accepts is made of.
* The round trip holds in both directions for inputs of fewer than `2 ^ 30` bytes or
  characters, and `DecodeBase58` on fewer than `2 ^ 31` characters never stops at its
  assertion. The `std::string` overload reads only up to a NUL inside the string
  (`decodeBase58_embedded_nul`), and at `3112295866` bytes the encoder's size wraps to
  `1000` and the encoder stops at its assertion (`encodeBase58_size_wraps`).
-/

namespace UnitedBitcoin.Base58

open UnitedBitcoin.Library

/-- All alphanumeric characters except for `0`, `I`, `O` and `l`. -/
def pszBase58 : List Char := "123456789ABCDEFGHJKLMNPQRSTUVWXYZabcdefghijkmnopqrstuvwxyz".toList

/-- `isspace` in the C locale. -/
def isSpace (c : Char) : Bool :=
  c == ' ' || c == '\t' || c == '\n' || c == '\x0b' || c == '\x0c' || c == '\r'

/-- `pszBase58[d]`; one past the alphabet is the NUL that ends it. -/
def base58Char (d : Nat) : Char := pszBase58.getD d '\x00'

/-- The condition of the decoder's loop over the characters, `*psz && !isspace(*psz)`. -/
def inWord (c : Char) : Bool := c != '\x00' && !isSpace c

/-- The `int` a count computed as a `size_t` or a `ptrdiff_t` is stored in: its residue modulo
`2 ^ 32`, read as a signed number. -/
def intOfCount (n : Nat) : Int := (Int32.ofNat n).toInt

/-- `EncodeBase58(pbegin, pend)`; `none` where the code has no result: `zeroes++` or
`(pend - pbegin) * 138` overflows, `std::vector` refuses the negative `int size`, or
`assert(carry == 0)` stops it. -/
def encodeBase58 (bytes : List UInt8) : Option (List Char) :=
  let zeroes := (bytes.takeWhile (· == 0)).length
  let rest := bytes.dropWhile (· == 0)
  if 2 ^ 31 ≤ zeroes ∨ 2 ^ 63 ≤ rest.length * 138 then none
  else
    -- log(256) / log(58), rounded up
    let size := intOfCount (rest.length * 138 / 100 + 1)
    if size < 0 then none
    else
      match convertDigits 256 58 ((rest.map UInt8.toNat).map some) (List.replicate size.toNat 0) 0 with
      | .ok (b58, length) => some (List.replicate zeroes '1' ++ (significantDigits b58 length).map base58Char)
      | .error _ => none

/-- Why `DecodeBase58` gives no bytes. -/
inductive DecodeStop where
  /-- It returns `false`. -/
  | rejected
  /-- `assert(carry == 0)` stops it. -/
  | assertionFailed
  /-- `zeroes++` counts past `INT_MAX`, which is undefined. -/
  | overflow
  /-- `std::vector` throws `length_error` for the negative `int size`. -/
  | lengthError
  deriving DecidableEq, Repr

/-- `DecodeBase58(psz, vch)`, with the bytes it leaves in `vch` when it returns `true`. -/
def decodeBase58 (psz : List Char) : Except DecodeStop (List UInt8) :=
  let psz := psz.dropWhile isSpace
  let zeroes := (psz.takeWhile (· == '1')).length
  if 2 ^ 31 ≤ zeroes then .error .overflow
  else
    let psz := psz.dropWhile (· == '1')
    -- log(58) / log(256), rounded up; `strlen` counts up to the NUL, in a `size_t`
    let size := intOfCount ((psz.takeWhile (· != '\x00')).length * 733 % 2 ^ 64 / 1000 + 1)
    if size < 0 then .error .lengthError
    else
      match convertDigits 58 256 ((psz.takeWhile inWord).map pszBase58.idxOf?) (List.replicate size.toNat 0) 0 with
      | .error .invalidDigit => .error .rejected
      | .error .carryLeft => .error .assertionFailed
      | .ok (b256, length) =>
        -- trailing spaces, then the end of the string
        match ((psz.dropWhile inWord).dropWhile isSpace).head? with
        | none | some '\x00' => .ok (List.replicate zeroes 0 ++ (significantDigits b256 length).map UInt8.ofNat)
        | some _ => .error .rejected

/-- `s` without its leading and trailing whitespace. -/
def trimSpaces (s : List Char) : List Char :=
  ((s.dropWhile isSpace).reverse.dropWhile isSpace).reverse

/-! ## The alphabet -/

theorem length_pszBase58 : pszBase58.length = 58 := by decide

/-- The alphabet is in increasing order, so no character is written twice. -/
theorem nodup_pszBase58 : pszBase58.Nodup := by
  have hchain : pszBase58.IsChain (· < ·) := by decide
  exact (List.isChain_iff_pairwise.mp hchain).imp ne_of_lt

theorem inWord_of_mem_pszBase58 : ∀ c ∈ pszBase58, inWord c = true :=
  List.all_eq_true.mp (by rfl)

theorem isSpace_of_mem_pszBase58 : ∀ c ∈ pszBase58, isSpace c = false := by
  have hall : pszBase58.all (fun c => !isSpace c) = true := by rfl
  simpa using List.all_eq_true.mp hall

theorem base58Char_mem {d : Nat} (hd : d < 58) : base58Char d ∈ pszBase58 := by
  rw [base58Char, List.getD_eq_getElem _ _ (by rw [length_pszBase58]; exact hd)]
  exact List.getElem_mem _

theorem idxOf?_base58Char {d : Nat} (hd : d < 58) : pszBase58.idxOf? (base58Char d) = some d := by
  have hlen : d < pszBase58.length := by rw [length_pszBase58]; exact hd
  rw [List.idxOf?_eq_some_iff, base58Char, List.getD_eq_getElem _ _ hlen]
  refine ⟨hlen, rfl, fun j hj heq => ?_⟩
  have := nodup_pszBase58.getElem_inj_iff.mp heq
  omega

theorem base58Char_of_idxOf? {c : Char} {d : Nat} (hidx : pszBase58.idxOf? c = some d) :
    d < 58 ∧ base58Char d = c := by
  obtain ⟨hlen, hget, -⟩ := List.idxOf?_eq_some_iff.mp hidx
  refine ⟨by rw [← length_pszBase58]; exact hlen, ?_⟩
  rw [base58Char, List.getD_eq_getElem _ _ hlen, hget]

/-- Only the zero digit is written `1`. -/
theorem base58Char_eq_one_iff {d : Nat} (hd : d < 58) : base58Char d = '1' ↔ d = 0 := by
  constructor
  · intro hone
    have hidx := idxOf?_base58Char hd
    rw [hone, show pszBase58.idxOf? '1' = some 0 by decide] at hidx
    exact (Option.some_injective _ hidx).symm
  · rintro rfl
    rfl

theorem map_base58Char_mem {digits : List Nat} (hlt : ∀ d ∈ digits, d < 58) :
    ∀ c ∈ digits.map base58Char, c ∈ pszBase58 := by
  intro c hc
  obtain ⟨d, hd, rfl⟩ := List.mem_map.mp hc
  exact base58Char_mem (hlt d hd)

/-- A run of `1`s and then the characters of digits below 58 are in the alphabet. -/
theorem replicate_append_mem {zeroes : Nat} {digits : List Nat} (hlt : ∀ d ∈ digits, d < 58) :
    ∀ c ∈ List.replicate zeroes '1' ++ digits.map base58Char, c ∈ pszBase58 := by
  intro c hc
  rcases List.mem_append.mp hc with hone | hdigit
  · rw [List.eq_of_mem_replicate hone]
    decide
  · exact map_base58Char_mem hlt c hdigit

/-- `isspace` skips nothing of a string in the alphabet. -/
theorem dropWhile_isSpace_of_mem {s : List Char} (hmem : ∀ c ∈ s, c ∈ pszBase58) : s.dropWhile isSpace = s := by
  rw [List.dropWhile_eq_self_iff]
  intro hl
  rw [isSpace_of_mem_pszBase58 _ (hmem _ (List.getElem_mem hl))]
  exact Bool.false_ne_true

/-- Digits without a leading zero are not written with a leading `1`. -/
theorem head?_map_base58Char_ne_one {digits : List Nat} (hlt : ∀ d ∈ digits, d < 58)
    (hhead : digits.head? ≠ some 0) : (digits.map base58Char).head? ≠ some '1' := by
  rw [List.head?_map]
  intro hone
  obtain ⟨d, hd, hdone⟩ := Option.map_eq_some_iff.mp hone
  have hzero := (base58Char_eq_one_iff (hlt d (List.mem_of_mem_head? hd))).mp hdone
  exact hhead (hzero ▸ hd)

/-- A list of characters is the alphabet characters of the digits its lookups give. -/
theorem eq_map_base58Char {chars : List Char} {digits : List Nat}
    (hlookup : chars.map pszBase58.idxOf? = digits.map some) :
    chars = digits.map base58Char ∧ ∀ d ∈ digits, d < 58 := by
  induction chars generalizing digits with
  | nil =>
    cases digits with
    | nil => simp
    | cons d ds => simp at hlookup
  | cons c cs ih =>
    cases digits with
    | nil => simp at hlookup
    | cons d ds =>
      simp only [List.map_cons, List.cons.injEq] at hlookup
      obtain ⟨hd, hchar⟩ := base58Char_of_idxOf? hlookup.1
      obtain ⟨hrest, hlt⟩ := ih hlookup.2
      refine ⟨by rw [hrest, ← hchar, List.map_cons], ?_⟩
      simpa [hd] using hlt

/-! ## The two buffer sizes -/

/-- `n` bytes fit in the encoder's buffer: `256 ^ 8 ≤ 58 ^ 11`, and `138 / 100` is above
`11 / 8`. -/
theorem encoder_buffer_fits (n : Nat) : 256 ^ n ≤ 58 ^ (n * 138 / 100 + 1) :=
  pow_le_pow_of_ratio (by norm_num) (by norm_num) (by decide : (256 : Nat) ^ 8 ≤ 58 ^ 11) (by omega)

/-- `m` characters fit in the decoder's buffer for a string of length at least `m`:
`58 ^ 71 ≤ 256 ^ 52`, and `733 / 1000` is above `52 / 71`. -/
theorem decoder_buffer_fits {m len : Nat} (hm : m ≤ len) : 58 ^ m ≤ 256 ^ (len * 733 / 1000 + 1) :=
  pow_le_pow_of_ratio (by norm_num) (by norm_num) (by decide : (58 : Nat) ^ 71 ≤ 256 ^ 52) (by omega)

/-- A count below `2 ^ 31` is stored in an `int` unchanged. -/
theorem intOfCount_of_lt {n : Nat} (h : n < 2 ^ 31) : intOfCount n = n :=
  Int32.toInt_ofNat_of_lt h

/-- The number of base-58 digits of a number of `n` bytes is within the encoder's buffer. -/
theorem length_digits_58_le {digits : List Nat} (hlt : ∀ d ∈ digits, d < 256) :
    (Nat.digits 58 (bigEndianValue 256 0 digits)).length ≤ digits.length * 138 / 100 + 1 := by
  rw [Nat.digits_length_le_iff (by norm_num)]
  exact lt_of_lt_of_le (bigEndianValue_lt (by norm_num) hlt) (encoder_buffer_fits _)

/-- The number of bytes of a number of `m` base-58 digits is within the decoder's buffer. -/
theorem length_digits_256_le {digits : List Nat} (hlt : ∀ d ∈ digits, d < 58) :
    (Nat.digits 256 (bigEndianValue 58 0 digits)).length ≤ digits.length * 733 / 1000 + 1 := by
  rw [Nat.digits_length_le_iff (by norm_num)]
  exact lt_of_lt_of_le (bigEndianValue_lt (by norm_num) hlt) (decoder_buffer_fits le_rfl)

/-! ## Encoding -/

/-- Every byte string is a run of zeros, then the digits of a number without a leading zero. -/
theorem eq_replicate_append_digits (bytes : List UInt8) :
    bytes = List.replicate (bytes.takeWhile (· == 0)).length 0 ++
      ((bytes.dropWhile (· == 0)).map UInt8.toNat).map UInt8.ofNat := by
  rw [List.map_map]
  conv_lhs => rw [← replicate_append_dropWhile (0 : UInt8) bytes]
  congr 1
  exact (List.map_congr_left fun b _ => UInt8.ofNat_toNat).trans (List.map_id _) |>.symm

theorem head?_map_toNat_ne_zero (bytes : List UInt8) :
    ((bytes.dropWhile (· == 0)).map UInt8.toNat).head? ≠ some 0 := by
  rw [List.head?_map]
  intro hzero
  obtain ⟨b, hb, hbzero⟩ := Option.map_eq_some_iff.mp hzero
  have hb0 : b = 0 := UInt8.toNat_inj.mp (by rw [hbzero]; rfl)
  exact head?_dropWhile_ne (0 : UInt8) bytes (by rw [hb, hb0])

theorem map_toNat_lt (bytes : List UInt8) : ∀ d ∈ bytes.map UInt8.toNat, d < 256 := by
  intro d hd
  obtain ⟨b, -, rfl⟩ := List.mem_map.mp hd
  exact UInt8.toNat_lt b

/-- Bytes below 256 read back as the same numbers. -/
theorem map_toNat_map_ofNat {digits : List Nat} (hlt : ∀ d ∈ digits, d < 256) :
    (digits.map UInt8.ofNat).map UInt8.toNat = digits := by
  rw [List.map_map]
  exact (List.map_congr_left fun d hd => UInt8.toNat_ofNat_of_lt' (by simpa using hlt d hd)).trans
    (List.map_id _)

/-- `EncodeBase58` of a run of `zeroes` zero bytes followed by the digits of a number writes
as many `1`s and then the base-58 digits of the number, when both counts fit in an `int`. -/
theorem encodeBase58_replicate_append {zeroes : Nat} {digits : List Nat} (hlt : ∀ d ∈ digits, d < 256)
    (hhead : digits.head? ≠ some 0) (hzeroes : zeroes < 2 ^ 31)
    (hsize : digits.length * 138 / 100 + 1 < 2 ^ 31) :
    encodeBase58 (List.replicate zeroes 0 ++ digits.map UInt8.ofNat) =
      some (List.replicate zeroes '1' ++
        (Nat.digits 58 (bigEndianValue 256 0 digits)).reverse.map base58Char) := by
  have hbytes : (digits.map UInt8.ofNat).head? ≠ some 0 := by
    rw [List.head?_map]
    intro hzero
    obtain ⟨d, hd, hdzero⟩ := Option.map_eq_some_iff.mp hzero
    have hd0 : d = 0 := by
      have hround := UInt8.toNat_ofNat_of_lt' (n := d) (by simpa using hlt d (List.mem_of_mem_head? hd))
      rw [hdzero] at hround
      exact hround.symm
    exact hhead (hd0 ▸ hd)
  have hguard : ¬(2 ^ 31 ≤ zeroes ∨ 2 ^ 63 ≤ (digits.map UInt8.ofNat).length * 138) := by
    rw [List.length_map]
    omega
  have hint : intOfCount ((digits.map UInt8.ofNat).length * 138 / 100 + 1) =
      ((digits.length * 138 / 100 + 1 : Nat) : Int) := by
    rw [List.length_map]
    exact intOfCount_of_lt hsize
  have hfits : bigEndianValue 256 0 digits < 58 ^ (digits.length * 138 / 100 + 1) :=
    lt_of_lt_of_le (bigEndianValue_lt (by norm_num) hlt) (encoder_buffer_fits _)
  obtain ⟨b58, used, hrun, hread⟩ := convertDigits_replicate (by norm_num) (by norm_num) hfits
  simp only [encodeBase58, takeWhile_replicate_append hbytes, dropWhile_replicate_append hbytes,
    List.length_replicate, map_toNat_map_ofNat hlt, if_neg hguard, hint, Int.natCast_nonneg, not_lt.mpr,
    if_false, Int.toNat_natCast, hrun, hread]

/-- `EncodeBase58` fails no assertion when its counts fit in an `int`; its result is the
number's digits after a `1` for each leading zero byte. -/
theorem encodeBase58_eq {bytes : List UInt8} (hzeroes : (bytes.takeWhile (· == 0)).length < 2 ^ 31)
    (hsize : (bytes.dropWhile (· == 0)).length * 138 / 100 + 1 < 2 ^ 31) :
    encodeBase58 bytes = some (List.replicate (bytes.takeWhile (· == 0)).length '1' ++
      (Nat.digits 58 (bigEndianValue 256 0 ((bytes.dropWhile (· == 0)).map UInt8.toNat))).reverse.map
        base58Char) := by
  conv_lhs => rw [eq_replicate_append_digits bytes]
  exact encodeBase58_replicate_append (map_toNat_lt _) (head?_map_toNat_ne_zero bytes) hzeroes
    (by rw [List.length_map]; exact hsize)

/-- Past `2 ^ 31` the `int size` of `EncodeBase58` wraps; when it wraps to a buffer too small for
the number, `assert(carry == 0)` stops the encoder. -/
theorem encodeBase58_eq_none_of_wrap {n : Nat} (hguard : (n + 1) * 138 < 2 ^ 63)
    (hsize : 0 ≤ intOfCount ((n + 1) * 138 / 100 + 1))
    (hsmall : 58 ^ (intOfCount ((n + 1) * 138 / 100 + 1)).toNat ≤ 256 ^ n) :
    encodeBase58 (1 :: List.replicate n 0) = none := by
  -- the bytes are the number `256 ^ n`, with no leading zero byte
  have htake : (1 :: List.replicate n (0 : UInt8)).takeWhile (· == 0) = [] := by simp
  have hdrop : (1 :: List.replicate n (0 : UInt8)).dropWhile (· == 0) = 1 :: List.replicate n 0 := by simp
  have hvalue : bigEndianValue 256 0 ((1 :: List.replicate n (0 : UInt8)).map UInt8.toNat) = 256 ^ n := by
    have hbytes : (1 :: List.replicate n (0 : UInt8)).map UInt8.toNat = 1 :: List.replicate n 0 := by simp
    rw [hbytes, bigEndianValue_eq_ofDigits, zero_mul, zero_add, List.reverse_cons, List.reverse_replicate,
      Nat.ofDigits_append, Nat.ofDigits_replicate_zero, List.length_replicate]
    simp
  have hrun := @convertDigits_replicate_eq_carryLeft 256 58 (by norm_num) _ _ (hvalue ▸ hsmall)
  have hnot : ¬(2 ^ 31 ≤ 0 ∨ 2 ^ 63 ≤ (n + 1) * 138) := by omega
  simp only [encodeBase58, htake, hdrop, List.length_nil, List.length_cons, List.length_replicate, if_neg hnot,
    if_neg (not_lt.mpr hsize), hrun]

/-- For `3112295866` bytes the `int size` of `EncodeBase58` is `1000`, and the encoder stops at
its assertion. -/
theorem encodeBase58_size_wraps :
    intOfCount (3112295866 * 138 / 100 + 1) = 1000 ∧ encodeBase58 (1 :: List.replicate 3112295865 0) = none := by
  have hint : intOfCount (3112295866 * 138 / 100 + 1) = 1000 := by decide
  refine ⟨hint, encodeBase58_eq_none_of_wrap (by norm_num) (by rw [hint]; decide) ?_⟩
  -- `58 ^ 1000 ≤ 256 ^ 1000`, far below the number
  rw [hint]
  exact pow_le_pow (by decide) (by decide) (by decide)

/-! ## Decoding -/

/-- `DecodeBase58` of `zeroes` `1`s followed by the characters of base-58 digits without a
leading zero gives as many zero bytes and then the base-256 digits of the number, when both
counts fit in an `int`. -/
theorem decodeBase58_replicate_append {zeroes : Nat} {digits : List Nat} (hlt : ∀ d ∈ digits, d < 58)
    (hhead : digits.head? ≠ some 0) (hzeroes : zeroes < 2 ^ 31)
    (hsize : digits.length * 733 / 1000 + 1 < 2 ^ 31) :
    decodeBase58 (List.replicate zeroes '1' ++ digits.map base58Char) =
      .ok (List.replicate zeroes 0 ++
        (Nat.digits 256 (bigEndianValue 58 0 digits)).reverse.map UInt8.ofNat) := by
  have hmem := map_base58Char_mem hlt
  have hfirst := head?_map_base58Char_ne_one hlt hhead
  -- no character of the string is a space, so nothing is skipped before the `1`s
  have hnoSpace := dropWhile_isSpace_of_mem (@replicate_append_mem zeroes digits hlt)
  have hword : (digits.map base58Char).takeWhile inWord = digits.map base58Char :=
    List.takeWhile_eq_self_iff.mpr fun c hc => inWord_of_mem_pszBase58 c (hmem c hc)
  have hrest : (digits.map base58Char).dropWhile inWord = [] :=
    List.dropWhile_eq_nil_iff.mpr fun c hc => inWord_of_mem_pszBase58 c (hmem c hc)
  have hlength : ((digits.map base58Char).takeWhile (· != '\x00')).length = digits.length := by
    rw [List.takeWhile_eq_self_iff.mpr fun c hc => (Bool.and_eq_true _ _).mp
      (inWord_of_mem_pszBase58 c (hmem c hc)) |>.1, List.length_map]
  have hlookup : (digits.map base58Char).map pszBase58.idxOf? = digits.map some := by
    rw [List.map_map]
    exact List.map_congr_left fun d hd => idxOf?_base58Char (hlt d hd)
  -- `strlen * 733` stays below `2 ^ 64`, and the size below `2 ^ 31`
  have hint : intOfCount (digits.length * 733 % 2 ^ 64 / 1000 + 1) = ((digits.length * 733 / 1000 + 1 : Nat) : Int) := by
    rw [Nat.mod_eq_of_lt (by omega)]
    exact intOfCount_of_lt hsize
  have hfits : bigEndianValue 58 0 digits < 256 ^ (digits.length * 733 / 1000 + 1) :=
    lt_of_lt_of_le (bigEndianValue_lt (by norm_num) hlt) (decoder_buffer_fits le_rfl)
  obtain ⟨b256, used, hrun, hread⟩ := convertDigits_replicate (by norm_num) (by norm_num) hfits
  simp only [decodeBase58, hnoSpace, takeWhile_replicate_append hfirst, dropWhile_replicate_append hfirst,
    List.length_replicate, if_neg (not_le.mpr hzeroes), hlength, hint, Int.natCast_nonneg, not_lt.mpr, if_false,
    Int.toNat_natCast, hword, hlookup, hrun, hrest, List.dropWhile_nil, List.head?_nil, hread]

/-- What a string that `DecodeBase58` accepts is made of: spaces, fewer than `2 ^ 31` `1`s, the
characters of base-58 digits without a leading zero, and a tail that is spaces up to the end of
the string; the bytes are the zeros for the `1`s, then the base-256 digits of the number. -/
theorem decodeBase58_eq_ok {psz : List Char} {bytes : List UInt8} (hdecode : decodeBase58 psz = .ok bytes) :
    ∃ zeroes digits tail, psz = psz.takeWhile isSpace ++ (List.replicate zeroes '1' ++ digits.map base58Char) ++ tail ∧
      zeroes < 2 ^ 31 ∧ (∀ d ∈ digits, d < 58) ∧ digits.head? ≠ some 0 ∧
      ((tail.dropWhile isSpace).head? = none ∨ (tail.dropWhile isSpace).head? = some '\x00') ∧
      bytes = List.replicate zeroes 0 ++ (Nat.digits 256 (bigEndianValue 58 0 digits)).reverse.map UInt8.ofNat := by
  obtain ⟨trimmed, htrimmed⟩ : ∃ trimmed, trimmed = psz.dropWhile isSpace := ⟨_, rfl⟩
  obtain ⟨word, hword⟩ : ∃ word, word = trimmed.dropWhile (· == '1') := ⟨_, rfl⟩
  simp only [decodeBase58, ← htrimmed, ← hword] at hdecode
  split_ifs at hdecode with hzeroes hsize
  split at hdecode
  · cases hdecode
  · cases hdecode
  · rename_i b256 used hrun
    obtain ⟨digits, hdigits⟩ := exists_map_some_of_convertDigits_ok hrun
    obtain ⟨hchars, hlt⟩ := eq_map_base58Char hdigits
    -- the word does not start with `1`, so neither does its first digit stand for zero
    have hhead : digits.head? ≠ some 0 := by
      intro hzero
      have hfirst : (word.takeWhile inWord).head? = some '1' := by
        rw [hchars, List.head?_map, hzero]
        rfl
      rw [List.head?_takeWhile, Option.filter_eq_some_iff] at hfirst
      exact head?_dropWhile_ne '1' trimmed (hword ▸ hfirst.1)
    rw [hdigits] at hrun
    have hread := significantDigits_of_convertDigits_replicate (by norm_num) (by norm_num) hrun
    have hpsz : psz = psz.takeWhile isSpace ++
        (List.replicate (trimmed.takeWhile (· == '1')).length '1' ++ digits.map base58Char) ++
          word.dropWhile inWord := by
      rw [List.append_assoc, List.append_assoc, ← hchars, List.takeWhile_append_dropWhile, hword,
        replicate_append_dropWhile, htrimmed, List.takeWhile_append_dropWhile]
    refine ⟨_, digits, word.dropWhile inWord, hpsz, not_le.mp hzeroes, hlt, hhead, ?_⟩
    rw [← hread]
    split at hdecode
    · rename_i htail
      exact ⟨.inl htail, (Except.ok.inj hdecode).symm⟩
    · rename_i htail
      exact ⟨.inr htail, (Except.ok.inj hdecode).symm⟩
    · cases hdecode

/-- On a string of fewer than `2 ^ 31` characters `DecodeBase58` has a result: the digits read
before the first character outside the alphabet always fit in the buffer, so it either accepts
or returns `false`. -/
theorem decodeBase58_eq_error {psz : List Char} (hlength : psz.length < 2 ^ 31) {e : DecodeStop}
    (hdecode : decodeBase58 psz = .error e) : e = .rejected := by
  obtain ⟨trimmed, htrimmed⟩ : ∃ trimmed, trimmed = psz.dropWhile isSpace := ⟨_, rfl⟩
  obtain ⟨word, hword⟩ : ∃ word, word = trimmed.dropWhile (· == '1') := ⟨_, rfl⟩
  have htrimmedLength : trimmed.length ≤ psz.length := htrimmed ▸ List.length_dropWhile_le _ _
  have hzeroes : ¬2 ^ 31 ≤ (trimmed.takeWhile (· == '1')).length := by
    have := (List.takeWhile_sublist (· == '1') (l := trimmed)).length_le
    omega
  have hstrlen : (word.takeWhile (· != '\x00')).length ≤ psz.length := by
    have h1 := (List.takeWhile_sublist (· != '\x00') (l := word)).length_le
    have h2 : word.length ≤ trimmed.length := hword ▸ List.length_dropWhile_le _ _
    omega
  have hint : intOfCount ((word.takeWhile (· != '\x00')).length * 733 % 2 ^ 64 / 1000 + 1) =
      (((word.takeWhile (· != '\x00')).length * 733 / 1000 + 1 : Nat) : Int) := by
    rw [Nat.mod_eq_of_lt (by omega)]
    exact intOfCount_of_lt (by omega)
  obtain ⟨digits, rest, hsplit, hrest⟩ :=
    exists_map_some_append ((word.takeWhile inWord).map pszBase58.idxOf?)
  have hprefix : ((word.takeWhile inWord).take digits.length).map pszBase58.idxOf? = digits.map some := by
    rw [List.map_take, hsplit, List.take_left' (List.length_map _)]
  obtain ⟨-, hlt⟩ := eq_map_base58Char hprefix
  have hlength : digits.length ≤ (word.takeWhile (· != '\x00')).length :=
    calc digits.length ≤ (word.takeWhile inWord).length := by
          rw [← List.length_map (f := pszBase58.idxOf?), hsplit, List.length_append, List.length_map]
          omega
      _ ≤ (word.takeWhile (· != '\x00')).length :=
          length_takeWhile_le_of_imp (fun c hc => ((Bool.and_eq_true _ _).mp hc).1) word
  have hfits : bigEndianValue 58 0 digits < 256 ^ ((word.takeWhile (· != '\x00')).length * 733 / 1000 + 1) :=
    lt_of_lt_of_le (bigEndianValue_lt (by norm_num) hlt) (decoder_buffer_fits hlength)
  obtain ⟨b256, used, hrun, -⟩ := convertDigits_replicate (by norm_num) (by norm_num) hfits
  -- after the digits found, the conversion ends or meets a character outside the alphabet
  have hconvert : convertDigits 58 256 ((word.takeWhile inWord).map pszBase58.idxOf?)
      (List.replicate ((word.takeWhile (· != '\x00')).length * 733 / 1000 + 1) 0) 0 ≠ .error .carryLeft := by
    rw [hsplit, convertDigits_append, hrun]
    rcases hrest with rfl | ⟨later, rfl⟩ <;> simp [Except.bind, convertDigits]
  simp only [decodeBase58, ← htrimmed, ← hword, if_neg hzeroes, hint, Int.natCast_nonneg, not_lt.mpr, if_false,
    Int.toNat_natCast] at hdecode
  split at hdecode
  · exact (Except.error.inj hdecode).symm
  · contradiction
  · split at hdecode <;> first | exact (Except.error.inj hdecode).symm | cases hdecode

/-- Trimming removes the spaces around a word that holds none. -/
theorem trimSpaces_append {spaces word spaces' : List Char} (hspaces : ∀ c ∈ spaces, isSpace c = true)
    (hword : ∀ c ∈ word, isSpace c = false) (hspaces' : ∀ c ∈ spaces', isSpace c = true) :
    trimSpaces (spaces ++ word ++ spaces') = word := by
  rw [trimSpaces, List.append_assoc, List.dropWhile_append_of_pos hspaces]
  cases word with
  | nil => simp [List.dropWhile_eq_nil_iff.mpr hspaces']
  | cons c cs =>
    have hc := hword c List.mem_cons_self
    rw [List.cons_append, List.dropWhile_cons_of_neg (by simp [hc]), ← List.cons_append, List.reverse_append,
      List.dropWhile_append_of_pos (by simpa using hspaces'), List.dropWhile_eq_self_iff.mpr, List.reverse_reverse]
    intro hl
    rw [hword _ (List.mem_reverse.mp (List.getElem_mem hl))]
    exact Bool.false_ne_true

/-- `DecodeBase58` gives back every byte string from its encoding, when the encoder's counts fit
in an `int`. -/
theorem decodeBase58_encodeBase58 {bytes : List UInt8} (hzeroes : (bytes.takeWhile (· == 0)).length < 2 ^ 31)
    (hsize : (bytes.dropWhile (· == 0)).length * 138 / 100 + 1 < 2 ^ 31) :
    ∃ s, encodeBase58 bytes = some s ∧ (∀ c ∈ s, c ∈ pszBase58) ∧ decodeBase58 s = .ok bytes := by
  have hlt := map_toNat_lt (bytes.dropWhile (· == 0))
  have hdigitsLt : ∀ d ∈ (Nat.digits 58 (bigEndianValue 256 0 ((bytes.dropWhile (· == 0)).map UInt8.toNat))).reverse,
      d < 58 := fun d hd => Nat.digits_lt_base (by norm_num) (List.mem_reverse.mp hd)
  -- the encoding has no more digits than the encoder's buffer, so it fits the decoder's `int` too
  have hdigits := length_digits_58_le hlt
  rw [List.length_map] at hdigits
  refine ⟨_, encodeBase58_eq hzeroes hsize, replicate_append_mem hdigitsLt, ?_⟩
  rw [decodeBase58_replicate_append hdigitsLt (head?_digits_reverse_ne_zero _) hzeroes
      (by rw [List.length_reverse]; omega), bigEndianValue_digits_reverse,
    digits_bigEndianValue (by norm_num) hlt (head?_map_toNat_ne_zero bytes)]
  exact congrArg Except.ok (eq_replicate_append_digits bytes).symm

/-- `EncodeBase58` of what `DecodeBase58` accepts from a C string of fewer than `2 ^ 30`
characters gives the string back without the spaces around it. -/
theorem encodeBase58_decodeBase58 {psz : List Char} {bytes : List UInt8} (hnul : '\x00' ∉ psz)
    (hlength : psz.length < 2 ^ 30) (hdecode : decodeBase58 psz = .ok bytes) :
    encodeBase58 bytes = some (trimSpaces psz) := by
  obtain ⟨zeroes, digits, tail, hpsz, hzeroes, hlt, hhead, htail, hbytes⟩ := decodeBase58_eq_ok hdecode
  -- the tail is spaces only: a NUL after them would be a NUL in the string
  have htailSpaces : ∀ c ∈ tail, isSpace c = true := by
    rw [← List.dropWhile_eq_nil_iff, ← List.head?_eq_none_iff]
    refine htail.resolve_right fun hnulTail => hnul ?_
    rw [hpsz]
    exact List.mem_append_right _ ((List.dropWhile_suffix _).subset (List.mem_of_mem_head? hnulTail))
  have hword : ∀ c ∈ List.replicate zeroes '1' ++ digits.map base58Char, isSpace c = false :=
    fun c hc => isSpace_of_mem_pszBase58 c (replicate_append_mem hlt c hc)
  -- the bytes of the number are no more than the decoder's buffer, so they fit the encoder's `int`
  have hdigits : digits.length ≤ psz.length := by
    have h := congrArg List.length hpsz
    simp only [List.length_append, List.length_map] at h
    omega
  have hbytesLength := length_digits_256_le hlt
  rw [hbytes, encodeBase58_replicate_append (fun d hd => Nat.digits_lt_base (by norm_num) (List.mem_reverse.mp hd))
      (head?_digits_reverse_ne_zero _) hzeroes (by rw [List.length_reverse]; omega), bigEndianValue_digits_reverse,
    digits_bigEndianValue (by norm_num) hlt hhead, hpsz,
    trimSpaces_append (fun c hc => List.mem_takeWhile_imp hc) hword htailSpaces]

/-- Base58 is lossless and both buffers are large enough, for inputs whose counts fit in the
code's `int`s: every byte string of fewer than `2 ^ 30` bytes is encoded in the alphabet and
decoded back, `DecodeBase58` on a string of fewer than `2 ^ 31` characters stops only by
returning `false` (never at its assertion), and a C string of fewer than `2 ^ 30` characters
that `DecodeBase58` accepts is given back by `EncodeBase58` without the spaces around it. -/
theorem base58_lossless :
    (∀ bytes : List UInt8, bytes.length < 2 ^ 30 → ∃ s, encodeBase58 bytes = some s ∧
      (∀ c ∈ s, c ∈ pszBase58) ∧ decodeBase58 s = .ok bytes) ∧
    (∀ psz : List Char, psz.length < 2 ^ 31 → ∀ e, decodeBase58 psz = .error e → e = .rejected) ∧
    ∀ psz : List Char, '\x00' ∉ psz → psz.length < 2 ^ 30 → ∀ bytes : List UInt8,
      decodeBase58 psz = .ok bytes → encodeBase58 bytes = some (trimSpaces psz) := by
  refine ⟨fun bytes hlength => ?_, fun _ hlength _ hdecode => decodeBase58_eq_error hlength hdecode,
    fun _ hnul hlength _ hdecode => encodeBase58_decodeBase58 hnul hlength hdecode⟩
  have hzeroes := (List.takeWhile_sublist (· == 0) (l := bytes)).length_le
  have hrest := List.length_dropWhile_le (· == 0) bytes
  exact decodeBase58_encodeBase58 (by omega) (by omega)

/-- The `std::string` overload stops at a NUL inside the string: `"2\0x"` is accepted as `"2"`,
and `EncodeBase58` of the result does not give the string back. -/
theorem decodeBase58_embedded_nul :
    decodeBase58 ['2', '\x00', 'x'] = .ok [1] ∧ encodeBase58 [1] = some ['2'] ∧
      trimSpaces ['2', '\x00', 'x'] ≠ ['2'] :=
  ⟨rfl, rfl, by decide⟩

/-! ## The bignum implementation of `fcrypto/base58.cpp`

`fcrypto::to_base58` and `fcrypto::from_base58` run their own `EncodeBase58` and
`DecodeBase58` on OpenSSL bignums: the encoder divides the number by 58 while it is positive,
so its remainders are `Nat.digits 58`, and the decoder reads `bn = bn * 58 + digit`. The
encoder agrees with the one above (`encodeBase58_eq_fcrypto`), and `from_base58` gives back
what `to_base58` wrote (`Fcrypto.fromBase58_toBase58`). -/

namespace Fcrypto

/-- fcrypto's `EncodeBase58`: the remainders of the number by 58, then a `1` for each leading
zero byte, all reversed. -/
def encodeBase58 (bytes : List UInt8) : List Char :=
  let bn := bigEndianValue 256 0 (bytes.map UInt8.toNat)
  ((Nat.digits 58 bn).map base58Char ++ List.replicate (bytes.takeWhile (· == 0)).length '1').reverse

/-- The loop of fcrypto's `DecodeBase58` over the C string from `p` on, with the number read so
far: a character outside the alphabet ends it, and only spaces may follow from there. -/
def readDigits : List Char → Nat → Option Nat
  | [], bn => some bn
  | c :: rest, bn =>
    match pszBase58.idxOf? c with
    | some digit => readDigits rest (bn * 58 + digit)
    | none => if (c :: rest).dropWhile isSpace = [] then some bn else none

/-- `CBigNum::getvch` of a non-negative number: its bytes, least significant first, and a zero
sign byte after a last byte of `0x80` or more (OpenSSL's MPI format). -/
def getvch (bn : Nat) : List Nat :=
  if 0x80 ≤ (Nat.digits 256 bn).getLastD 0 then Nat.digits 256 bn ++ [0] else Nat.digits 256 bn

/-- "Trim off sign byte if present". -/
def trimSignByte (vch : List Nat) : List Nat :=
  if 2 ≤ vch.length ∧ vch.getLastD 0 = 0 ∧ 0x80 ≤ vch.dropLast.getLastD 0 then vch.dropLast else vch

/-- fcrypto's `DecodeBase58`, with the bytes it leaves in `vchRet` when it returns `true`. -/
def decodeBase58 (psz : List Char) : Option (List UInt8) :=
  let psz := psz.dropWhile isSpace
  match readDigits (psz.takeWhile (· != '\x00')) 0 with
  | none => none
  | some bn =>
    -- the leading zeros, then the bytes big-endian
    some (List.replicate (psz.takeWhile (· == '1')).length 0 ++ (trimSignByte (getvch bn)).reverse.map UInt8.ofNat)

/-- `fcrypto::to_base58(d, s)`. -/
def toBase58 (data : List UInt8) : List Char := encodeBase58 data

/-- How `fcrypto::from_base58` throws: `parse_error_exception` when `DecodeBase58` refuses the
string, and the `assert_exception` of `FJSON_ASSERT` when the bytes do not fit the buffer. -/
inductive FromBase58Error where
  | parseError
  | assertFailed
  deriving DecidableEq, Repr

/-- `fcrypto::from_base58(base58_str, out_data, out_data_len)`, with the bytes it writes. -/
def fromBase58 (base58Str : List Char) (outDataLen : Nat) : Except FromBase58Error (List UInt8) :=
  match decodeBase58 base58Str with
  | none => .error .parseError
  | some out => if out.length ≤ outDataLen then .ok out else .error .assertFailed

/-- The decoder drops exactly the sign byte that `getvch` adds. -/
theorem trimSignByte_getvch (bn : Nat) : trimSignByte (getvch bn) = Nat.digits 256 bn := by
  unfold getvch
  split_ifs with htop
  · -- a top byte of `0x80` or more: the digits are not empty, and the zero after them goes
    have hne : Nat.digits 256 bn ≠ [] := by
      intro hnil
      simp [hnil] at htop
    have hlength : 1 ≤ (Nat.digits 256 bn).length := List.length_pos_iff.mpr hne
    rw [trimSignByte, if_pos ⟨by simp; omega, by simp, by simpa using htop⟩, List.dropLast_concat]
  · -- no sign byte: the last digit is not zero, or there is none
    rw [trimSignByte, if_neg]
    rintro ⟨hlength, hlast, -⟩
    have hne : Nat.digits 256 bn ≠ [] := List.ne_nil_of_length_pos (by omega)
    have hbn : bn ≠ 0 := fun h => hne (by simp [h])
    rw [List.getLastD_eq_getLast?, List.getLast?_eq_some_getLast hne] at hlast
    exact Nat.getLast_digit_ne_zero 256 hbn (by simpa using hlast)

theorem readDigits_map_base58Char_append {digits : List Nat} (hlt : ∀ d ∈ digits, d < 58) (rest : List Char) :
    ∀ bn, readDigits (digits.map base58Char ++ rest) bn = readDigits rest (bigEndianValue 58 bn digits) := by
  induction digits with
  | nil => intro bn; rfl
  | cons d ds ih =>
    intro bn
    have hd := hlt d List.mem_cons_self
    rw [List.map_cons, List.cons_append, readDigits, idxOf?_base58Char hd]
    exact ih (fun x hx => hlt x (List.mem_cons_of_mem d hx)) _

/-- fcrypto's encoder writes what the encoder of `base58.cpp` writes. -/
theorem encodeBase58_eq_replicate_append (bytes : List UInt8) :
    encodeBase58 bytes = List.replicate (bytes.takeWhile (· == 0)).length '1' ++
      (Nat.digits 58 (bigEndianValue 256 0 ((bytes.dropWhile (· == 0)).map UInt8.toNat))).reverse.map
        base58Char := by
  have hvalue : bigEndianValue 256 0 (bytes.map UInt8.toNat) =
      bigEndianValue 256 0 ((bytes.dropWhile (· == 0)).map UInt8.toNat) := by
    conv_lhs => rw [← replicate_append_dropWhile (0 : UInt8) bytes]
    rw [List.map_append, List.map_replicate]
    exact bigEndianValue_replicate_zero_append _ _
  rw [encodeBase58, hvalue, List.reverse_append, List.reverse_replicate, List.map_reverse]

/-- Read back, fcrypto's encoding gives the bytes. -/
theorem decodeBase58_encodeBase58 (bytes : List UInt8) : decodeBase58 (encodeBase58 bytes) = some bytes := by
  obtain ⟨digits, hdigits⟩ : ∃ digits, digits =
      (Nat.digits 58 (bigEndianValue 256 0 ((bytes.dropWhile (· == 0)).map UInt8.toNat))).reverse := ⟨_, rfl⟩
  have hlt : ∀ d ∈ digits, d < 58 := fun d hd =>
    Nat.digits_lt_base (by norm_num) (List.mem_reverse.mp (hdigits ▸ hd))
  have hhead : digits.head? ≠ some 0 := hdigits ▸ head?_digits_reverse_ne_zero _
  have hbytesLt : ∀ d ∈ (bytes.dropWhile (· == 0)).map UInt8.toNat, d < 256 := by
    intro d hd
    obtain ⟨b, -, rfl⟩ := List.mem_map.mp hd
    exact UInt8.toNat_lt b
  have hmem := @replicate_append_mem (bytes.takeWhile (· == 0)).length digits hlt
  -- the `1`s are the characters of zero digits, read as leading zeros of the number
  have hones : List.replicate (bytes.takeWhile (· == 0)).length '1' ++ digits.map base58Char =
      (List.replicate (bytes.takeWhile (· == 0)).length 0 ++ digits).map base58Char ++ [] := by
    rw [List.append_nil, List.map_append, List.map_replicate]
    rfl
  have hltAll : ∀ d ∈ List.replicate (bytes.takeWhile (· == 0)).length 0 ++ digits, d < 58 := by
    intro d hd
    rcases List.mem_append.mp hd with hzero | hdigit
    · rw [List.eq_of_mem_replicate hzero]
      norm_num
    · exact hlt d hdigit
  have hread := readDigits_map_base58Char_append hltAll [] 0
  have hvalue : bigEndianValue 58 0 digits = bigEndianValue 256 0 ((bytes.dropWhile (· == 0)).map UInt8.toNat) := by
    rw [hdigits, bigEndianValue_digits_reverse]
  rw [← hones, bigEndianValue_replicate_zero_append, hvalue] at hread
  rw [encodeBase58_eq_replicate_append, ← hdigits, decodeBase58]
  simp only [dropWhile_isSpace_of_mem hmem, List.takeWhile_eq_self_iff.mpr fun c hc =>
      ((Bool.and_eq_true _ _).mp (inWord_of_mem_pszBase58 c (hmem c hc))).1, hread, readDigits,
    takeWhile_replicate_append (head?_map_base58Char_ne_one hlt hhead), List.length_replicate,
    trimSignByte_getvch]
  rw [digits_bigEndianValue (by norm_num) hbytesLt (head?_map_toNat_ne_zero bytes)]
  exact congrArg some (eq_replicate_append_digits bytes).symm

/-- `from_base58` gives back what `to_base58` wrote, when the buffer holds it. -/
theorem fromBase58_toBase58 {data : List UInt8} {outDataLen : Nat} (hfits : data.length ≤ outDataLen) :
    fromBase58 (toBase58 data) outDataLen = .ok data := by
  simp only [fromBase58, toBase58, decodeBase58_encodeBase58, if_pos hfits]

theorem toBase58_injective : Function.Injective toBase58 := by
  intro first second hequal
  have hread := congrArg decodeBase58 hequal
  rwa [toBase58, toBase58, decodeBase58_encodeBase58, decodeBase58_encodeBase58, Option.some_inj] at hread

/-- fcrypto's encoding of `n` bytes has at most `n * 138 / 100 + 1` characters, the size
`base58.cpp` reserves. -/
theorem length_toBase58_le (data : List UInt8) : (toBase58 data).length ≤ data.length * 138 / 100 + 1 := by
  have hlt : ∀ d ∈ (data.dropWhile (· == 0)).map UInt8.toNat, d < 256 := by
    intro d hd
    obtain ⟨b, -, rfl⟩ := List.mem_map.mp hd
    exact UInt8.toNat_lt b
  have hdigits : (Nat.digits 58 (bigEndianValue 256 0 ((data.dropWhile (· == 0)).map UInt8.toNat))).length ≤
      (data.dropWhile (· == 0)).length * 138 / 100 + 1 := by
    rw [Nat.digits_length_le_iff (by norm_num)]
    calc _ < 256 ^ ((data.dropWhile (· == 0)).map UInt8.toNat).length := bigEndianValue_lt (by norm_num) hlt
      _ ≤ _ := by rw [List.length_map]; exact encoder_buffer_fits _
  have hsplit := congrArg List.length (replicate_append_dropWhile (0 : UInt8) data)
  rw [List.length_append, List.length_replicate] at hsplit
  rw [toBase58, encodeBase58_eq_replicate_append, List.length_append, List.length_replicate, List.length_map,
    List.length_reverse]
  -- each zero byte costs one character, which is less than the 1.38 the other bytes may cost
  omega

end Fcrypto

/-- The two encoders agree where the counts of `base58.cpp` fit in an `int`. -/
theorem encodeBase58_eq_fcrypto {bytes : List UInt8} (hzeroes : (bytes.takeWhile (· == 0)).length < 2 ^ 31)
    (hsize : (bytes.dropWhile (· == 0)).length * 138 / 100 + 1 < 2 ^ 31) :
    encodeBase58 bytes = some (Fcrypto.encodeBase58 bytes) := by
  rw [encodeBase58_eq hzeroes hsize, Fcrypto.encodeBase58_eq_replicate_append]

/-- A zero byte and a one: both encoders write `12`. -/
theorem encodeBase58_eq_fcrypto_zeroOne :
    Fcrypto.encodeBase58 [0, 1] = ['1', '2'] ∧ encodeBase58 [0, 1] = some (Fcrypto.encodeBase58 [0, 1]) :=
  ⟨by decide, encodeBase58_eq_fcrypto (by decide) (by decide)⟩

end UnitedBitcoin.Base58
