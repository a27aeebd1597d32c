import Mathlib

/-!
# Stream reads and variable-length integers

The part of `serialize.h` and `streams.h` that the compressed coin format goes
through: a `CDataStream` seen as the bytes still unread, its `read` and
`ignore`, and the `VARINT` code of `WriteVarInt` and `ReadVarInt`. That code
writes a number most significant digit first in base 128; every digit but the
last carries the continuation bit `0x80`, and one is subtracted from the number
before each further digit is taken, so that every number has exactly one
encoding. A read that fails is the `ios_base::failure` the stream throws, kept
with its message.

`readVarInt_writeVarInt` says that reading a written number gives it back with
the bytes after it untouched, for every number the target type holds;
`eq_writeVarInt_of_readVarInt` says that whatever a read accepts is the
encoding of what it returns, so that every number has one encoding.

`CompactSize`, the length prefix of vectors and strings, is one byte below
`253` and otherwise a marker and two, four or eight little-endian bytes. Its
reader refuses a size written wider than needed and one above `MAX_SIZE`, and
`compactSize_canonical` shows that it accepts exactly the sizes the writer
writes.
-/

namespace UnitedBitcoin.Serialize

/-- What a read from a `CDataStream` gives: the value and the bytes after it, or
the message of the `ios_base::failure` it throws. -/
abbrev StreamResult (α : Type) := Except String (α × List UInt8)

/-- `CDataStream::read`: the next `nSize` bytes. -/
def read (nSize : Nat) (bytes : List UInt8) : StreamResult (List UInt8) :=
  if bytes.length < nSize then .error "CDataStream::read(): end of data"
  else .ok (bytes.take nSize, bytes.drop nSize)

/-- `CDataStream::ignore`. Its argument is an `int`, so an unsigned count of
`2 ^ 31` or more arrives negative. -/
def ignore (nSize : Nat) (bytes : List UInt8) : Except String (List UInt8) :=
  if 2 ^ 31 ≤ nSize then .error "CDataStream::ignore(): nSize negative"
  else if bytes.length < nSize then .error "CDataStream::ignore(): end of data"
  else .ok (bytes.drop nSize)

theorem read_append {data : List UInt8} {nSize : Nat} (hsize : data.length = nSize)
    (rest : List UInt8) : read nSize (data ++ rest) = .ok (data, rest) := by
  subst hsize
  simp [read]

/-! ## Writing a `VARINT` -/

/-- The digit `WriteVarInt` stores in `tmp[len]`, `(n & 0x7F) | (len ? 0x80 : 0x00)`:
only the first digit computed, the last one written, lacks the continuation bit. -/
def varIntDigit (n : Nat) (continued : Bool) : UInt8 :=
  (n % 0x80 + if continued then 0x80 else 0).toUInt8

/-- The array `tmp` of `WriteVarInt`, least significant digit first. -/
def varIntTmp (n : Nat) (continued : Bool) : List UInt8 :=
  if n ≤ 0x7F then [varIntDigit n continued]
  else varIntDigit n continued :: varIntTmp (n / 0x80 - 1) true
termination_by n
decreasing_by omega

/-- `WriteVarInt`: the digits of `tmp`, written from the last one down. -/
def writeVarInt (n : Nat) : List UInt8 := (varIntTmp n false).reverse

@[simp]
theorem varIntDigit_toNat (n : Nat) (continued : Bool) :
    (varIntDigit n continued).toNat = n % 0x80 + if continued then 0x80 else 0 := by
  have hdigit : n % 0x80 < 0x80 := Nat.mod_lt _ (by decide)
  cases continued <;> simp [varIntDigit] <;> omega

/-- One step of `WriteVarInt` for a number that needs a further digit. -/
theorem varIntTmp_reverse_of_lt {n : Nat} (hn : 0x7F < n) (continued : Bool) :
    (varIntTmp n continued).reverse =
      (varIntTmp (n / 0x80 - 1) true).reverse ++ [varIntDigit n continued] := by
  rw [varIntTmp, if_neg (by omega), List.reverse_cons]

theorem varIntTmp_of_le {n : Nat} (hn : n ≤ 0x7F) (continued : Bool) :
    varIntTmp n continued = [varIntDigit n continued] := by
  rw [varIntTmp, if_pos hn]

/-! ## Reading a `VARINT` -/

/-- `ReadVarInt` for an unsigned type whose largest value is `max`, from the
accumulated value `n` on. `(n << 7) | (chData & 0x7F)` is `n * 0x80 + chData % 0x80`
because the guard keeps `n << 7` within the type. -/
def readVarIntFrom (max n : Nat) : List UInt8 → StreamResult Nat
  | [] => .error "CDataStream::read(): end of data"
  | chData :: rest =>
    if max / 0x80 < n then .error "ReadVarInt(): size too large"
    else
      let n := n * 0x80 + chData.toNat % 0x80
      if 0x80 ≤ chData.toNat then
        if n = max then .error "ReadVarInt(): size too large"
        else readVarIntFrom max (n + 1) rest
      else .ok (n, rest)

/-- `ReadVarInt` for an unsigned type whose largest value is `max`. -/
def readVarInt (max : Nat) (bytes : List UInt8) : StreamResult Nat :=
  readVarIntFrom max 0 bytes

/-- Reading one digit with the continuation bit. -/
theorem readVarIntFrom_continued {max acc m : Nat} (hacc : acc ≤ max / 0x80)
    (hdigit : acc * 0x80 + m % 0x80 = m) (hm : m < max) (rest : List UInt8) :
    readVarIntFrom max acc (varIntDigit m true :: rest) = readVarIntFrom max (m + 1) rest := by
  have hdigitNat : (varIntDigit m true).toNat = m % 0x80 + 0x80 := by simp
  simp only [readVarIntFrom, if_neg (Nat.not_lt.mpr hacc), hdigitNat,
    Nat.add_mod_right, Nat.mod_mod, hdigit, if_pos (Nat.le_add_left _ _), if_neg hm.ne]

/-- Reading the last digit, without the continuation bit. -/
theorem readVarIntFrom_last {max acc n : Nat} (hacc : acc ≤ max / 0x80)
    (hdigit : acc * 0x80 + n % 0x80 = n) (rest : List UInt8) :
    readVarIntFrom max acc (varIntDigit n false :: rest) = .ok (n, rest) := by
  have hdigitNat : (varIntDigit n false).toNat = n % 0x80 := by simp
  have hlow : ¬ 0x80 ≤ n % 0x80 := Nat.not_le.mpr (Nat.mod_lt _ (by decide))
  simp only [readVarIntFrom, if_neg (Nat.not_lt.mpr hacc), hdigitNat, Nat.mod_mod, hdigit,
    if_neg hlow]

/-- The digits `WriteVarInt` writes before the last one read back, from an empty
accumulator, as their number plus one: the one that `WriteVarInt` subtracted. -/
theorem readVarIntFrom_continuedDigits {max : Nat} (m : Nat) (hm : m < max)
    (rest : List UInt8) :
    readVarIntFrom max 0 ((varIntTmp m true).reverse ++ rest) =
      readVarIntFrom max (m + 1) rest := by
  induction m using Nat.strongRecOn generalizing rest with
  | ind m ih =>
    by_cases hsmall : m ≤ 0x7F
    · -- a single digit, read from the empty accumulator
      rw [varIntTmp_of_le hsmall, List.reverse_singleton, List.singleton_append]
      exact readVarIntFrom_continued (Nat.zero_le _) (by omega) hm rest
    · -- the higher digits give `m / 0x80`, and the lowest completes `m`
      have hhigh : m / 0x80 - 1 < m := by omega
      rw [varIntTmp_reverse_of_lt (by omega), List.append_assoc, List.singleton_append,
        ih _ hhigh (by omega)]
      exact readVarIntFrom_continued (by omega) (by omega) hm rest

/-- A `VARINT` reads back as the number written, with the bytes after it untouched,
for every number the target type holds. -/
theorem readVarInt_writeVarInt {max n : Nat} (hn : n ≤ max) (rest : List UInt8) :
    readVarInt max (writeVarInt n ++ rest) = .ok (n, rest) := by
  unfold readVarInt writeVarInt
  by_cases hsmall : n ≤ 0x7F
  · rw [varIntTmp_of_le hsmall, List.reverse_singleton, List.singleton_append]
    exact readVarIntFrom_last (Nat.zero_le _) (by omega) rest
  · rw [varIntTmp_reverse_of_lt (by omega), List.append_assoc, List.singleton_append,
      readVarIntFrom_continuedDigits _ (by omega)]
    exact readVarIntFrom_last (by omega) (by omega) rest

/-- A byte without the continuation bit is a whole `VARINT`: its own value. -/
theorem readVarInt_of_lt {max : Nat} {b : UInt8} (hb : b.toNat < 0x80) (rest : List UInt8) :
    readVarInt max (b :: rest) = .ok (b.toNat, rest) := by
  simp [readVarInt, readVarIntFrom, Nat.mod_eq_of_lt hb, Nat.not_le.mpr hb]

/-! ## The size of a `VARINT` and the uniqueness of its encoding -/

/-- `GetSizeOfVarInt`: one digit, and one more for each time the number is shifted and
decremented. -/
def getSizeOfVarInt (n : Nat) : Nat :=
  if n ≤ 0x7F then 1 else getSizeOfVarInt (n / 0x80 - 1) + 1
termination_by n
decreasing_by omega

theorem length_varIntTmp (n : Nat) (continued : Bool) :
    (varIntTmp n continued).length = getSizeOfVarInt n := by
  induction n using Nat.strongRecOn generalizing continued with
  | ind n ih =>
    by_cases hsmall : n ≤ 0x7F
    · rw [varIntTmp_of_le hsmall, getSizeOfVarInt, if_pos hsmall]
      rfl
    · rw [varIntTmp, if_neg hsmall, getSizeOfVarInt, if_neg hsmall, List.length_cons,
        ih _ (by omega)]

theorem length_writeVarInt (n : Nat) : (writeVarInt n).length = getSizeOfVarInt n := by
  rw [writeVarInt, List.length_reverse, length_varIntTmp]

/-- A number below `0x80 ^ k` has at most `k` digits. -/
theorem getSizeOfVarInt_le {k : Nat} (hk : 0 < k) : ∀ {n : Nat}, n < 0x80 ^ k → getSizeOfVarInt n ≤ k := by
  induction k with
  | zero => omega
  | succ k ih =>
    intro n hn
    rw [getSizeOfVarInt]
    split_ifs with hsmall
    · omega
    · -- the number needs another digit, so `k` is not `0` and the rest has `k` digits
      have hpos : 0 < k := by
        rcases Nat.eq_zero_or_pos k with rfl | h
        · simp at hn
          omega
        · exact h
      have hrest : n / 0x80 - 1 < 0x80 ^ k := by
        rw [pow_succ] at hn
        omega
      have := ih hpos hrest
      omega

/-- The buffer `tmp[(sizeof(n)*8+6)/7]` of `WriteVarInt` holds every digit it writes of a
number of `w` bits. -/
theorem length_writeVarInt_le_buffer {w n : Nat} (hw : 0 < w) (hn : n < 2 ^ w) :
    (writeVarInt n).length ≤ (w + 6) / 7 := by
  rw [length_writeVarInt]
  apply getSizeOfVarInt_le (by omega)
  calc n < 2 ^ w := hn
    _ ≤ 2 ^ (7 * ((w + 6) / 7)) := Nat.pow_le_pow_right (by decide) (by omega)
    _ = 0x80 ^ ((w + 6) / 7) := by rw [pow_mul]; rfl

/-- The largest `uint64_t` fills the ten bytes of its buffer. -/
theorem length_writeVarInt_le_buffer_uint64Max :
    0 < 64 ∧ 2 ^ 64 - 1 < 2 ^ 64 ∧ (writeVarInt (2 ^ 64 - 1)).length ≤ 10 :=
  ⟨by decide, by decide, length_writeVarInt_le_buffer (w := 64) (by decide) (by decide)⟩

/-- A digit is the byte whose value it has. -/
theorem varIntDigit_eq {n : Nat} {continued : Bool} {b : UInt8}
    (hb : b.toNat = n % 0x80 + if continued then 0x80 else 0) : varIntDigit n continued = b :=
  UInt8.toNat_inj.mp (by rw [varIntDigit_toNat, hb])

/-- A read after the digits of `a`, each with its continuation bit, consumes the rest of
what `WriteVarInt` writes for the number it returns. -/
theorem readVarIntFrom_eq_ok {max : Nat} (bytes : List UInt8) :
    ∀ {a m : Nat} {rest : List UInt8}, readVarIntFrom max (a + 1) bytes = .ok (m, rest) →
      ∃ digits, bytes = digits ++ rest ∧ (varIntTmp a true).reverse ++ digits = writeVarInt m := by
  induction bytes with
  | nil => simp [readVarIntFrom]
  | cons b bytes ih =>
    intro a m rest hread
    have hbyte : b.toNat < 0x100 := UInt8.toNat_lt b
    simp only [readVarIntFrom] at hread
    split_ifs at hread with hguard hcontinued hmax
    · -- a digit with the continuation bit: the digits after it complete the number
      obtain ⟨digits, hbytes, hwrite⟩ := ih hread
      refine ⟨b :: digits, by rw [hbytes, List.cons_append], ?_⟩
      have hdigit : varIntDigit ((a + 1) * 0x80 + b.toNat % 0x80) true = b :=
        varIntDigit_eq (by simp; omega)
      rw [← hwrite, varIntTmp_reverse_of_lt (n := (a + 1) * 0x80 + b.toNat % 0x80) (by omega),
        show ((a + 1) * 0x80 + b.toNat % 0x80) / 0x80 - 1 = a by omega, hdigit, List.append_assoc,
        List.singleton_append]
    · -- the last digit
      simp only [Except.ok.injEq, Prod.mk.injEq] at hread
      obtain ⟨rfl, rfl⟩ := hread
      refine ⟨[b], rfl, ?_⟩
      have hdigit : varIntDigit ((a + 1) * 0x80 + b.toNat % 0x80) false = b :=
        varIntDigit_eq (by simp; omega)
      rw [writeVarInt, varIntTmp_reverse_of_lt (n := (a + 1) * 0x80 + b.toNat % 0x80) (by omega),
        show ((a + 1) * 0x80 + b.toNat % 0x80) / 0x80 - 1 = a by omega, hdigit]

/-- Whatever a `VARINT` read accepts is the encoding of what it returns. -/
theorem eq_writeVarInt_of_readVarInt {max m : Nat} {bytes rest : List UInt8}
    (hread : readVarInt max bytes = .ok (m, rest)) : bytes = writeVarInt m ++ rest := by
  cases bytes with
  | nil => simp [readVarInt, readVarIntFrom] at hread
  | cons b bytes =>
    have hbyte : b.toNat < 0x100 := UInt8.toNat_lt b
    simp only [readVarInt, readVarIntFrom, Nat.zero_mul, Nat.zero_add] at hread
    split_ifs at hread with hguard hcontinued hmax
    · -- the first digit continues: it is the whole prefix before the rest
      obtain ⟨digits, hbytes, hwrite⟩ := readVarIntFrom_eq_ok bytes hread
      have hdigit : varIntTmp (b.toNat % 0x80) true = [b] := by
        rw [varIntTmp_of_le (by omega), varIntDigit_eq (b := b) (by simp; omega)]
      rw [← hwrite, hdigit, hbytes]
      rfl
    · simp only [Except.ok.injEq, Prod.mk.injEq] at hread
      obtain ⟨rfl, rfl⟩ := hread
      rw [writeVarInt, varIntTmp_of_le (by omega), varIntDigit_eq (b := b) (by simp; omega)]
      rfl

/-- `VARINT` is a bijection for every largest value of the target type: a number the
type holds reads back from its encoding, which is `GetSizeOfVarInt` bytes long, and what a
read accepts is the encoding of what it returns. -/
theorem varInt_bijective (max : Nat) :
    (∀ n, n ≤ max → ∀ rest, readVarInt max (writeVarInt n ++ rest) = .ok (n, rest) ∧
      (writeVarInt n).length = getSizeOfVarInt n) ∧
    ∀ bytes m rest, readVarInt max bytes = .ok (m, rest) → bytes = writeVarInt m ++ rest :=
  ⟨fun n hn rest => ⟨readVarInt_writeVarInt hn rest, length_writeVarInt n⟩,
    fun _ _ _ hread => eq_writeVarInt_of_readVarInt hread⟩

/-! ## Compact sizes -/

/-- `MAX_SIZE`. -/
def maxSize : Nat := 0x02000000

/-- The `k` bytes of `n`, the least significant first, as `ser_writedata16`, `32` and `64`
write them after `htole`. -/
def leBytes : Nat → Nat → List UInt8
  | 0, _ => []
  | k + 1, n => (n % 256).toUInt8 :: leBytes k (n / 256)

/-- The number whose bytes are given least significant first, as `le16toh`, `le32toh` and
`le64toh` read them. -/
def leValue : List UInt8 → Nat
  | [] => 0
  | b :: rest => b.toNat + 256 * leValue rest

/-- `ser_readdata8`, `16`, `32` and `64`: `k` bytes read little-endian. -/
def readLe (k : Nat) (bytes : List UInt8) : Except String (Nat × List UInt8) := do
  let (data, rest) ← read k bytes
  return (leValue data, rest)

/-- `GetSizeOfCompactSize`. -/
def getSizeOfCompactSize (nSize : Nat) : Nat :=
  if nSize < 253 then 1 else if nSize ≤ 0xFFFF then 3 else if nSize ≤ 0xFFFFFFFF then 5 else 9

/-- `WriteCompactSize`: one byte below `253`, else a marker and two, four or eight bytes. -/
def writeCompactSize (nSize : Nat) : List UInt8 :=
  if nSize < 253 then leBytes 1 nSize
  else if nSize ≤ 0xFFFF then 253 :: leBytes 2 nSize
  else if nSize ≤ 0xFFFFFFFF then 254 :: leBytes 4 nSize
  else 255 :: leBytes 8 nSize

/-- A size after a marker in `ReadCompactSize`: `k` bytes, refused below the least size the
marker is written for. -/
def readCanonical (k least : Nat) (bytes : List UInt8) : Except String (Nat × List UInt8) := do
  let (nSizeRet, rest) ← readLe k bytes
  if nSizeRet < least then throw "non-canonical ReadCompactSize()"
  return (nSizeRet, rest)

/-- The size after the first byte of `ReadCompactSize`: the byte itself below `253`, else
the two, four or eight bytes it announces. -/
def readCompactSizeBody (chSize : Nat) (bytes : List UInt8) : Except String (Nat × List UInt8) :=
  if chSize < 253 then .ok (chSize, bytes)
  else if chSize = 253 then readCanonical 2 253 bytes
  else if chSize = 254 then readCanonical 4 0x10000 bytes
  else readCanonical 8 0x100000000 bytes

/-- `ReadCompactSize`. -/
def readCompactSize (bytes : List UInt8) : Except String (Nat × List UInt8) := do
  let (chSize, bytes) ← readLe 1 bytes
  let (nSizeRet, bytes) ← readCompactSizeBody chSize bytes
  if maxSize < nSizeRet then throw "ReadCompactSize(): size too large"
  return (nSizeRet, bytes)

theorem except_bind_eq_ok {ε α β : Type} {x : Except ε α} {f : α → Except ε β} {b : β} :
    x >>= f = .ok b ↔ ∃ a, x = .ok a ∧ f a = .ok b := by
  cases x <;> simp [bind, Except.bind]

@[simp]
theorem length_leBytes (k n : Nat) : (leBytes k n).length = k := by
  induction k generalizing n with
  | zero => rfl
  | succ k ih => simp [leBytes, ih]

theorem leValue_leBytes (k n : Nat) : leValue (leBytes k n) = n % 256 ^ k := by
  induction k generalizing n with
  | zero => simp [leBytes, leValue, Nat.mod_one]
  | succ k ih =>
    have hbyte : ((n % 256).toUInt8).toNat = n % 256 := by simp
    rw [leBytes, leValue, hbyte, ih, pow_succ', Nat.mod_mul]

theorem leBytes_leValue (bytes : List UInt8) : leBytes bytes.length (leValue bytes) = bytes := by
  induction bytes with
  | nil => rfl
  | cons b rest ih =>
    have hbyte : b.toNat < 256 := UInt8.toNat_lt b
    have hlow : ((b.toNat + 256 * leValue rest) % 256).toUInt8 = b :=
      UInt8.toNat_inj.mp (by simp)
    have hhigh : (b.toNat + 256 * leValue rest) / 256 = leValue rest := by omega
    rw [List.length_cons, leBytes, leValue, hlow, hhigh, ih]

theorem leValue_lt (bytes : List UInt8) : leValue bytes < 256 ^ bytes.length := by
  induction bytes with
  | nil => simp [leValue]
  | cons b rest ih =>
    have hbyte : b.toNat < 256 := UInt8.toNat_lt b
    rw [leValue, List.length_cons, pow_succ']
    omega

theorem readLe_append {data : List UInt8} {k : Nat} (hlength : data.length = k) (rest : List UInt8) :
    readLe k (data ++ rest) = .ok (leValue data, rest) := by
  simp [readLe, read_append hlength rest, bind, Except.bind, pure, Except.pure]

theorem readLe_eq_ok {k n : Nat} {bytes rest : List UInt8} (hread : readLe k bytes = .ok (n, rest)) :
    ∃ data, data.length = k ∧ bytes = data ++ rest ∧ n = leValue data := by
  simp only [readLe, read] at hread
  split_ifs at hread with hshort
  · simp [bind, Except.bind] at hread
  · simp only [bind, Except.bind, pure, Except.pure, Except.ok.injEq, Prod.mk.injEq] at hread
    obtain ⟨rfl, rfl⟩ := hread
    exact ⟨bytes.take k, by simp; omega, (List.take_append_drop k bytes).symm, rfl⟩

/-- What a marker's size read accepts: at least the least size, and its own `k` bytes. -/
theorem readCanonical_eq_ok {k least n : Nat} {bytes rest : List UInt8}
    (hread : readCanonical k least bytes = .ok (n, rest)) :
    least ≤ n ∧ n < 256 ^ k ∧ bytes = leBytes k n ++ rest := by
  obtain ⟨⟨value, after⟩, hfirst, hrest⟩ := except_bind_eq_ok.mp hread
  obtain ⟨data, hlength, rfl, rfl⟩ := readLe_eq_ok hfirst
  simp only at hrest
  split_ifs at hrest with hleast
  · simp [throw, throwThe, MonadExceptOf.throw, bind, Except.bind] at hrest
  · simp only [pure, Except.pure, Except.ok.injEq, Prod.mk.injEq] at hrest
    obtain ⟨rfl, rfl⟩ := hrest
    refine ⟨by omega, hlength ▸ leValue_lt data, ?_⟩
    rw [← hlength, leBytes_leValue]

theorem readCanonical_leBytes {k least n : Nat} (hleast : least ≤ n) (hn : n < 256 ^ k)
    (rest : List UInt8) : readCanonical k least (leBytes k n ++ rest) = .ok (n, rest) := by
  simp [readCanonical, readLe_append (length_leBytes k n) rest, leValue_leBytes,
    Nat.mod_eq_of_lt hn, Nat.not_lt.mpr hleast, bind, Except.bind, pure, Except.pure]

theorem length_writeCompactSize (nSize : Nat) :
    (writeCompactSize nSize).length = getSizeOfCompactSize nSize := by
  unfold writeCompactSize getSizeOfCompactSize
  split_ifs <;> simp

/-- A marker byte read before the size after it. -/
theorem readLe_marker (marker : UInt8) (bytes : List UInt8) :
    readLe 1 (marker :: bytes) = .ok (marker.toNat, bytes) := by
  simpa [leValue] using readLe_append (rfl : [marker].length = 1) bytes

/-- A size up to `MAX_SIZE` reads back from its compact form, with the bytes after it
untouched. -/
theorem readCompactSize_writeCompactSize {nSize : Nat} (hsize : nSize ≤ maxSize)
    (rest : List UInt8) : readCompactSize (writeCompactSize nSize ++ rest) = .ok (nSize, rest) := by
  have hfits : ¬ maxSize < nSize := Nat.not_lt.mpr hsize
  unfold writeCompactSize
  split_ifs with hsmall hshort hmid
  · have hbyte : leBytes 1 nSize = [(nSize % 256).toUInt8] := rfl
    have hvalue : ((nSize % 256).toUInt8).toNat = nSize := by simp; omega
    simp [readCompactSize, readCompactSizeBody, hbyte, readLe_marker, hvalue, hsmall, hfits, pure,
      Except.pure, bind, Except.bind]
  · simp [readCompactSize, readCompactSizeBody, readLe_marker, readCanonical_leBytes (k := 2)
      (show 253 ≤ nSize by omega) (show nSize < 256 ^ 2 by norm_num; omega), hfits, pure, Except.pure, bind, Except.bind]
  · simp [readCompactSize, readCompactSizeBody, readLe_marker, readCanonical_leBytes (k := 4)
      (show 0x10000 ≤ nSize by omega) (show nSize < 256 ^ 4 by norm_num; omega), hfits, pure, Except.pure, bind, Except.bind]
  · simp only [maxSize] at hsize
    omega

/-- A size above `MAX_SIZE` that fits in eight bytes is written, and refused when read back. -/
theorem readCompactSize_writeCompactSize_large {nSize : Nat} (hlarge : maxSize < nSize) (hfits : nSize < 2 ^ 64)
    (rest : List UInt8) :
    readCompactSize (writeCompactSize nSize ++ rest) = .error "ReadCompactSize(): size too large" := by
  have hmax : maxSize = 0x02000000 := rfl
  unfold writeCompactSize
  split_ifs with hsmall hshort hmid
  · omega
  · omega
  · simp [readCompactSize, readCompactSizeBody, readLe_marker, readCanonical_leBytes (k := 4)
      (show 0x10000 ≤ nSize by omega) (show nSize < 256 ^ 4 by norm_num; omega), hlarge, throw, throwThe,
      MonadExceptOf.throw, bind, Except.bind]
  · simp [readCompactSize, readCompactSizeBody, readLe_marker, readCanonical_leBytes (k := 8)
      (show 0x100000000 ≤ nSize by omega) (show nSize < 256 ^ 8 by norm_num; omega), hlarge, throw, throwThe,
      MonadExceptOf.throw, bind, Except.bind]

/-- What a compact size read accepts is at most `MAX_SIZE` and is the compact form of what
it returns: non-canonical forms and larger sizes are refused. -/
theorem eq_writeCompactSize_of_readCompactSize {nSize : Nat} {bytes rest : List UInt8}
    (hread : readCompactSize bytes = .ok (nSize, rest)) :
    bytes = writeCompactSize nSize ++ rest ∧ nSize ≤ maxSize := by
  obtain ⟨⟨chSize, afterMarker⟩, hmarker, hbody⟩ := except_bind_eq_ok.mp hread
  obtain ⟨marker, hlength, rfl, rfl⟩ := readLe_eq_ok hmarker
  obtain ⟨c, rfl⟩ : ∃ c, marker = [c] := List.length_eq_one_iff.mp hlength
  obtain ⟨⟨value, after⟩, hvalue, hcheck⟩ := except_bind_eq_ok.mp hbody
  have hbyte : c.toNat < 256 := UInt8.toNat_lt c
  -- the size check passed
  simp only at hcheck
  split_ifs at hcheck with hlarge
  · simp [throw, throwThe, MonadExceptOf.throw, bind, Except.bind] at hcheck
  simp only [pure, Except.pure, Except.ok.injEq, Prod.mk.injEq] at hcheck
  obtain ⟨rfl, rfl⟩ := hcheck
  simp only [leValue, mul_zero, add_zero] at hvalue
  refine ⟨?_, Nat.not_lt.mp hlarge⟩
  -- the marker decides the width
  unfold readCompactSizeBody at hvalue
  split_ifs at hvalue with hsmall h253 h254
  · simp only [Except.ok.injEq, Prod.mk.injEq] at hvalue
    obtain ⟨rfl, rfl⟩ := hvalue
    have hbyte : leBytes 1 c.toNat = [c] := by
      simpa [leValue] using leBytes_leValue [c]
    rw [writeCompactSize, if_pos hsmall, hbyte]
  · obtain ⟨hleast, hlt, rfl⟩ := readCanonical_eq_ok hvalue
    have hc : c = 253 := UInt8.toNat_inj.mp (by simpa using h253)
    rw [writeCompactSize, if_neg (by omega), if_pos (by norm_num at hlt; omega), hc]
    rfl
  · obtain ⟨hleast, hlt, rfl⟩ := readCanonical_eq_ok hvalue
    have hc : c = 254 := UInt8.toNat_inj.mp (by simpa using h254)
    rw [writeCompactSize, if_neg (by omega), if_neg (by omega), if_pos (by norm_num at hlt; omega),
      hc]
    rfl
  · obtain ⟨hleast, -, -⟩ := readCanonical_eq_ok hvalue
    simp only [maxSize] at hlarge
    omega

/-- `CompactSize` is a canonical codec: every size up to `MAX_SIZE` reads back from its
`GetSizeOfCompactSize` bytes, and every accepted encoding is the one `WriteCompactSize`
writes. -/
theorem compactSize_canonical :
    (∀ nSize, nSize ≤ maxSize → ∀ rest,
      readCompactSize (writeCompactSize nSize ++ rest) = .ok (nSize, rest) ∧
        (writeCompactSize nSize).length = getSizeOfCompactSize nSize) ∧
    ∀ bytes nSize rest, readCompactSize bytes = .ok (nSize, rest) →
      bytes = writeCompactSize nSize ++ rest ∧ nSize ≤ maxSize :=
  ⟨fun _ hsize rest => ⟨readCompactSize_writeCompactSize hsize rest, length_writeCompactSize _⟩,
    fun _ _ _ hread => eq_writeCompactSize_of_readCompactSize hread⟩

end UnitedBitcoin.Serialize
