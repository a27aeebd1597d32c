import Mathlib
import UnitedBitcoin.Library.EStateRules
import UnitedBitcoin.Primitives.Base58

/-!
# The contract package reader

`ContractHelper::load_contract_from_gpc_data` (`contract_engine/contract_helper.cpp`)
reads the package of an `OP_CREATE` output from the bytes of the script. The package is a
SHA-1 digest of five big-endian words, the length-prefixed bytecode, and then three name
lists (APIs, offline APIs, events) and the storage properties, each a count followed by
length-prefixed names. Every read goes through `gpcread`, which copies whole elements
only, never past the end and never into a null buffer. A package whose digest is not the
SHA-1 of its bytecode is refused.

Each name is read into a `malloc(len + 1)` buffer before the length is compared with the
bytes left. The length is a signed `int` taken from the package. A length of `INT_MAX`
makes `len + 1` overflow, and a length just below asks `malloc` for about 2 GiB whatever
the size of the package (`loadContractFromGpcData_overflows`).

A contract address is `CON` and the fcrypto base58 of a 20-byte digest followed by the first
four bytes of its SHA-256. `is_valid_contract_address_format` decodes what follows the first
three characters and compares the last four bytes with the SHA-256 of the first twenty; it
never looks at the three characters, nor at the bytes between the twenty and the four
(`isValidContractAddressFormat_accepts_other_forms`).

SHA-1, SHA-256 and RIPEMD-160 are taken as given. The model follows libstdc++, where `data()` of an empty vector
is null. `malloc` is taken to return a buffer, since when it returns null the read that
follows fails in the same way. The name sets and the storage map are kept as lists
without repeated names. `std::string` of a buffer stops at its first NUL.
-/

namespace UnitedBitcoin.Contract

open UnitedBitcoin.Library

/-- `INT_MAX`. -/
def intMax : Int := 2 ^ 31 - 1

/-- A 32-bit pattern read as an `int`, in two's complement. -/
def toInt32 (word : Nat) : Int := if word < 2 ^ 31 then word else (word : Int) - 2 ^ 32

/-- `GpcBuffer`: the package and the read position. -/
structure GpcBuffer where
  data : List UInt8
  pos : Nat

namespace GpcBuffer

/-- `GpcBuffer::eof`. -/
def eof (buffer : GpcBuffer) : Bool := buffer.data.length ≤ buffer.pos

/-- The bytes not read yet. -/
def unread (buffer : GpcBuffer) : List UInt8 := buffer.data.drop buffer.pos

end GpcBuffer

/-- How the reader stops without a `Code`. -/
inductive GpcStop where
  /-- `uvm::core::UvmException` with its message. -/
  | uvmException (what : String)
  /-- An `int` expression whose value does not fit in an `int`: undefined behaviour. -/
  | signedOverflow (expression : String)
  deriving DecidableEq, Repr

/-- The reader's state: the buffer, and the sizes it has asked `malloc` for. -/
structure GpcState where
  buffer : GpcBuffer
  allocations : List Nat

/-- A step of the reader. -/
abbrev GpcM := EStateM GpcStop GpcState

/-- The reader at the start of a package. -/
def GpcState.start (data : List UInt8) : GpcState := ⟨⟨data, 0⟩, []⟩

/-- `uvm::blockchain::Code` as the reader fills it: the name sets, the storage
properties with their type codes, the bytecode and the hex of its digest. -/
structure Code where
  abi : List (List UInt8)
  offlineAbi : List (List UInt8)
  events : List (List UInt8)
  storageProperties : List (List UInt8 × Int)
  code : List UInt8
  codeHash : String
  deriving DecidableEq, Repr

/-- A SHA-1 digest: five 32-bit words. -/
structure Sha1Digest where
  h0 : UInt32
  h1 : UInt32
  h2 : UInt32
  h3 : UInt32
  h4 : UInt32
  deriving DecidableEq, Repr

/-- The words of a digest, as numbers. -/
def Sha1Digest.words (digest : Sha1Digest) : List Nat :=
  [digest.h0.toNat, digest.h1.toNat, digest.h2.toNat, digest.h3.toNat, digest.h4.toNat]

/-! ## Reads -/

/-- Move the read position on. -/
def advance (n : Nat) : GpcM Unit :=
  modify fun state => { state with buffer := { state.buffer with pos := state.buffer.pos + n } }

/-- `malloc` of a size. -/
def malloc (size : Nat) : GpcM Unit :=
  modify fun state => { state with allocations := state.allocations ++ [size] }

/-- `gpcread` into a buffer, null or not: the number of whole elements it copies and
their bytes. It copies `count` elements when they are there, else as many as there are,
and nothing into a null buffer, at the end, or when not one element is left. -/
def gpcread (ptrIsNull : Bool) (elementSize count : Nat) : GpcM (Nat × List UInt8) := do
  let buffer := (← get).buffer
  let remaining := buffer.data.length - buffer.pos
  if ptrIsNull then return (0, [])
  if buffer.eof || decide (remaining < elementSize) then return (0, [])
  let copied := if elementSize * count ≤ remaining then count else remaining / elementSize
  advance (elementSize * copied)
  return (copied, buffer.unread.take (elementSize * copied))

/-- One `gpcread` of a byte. -/
def readByte : GpcM (Option UInt8) := do
  let (readCount, bytes) ← gpcread false 1 1
  if readCount ≠ 1 then return none
  return bytes.head?

/-- `ContractHelper::common_fread_int`: four bytes, the most significant first, as a
32-bit pattern, or nothing when a byte is missing. Under C++11 the shift `uc4 << 24` of a
byte from `0x80` on does not fit in an `int` either; the model takes the pattern every
compiler gives. -/
def commonFreadInt : GpcM (Option Nat) := do
  let some uc4 ← readByte | return none
  let some uc3 ← readByte | return none
  let some uc2 ← readByte | return none
  let some uc1 ← readByte | return none
  return some (uc4.toNat * 2 ^ 24 + uc3.toNat * 2 ^ 16 + uc2.toNat * 2 ^ 8 + uc1.toNat)

/-- `ContractHelper::common_fread_octets`: one element of `len` bytes, `len` taken as a
`size_t`. -/
def commonFreadOctets (ptrIsNull : Bool) (len : Int) : GpcM (Nat × List UInt8) :=
  gpcread ptrIsNull (len % 2 ^ 64).toNat 1

/-- The bytes `std::string` keeps of a NUL-terminated buffer. -/
def cStringBytes (bytes : List UInt8) : List UInt8 := bytes.takeWhile (· ≠ 0)

/-- `std::set::insert` of a name. -/
def insertName (name : List UInt8) (names : List (List UInt8)) : List (List UInt8) :=
  if name ∈ names then names else names ++ [name]

/-! ## The name lists and the storage properties -/

section Names

variable (lenExpression lenFail readFail : String)

/-- A length and a name of `INIT_API_FROM_FILE` or `INIT_STORAGE_FROM_FILE`: the buffer
`malloc(len + 1)`, then the bytes. -/
def readName : GpcM (List UInt8) := do
  let some lenWord ← commonFreadInt | throw (.uvmException lenFail)
  let len := toInt32 lenWord
  if intMax < len + 1 then throw (.signedOverflow lenExpression)
  malloc ((len + 1) % 2 ^ 64).toNat
  let (readCount, bytes) ← commonFreadOctets false len
  if readCount ≠ 1 then throw (.uvmException readFail)
  return cStringBytes bytes

/-- The loop of `INIT_API_FROM_FILE` over the names left. -/
def readNames : Nat → List (List UInt8) → GpcM (List (List UInt8))
  | 0, names => return names
  | count + 1, names => do
    let name ← readName lenExpression lenFail readFail
    readNames count (insertName name names)

/-- `INIT_API_FROM_FILE`: a count and as many names. -/
def initApiFromFile (countFail : String) : GpcM (List (List UInt8)) := do
  let some countWord ← commonFreadInt | throw (.uvmException countFail)
  readNames lenExpression lenFail readFail (toInt32 countWord).toNat []

variable (typeFail : String)

/-- The loop of `INIT_STORAGE_FROM_FILE` over the properties left: a name and its type
code, kept unless the name is there already. -/
def readStorageProperties :
    Nat → List (List UInt8 × Int) → GpcM (List (List UInt8 × Int))
  | 0, properties => return properties
  | count + 1, properties => do
    let name ← readName lenExpression lenFail readFail
    let some typeWord ← commonFreadInt | throw (.uvmException typeFail)
    let properties := if properties.any (·.1 == name) then properties
      else properties ++ [(name, toInt32 typeWord)]
    readStorageProperties count properties

/-- `INIT_STORAGE_FROM_FILE`: a count and as many properties. -/
def initStorageFromFile (countFail : String) : GpcM (List (List UInt8 × Int)) := do
  let some countWord ← commonFreadInt | throw (.uvmException countFail)
  readStorageProperties lenExpression lenFail readFail typeFail (toInt32 countWord).toNat []

end Names

/-! ## The package -/

/-- The five words of the digest. -/
def readDigest : Nat → List Nat → GpcM (List Nat)
  | 0, words => return words
  | count + 1, words => do
    let some word ← commonFreadInt | throw (.uvmException "Read verify code fail!")
    readDigest count (words ++ [word])

/-- A lowercase hex digit, as `PRINTABLE_CHAR` makes it. -/
def hexDigit (nibble : Nat) : Char :=
  if nibble ≤ 9 then Char.ofNat (nibble + '0'.toNat) else Char.ofNat (nibble - 10 + 'a'.toNat)

/-- `ContractHelper::to_printable_hex`. -/
def toPrintableHex (byte : Nat) : String := String.ofList [hexDigit (byte / 16), hexDigit (byte % 16)]

/-- `code_hash`: the digest's words, each as its four bytes from the most significant. -/
def digestHex (digest : Sha1Digest) : String :=
  String.join (digest.words.map fun word =>
    toPrintableHex (word / 2 ^ 24) ++ toPrintableHex (word / 2 ^ 16 % 256) ++
      toPrintableHex (word / 2 ^ 8 % 256) ++ toPrintableHex (word % 256))

/-- The length-prefixed bytecode. The length must be non-negative and below the number
of bytes left after it; the bytes are read into `code.code.data()`, which is null when the
length is zero. -/
def readBytecode : GpcM (List UInt8) := do
  let some lenWord ← commonFreadInt | throw (.uvmException "Read bytescode len fail!")
  let len := toInt32 lenWord
  let buffer := (← get).buffer
  if len < 0 ∨ buffer.data.length - buffer.pos ≤ len.toNat then
    throw (.uvmException "Read bytescode len fail!")
  let (readCount, code) ← commonFreadOctets (decide (len = 0)) len
  if readCount ≠ 1 then throw (.uvmException "Read bytescode fail!")
  return code

/-- The name lists and the storage properties after the bytecode, and the `Code` they
complete. -/
def readInterface (code : List UInt8) (checkDigest : Sha1Digest) : GpcM Code := do
  let abi ← initApiFromFile "api_len + 1" "read_api_len_fail" "read_api_fail" "read_api_count_fail"
  let offlineAbi ← initApiFromFile "api_len + 1" "read_offline_api_len_fail" "read_offline_api_fail"
    "read_offline_api_count_fail"
  let events ← initApiFromFile "api_len + 1" "read_events_len_fail" "read_events_fail"
    "read_events_count_fail"
  let storageProperties ← initStorageFromFile "storage_name_len + 1" "read_storage_name_len_fail"
    "read_storage_name_fail" "read_storage_type_fail" "read_storage_count_fail"
  return ⟨abi, offlineAbi, events, storageProperties, code, digestHex checkDigest⟩

/-- `ContractHelper::load_contract_from_gpc_data`. -/
def loadContractFromGpcData (sha1 : List UInt8 → Sha1Digest) : GpcM Code := do
  let digest ← readDigest 5 []
  let code ← readBytecode
  let checkDigest := sha1 code
  if digest ≠ checkDigest.words then throw (.uvmException "Verify bytescode SHA1 fail!")
  readInterface code checkDigest

/-! ## Runs on encoded bytes

Each read is run on a buffer whose unread bytes begin with the encoding of a value, in
the prefix form of a step parser: the read returns the value and moves past exactly its
bytes. -/

/-- The four bytes of a 32-bit word, the most significant first. -/
def wordBytes (word : Nat) : List UInt8 :=
  [UInt8.ofNat (word / 2 ^ 24 % 256), UInt8.ofNat (word / 2 ^ 16 % 256),
    UInt8.ofNat (word / 2 ^ 8 % 256), UInt8.ofNat (word % 256)]

/-- The bytes of a digest as the package holds them. -/
def digestBytes (digest : Sha1Digest) : List UInt8 := digest.words.flatMap wordBytes

/-- The reader moved on by `n` bytes. -/
def GpcState.advanced (state : GpcState) (n : Nat) : GpcState :=
  { state with buffer := { state.buffer with pos := state.buffer.pos + n } }

section Runs

variable {state : GpcState} {rest : List UInt8}

@[simp]
theorem unread_advanced (n : Nat) :
    (state.advanced n).buffer.unread = state.buffer.unread.drop n := by
  simp [GpcState.advanced, GpcBuffer.unread, List.drop_drop, Nat.add_comm]

theorem unread_advanced_of_eq {bytes : List UInt8} (hunread : state.buffer.unread = bytes) (n : Nat) :
    (state.advanced n).buffer.unread = bytes.drop n := by
  rw [unread_advanced, hunread]

@[simp]
theorem advanced_advanced (m n : Nat) : (state.advanced m).advanced n = state.advanced (m + n) := by
  simp [GpcState.advanced, Nat.add_assoc]

@[simp]
theorem allocations_advanced (n : Nat) : (state.advanced n).allocations = state.allocations := rfl

@[simp]
theorem length_wordBytes (word : Nat) : (wordBytes word).length = 4 := rfl

@[simp]
theorem drop_wordBytes_append (word : Nat) (bytes : List UInt8) :
    (wordBytes word ++ bytes).drop 4 = bytes := rfl

@[simp]
theorem length_digestBytes (digest : Sha1Digest) : (digestBytes digest).length = 20 := rfl

theorem words_lt (digest : Sha1Digest) : ∀ word ∈ digest.words, word < 2 ^ 32 := by
  intro word hword
  simp only [Sha1Digest.words, List.mem_cons, List.not_mem_nil, or_false] at hword
  rcases hword with rfl | rfl | rfl | rfl | rfl <;> exact UInt32.toNat_lt _

/-- `gpcread` of one element that is there copies it. -/
theorem gpcread_of_unread {bytes : List UInt8} (hbytes : bytes ≠ [])
    (hunread : state.buffer.unread = bytes ++ rest) :
    gpcread false bytes.length 1 state = .ok (1, bytes) (state.advanced bytes.length) := by
  have hremaining : state.buffer.data.length - state.buffer.pos = bytes.length + rest.length := by
    simpa [GpcBuffer.unread] using congrArg List.length hunread
  have hpos : 0 < bytes.length := List.length_pos_of_ne_nil hbytes
  have hnotEof : state.buffer.eof = false := by
    simp only [GpcBuffer.eof, decide_eq_false_iff_not]
    omega
  simp [gpcread, estate_bind_apply, hremaining, hnotEof, advance, GpcState.advanced, hunread]

theorem malloc_apply (size : Nat) (state : GpcState) :
    malloc size state = .ok () ⟨state.buffer, state.allocations ++ [size]⟩ := rfl

/-- `gpcread` copies nothing when not one element is left. -/
theorem gpcread_of_short {ptrIsNull : Bool} {elementSize count : Nat}
    (hshort : state.buffer.data.length - state.buffer.pos < elementSize) :
    gpcread ptrIsNull elementSize count state = .ok (0, []) state := by
  cases ptrIsNull <;> simp [gpcread, estate_bind_apply, hshort]

theorem readByte_of_unread {byte : UInt8} (hunread : state.buffer.unread = byte :: rest) :
    readByte state = .ok (some byte) (state.advanced 1) := by
  have hread : gpcread false 1 1 state = .ok (1, [byte]) (state.advanced 1) :=
    gpcread_of_unread (List.cons_ne_nil byte []) (show state.buffer.unread = [byte] ++ rest from hunread)
  simp only [readByte, bind_apply_of_ok hread]
  rfl

/-- `common_fread_int` of four bytes that are there. -/
theorem commonFreadInt_of_bytes {b4 b3 b2 b1 : UInt8}
    (hunread : state.buffer.unread = b4 :: b3 :: b2 :: b1 :: rest) :
    commonFreadInt state =
      .ok (some (b4.toNat * 2 ^ 24 + b3.toNat * 2 ^ 16 + b2.toNat * 2 ^ 8 + b1.toNat))
        (state.advanced 4) := by
  have h3 : (state.advanced 1).buffer.unread = b3 :: b2 :: b1 :: rest := by simp [hunread]
  have h2 : ((state.advanced 1).advanced 1).buffer.unread = b2 :: b1 :: rest := by
    simp [hunread]
  have h1 : (((state.advanced 1).advanced 1).advanced 1).buffer.unread = b1 :: rest := by
    simp [hunread]
  -- one read per byte, each from the state the one before leaves
  rw [commonFreadInt, bind_apply_of_ok (readByte_of_unread hunread)]
  dsimp only
  rw [bind_apply_of_ok (readByte_of_unread h3)]
  dsimp only
  rw [bind_apply_of_ok (readByte_of_unread h2)]
  dsimp only
  rw [bind_apply_of_ok (readByte_of_unread h1)]
  simp only [advanced_advanced]
  rfl

theorem commonFreadInt_of_unread {word : Nat} (hword : word < 2 ^ 32)
    (hunread : state.buffer.unread = wordBytes word ++ rest) :
    commonFreadInt state = .ok (some word) (state.advanced 4) := by
  have hvalue : (UInt8.ofNat (word / 2 ^ 24 % 256)).toNat * 2 ^ 24 +
      (UInt8.ofNat (word / 2 ^ 16 % 256)).toNat * 2 ^ 16 +
      (UInt8.ofNat (word / 2 ^ 8 % 256)).toNat * 2 ^ 8 + (UInt8.ofNat (word % 256)).toNat = word := by
    simp
    omega
  rw [commonFreadInt_of_bytes hunread, hvalue]

@[simp]
theorem advanced_zero : state.advanced 0 = state := rfl

theorem readDigest_of_unread {words : List Nat} (hwords : ∀ word ∈ words, word < 2 ^ 32) :
    ∀ {state : GpcState} (acc : List Nat), state.buffer.unread = words.flatMap wordBytes ++ rest →
      readDigest words.length acc state = .ok (acc ++ words) (state.advanced (4 * words.length)) := by
  induction words with
  | nil =>
    intro state acc _
    simp [readDigest]
  | cons word words ih =>
    intro state acc hunread
    have hword : word < 2 ^ 32 := hwords word List.mem_cons_self
    have hnext : (state.advanced 4).buffer.unread = words.flatMap wordBytes ++ rest := by
      simp [hunread]
    have hrest := ih (fun w hw => hwords w (List.mem_cons_of_mem word hw)) (acc ++ [word]) hnext
    rw [List.length_cons, readDigest,
      bind_apply_of_ok (commonFreadInt_of_unread hword (by simpa using hunread))]
    simp only [hrest, advanced_advanced, List.append_assoc, List.singleton_append]
    congr 2
    omega

theorem readBytecode_of_unread {code : List UInt8} (hcode : code ≠ []) (hlen : code.length < 2 ^ 31)
    (hrest : rest ≠ []) (hunread : state.buffer.unread = wordBytes code.length ++ code ++ rest) :
    readBytecode state = .ok code (state.advanced (4 + code.length)) := by
  have hword : code.length < 2 ^ 32 := by omega
  have hint : toInt32 code.length = code.length := by
    rw [toInt32, if_pos hlen]
  have hafter : (state.advanced 4).buffer.unread = code ++ rest := by simp [hunread]
  have hremaining : (state.advanced 4).buffer.data.length - (state.advanced 4).buffer.pos =
      code.length + rest.length := by
    simpa [GpcBuffer.unread] using congrArg List.length hafter
  -- the length check passes because bytes follow the bytecode
  have hfits : ¬ (state.advanced 4).buffer.data.length ≤ code.length + (state.advanced 4).buffer.pos := by
    have := List.length_pos_of_ne_nil hrest
    omega
  have hread : commonFreadOctets (decide (code = [])) code.length (state.advanced 4) =
      .ok (1, code) (state.advanced (4 + code.length)) := by
    have hsize : ((code.length : Int) % 2 ^ 64).toNat = code.length := by omega
    rw [commonFreadOctets, decide_eq_false hcode, hsize]
    simpa using gpcread_of_unread hcode hafter
  have hnonneg : ¬ (code.length : Int) < 0 := by omega
  rw [readBytecode, bind_apply_of_ok (commonFreadInt_of_unread hword (by simpa using hunread))]
  simp [estate_bind_apply, hint, hnonneg, hfits, hread]

end Runs

section Names

variable {state : GpcState} {rest : List UInt8} (lenExpression lenFail readFail : String)

/-- A name length of `INT_MAX` overflows `len + 1` before anything is allocated. -/
theorem readName_of_intMax (hunread : state.buffer.unread = wordBytes (2 ^ 31 - 1) ++ rest) :
    readName lenExpression lenFail readFail state =
      .error (.signedOverflow lenExpression) (state.advanced 4) := by
  rw [readName, bind_apply_of_ok (commonFreadInt_of_unread (by norm_num) hunread)]
  simp [estate_bind_apply, toInt32, intMax]

/-- A name longer than the bytes after it is allocated in full before it is refused. -/
theorem readName_of_short {len : Nat} (hlen : len < 2 ^ 31 - 1) (hshort : rest.length < len)
    (hunread : state.buffer.unread = wordBytes len ++ rest) :
    readName lenExpression lenFail readFail state =
      .error (.uvmException readFail)
        ⟨(state.advanced 4).buffer, state.allocations ++ [len + 1]⟩ := by
  have hafter : (state.advanced 4).buffer.unread = rest := by simp [hunread]
  have hremaining : (state.advanced 4).buffer.data.length - (state.advanced 4).buffer.pos =
      rest.length := by
    simpa [GpcBuffer.unread] using congrArg List.length hafter
  have hint : toInt32 len = len := by
    rw [toInt32, if_pos (by omega)]
  have hfits : ¬ intMax < (len : Int) + 1 := by
    simp only [intMax]
    omega
  have hsize : ((len : Int) % 2 ^ 64).toNat = len := by omega
  have hallocated : (((len : Int) + 1) % 2 ^ 64).toNat = len + 1 := by omega
  -- the bytes left are fewer than one element, so the read copies nothing
  have hread : commonFreadOctets false len
      ⟨(state.advanced 4).buffer, (state.advanced 4).allocations ++ [len + 1]⟩ =
      .ok (0, []) ⟨(state.advanced 4).buffer, (state.advanced 4).allocations ++ [len + 1]⟩ := by
    rw [commonFreadOctets, hsize]
    exact gpcread_of_short (by simpa using hremaining ▸ hshort)
  rw [readName, bind_apply_of_ok (commonFreadInt_of_unread (by omega) hunread)]
  dsimp only
  rw [hint, if_neg hfits, bind_apply_of_ok (malloc_apply _ _)]
  simp only [hallocated]
  rw [bind_apply_of_ok hread]
  rfl


/-- `INIT_API_FROM_FILE` with a positive count stops where its first name stops. -/
theorem initApiFromFile_of_first_name {stop : GpcStop} {stopped : GpcState}
    (countFail : String) (count : Nat) (hcount : 0 < count) (hlt : count < 2 ^ 31)
    (hunread : state.buffer.unread = wordBytes count ++ rest)
    (hname : readName lenExpression lenFail readFail (state.advanced 4) = .error stop stopped) :
    initApiFromFile lenExpression lenFail readFail countFail state = .error stop stopped := by
  obtain ⟨n, rfl⟩ : ∃ n, count = n + 1 := ⟨count - 1, by omega⟩
  have hloop : (toInt32 (n + 1)).toNat = n + 1 := by
    rw [toInt32, if_pos hlt]
    rfl
  rw [initApiFromFile, bind_apply_of_ok (commonFreadInt_of_unread (by omega) hunread)]
  dsimp only
  rw [hloop, readNames, bind_apply_of_error hname]

end Names

/-- The package stops where its API list stops. -/
theorem readInterface_of_abi {code : List UInt8} {checkDigest : Sha1Digest} {state : GpcState}
    {stop : GpcStop} {stopped : GpcState}
    (habi : initApiFromFile "api_len + 1" "read_api_len_fail" "read_api_fail" "read_api_count_fail"
      state = .error stop stopped) :
    readInterface code checkDigest state = .error stop stopped := by
  rw [readInterface, bind_apply_of_error habi]

/-- A package that starts with the digest of its bytecode and the length-prefixed bytecode
reads on into the name lists. -/
theorem loadContractFromGpcData_of_unread (sha1 : List UInt8 → Sha1Digest) {code : List UInt8}
    {state : GpcState} {rest : List UInt8} (hcode : code ≠ []) (hlen : code.length < 2 ^ 31)
    (hrest : rest ≠ [])
    (hunread : state.buffer.unread = digestBytes (sha1 code) ++ wordBytes code.length ++ code ++ rest) :
    loadContractFromGpcData sha1 state =
      readInterface code (sha1 code) (state.advanced (20 + (4 + code.length))) := by
  have hdigest : readDigest 5 [] state = .ok (sha1 code).words (state.advanced 20) :=
    readDigest_of_unread (words_lt (sha1 code)) [] (by simpa [digestBytes] using hunread)
  have hbytecode : readBytecode (state.advanced 20) = .ok code ((state.advanced 20).advanced (4 + code.length)) := by
    apply readBytecode_of_unread hcode hlen hrest
    simp only [unread_advanced, hunread, List.append_assoc]
    exact List.drop_left' (length_digestBytes _)
  rw [loadContractFromGpcData, bind_apply_of_ok hdigest]
  dsimp only
  rw [bind_apply_of_ok hbytecode]
  simp

/-- A package of one byte of bytecode whose first API name announces `INT_MAX` bytes. -/
def intMaxNamePackage (sha1 : List UInt8 → Sha1Digest) : List UInt8 :=
  digestBytes (sha1 [7]) ++ wordBytes 1 ++ [7] ++ wordBytes 1 ++ wordBytes (2 ^ 31 - 1)

/-- A package of one byte of bytecode whose first API name announces `INT_MAX - 1` bytes. -/
def longNamePackage (sha1 : List UInt8 → Sha1Digest) : List UInt8 :=
  digestBytes (sha1 [7]) ++ wordBytes 1 ++ [7] ++ wordBytes 1 ++ wordBytes (2 ^ 31 - 2)

/-- Whatever SHA-1 computes, a package whose first API name has length `INT_MAX` makes
`api_len + 1` overflow, and a package of 33 bytes makes the reader ask `malloc` for
`2^31 - 1` bytes before it finds that the name is not there. -/
theorem loadContractFromGpcData_overflows (sha1 : List UInt8 → Sha1Digest) :
    (∃ stopped, loadContractFromGpcData sha1 (.start (intMaxNamePackage sha1)) =
      .error (.signedOverflow "api_len + 1") stopped) ∧
    (longNamePackage sha1).length = 33 ∧
    ∃ stopped, loadContractFromGpcData sha1 (.start (longNamePackage sha1)) =
      .error (.uvmException "read_api_fail") stopped ∧ stopped.allocations = [2 ^ 31 - 1] := by
  -- both packages are the digest, one byte of bytecode, and then their names
  have hstart : ∀ names : List UInt8,
      (GpcState.start (digestBytes (sha1 [7]) ++ wordBytes 1 ++ [7] ++ names)).buffer.unread =
        digestBytes (sha1 [7]) ++ wordBytes [7].length ++ [7] ++ names := fun _ => rfl
  have hnames : ∀ names : List UInt8,
      ((GpcState.start (digestBytes (sha1 [7]) ++ wordBytes 1 ++ [7] ++ names)).advanced
        (20 + (4 + [7].length))).buffer.unread = names := by
    intro names
    rw [unread_advanced, hstart]
    exact List.drop_left' (by simp)
  have hnonempty : ∀ names : List UInt8, wordBytes 1 ++ names ≠ [] := by simp [wordBytes]
  refine ⟨?_, by simp [longNamePackage], ?_⟩
  · have hpackage : intMaxNamePackage sha1 =
        digestBytes (sha1 [7]) ++ wordBytes 1 ++ [7] ++ (wordBytes 1 ++ wordBytes (2 ^ 31 - 1)) := by
      simp [intMaxNamePackage]
    rw [hpackage, loadContractFromGpcData_of_unread sha1 (by simp) (by norm_num) (hnonempty _)
      (hstart _)]
    exact ⟨_, readInterface_of_abi (initApiFromFile_of_first_name _ _ _ _ 1 (by norm_num)
      (by norm_num) (hnames _) (readName_of_intMax _ _ _
      (show _ = wordBytes (2 ^ 31 - 1) ++ [] from unread_advanced_of_eq (hnames _) 4)))⟩
  · have hpackage : longNamePackage sha1 =
        digestBytes (sha1 [7]) ++ wordBytes 1 ++ [7] ++ (wordBytes 1 ++ wordBytes (2 ^ 31 - 2)) := by
      simp [longNamePackage]
    rw [hpackage, loadContractFromGpcData_of_unread sha1 (by simp) (by norm_num) (hnonempty _)
      (hstart _)]
    exact ⟨_, readInterface_of_abi (initApiFromFile_of_first_name _ _ _ _ 1 (by norm_num)
      (by norm_num) (hnames _) (readName_of_short _ _ _ (by norm_num) (by norm_num)
        (show _ = wordBytes (2 ^ 31 - 2) ++ [] from unread_advanced_of_eq (hnames _) 4))), rfl⟩

/-! ## Contract addresses -/

/-- `CONTRACT_ID_MAX_LENGTH` (`uvm_api.h`). -/
def contractIdMaxLength : Nat := 50

/-- The first characters of every contract address. -/
def addressTag : List Char := ['C', 'O', 'N']

/-- A digest of `n` bytes. -/
structure Digest (n : Nat) where
  bytes : List UInt8
  length_bytes : bytes.length = n

/-- `ContractHelper::generate_contract_address`, given the bytes `fjson::raw::pack` makes of the
`ContractCreateDigestInfo`. -/
def generateContractAddress (sha256 : List UInt8 → Digest 32) (ripemd160 : List UInt8 → Digest 20)
    (packedInfo : List UInt8) : List Char :=
  let aResult := ripemd160 (sha256 packedInfo).bytes
  let b := sha256 aResult.bytes
  addressTag ++ Base58.Fcrypto.toBase58 (aResult.bytes ++ b.bytes.take 4)

/-- `ContractHelper::is_valid_contract_address_format`. An `.error` is the exception of
`FJSON_ASSERT` in `from_base58`, which the `catch` of `parse_error_exception` lets through.
`heap` is the memory after the bytes of `a`, which `memcpy(&a_array, a.data(), 20)` reads when
`a` is shorter than 20 bytes. -/
def isValidContractAddressFormat (sha256 : List UInt8 → Digest 32) (heap : List UInt8) (address : List Char) :
    Except Base58.Fcrypto.FromBase58Error Bool :=
  if address.isEmpty || decide (contractIdMaxLength < address.length) then .ok false
  else if address.length < addressTag.length then .ok false
  else
    match Base58.Fcrypto.fromBase58 (address.drop addressTag.length) 100 with
    | .error .parseError => .ok false
    | .error .assertFailed => .error .assertFailed
    | .ok c =>
      if 100 < c.length ∨ c.length ≤ 4 + addressTag.length then .ok false
      else if c.length ≤ 4 then .ok false
      else
        let a := c.take (c.length - 4)
        let first4OfB := c.drop a.length
        let b := sha256 ((a ++ heap).take 20)
        if b.bytes.length < 4 then .ok false
        else .ok (b.bytes.take 4 == first4OfB)

/-- On three characters and the encoding of 8 to 33 bytes, the validator compares the last
four bytes with the SHA-256 of the first twenty. -/
theorem isValidContractAddressFormat_toBase58 (sha256 : List UInt8 → Digest 32) (heap : List UInt8)
    (first second third : Char) {c : List UInt8} (hlong : 8 ≤ c.length) (hshort : c.length ≤ 33) :
    isValidContractAddressFormat sha256 heap ([first, second, third] ++ Base58.Fcrypto.toBase58 c) =
      .ok ((sha256 ((c.take (c.length - 4) ++ heap).take 20)).bytes.take 4 == c.drop (c.length - 4)) := by
  have hencoded := Base58.Fcrypto.length_toBase58_le c
  have htag : addressTag.length = 3 := rfl
  have hlength : ([first, second, third] ++ Base58.Fcrypto.toBase58 c).length ≤ contractIdMaxLength := by
    rw [List.length_append, contractIdMaxLength]
    simp only [List.length_cons, List.length_nil]
    omega
  have hdecoded : Base58.Fcrypto.fromBase58 (([first, second, third] ++ Base58.Fcrypto.toBase58 c).drop 3) 100 =
      .ok c :=
    Base58.Fcrypto.fromBase58_toBase58 (by omega)
  have hdigest := (sha256 ((c.take (c.length - 4) ++ heap).take 20)).length_bytes
  have hvalid : (([first, second, third] ++ Base58.Fcrypto.toBase58 c).isEmpty ||
      decide (contractIdMaxLength < ([first, second, third] ++ Base58.Fcrypto.toBase58 c).length)) = false := by
    rw [Bool.or_eq_false_iff]
    exact ⟨rfl, decide_eq_false (Nat.not_lt.mpr hlength)⟩
  have hthree : ¬([first, second, third] ++ Base58.Fcrypto.toBase58 c).length < 3 := by simp
  have hsize : ¬(100 < c.length ∨ c.length ≤ 4 + 3) := by omega
  have hcheck : ¬c.length ≤ 4 := by omega
  have hhash : ¬(sha256 ((c.take (c.length - 4) ++ heap).take 20)).bytes.length < 4 := by omega
  simp only [isValidContractAddressFormat, htag, hdecoded, List.length_take, hvalid, hthree, Bool.false_eq_true,
    ↓reduceIte]
  rw [if_neg hsize, if_neg hcheck, Nat.min_eq_left (by omega), if_neg hhash]

/-- The validator accepts every generated address. It also accepts any three characters in
place of `CON`, and up to nine bytes between the digest and its check: such a string has the
form of a generated address only when the characters are `CON` and there are no bytes between. -/
theorem isValidContractAddressFormat_accepts_other_forms (sha256 : List UInt8 → Digest 32)
    (ripemd160 : List UInt8 → Digest 20) (heap : List UInt8) (a : Digest 20) (first second third : Char)
    (between : List UInt8) (hbetween : between.length ≤ 9) :
    (∀ packedInfo, isValidContractAddressFormat sha256 heap (generateContractAddress sha256 ripemd160 packedInfo) =
      .ok true) ∧
    isValidContractAddressFormat sha256 heap
      ([first, second, third] ++ Base58.Fcrypto.toBase58 (a.bytes ++ between ++ (sha256 a.bytes).bytes.take 4)) =
        .ok true ∧
    ∀ a' : Digest 20,
      [first, second, third] ++ Base58.Fcrypto.toBase58 (a.bytes ++ between ++ (sha256 a.bytes).bytes.take 4) =
        addressTag ++ Base58.Fcrypto.toBase58 (a'.bytes ++ (sha256 a'.bytes).bytes.take 4) →
      [first, second, third] = addressTag ∧ between = [] := by
  -- a digest, the bytes between, and the first four bytes of the digest's hash pass the check
  have haccepts : ∀ (digest : Digest 20) (between : List UInt8) (first second third : Char), between.length ≤ 9 →
      isValidContractAddressFormat sha256 heap ([first, second, third] ++
        Base58.Fcrypto.toBase58 (digest.bytes ++ between ++ (sha256 digest.bytes).bytes.take 4)) = .ok true := by
    intro digest between first second third hbetween
    have hcheck : ((sha256 digest.bytes).bytes.take 4).length = 4 := by
      simp [(sha256 digest.bytes).length_bytes]
    have hdigest := digest.length_bytes
    have hlength : (digest.bytes ++ between ++ (sha256 digest.bytes).bytes.take 4).length =
        (digest.bytes ++ between).length + 4 := by
      rw [List.length_append, hcheck]
    have hkept : (digest.bytes ++ between).length = 20 + between.length := by
      rw [List.length_append, hdigest]
    rw [isValidContractAddressFormat_toBase58 sha256 heap first second third (by omega) (by omega), hlength,
      Nat.add_sub_cancel, List.take_left' rfl, List.drop_left' rfl, List.append_assoc, List.take_left' hdigest]
    exact congrArg Except.ok (beq_self_eq_true _)
  refine ⟨fun packedInfo => ?_, haccepts a between first second third hbetween, fun a' hform => ?_⟩
  · -- a generated address is the case of `CON` and no bytes between
    have hgenerated := haccepts (ripemd160 (sha256 packedInfo).bytes) [] 'C' 'O' 'N' (Nat.zero_le 9)
    rw [List.append_nil] at hgenerated
    exact hgenerated
  obtain ⟨htag, hencoded⟩ := List.append_inj hform rfl
  have hbytes := congrArg List.length (Base58.Fcrypto.toBase58_injective hencoded)
  simp only [List.length_append, List.length_take, (sha256 a.bytes).length_bytes, (sha256 a'.bytes).length_bytes,
    a.length_bytes, a'.length_bytes] at hbytes
  exact ⟨htag, List.eq_nil_of_length_eq_zero (by omega)⟩

theorem isValidContractAddressFormat_accepts_xyz :
    [(0 : UInt8)].length ≤ 9 ∧
    isValidContractAddressFormat (fun _ => ⟨List.replicate 32 0, List.length_replicate⟩) []
      (['X', 'Y', 'Z'] ++ Base58.Fcrypto.toBase58 (List.replicate 20 7 ++ [0] ++ (List.replicate 32 0).take 4)) =
        .ok true :=
  ⟨by decide, (isValidContractAddressFormat_accepts_other_forms (fun _ => ⟨List.replicate 32 0, List.length_replicate⟩)
    (fun _ => ⟨List.replicate 20 0, List.length_replicate⟩) [] ⟨List.replicate 20 7, List.length_replicate⟩
    'X' 'Y' 'Z' [0] (by decide)).2.1⟩

end UnitedBitcoin.Contract
