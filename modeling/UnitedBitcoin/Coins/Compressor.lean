import UnitedBitcoin.Primitives.Transaction
import UnitedBitcoin.Primitives.Serialize

/-!
# The compressed transaction-output format

`compressor.h` and `compressor.cpp`: the form in which the coins database stores a
`CTxOut`. The amount is written as the `VARINT` of `CompressAmount`, a
mixed-radix code of the number of trailing decimal zeros (at most nine), the
last non-zero digit and the digits above it. The script is written as one of six
special forms (pay-to-pubkey-hash, pay-to-script-hash, and pay-to-pubkey with a
compressed or an uncompressed key) or as its raw bytes behind a `VARINT` length
offset by `nSpecialScripts`.

The amount code is first stated over unbounded naturals (`amountCode`,
`amountOfCode`), where its two directions are inverse bijections of `ℕ`. The
`uint64_t` functions of the source are that code taken modulo `2 ^ 64`. They are
exact on every amount up to `MAX_MONEY` in the compressing direction, but
`DecompressAmount` wraps in its loop of multiplications by ten, and a wrapped
value can be small: `decompressAmount_wraps` exhibits a code whose decompressed
value is at most `MAX_MONEY` and compresses to a different code.

Point decompression on secp256k1 is not modelled; `PubKeyOps` carries
`CPubKey::IsFullyValid` and `CPubKey::Decompress` as parameters, and the round
trip assumes that decompression inverts compression on fully valid keys.
-/

namespace UnitedBitcoin.Coins

open UnitedBitcoin.Serialize

/-- `COIN`. -/
def coin : Int := 100000000

/-- `MAX_MONEY`. -/
def maxMoney : Int := 21000000 * coin

/-! ## The amount code over unbounded naturals -/

/-- The loop of `CompressAmount`, `while (n % 10 == 0 && e < 9) { n /= 10; e++; }`,
with `budget` the iterations left: the number with its trailing zeros divided
out, and how many were. -/
def divideOutTens : (budget : Nat) → (n : Nat) → Nat × Nat
  | 0, n => (n, 0)
  | budget + 1, n =>
    if n % 10 = 0 then
      let (m, e) := divideOutTens budget (n / 10)
      (m, e + 1)
    else (n, 0)

/-- The code `CompressAmount` computes, without the wrap of `uint64_t`:
`1 + 10 * (9 * n + d - 1) + e` for a last non-zero digit `d` under `e < 9`
trailing zeros, and `1 + 10 * (n - 1) + 9` once nine zeros are divided out. -/
def amountCode (n : Nat) : Nat :=
  if n = 0 then 0
  else
    let (n, e) := divideOutTens 9 n
    if e < 9 then 1 + (n / 10 * 9 + n % 10 - 1) * 10 + e
    else 1 + (n - 1) * 10 + 9

/-- The amount a code stands for, as the comment above `DecompressAmount` reads it. -/
def amountOfCode (x : Nat) : Nat :=
  if x = 0 then 0
  else
    let e := (x - 1) % 10
    let x := (x - 1) / 10
    (if e < 9 then x / 9 * 10 + (x % 9 + 1) else x + 1) * 10 ^ e

theorem divideOutTens_mul_pow (budget n : Nat) :
    (divideOutTens budget n).1 * 10 ^ (divideOutTens budget n).2 = n := by
  induction budget generalizing n with
  | zero => simp [divideOutTens]
  | succ budget ih =>
    by_cases hzero : n % 10 = 0
    · -- one zero divided out, the rest by the loop
      have hrest := ih (n / 10)
      simp only [divideOutTens, if_pos hzero, pow_succ]
      calc (divideOutTens budget (n / 10)).1 * (10 ^ (divideOutTens budget (n / 10)).2 * 10)
          = n / 10 * 10 := by rw [← mul_assoc, hrest]
        _ = n := by omega
    · simp [divideOutTens, hzero]

theorem divideOutTens_le (budget n : Nat) : (divideOutTens budget n).2 ≤ budget := by
  induction budget generalizing n with
  | zero => simp [divideOutTens]
  | succ budget ih =>
    by_cases hzero : n % 10 = 0
    · simpa [divideOutTens, hzero] using ih (n / 10)
    · simp [divideOutTens, hzero]

/-- The loop stops early only at a non-zero last digit. -/
theorem divideOutTens_mod_ne_zero (budget n : Nat) (hstop : (divideOutTens budget n).2 < budget) :
    (divideOutTens budget n).1 % 10 ≠ 0 := by
  induction budget generalizing n with
  | zero => simp at hstop
  | succ budget ih =>
    by_cases hzero : n % 10 = 0
    · simp only [divideOutTens, if_pos hzero] at hstop ⊢
      exact ih (n / 10) (by omega)
    · simp [divideOutTens, hzero]

/-- The loop divides out exactly the zeros that were multiplied in, as long as
the number left ends in a non-zero digit or the budget is spent. -/
theorem divideOutTens_of_mul_pow {budget e m : Nat} (he : e ≤ budget)
    (hm : e < budget → m % 10 ≠ 0) : divideOutTens budget (m * 10 ^ e) = (m, e) := by
  induction budget generalizing e with
  | zero =>
    obtain rfl : e = 0 := by omega
    simp [divideOutTens]
  | succ budget ih =>
    cases e with
    | zero => simp [divideOutTens, hm (by omega)]
    | succ e =>
      have hzero : m * 10 ^ (e + 1) % 10 = 0 := by
        rw [pow_succ, ← mul_assoc, Nat.mul_mod_left]
      have hdiv : m * 10 ^ (e + 1) / 10 = m * 10 ^ e := by
        rw [pow_succ, ← mul_assoc, Nat.mul_div_cancel _ (by decide)]
      have hrest : divideOutTens budget (m * 10 ^ e) = (m, e) := ih (by omega) (fun h => hm (by omega))
      simp only [divideOutTens, if_pos hzero, hdiv, hrest]

theorem amountOfCode_succ (y : Nat) :
    amountOfCode (y + 1) =
      (if y % 10 < 9 then y / 10 / 9 * 10 + (y / 10 % 9 + 1) else y / 10 + 1) * 10 ^ (y % 10) := by
  simp [amountOfCode]

/-- Decoding undoes the code. -/
theorem amountOfCode_amountCode (n : Nat) : amountOfCode (amountCode n) = n := by
  by_cases hzero : n = 0
  · simp [amountCode, amountOfCode, hzero]
  · have hsplit := divideOutTens_mul_pow 9 n
    have hle := divideOutTens_le 9 n
    generalize hcut : divideOutTens 9 n = cut at hsplit hle
    obtain ⟨m, e⟩ := cut
    have hm : m ≠ 0 := by
      rintro rfl
      simp at hsplit
      omega
    by_cases hearly : e < 9
    · -- the last digit `d = m % 10` is not zero, and the code recovers `m` from it
      have hdigit : m % 10 ≠ 0 := by
        simpa [hcut] using divideOutTens_mod_ne_zero 9 n (by simpa [hcut] using hearly)
      have hcode : amountCode n = ((m / 10 * 9 + m % 10 - 1) * 10 + e) + 1 := by
        simp [amountCode, hzero, hcut, hearly]
        omega
      have he : ((m / 10 * 9 + m % 10 - 1) * 10 + e) % 10 = e := by omega
      have hq : ((m / 10 * 9 + m % 10 - 1) * 10 + e) / 10 = m / 10 * 9 + m % 10 - 1 := by omega
      have hrecover : (m / 10 * 9 + m % 10 - 1) / 9 * 10 + ((m / 10 * 9 + m % 10 - 1) % 9 + 1) = m := by
        omega
      rw [hcode, amountOfCode_succ, he, hq, if_pos hearly, hrecover, hsplit]
    · -- nine zeros were divided out, and the code holds `m - 1`
      obtain rfl : e = 9 := by omega
      have hcode : amountCode n = ((m - 1) * 10 + 9) + 1 := by
        simp [amountCode, hzero, hcut]
        omega
      have he : ((m - 1) * 10 + 9) % 10 = 9 := by omega
      have hq : ((m - 1) * 10 + 9) / 10 + 1 = m := by omega
      rw [hcode, amountOfCode_succ, he, if_neg (by decide), hq, hsplit]

/-- Coding undoes decoding: every natural number is the code of exactly one amount. -/
theorem amountCode_amountOfCode (x : Nat) : amountCode (amountOfCode x) = x := by
  cases x with
  | zero => simp [amountCode, amountOfCode]
  | succ y =>
    rw [amountOfCode_succ]
    by_cases hearly : y % 10 < 9
    · -- the amount is `m * 10 ^ e` whose last digit `y / 10 % 9 + 1` is not zero
      have hdigit : (y / 10 / 9 * 10 + (y / 10 % 9 + 1)) % 10 ≠ 0 := by omega
      have hcut := divideOutTens_of_mul_pow (show y % 10 ≤ 9 by omega) (fun _ => hdigit)
      have hpos : (y / 10 / 9 * 10 + (y / 10 % 9 + 1)) * 10 ^ (y % 10) ≠ 0 :=
        Nat.mul_ne_zero (by omega) (by positivity)
      simp only [amountCode, if_pos hearly, if_neg hpos, hcut]
      omega
    · -- nine zeros: the amount is `(y / 10 + 1) * 10 ^ 9`
      have he : y % 10 = 9 := by omega
      have hcut := divideOutTens_of_mul_pow (show y % 10 ≤ 9 by omega)
        (m := y / 10 + 1) (fun h => absurd h (by omega))
      have hpos : (y / 10 + 1) * 10 ^ (y % 10) ≠ 0 := Nat.mul_ne_zero (by omega) (by positivity)
      simp only [amountCode, if_neg hearly, if_neg hpos, hcut]
      omega

/-- The code of an amount is at most ten times the amount. -/
theorem amountCode_le (n : Nat) : amountCode n ≤ 10 * n := by
  by_cases hzero : n = 0
  · simp [amountCode, hzero]
  · have hsplit := divideOutTens_mul_pow 9 n
    generalize hcut : divideOutTens 9 n = cut at hsplit
    obtain ⟨m, e⟩ := cut
    have hm : m ≤ n := by
      rw [← hsplit]
      exact Nat.le_mul_of_pos_right m (by positivity)
    by_cases hearly : e < 9
    · have hcode : amountCode n = 1 + (m / 10 * 9 + m % 10 - 1) * 10 + e := by
        simp [amountCode, hzero, hcut, hearly]
      omega
    · have hcode : amountCode n = 1 + (m - 1) * 10 + 9 := by
        simp [amountCode, hzero, hcut, hearly]
      omega

/-! ## `CompressAmount` and `DecompressAmount` in `uint64_t` -/

/-- `CTxOutCompressor::CompressAmount`. Its arithmetic is in `uint64_t`; the wrap is
taken once at the end, which is the same modulo `2 ^ 64`. -/
def compressAmount (n : Nat) : Nat :=
  if n = 0 then 0
  else
    let (n, e) := divideOutTens 9 n
    if e < 9 then
      let d := n % 10
      let n := n / 10
      (1 + (n * 9 + d - 1) * 10 + e) % 2 ^ 64
    else (1 + (n - 1) * 10 + 9) % 2 ^ 64

/-- The loop `while (e) { n *= 10; e--; }` of `DecompressAmount`, each product in
`uint64_t`. -/
def timesTen : (e : Nat) → (n : Nat) → Nat
  | 0, n => n
  | e + 1, n => timesTen e (n * 10 % 2 ^ 64)

/-- `CTxOutCompressor::DecompressAmount`, for a `uint64_t` argument. -/
def decompressAmount (x : Nat) : Nat :=
  if x = 0 then 0
  else
    let x := x - 1
    let e := x % 10
    let x := x / 10
    let n :=
      if e < 9 then
        let d := x % 9 + 1
        let x := x / 9
        x * 10 + d
      else x + 1
    timesTen e n

theorem compressAmount_eq (n : Nat) : compressAmount n = amountCode n % 2 ^ 64 := by
  unfold compressAmount amountCode
  split
  · rfl
  · obtain ⟨m, e⟩ := divideOutTens 9 n
    dsimp only
    split <;> rfl

theorem timesTen_eq {n : Nat} (hn : n < 2 ^ 64) (e : Nat) : timesTen e n = n * 10 ^ e % 2 ^ 64 := by
  induction e generalizing n with
  | zero => rw [timesTen, pow_zero, mul_one, Nat.mod_eq_of_lt hn]
  | succ e ih =>
    rw [timesTen, ih (Nat.mod_lt _ (by decide)), Nat.mod_mul_mod, mul_assoc, ← pow_succ']

/-- `DecompressAmount` is the decoding taken modulo `2 ^ 64`. -/
theorem decompressAmount_eq {x : Nat} (hx : x < 2 ^ 64) :
    decompressAmount x = amountOfCode x % 2 ^ 64 := by
  cases x with
  | zero => rfl
  | succ y =>
    rw [amountOfCode_succ]
    simp only [decompressAmount, Nat.add_one_ne_zero, if_false, Nat.add_sub_cancel]
    apply timesTen_eq
    split <;> omega

/-- Every amount up to `MAX_MONEY` compresses without a wrap and decompresses to itself. -/
theorem decompressAmount_compressAmount {n : Nat} (hn : (n : Int) ≤ maxMoney) :
    decompressAmount (compressAmount n) = n := by
  have hbound : amountCode n < 2 ^ 64 := by
    have := amountCode_le n
    simp only [maxMoney, coin] at hn
    omega
  rw [compressAmount_eq, Nat.mod_eq_of_lt hbound, decompressAmount_eq hbound,
    amountOfCode_amountCode, Nat.mod_eq_of_lt (by simp only [maxMoney, coin] at hn; omega)]

/-- A code whose amount, computed without a wrap, is at most `MAX_MONEY` decompresses
without a wrap and compresses back to itself. -/
theorem compressAmount_decompressAmount {x : Nat} (hx : x < 2 ^ 64)
    (hfit : (amountOfCode x : Int) ≤ maxMoney) : compressAmount (decompressAmount x) = x := by
  have hbound : amountOfCode x < 2 ^ 64 := by
    simp only [maxMoney, coin] at hfit
    omega
  rw [decompressAmount_eq hx, Nat.mod_eq_of_lt hbound, compressAmount_eq,
    amountCode_amountOfCode, Nat.mod_eq_of_lt hx]

/-- `DecompressAmount` wraps: the code `184467440740` stands for `18446744074 * 10 ^ 9`,
which exceeds `2 ^ 64`, and decompresses to `290448384`, an amount below `MAX_MONEY`
whose own code is `2614035451`. -/
theorem decompressAmount_wraps :
    decompressAmount 184467440740 = 290448384 ∧ (290448384 : Int) ≤ maxMoney ∧
      compressAmount 290448384 = 2614035451 := by
  decide

/-! ## Script compression -/

/-- `CScriptCompressor::nSpecialScripts`. -/
def nSpecialScripts : Nat := 6

/-- What the compressor asks of secp256k1 through `CPubKey`. -/
structure PubKeyOps where
  /-- `CPubKey::IsFullyValid` of an uncompressed key. -/
  isFullyValid : List UInt8 → Bool
  /-- `CPubKey::Decompress` of a compressed key: its uncompressed form, or `none`
  when the bytes name no point of the curve. -/
  decompress : List UInt8 → Option (List UInt8)

/-- The compressed form of an uncompressed key `04 x y`: `02 x` or `03 x` by the
parity of `y`, whose last byte is `pubkey[64]`. -/
def compressedPubKey (pubkey : List UInt8) : List UInt8 :=
  (if (pubkey.getD 64 0).toNat % 2 = 0 then 0x02 else 0x03) :: (pubkey.drop 1).take 32

/-- The assumption on secp256k1 that the round trip rests on: decompressing the
compressed form of a fully valid uncompressed key gives the key back. -/
def PubKeyOps.DecompressInvertsCompress (ops : PubKeyOps) : Prop :=
  ∀ pubkey : List UInt8, pubkey.length = 65 → pubkey[0]? = some 0x04 →
    ops.isFullyValid pubkey = true → ops.decompress (compressedPubKey pubkey) = some pubkey

/-- `CScriptCompressor::IsToKeyID`: a pay-to-pubkey-hash script, and the key hash
it copies out. -/
def isToKeyID (script : CScript) : Option (List UInt8) :=
  if script.length = 25 ∧ script[0]? = some opDup ∧ script[1]? = some opHash160 ∧
      script[2]? = some 20 ∧ script[23]? = some opEqualVerify ∧ script[24]? = some opCheckSig then
    some ((script.drop 3).take 20)
  else none

/-- `CScriptCompressor::IsToScriptID`: a pay-to-script-hash script, and its hash. -/
def isToScriptID (script : CScript) : Option (List UInt8) :=
  if script.length = 23 ∧ script[0]? = some opHash160 ∧ script[1]? = some 20 ∧
      script[22]? = some opEqual then
    some ((script.drop 2).take 20)
  else none

/-- `CScriptCompressor::IsToPubKey`: a pay-to-pubkey script with a compressed key,
or with an uncompressed key that is fully valid, and the key. -/
def isToPubKey (ops : PubKeyOps) (script : CScript) : Option (List UInt8) :=
  if script.length = 35 ∧ script[0]? = some 33 ∧ script[34]? = some opCheckSig ∧
      (script[1]? = some 0x02 ∨ script[1]? = some 0x03) then
    some ((script.drop 1).take 33)
  else if script.length = 67 ∧ script[0]? = some 65 ∧ script[66]? = some opCheckSig ∧
      script[1]? = some 0x04 then
    let pubkey := (script.drop 1).take 65
    -- an invalid uncompressed key could not be rebuilt from its compressed form
    if ops.isFullyValid pubkey then some pubkey else none
  else none

/-- `CScriptCompressor::Compress`: the special form of a script, if it has one. -/
def compress (ops : PubKeyOps) (script : CScript) : Option (List UInt8) :=
  match isToKeyID script with
  | some keyID => some (0x00 :: keyID)
  | none =>
    match isToScriptID script with
    | some scriptID => some (0x01 :: scriptID)
    | none =>
      match isToPubKey ops script with
      | none => none
      | some pubkey =>
        -- `out[1..32]` is the key's x coordinate; `out[0]` its prefix, or `4` plus
        -- the parity of y for an uncompressed key
        let x := (pubkey.drop 1).take 32
        if pubkey[0]? = some 0x02 ∨ pubkey[0]? = some 0x03 then some (pubkey.getD 0 0 :: x)
        else if pubkey[0]? = some 0x04 then some ((0x04 ||| (pubkey.getD 64 0 &&& 0x01)) :: x)
        else none

/-- `CScriptCompressor::GetSpecialSize`: the bytes that follow a special form's tag. -/
def getSpecialSize (nSize : Nat) : Nat :=
  if nSize = 0 ∨ nSize = 1 then 20
  else if nSize = 2 ∨ nSize = 3 ∨ nSize = 4 ∨ nSize = 5 then 32
  else 0

/-- `CScriptCompressor::Decompress`: the script of a special form, or `none` where
the source returns false and leaves the script as it was. -/
def decompress (ops : PubKeyOps) (nSize : Nat) (input : List UInt8) : Option CScript :=
  if nSize = 0 then some ([opDup, opHash160, 20] ++ input.take 20 ++ [opEqualVerify, opCheckSig])
  else if nSize = 1 then some ([opHash160, 20] ++ input.take 20 ++ [opEqual])
  else if nSize = 2 ∨ nSize = 3 then some ([33, nSize.toUInt8] ++ input.take 32 ++ [opCheckSig])
  else if nSize = 4 ∨ nSize = 5 then
    match ops.decompress ((nSize - 2).toUInt8 :: input.take 32) with
    | some pubkey => some ([65] ++ pubkey.take 65 ++ [opCheckSig])
    | none => none
  else none

/-- `CScriptCompressor::Serialize`: the special form, or the raw script behind the
`VARINT` of its size plus `nSpecialScripts` (an `unsigned int`). -/
def serializeScript (ops : PubKeyOps) (script : CScript) : List UInt8 :=
  match compress ops script with
  | some compr => compr
  | none => writeVarInt ((script.length + nSpecialScripts) % 2 ^ 32) ++ script

/-- `CScriptCompressor::Unserialize` into the script `script`. -/
def unserializeScript (ops : PubKeyOps) (script : CScript) (bytes : List UInt8) :
    Except String (CScript × List UInt8) := do
  let (nSize, bytes) ← readVarInt (2 ^ 32 - 1) bytes
  if nSize < nSpecialScripts then
    let (vch, bytes) ← read (getSpecialSize nSize) bytes
    pure ((decompress ops nSize vch).getD script, bytes)
  else
    let nSize := nSize - nSpecialScripts
    if maxScriptSize < nSize then
      -- an overly long script is replaced by a short invalid one
      let bytes ← ignore nSize bytes
      pure (script ++ [opReturn], bytes)
    else read nSize bytes

/-! ## The special forms -/

/-- A byte found at position `i` heads what is left after dropping `i` bytes. -/
theorem drop_eq_cons_of_getElem? {l : List UInt8} {i : Nat} {a : UInt8} (h : l[i]? = some a) :
    l.drop i = a :: l.drop (i + 1) := by
  obtain ⟨hi, rfl⟩ := List.getElem?_eq_some_iff.mp h
  exact List.drop_eq_getElem_cons hi

/-- The bytes from position `i` on are the `k` bytes there, then those from `i + k`. -/
theorem drop_eq_take_append_drop (l : List UInt8) (i k : Nat) :
    l.drop i = (l.drop i).take k ++ l.drop (i + k) :=
  calc l.drop i = (l.drop i).take k ++ (l.drop i).drop k := (List.take_append_drop k _).symm
    _ = (l.drop i).take k ++ l.drop (i + k) := by rw [List.drop_drop]

/-- What `IsToKeyID` accepts is `OP_DUP OP_HASH160 20 <hash> OP_EQUALVERIFY OP_CHECKSIG`. -/
theorem isToKeyID_eq_some {script hash : CScript} (h : isToKeyID script = some hash) :
    script = [opDup, opHash160, 20] ++ hash ++ [opEqualVerify, opCheckSig] ∧ hash.length = 20 := by
  unfold isToKeyID at h
  split at h
  · rename_i hform
    obtain ⟨hlen, h0, h1, h2, h23, h24⟩ := hform
    cases h
    have htail : script.drop 23 = [opEqualVerify, opCheckSig] := by
      rw [drop_eq_cons_of_getElem? h23, drop_eq_cons_of_getElem? h24,
        List.drop_eq_nil_of_le (by omega)]
    refine ⟨?_, by simp [hlen]⟩
    calc script = opDup :: opHash160 :: 20 :: script.drop 3 := by
          rw [← drop_eq_cons_of_getElem? h2, ← drop_eq_cons_of_getElem? h1,
            ← drop_eq_cons_of_getElem? h0, List.drop_zero]
      _ = opDup :: opHash160 :: 20 :: ((script.drop 3).take 20 ++ script.drop 23) := by
          rw [← drop_eq_take_append_drop]
      _ = _ := by simp [htail]
  · cases h

/-- What `IsToScriptID` accepts is `OP_HASH160 20 <hash> OP_EQUAL`. -/
theorem isToScriptID_eq_some {script hash : CScript} (h : isToScriptID script = some hash) :
    script = [opHash160, 20] ++ hash ++ [opEqual] ∧ hash.length = 20 := by
  unfold isToScriptID at h
  split at h
  · rename_i hform
    obtain ⟨hlen, h0, h1, h22⟩ := hform
    cases h
    have htail : script.drop 22 = [opEqual] := by
      rw [drop_eq_cons_of_getElem? h22, List.drop_eq_nil_of_le (by omega)]
    refine ⟨?_, by simp [hlen]⟩
    calc script = opHash160 :: 20 :: script.drop 2 := by
          rw [← drop_eq_cons_of_getElem? h1, ← drop_eq_cons_of_getElem? h0, List.drop_zero]
      _ = opHash160 :: 20 :: ((script.drop 2).take 20 ++ script.drop 22) := by
          rw [← drop_eq_take_append_drop]
      _ = _ := by simp [htail]
  · cases h

/-- A pay-to-pubkey script of `n + 2` bytes is the push of its `n`-byte key, then
`OP_CHECKSIG`. -/
theorem eq_push_checkSig {script : CScript} {n : Nat} {push : UInt8} (hlen : script.length = n + 2)
    (h0 : script[0]? = some push) (hlast : script[n + 1]? = some opCheckSig) :
    script = [push] ++ (script.drop 1).take n ++ [opCheckSig] := by
  have htail : script.drop (1 + n) = [opCheckSig] := by
    rw [Nat.add_comm, drop_eq_cons_of_getElem? hlast, List.drop_eq_nil_of_le (by omega)]
  calc script = push :: script.drop 1 := by
        rw [← drop_eq_cons_of_getElem? h0, List.drop_zero]
    _ = push :: ((script.drop 1).take n ++ script.drop (1 + n)) := by
        rw [← drop_eq_take_append_drop]
    _ = _ := by simp [htail]

/-- What `IsToPubKey` accepts: a compressed key pushed and checked, or a fully valid
uncompressed key pushed and checked. -/
theorem isToPubKey_eq_some {ops : PubKeyOps} {script pubkey : CScript}
    (h : isToPubKey ops script = some pubkey) :
    (script = [33] ++ pubkey ++ [opCheckSig] ∧ pubkey.length = 33 ∧
        (pubkey[0]? = some 0x02 ∨ pubkey[0]? = some 0x03)) ∨
      (script = [65] ++ pubkey ++ [opCheckSig] ∧ pubkey.length = 65 ∧
        pubkey[0]? = some 0x04 ∧ ops.isFullyValid pubkey = true) := by
  unfold isToPubKey at h
  split at h
  · -- the compressed key
    rename_i hform
    obtain ⟨hlen, h0, h34, hlead⟩ := hform
    cases h
    refine .inl ⟨eq_push_checkSig hlen h0 h34, by simp [hlen], by simpa using hlead⟩
  · split at h
    · -- the uncompressed key, kept only when it is fully valid
      rename_i _ hform
      obtain ⟨hlen, h0, h66, hlead⟩ := hform
      dsimp only at h
      split at h
      · rename_i hvalid
        cases h
        exact .inr ⟨eq_push_checkSig hlen h0 h66, by simp [hlen], by simpa using hlead, hvalid⟩
      · cases h
    · cases h

/-- The tag `Compress` writes for an uncompressed key, `0x04 | (y & 0x01)`, is four
plus the parity of `y`. -/
theorem uncompressedTag_toNat (b : UInt8) : (0x04 ||| (b &&& 0x01)).toNat = 4 + b.toNat % 2 := by
  simp only [UInt8.toNat_or, UInt8.toNat_and]
  have hbit : b.toNat &&& 1 = b.toNat % 2 := Nat.and_one_is_mod _
  have hparity : b.toNat % 2 < 2 := Nat.mod_lt _ (by decide)
  simp only [hbit, UInt8.reduceToNat]
  interval_cases (b.toNat % 2) <;> decide

/-- The tag written for a compressed key is the key's own first byte. -/
theorem compress_compressedKey {ops : PubKeyOps} {b : UInt8} {tail : List UInt8}
    (hb : b = 0x02 ∨ b = 0x03) (hlen : tail.length = 32) :
    decompress ops b.toNat tail = some ([33] ++ b :: tail ++ [opCheckSig]) := by
  rcases hb with rfl | rfl <;> simp [decompress, List.take_of_length_le hlen.le]

/-- The tag written for a fully valid uncompressed key rebuilds it. -/
theorem compress_uncompressedKey {ops : PubKeyOps} (hops : ops.DecompressInvertsCompress)
    {pubkey : List UInt8} (hlen : pubkey.length = 65) (hlead : pubkey[0]? = some 0x04)
    (hvalid : ops.isFullyValid pubkey = true) :
    decompress ops (4 + (pubkey.getD 64 0).toNat % 2) ((pubkey.drop 1).take 32) =
      some ([65] ++ pubkey ++ [opCheckSig]) := by
  -- the tag less two is the prefix of the compressed key, so `Decompress` gets exactly it
  have hkey : ((4 + (pubkey.getD 64 0).toNat % 2 - 2).toUInt8 :: ((pubkey.drop 1).take 32).take 32) =
      compressedPubKey pubkey := by
    unfold compressedPubKey
    congr 1
    · rcases Nat.mod_two_eq_zero_or_one (pubkey.getD 64 0).toNat with hp | hp <;> rw [hp] <;> rfl
    · simp
  have hcases : 4 + (pubkey.getD 64 0).toNat % 2 = 4 ∨ 4 + (pubkey.getD 64 0).toNat % 2 = 5 := by
    omega
  have hnot : ¬ (4 + (pubkey.getD 64 0).toNat % 2 = 0 ∨ 4 + (pubkey.getD 64 0).toNat % 2 = 1 ∨
      4 + (pubkey.getD 64 0).toNat % 2 = 2 ∨ 4 + (pubkey.getD 64 0).toNat % 2 = 3) := by
    omega
  unfold decompress
  rw [if_neg (by omega), if_neg (by omega), if_neg (by omega), if_pos hcases, hkey,
    hops pubkey hlen hlead hvalid]
  simp [List.take_of_length_le hlen.le]

/-- Every special form is a tag below `nSpecialScripts` followed by the bytes that
`GetSpecialSize` gives that tag, and `Decompress` rebuilds the script from them. -/
theorem compress_eq_some {ops : PubKeyOps} (hops : ops.DecompressInvertsCompress)
    {script compr : List UInt8} (h : compress ops script = some compr) :
    ∃ nSize body, compr = nSize.toUInt8 :: body ∧ nSize < nSpecialScripts ∧
      body.length = getSpecialSize nSize ∧ decompress ops nSize body = some script := by
  unfold compress at h
  split at h
  · -- pay-to-pubkey-hash
    rename_i keyID hkey
    cases h
    obtain ⟨rfl, hlen⟩ := isToKeyID_eq_some hkey
    exact ⟨0, keyID, rfl, by decide, by simp [hlen, getSpecialSize],
      by simp [decompress, List.take_of_length_le hlen.le]⟩
  · split at h
    · -- pay-to-script-hash
      rename_i scriptID hscript
      cases h
      obtain ⟨rfl, hlen⟩ := isToScriptID_eq_some hscript
      exact ⟨1, scriptID, rfl, by decide, by simp [hlen, getSpecialSize],
        by simp [decompress, List.take_of_length_le hlen.le]⟩
    · split at h
      · cases h
      · rename_i pubkey hpub
        dsimp only at h
        rcases isToPubKey_eq_some hpub with ⟨rfl, hlen, hlead⟩ | ⟨rfl, hlen, hlead, hvalid⟩
        · -- a compressed key is written as it is
          rw [if_pos hlead] at h
          cases h
          obtain ⟨b, tail, rfl⟩ := List.exists_cons_of_length_eq_add_one hlen
          have hb : b = 0x02 ∨ b = 0x03 := by simpa using hlead
          have htail : tail.length = 32 := by simpa using hlen
          refine ⟨b.toNat, tail, ?_, ?_, ?_, compress_compressedKey hb htail⟩
          · simp [List.take_of_length_le htail.le]
          · rcases hb with rfl | rfl <;> decide
          · rcases hb with rfl | rfl <;> simp [getSpecialSize, htail]
        · -- an uncompressed key is written as its x coordinate behind the parity of y
          have hnotCompressed : ¬ (pubkey[0]? = some 0x02 ∨ pubkey[0]? = some 0x03) := by
            rw [hlead]
            decide
          rw [if_neg hnotCompressed, if_pos hlead] at h
          cases h
          have htag : (0x04 ||| (pubkey.getD 64 0 &&& 0x01)) =
              (4 + (pubkey.getD 64 0).toNat % 2).toUInt8 := by
            apply UInt8.toNat_inj.mp
            rw [uncompressedTag_toNat]
            simp
            omega
          refine ⟨4 + (pubkey.getD 64 0).toNat % 2, (pubkey.drop 1).take 32, by rw [htag], ?_, ?_,
            compress_uncompressedKey hops hlen hlead hvalid⟩
          · simp only [nSpecialScripts]
            omega
          · have hsize : getSpecialSize (4 + (pubkey.getD 64 0).toNat % 2) = 32 := by
              unfold getSpecialSize
              rw [if_neg (by omega), if_pos (by omega)]
            rw [hsize, List.length_take, List.length_drop, hlen]
            rfl

/-! ## The round trip -/

/-- Every script up to `MAX_SCRIPT_SIZE` reads back from its compressed form,
whatever the script it is read into held before. -/
theorem unserializeScript_serializeScript {ops : PubKeyOps} (hops : ops.DecompressInvertsCompress)
    {script : CScript} (hsize : script.length ≤ maxScriptSize) (target rest : List UInt8) :
    unserializeScript ops target (serializeScript ops script ++ rest) = .ok (script, rest) := by
  unfold serializeScript
  split
  · -- a special form: its tag is a one-byte `VARINT` below `nSpecialScripts`
    rename_i compr hcompr
    obtain ⟨nSize, body, rfl, hlt, hlen, hdec⟩ := compress_eq_some hops hcompr
    have htag : nSize.toUInt8.toNat = nSize := by
      simp only [nSpecialScripts] at hlt
      simp
      omega
    have hvar : readVarInt (2 ^ 32 - 1) (nSize.toUInt8 :: (body ++ rest)) = .ok (nSize, body ++ rest) := by
      rw [readVarInt_of_lt (by rw [htag]; simp only [nSpecialScripts] at hlt; omega), htag]
    rw [unserializeScript, List.cons_append, hvar]
    simp only [bind, Except.bind, if_pos hlt, read_append hlen, hdec]
    rfl
  · -- the raw script behind its size plus `nSpecialScripts`
    have hfits : (script.length + nSpecialScripts) % 2 ^ 32 = script.length + nSpecialScripts := by
      simp only [nSpecialScripts, maxScriptSize] at hsize ⊢
      omega
    have hvar : readVarInt (2 ^ 32 - 1) (writeVarInt (script.length + nSpecialScripts) ++ (script ++ rest)) =
        .ok (script.length + nSpecialScripts, script ++ rest) := by
      apply readVarInt_writeVarInt
      simp only [nSpecialScripts, maxScriptSize] at hsize ⊢
      omega
    have hraw : ¬ script.length + nSpecialScripts < nSpecialScripts := by omega
    rw [unserializeScript, hfits, List.append_assoc, hvar]
    simp only [bind, Except.bind, if_neg hraw, Nat.add_sub_cancel, if_neg (Nat.not_lt.mpr hsize),
      read_append rfl]

/-! ## `CTxOutCompressor` -/

/-- `(uint64_t)` of a `CAmount`. -/
def toUInt64 (v : Int) : Nat := (v % 2 ^ 64).toNat

/-- `(CAmount)` of a `uint64_t`, in two's complement. -/
def toInt64 (v : Nat) : Int := if v < 2 ^ 63 then v else (v : Int) - 2 ^ 64

/-- `CTxOutCompressor::SerializationOp` writing `txout`. -/
def serializeTxOut (ops : PubKeyOps) (txout : CTxOut) : List UInt8 :=
  writeVarInt (compressAmount (toUInt64 txout.nValue)) ++ serializeScript ops txout.scriptPubKey

/-- `CTxOutCompressor::SerializationOp` reading into `txout`. -/
def unserializeTxOut (ops : PubKeyOps) (txout : CTxOut) (bytes : List UInt8) :
    Except String (CTxOut × List UInt8) := do
  let (nVal, bytes) ← readVarInt (2 ^ 64 - 1) bytes
  let (script, bytes) ← unserializeScript ops txout.scriptPubKey bytes
  pure (⟨toInt64 (decompressAmount nVal), script⟩, bytes)

/-- An amount in the money range goes through `uint64_t` and back unchanged. -/
theorem toInt64_decompressAmount_compressAmount {v : Int} (hlow : 0 ≤ v) (hhigh : v ≤ maxMoney) :
    toInt64 (decompressAmount (compressAmount (toUInt64 v))) = v := by
  have hbound : v < 2 ^ 63 := by
    simp only [maxMoney, coin] at hhigh
    omega
  have hcast : toUInt64 v = v.toNat := by
    rw [toUInt64, Int.emod_eq_of_lt hlow (by omega)]
  rw [hcast, decompressAmount_compressAmount (by omega)]
  simp only [toInt64]
  rw [if_pos (by omega)]
  omega

/-- Every output in the money range, with a script up to `MAX_SCRIPT_SIZE`, reads back
from its compressed form into any `CTxOut`, with the bytes after it untouched. -/
theorem unserializeTxOut_serializeTxOut {ops : PubKeyOps} (hops : ops.DecompressInvertsCompress)
    {txout : CTxOut} (hlow : 0 ≤ txout.nValue) (hhigh : txout.nValue ≤ maxMoney)
    (hsize : txout.scriptPubKey.length ≤ maxScriptSize) (target : CTxOut) (rest : List UInt8) :
    unserializeTxOut ops target (serializeTxOut ops txout ++ rest) = .ok (txout, rest) := by
  have hcode : compressAmount (toUInt64 txout.nValue) ≤ 2 ^ 64 - 1 := by
    have := Nat.mod_lt (amountCode (toUInt64 txout.nValue)) (show 0 < 2 ^ 64 by decide)
    rw [compressAmount_eq]
    omega
  rw [unserializeTxOut, serializeTxOut, List.append_assoc, readVarInt_writeVarInt hcode]
  simp only [bind, Except.bind]
  rw [unserializeScript_serializeScript hops hsize]
  simp only [toInt64_decompressAmount_compressAmount hlow hhigh]
  rfl

/-- The compressed output format round-trips on every output in the money range
with a script up to `MAX_SCRIPT_SIZE`; and a code compresses back to itself from its
decompressed amount whenever that amount, computed without the `uint64_t` wrap, is
at most `MAX_MONEY`. -/
theorem txOutCompressor_roundTrip (ops : PubKeyOps) (hops : ops.DecompressInvertsCompress) :
    (∀ txout : CTxOut, 0 ≤ txout.nValue → txout.nValue ≤ maxMoney →
        txout.scriptPubKey.length ≤ maxScriptSize → ∀ (target : CTxOut) (rest : List UInt8),
          unserializeTxOut ops target (serializeTxOut ops txout ++ rest) = .ok (txout, rest)) ∧
      ∀ x : Nat, x < 2 ^ 64 → (amountOfCode x : Int) ≤ maxMoney →
        compressAmount (decompressAmount x) = x :=
  ⟨fun _ hlow hhigh hsize target rest =>
      unserializeTxOut_serializeTxOut hops hlow hhigh hsize target rest,
    fun _ hx hfit => compressAmount_decompressAmount hx hfit⟩

/-- A `PubKeyOps` that finds no uncompressed key fully valid: it meets the assumption
trivially, and uncompressed keys are then stored raw. -/
def noValidKeyOps : PubKeyOps := ⟨fun _ => false, fun _ => none⟩

theorem noValidKeyOps_decompressInvertsCompress : noValidKeyOps.DecompressInvertsCompress := by
  intro pubkey _ _ hvalid
  cases hvalid

/-- The round trip at a pay-to-script-hash output of 50 coins read into a null output. -/
theorem txOutCompressor_roundTrip_payToScriptHash :
    unserializeTxOut noValidKeyOps CTxOut.null
        (serializeTxOut noValidKeyOps ⟨5000000000, [opHash160, 20] ++ List.replicate 20 7 ++ [opEqual]⟩) =
      .ok (⟨5000000000, [opHash160, 20] ++ List.replicate 20 7 ++ [opEqual]⟩, []) := by
  have h := (txOutCompressor_roundTrip noValidKeyOps noValidKeyOps_decompressInvertsCompress).1
    ⟨5000000000, [opHash160, 20] ++ List.replicate 20 7 ++ [opEqual]⟩
    (by decide) (by decide) (by decide) CTxOut.null []
  rwa [List.append_nil] at h

end UnitedBitcoin.Coins
