import Mathlib

/-!
# Bits packed eight to a byte

A list of bits is stored in bytes, eight to a byte and the least significant bit first, the last
byte padded with zeros: `packBits` is the loop `bytes[p / 8] |= bits[p] << (p % 8)` over bytes
that start at zero. `unpackBits` reads eight bits a byte back, bit `p` as
`(bytes[p / 8] & (1 << (p % 8))) != 0`. Reading back gives the bits and then the padding
(`unpackBits_packBits`).

The proof follows each bit: after the passes for the first `m` bits, bit `i` of byte `j` is bit
`8 * j + i` when that is one of them, and clear otherwise (`testBit_foldl_orBit`).
-/

namespace UnitedBitcoin.Library

/-- One pass of the packing loop: bit `p` ORed into bit `p % 8` of byte `p / 8`. -/
def orBit (bits : List Bool) (bytes : List UInt8) (p : Nat) : List UInt8 :=
  bytes.modify (p / 8) fun byte => byte ||| (bits.getD p false).toUInt8 <<< (p % 8).toUInt8

/-- The bits packed into `(bits.length + 7) / 8` bytes, least significant bit first. -/
def packBits (bits : List Bool) : List UInt8 :=
  (List.range bits.length).foldl (orBit bits) (List.replicate ((bits.length + 7) / 8) 0)

/-- Eight bits a byte, least significant first. -/
def unpackBits (bytes : List UInt8) : List Bool :=
  (List.range (bytes.length * 8)).map fun p => bytes.getD (p / 8) 0 &&& 1 <<< (p % 8).toUInt8 != 0

section Bits

theorem toNat_toUInt8_shiftLeft (b : Bool) {k : Nat} (hk : k < 8) :
    (b.toUInt8 <<< k.toUInt8).toNat = b.toNat * 2 ^ k := by
  have hkbyte : k.toUInt8.toNat = k := by
    rw [Nat.toUInt8_eq, UInt8.toNat_ofNat', Nat.mod_eq_of_lt (by omega)]
  have hb : b.toUInt8.toNat = b.toNat := by cases b <;> rfl
  have hlt : b.toNat * 2 ^ k < 2 ^ 8 := by
    have h2k : 2 ^ k ≤ 2 ^ 7 := Nat.pow_le_pow_right (by norm_num) (by omega)
    have hb1 : b.toNat ≤ 1 := Bool.toNat_le b
    calc b.toNat * 2 ^ k ≤ 1 * 2 ^ 7 := Nat.mul_le_mul hb1 h2k
      _ < 2 ^ 8 := by norm_num
  rw [UInt8.toNat_shiftLeft, hb, hkbyte, Nat.mod_eq_of_lt hk, Nat.shiftLeft_eq, Nat.mod_eq_of_lt hlt]

/-- Bit `i` of a byte with bit `b` ORed in at `k`. -/
theorem testBit_or_shiftLeft (byte : UInt8) (b : Bool) {k : Nat} (hk : k < 8) (i : Nat) :
    (byte ||| b.toUInt8 <<< k.toUInt8).toNat.testBit i = (byte.toNat.testBit i || (b && decide (k = i))) := by
  rw [UInt8.toNat_or, Nat.testBit_or, toNat_toUInt8_shiftLeft b hk]
  cases b <;> simp [Nat.testBit_two_pow]

/-- The test of one bit of a byte. -/
theorem and_shiftLeft_ne_zero (byte : UInt8) {k : Nat} (hk : k < 8) :
    (byte &&& 1 <<< k.toUInt8 != 0) = byte.toNat.testBit k := by
  have hmask : ((1 : UInt8) <<< k.toUInt8).toNat = 2 ^ k := by
    have h := toNat_toUInt8_shiftLeft true hk
    rw [Bool.toNat_true, one_mul] at h
    exact h
  have hand : (byte &&& 1 <<< k.toUInt8).toNat = (byte.toNat.testBit k).toNat * 2 ^ k := by
    rw [UInt8.toNat_and, hmask, Nat.and_two_pow]
  cases hbit : byte.toNat.testBit k
  · rw [hbit, Bool.toNat_false, zero_mul] at hand
    simp [← UInt8.toNat_inj, hand]
  · rw [hbit, Bool.toNat_true, one_mul] at hand
    have hpos : 0 < 2 ^ k := Nat.two_pow_pos k
    simp only [bne_iff_ne, ne_eq, ← UInt8.toNat_inj, hand, UInt8.toNat_zero]
    omega

end Bits

section Pack

variable (bits : List Bool)

theorem length_foldl_orBit (m : Nat) (bytes : List UInt8) :
    ((List.range m).foldl (orBit bits) bytes).length = bytes.length := by
  induction m with
  | zero => rfl
  | succ m ih => rw [List.range_succ, List.foldl_append, List.foldl_cons, List.foldl_nil, orBit, List.length_modify, ih]

theorem length_packBits : (packBits bits).length = (bits.length + 7) / 8 := by
  rw [packBits, length_foldl_orBit, List.length_replicate]

/-- After the passes for the first `m` bits, bit `i` of byte `j` is bit `8 * j + i` when that is
one of them. The induction is on `m`; pass `m` sets bit `m % 8` of byte `m / 8` only. -/
theorem testBit_foldl_orBit {i : Nat} (hi : i < 8) (j : Nat) :
    ∀ m : Nat, (((List.range m).foldl (orBit bits) (List.replicate ((bits.length + 7) / 8) 0))[j]?.getD 0).toNat.testBit i =
      (decide (8 * j + i < m) && bits.getD (8 * j + i) false)
  | 0 => by
    cases hj : (List.replicate ((bits.length + 7) / 8) (0 : UInt8))[j]? with
    | none => simp [hj]
    | some byte =>
      rw [List.getElem?_replicate] at hj
      split_ifs at hj
      cases hj
      simp
  | m + 1 => by
    have ih := testBit_foldl_orBit hi j m
    rw [List.range_succ, List.foldl_append, List.foldl_cons, List.foldl_nil, orBit, List.getElem?_modify]
    cases hbyte : ((List.range m).foldl (orBit bits) (List.replicate ((bits.length + 7) / 8) 0))[j]? with
    | none =>
      -- byte `j` is past the end, so bit `8 * j + i` is past the bits
      have hlen := List.getElem?_eq_none_iff.mp hbyte
      rw [length_foldl_orBit, List.length_replicate] at hlen
      have hout : bits.getD (8 * j + i) false = false := by
        rw [List.getD_eq_getElem?_getD, List.getElem?_eq_none (by omega), Option.getD_none]
      simp only [Option.map_eq_map, Option.map_none, Option.getD_none, UInt8.toNat_zero, Nat.zero_testBit,
        hout, Bool.and_false]
    | some byte =>
      rw [hbyte] at ih
      simp only [Option.map_eq_map, Option.map_some, Option.getD_some] at ih ⊢
      -- pass `m` writes bit `m` exactly at byte `m / 8`, bit `m % 8`
      have hsplit : 8 * j + i = m ↔ m / 8 = j ∧ m % 8 = i := by omega
      split_ifs with hj
      · rw [testBit_or_shiftLeft byte _ (Nat.mod_lt m (by norm_num)), ih]
        by_cases hm : 8 * j + i = m
        · have hmi : m % 8 = i := (hsplit.mp hm).2
          simp [hm, hmi]
        · have hmi : m % 8 ≠ i := fun h => hm (hsplit.mpr ⟨hj, h⟩)
          simp only [hmi, decide_false, Bool.and_false, Bool.or_false]
          by_cases hlt : 8 * j + i < m
          · simp [hlt, show 8 * j + i < m + 1 by omega]
          · simp [hlt, show ¬8 * j + i < m + 1 by omega]
      · rw [ih]
        have hm : 8 * j + i ≠ m := fun h => hj (hsplit.mp h).1
        by_cases hlt : 8 * j + i < m
        · simp [hlt, show 8 * j + i < m + 1 by omega]
        · simp [hlt, show ¬8 * j + i < m + 1 by omega]

/-- Bit `p` of the packed bytes is bit `p` of the list, and clear in the padding. -/
theorem testBit_packBits (p : Nat) :
    ((packBits bits).getD (p / 8) 0).toNat.testBit (p % 8) = bits.getD p false := by
  have hp : 8 * (p / 8) + p % 8 = p := Nat.div_add_mod p 8
  rw [packBits, List.getD_eq_getElem?_getD, testBit_foldl_orBit bits (Nat.mod_lt p (by norm_num)), hp]
  by_cases hlt : p < bits.length
  · simp [hlt]
  · simp [hlt, List.getD_eq_getElem?_getD]

/-- **Unpacking undoes packing**, up to the zeros that pad the last byte. -/
theorem unpackBits_packBits :
    unpackBits (packBits bits) = bits ++ List.replicate ((bits.length + 7) / 8 * 8 - bits.length) false := by
  apply List.ext_getElem
  · simp only [unpackBits, List.length_map, List.length_range, length_packBits, List.length_append,
      List.length_replicate]
    omega
  · intro p hp _
    simp only [unpackBits, List.getElem_map, List.getElem_range]
    rw [and_shiftLeft_ne_zero _ (Nat.mod_lt p (by norm_num)), testBit_packBits, List.getElem_append]
    split_ifs with hlt
    · simp [List.getD_eq_getElem?_getD, hlt]
    · simp [List.getD_eq_getElem?_getD, List.getElem?_eq_none (Nat.le_of_not_lt hlt)]

end Pack

end UnitedBitcoin.Library
