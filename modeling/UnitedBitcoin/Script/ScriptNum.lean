import Mathlib
import UnitedBitcoin.Validation.ContractParams

/-!
# Script numbers

`CScriptNum` (script.h) turns numbers into byte vectors and back. `serialize` writes the
magnitude little-endian and puts the sign in the top bit of the last byte, adding a byte when
that bit is taken (`serializeAbs`); it has no result at `INT64_MIN`, whose negation overflows. `set_vch` reads such a vector back into an `int64_t`, and the constructor
with `fRequireMinimal` first rejects a vector whose last byte is redundant. `vch_to_uint64`,
which decodes the gas and amount fields of contract transactions, is
`Validation.vchToUInt64`; it refuses a set top bit.

The main results:
* `serialize_eq_append`: the shape of `serialize n`, a magnitude part and a last byte that
  holds the rest of the magnitude under the sign bit.
* `toInt_setVch_append`: `set_vch` reads that shape back as the signed value.
* `ofVch_serialize`: every `int64_t` but `INT64_MIN` round-trips through the minimal decoder.
* `vchToUInt64_serialize` and `vchToUInt64_eq_ok`: `vch_to_uint64` inverts `serialize` on the
  non-negative values, and what it accepts is the little-endian value, below `2 ^ 63`.
-/

namespace UnitedBitcoin.Script

open UnitedBitcoin.Serialize (leValue leValue_lt)
open UnitedBitcoin.Validation (vchToUInt64)

/-- The loop of `serialize`: push `absvalue & 0xff` and shift right by eight while anything
is left. -/
def pushBytes (absvalue : UInt64) : List UInt8 :=
  if absvalue = 0 then [] else (absvalue &&& 0xff).toUInt8 :: pushBytes (absvalue >>> 8)
termination_by absvalue.toNat
decreasing_by
  have hne : absvalue.toNat ≠ 0 := fun h => by simp_all [← UInt64.toNat_inj]
  simp only [UInt64.toNat_shiftRight]
  simp
  omega

/-- The loop `result |= (T)vch[i] << 8*i` of `set_vch`, on the 64 bits of `result`. A ninth
byte would be shifted by 64, which C++ leaves undefined; the count is then taken modulo 64, as
the processor takes it. -/
def orBytesFrom (i : Nat) : List UInt8 → UInt64 → UInt64
  | [], result => result
  | byte :: rest, result =>
    orBytesFrom (i + 1) rest (result ||| (byte.toUInt64 <<< (8 * i).toUInt64))

/-- A `CScriptNum`: its `m_value`. -/
structure CScriptNum where
  mValue : Int64
  deriving DecidableEq, Repr

namespace CScriptNum

/-- `CScriptNum::nDefaultMaxNumSize`. -/
def nDefaultMaxNumSize : Nat := 4

/-- What `CScriptNum::serialize` writes once it has the sign and the magnitude `absvalue`: the
bytes of the magnitude, least significant first, and the sign in the top bit of the last one. -/
def serializeAbs (neg : Bool) (absvalue : UInt64) : List UInt8 :=
  let result := pushBytes absvalue
  -- a most significant byte of 0x80 or more gets a byte of its own for the sign
  if result.getLastD 0 &&& 0x80 != 0 then result ++ [if neg then 0x80 else 0]
  else if neg then result.dropLast ++ [result.getLastD 0 ||| 0x80]
  else result

/-- `CScriptNum::serialize`; `none` at `INT64_MIN`, where `-value` overflows. -/
def serialize (value : Int64) : Option (List UInt8) :=
  if value = 0 then some [] else
  let neg := decide (value < 0)
  if value = Int64.minValue then none
  else some (serializeAbs neg (if neg then -value else value).toUInt64)

/-- `CScriptNum::set_vch`. -/
def setVch (vch : List UInt8) : Int64 :=
  if vch.isEmpty then 0 else
  let result := orBytesFrom 0 vch 0
  -- a set top bit of the last byte is the sign: clear it and negate
  if vch.getLastD 0 &&& 0x80 != 0 then
    -(result &&& ~~~((0x80 : UInt64) <<< (8 * (vch.length - 1)).toUInt64)).toInt64
  else result.toInt64

/-- `CScriptNum(vch, fRequireMinimal, nMaxNumSize)`, with the message of the `scriptnum_error`
it throws. -/
def ofVch (vch : List UInt8) (fRequireMinimal : Bool) (nMaxNumSize : Nat) :
    Except String CScriptNum :=
  if nMaxNumSize < vch.length then .error "script number overflow"
  -- a last byte that is only a sign is redundant, unless the byte before needs its top bit
  else if fRequireMinimal ∧ 0 < vch.length ∧ vch.getLastD 0 &&& 0x7f = 0 ∧
      (vch.length ≤ 1 ∨ vch.getD (vch.length - 2) 0 &&& 0x80 = 0) then
    .error "non-minimally encoded script number"
  else .ok ⟨setVch vch⟩

end CScriptNum

open CScriptNum

section Int64

theorem toInt_range (x : Int64) : -2 ^ 63 ≤ x.toInt ∧ x.toInt < 2 ^ 63 :=
  ⟨BitVec.le_toInt x.toBitVec, BitVec.toInt_lt⟩

theorem toNat_toUInt64_of_nonneg {x : Int64} (h : 0 ≤ x.toInt) :
    (x.toUInt64.toNat : Int) = x.toInt := by
  have hc := BitVec.toInt_eq_toNat_cond x.toBitVec
  show (x.toBitVec.toNat : Int) = x.toBitVec.toInt
  change 0 ≤ x.toBitVec.toInt at h
  split_ifs at hc with hlt
  · exact hc.symm
  · have := x.toBitVec.isLt
    omega

theorem toInt_toInt64_of_lt {x : UInt64} (h : x.toNat < 2 ^ 63) : x.toInt64.toInt = x.toNat := by
  show x.toBitVec.toInt = x.toBitVec.toNat
  exact BitVec.toInt_eq_toNat_of_lt (by simp; omega)

/-- Negation is exact away from `INT64_MIN`. -/
theorem toInt_neg_of_ne {x : Int64} (h : x ≠ Int64.minValue) : (-x).toInt = -x.toInt := by
  have hne : x.toInt ≠ -2 ^ 63 :=
    fun heq => h (Int64.toInt_inj.mp (heq.trans Int64.toInt_minValue.symm))
  obtain ⟨h1, h2⟩ := toInt_range x
  rw [Int64.toInt_neg]
  exact Int.bmod_eq_of_le (by omega) (by omega)

/-- `neg ? -value : value` as a `uint64_t` is the magnitude, away from `INT64_MIN`. -/
theorem toNat_absvalue {n : Int64} (h : n ≠ Int64.minValue) :
    (if decide (n < 0) then -n else n).toUInt64.toNat = n.toInt.natAbs := by
  by_cases hneg : n < 0
  · have hlt : n.toInt < 0 := Int64.lt_iff_toInt_lt.mp hneg
    have hpos : 0 ≤ (-n).toInt := by rw [toInt_neg_of_ne h]; omega
    have := toNat_toUInt64_of_nonneg hpos
    rw [if_pos (decide_eq_true hneg)]
    rw [toInt_neg_of_ne h] at this
    omega
  · have hnn : 0 ≤ n.toInt := by
      have := mt Int64.lt_iff_toInt_lt.mpr hneg
      simp only [Int64.toInt_zero] at this
      omega
    have := toNat_toUInt64_of_nonneg hnn
    rw [if_neg (by simpa using hneg)]
    omega

end Int64

section Bytes

theorem toNat_lowByte (a : UInt64) : ((a &&& 0xff).toUInt8).toNat = a.toNat % 256 := by
  rw [UInt64.toNat_toUInt8, UInt64.toNat_and, show (0xff : UInt64).toNat = 2 ^ 8 - 1 from rfl,
    Nat.and_two_pow_sub_one_eq_mod]
  simp

theorem toNat_shiftRight_eight (a : UInt64) : (a >>> 8).toNat = a.toNat / 256 := by
  simp [UInt64.toNat_shiftRight, Nat.shiftRight_eq_div_pow]

theorem leValue_pushBytes (absvalue : UInt64) : leValue (pushBytes absvalue) = absvalue.toNat := by
  fun_induction pushBytes absvalue with
  | case1 => rfl
  | case2 a h ih =>
    rw [leValue, ih, toNat_lowByte, toNat_shiftRight_eight]
    omega

/-- A nonzero magnitude ends in a nonzero byte. -/
theorem pushBytes_eq_append {absvalue : UInt64} (h : absvalue ≠ 0) :
    ∃ B t, pushBytes absvalue = B ++ [t] ∧ t ≠ 0 := by
  fun_induction pushBytes absvalue with
  | case1 => exact absurd rfl h
  | case2 a h0 ih =>
    by_cases hrest : a >>> 8 = 0
    · refine ⟨[], (a &&& 0xff).toUInt8, by rw [hrest, pushBytes, if_pos rfl]; rfl, ?_⟩
      -- a is below 256, so its low byte is a itself
      have hlt : a.toNat / 256 = 0 := by rw [← toNat_shiftRight_eight, hrest]; rfl
      have hpos : a.toNat ≠ 0 := fun h => h0 (UInt64.toNat_inj.mp h)
      intro hz
      have := congrArg UInt8.toNat hz
      rw [toNat_lowByte] at this
      simp at this
      omega
    · obtain ⟨B, t, hB, ht⟩ := ih hrest
      exact ⟨(a &&& 0xff).toUInt8 :: B, t, by rw [hB]; rfl, ht⟩

theorem leValue_append_singleton (B : List UInt8) (t : UInt8) :
    leValue (B ++ [t]) = leValue B + 256 ^ B.length * t.toNat := by
  induction B with
  | nil => simp [leValue]
  | cons b B ih =>
    rw [List.cons_append, leValue, ih, leValue, List.length_cons, pow_succ]
    ring

/-- A magnitude of at least `256 ^ k * c` and below `256 ^ e * c` has fewer than `e` bytes
before its last one. -/
theorem lt_of_pow_mul_le {k e c a : Nat} (h : 256 ^ k * c ≤ a) (ha : a < 256 ^ e * c) : k < e := by
  have hpow : 256 ^ k < 256 ^ e := Nat.lt_of_mul_lt_mul_right (lt_of_le_of_lt h ha)
  exact (Nat.pow_lt_pow_iff_right (by norm_num)).mp hpow

theorem toNat_and_0x80 (u : UInt8) : (u &&& 0x80).toNat = if 128 ≤ u.toNat then 128 else 0 := by
  rw [UInt8.toNat_and, show (0x80 : UInt8).toNat = 2 ^ 7 from rfl, Nat.and_two_pow,
    Nat.testBit_eq_decide_div_mod_eq]
  have := u.toNat_lt
  split_ifs with h
  · rw [show u.toNat / 2 ^ 7 % 2 = 1 by omega]
    rfl
  · rw [show u.toNat / 2 ^ 7 % 2 = 0 by omega]
    rfl

theorem and_0x80_ne_zero_iff (u : UInt8) : u &&& 0x80 ≠ 0 ↔ 128 ≤ u.toNat := by
  rw [Ne, ← UInt8.toNat_inj, toNat_and_0x80]
  split_ifs with h <;> simp [h]

/-- `u | 0x80` adds the sign bit to a byte below `0x80`. -/
theorem toNat_or_0x80 {u : UInt8} (hu : u.toNat < 128) : (u ||| 0x80).toNat = u.toNat + 128 := by
  rw [UInt8.toNat_or, show (0x80 : UInt8).toNat = 1 <<< 7 from rfl, Nat.lor_comm,
    ← Nat.shiftLeft_add_eq_or_of_lt (show u.toNat < 2 ^ 7 from hu), Nat.shiftLeft_eq]
  omega

theorem toNat_and_0x7f (u : UInt8) : (u &&& 0x7f).toNat = u.toNat % 128 := by
  rw [UInt8.toNat_and, show (0x7f : UInt8).toNat = 2 ^ 7 - 1 from rfl,
    Nat.and_two_pow_sub_one_eq_mod]

end Bytes

section Words

theorem toNat_or_shiftLeft {x : UInt64} {b : UInt8} {i : Nat} (hi : i < 8)
    (hx : x.toNat < 2 ^ (8 * i)) :
    (x ||| (b.toUInt64 <<< (8 * i).toUInt64)).toNat = x.toNat + 2 ^ (8 * i) * b.toNat := by
  have hb := b.toNat_lt
  have hshift : (b.toUInt64 <<< (8 * i).toUInt64).toNat = b.toNat <<< (8 * i) := by
    have hmod : 8 * i % 64 = 8 * i := Nat.mod_eq_of_lt (by omega)
    have hfit : b.toNat <<< (8 * i) < 2 ^ 64 := by
      rw [Nat.shiftLeft_eq]
      calc b.toNat * 2 ^ (8 * i) < 2 ^ 8 * 2 ^ (8 * i) :=
            Nat.mul_lt_mul_of_pos_right hb (Nat.two_pow_pos _)
        _ = 2 ^ (8 * i + 8) := by rw [← pow_add, Nat.add_comm]
        _ ≤ 2 ^ 64 := Nat.pow_le_pow_right (by norm_num) (by omega)
    rw [UInt64.toNat_shiftLeft]
    simp only [UInt8.toNat_toUInt64, Nat.toUInt64_eq, UInt64.toNat_ofNat']
    rw [Nat.mod_eq_of_lt (show 8 * i < 2 ^ 64 by omega), hmod, Nat.mod_eq_of_lt hfit]
  -- the byte lands above every bit of x, so OR is addition
  rw [UInt64.toNat_or, hshift, Nat.lor_comm, ← Nat.shiftLeft_add_eq_or_of_lt hx, Nat.shiftLeft_eq]
  ring

/-- The loop of `set_vch` computes the little-endian value of at most eight bytes. -/
theorem toNat_orBytesFrom (rest : List UInt8) :
    ∀ (i : Nat) (result : UInt64), i + rest.length ≤ 8 → result.toNat < 2 ^ (8 * i) →
      (orBytesFrom i rest result).toNat = result.toNat + 2 ^ (8 * i) * leValue rest := by
  induction rest with
  | nil => intro i result _ _; simp [orBytesFrom, leValue]
  | cons b rest ih =>
    intro i result hlen hres
    have hi : i < 8 := by simp at hlen; omega
    have hstep := toNat_or_shiftLeft (b := b) hi hres
    have hbound : (result ||| (b.toUInt64 <<< (8 * i).toUInt64)).toNat < 2 ^ (8 * (i + 1)) := by
      rw [hstep]
      have := b.toNat_lt
      rw [show 8 * (i + 1) = 8 * i + 8 by ring, pow_add]
      nlinarith
    rw [orBytesFrom, ih (i + 1) _ (by simp at hlen; omega) hbound, hstep, leValue,
      show 8 * (i + 1) = 8 * i + 8 by ring, pow_add]
    ring

/-- Clearing bit `j` of a word whose bit `j` is set and whose lower bits hold `a`. -/
theorem toNat_and_not_of_testBit {x m : UInt64} {a j : Nat} (hj : j < 64)
    (hx : x.toNat = 2 ^ j + a) (ha : a < 2 ^ j) (hm : m.toNat = 2 ^ j) :
    (x &&& ~~~m).toNat = a := by
  apply Nat.eq_of_testBit_eq
  intro i
  have hnot : (~~~m).toNat.testBit i = (decide (i < 64) && !decide (j = i)) := by
    show (~~~m).toBitVec.getLsbD i = _
    rw [UInt64.toBitVec_not, BitVec.getLsbD_not]
    show (decide (i < 64) && !m.toNat.testBit i) = _
    rw [hm, Nat.testBit_two_pow]
  rw [UInt64.toNat_and, Nat.testBit_and, hnot, hx]
  rcases lt_trichotomy i j with hij | rfl | hij
  · rw [Nat.testBit_two_pow_add_gt hij]
    simp [show i < 64 by omega, hij.ne']
  · simp [Nat.testBit_two_pow_add_eq, Nat.testBit_lt_two_pow ha]
  · have hlt : 2 ^ j + a < 2 ^ i := by
      have := Nat.pow_le_pow_right (show 0 < 2 by norm_num) (show j + 1 ≤ i by omega)
      rw [pow_succ] at this
      omega
    rw [Nat.testBit_lt_two_pow hlt, Nat.testBit_lt_two_pow (lt_trans (by omega) hlt)]
    simp

theorem toNat_foldr_le (vch : List UInt8) (hlen : vch.length ≤ 8) :
    (vch.foldr (fun (byte : UInt8) (result : UInt64) => result * 256 + byte.toUInt64) 0).toNat =
      leValue vch := by
  induction vch with
  | nil => rfl
  | cons b rest ih =>
    have hrest : rest.length ≤ 7 := by simp at hlen; omega
    have hlt := leValue_lt rest
    have hpow : 256 ^ rest.length ≤ 256 ^ 7 := Nat.pow_le_pow_right (by norm_num) hrest
    have hb := b.toNat_lt
    rw [List.foldr_cons, UInt64.toNat_add, UInt64.toNat_mul, ih (by omega), UInt8.toNat_toUInt64,
      leValue, show UInt64.toNat 256 = 256 from rfl]
    norm_num at hpow
    omega

end Words

section RoundTrip

/-- The shape of `serialize n` for `n ≠ 0` other than `INT64_MIN`. The magnitude splits into
bytes `P` and a rest `m < 128` in the last byte, under the sign bit. A last byte that is only
the sign (`m = 0`) follows a byte whose top bit is set. -/
theorem serialize_eq_append {n : Int64} (h0 : n ≠ 0) (hmin : n ≠ Int64.minValue) :
    ∃ P m, serialize n = some (P ++ [(m + if n < 0 then 128 else 0).toUInt8]) ∧ m < 128 ∧
      P.length < 8 ∧ leValue P + 256 ^ P.length * m = n.toInt.natAbs ∧
      (m = 0 → ∃ Q q, P = Q ++ [q] ∧ 128 ≤ q.toNat) := by
  have ha := toNat_absvalue hmin
  have hrange := toInt_range n
  have hne : n.toInt ≠ -2 ^ 63 :=
    fun heq => hmin (Int64.toInt_inj.mp (heq.trans Int64.toInt_minValue.symm))
  have hnz : n.toInt ≠ 0 := fun heq => h0 (Int64.toInt_inj.mp (heq.trans Int64.toInt_zero.symm))
  have hsmall : n.toInt.natAbs < 2 ^ 63 := by omega
  have habs0 : (if decide (n < 0) then -n else n).toUInt64 ≠ 0 := by
    intro hz
    rw [hz, UInt64.toNat_zero] at ha
    omega
  obtain ⟨B, t, hB, ht⟩ := pushBytes_eq_append habs0
  have hval : leValue B + 256 ^ B.length * t.toNat = n.toInt.natAbs := by
    rw [← leValue_append_singleton, ← hB, leValue_pushBytes, ha]
  have ht0 : 1 ≤ t.toNat := by
    have : t.toNat ≠ 0 := fun h => ht (UInt8.toNat_inj.mp h)
    omega
  have hser : serialize n = some
      (if t &&& 0x80 != 0 then B ++ [t] ++ [if decide (n < 0) then 0x80 else 0]
      else if decide (n < 0) then B ++ [t ||| 0x80] else B ++ [t]) := by
    simp only [serialize, if_neg h0, if_neg hmin, serializeAbs, hB, List.getLastD_concat, List.dropLast_concat]
  by_cases htop : 128 ≤ t.toNat
  · -- the sign takes a byte of its own
    refine ⟨B ++ [t], 0, ?_, by omega, ?_, ?_, fun _ => ⟨B, t, rfl, htop⟩⟩
    · rw [hser, if_pos (bne_iff_ne.mpr ((and_0x80_ne_zero_iff t).mpr htop))]
      by_cases hneg : n < 0 <;> simp [hneg]
    · have hk := lt_of_pow_mul_le (k := B.length) (e := 7) (c := 128) (a := n.toInt.natAbs)
        (by nlinarith [Nat.zero_le (leValue B)]) (by norm_num; omega)
      simp only [List.length_append, List.length_singleton]
      omega
    · rw [leValue_append_singleton, hval, Nat.mul_zero, Nat.add_zero]
  · -- the sign goes on top of the last byte
    have hlow : t &&& 0x80 = 0 := by
      by_contra hc
      exact htop ((and_0x80_ne_zero_iff t).mp hc)
    refine ⟨B, t.toNat, ?_, by omega, ?_, hval, fun hm => by omega⟩
    · rw [hser, if_neg (by simp [hlow])]
      by_cases hneg : n < 0
      · have hbyte : t ||| 0x80 = (t.toNat + 128).toUInt8 := by
          apply UInt8.toNat_inj.mp
          rw [toNat_or_0x80 (by omega)]
          simp
          omega
        simp [hneg, hbyte]
      · simp [hneg]
    · exact lt_of_pow_mul_le (k := B.length) (e := 8) (c := 1) (a := n.toInt.natAbs)
        (by nlinarith [Nat.zero_le (leValue B)]) (by norm_num; omega)

/-- `set_vch` reads the shape `serialize` writes back as the signed value. -/
theorem toInt_setVch_append {P : List UInt8} {m : Nat} (neg : Prop) [Decidable neg]
    (hm : m < 128) (hlen : P.length < 8) :
    (setVch (P ++ [(m + if neg then 128 else 0).toUInt8])).toInt =
      if neg then -((leValue P + 256 ^ P.length * m : Nat) : Int)
      else ((leValue P + 256 ^ P.length * m : Nat) : Int) := by
  set u : UInt8 := (m + if neg then 128 else 0).toUInt8 with hu
  have hPlt := leValue_lt P
  have hpow : (256 : Nat) ^ P.length = 2 ^ (8 * P.length) := by rw [pow_mul]; norm_num
  have hsign : 256 ^ P.length * 128 = 2 ^ (8 * P.length + 7) := by rw [hpow, pow_add]; norm_num
  have ha : leValue P + 256 ^ P.length * m < 2 ^ (8 * P.length + 7) := by
    rw [← hsign]
    nlinarith
  have hsmall : 2 ^ (8 * P.length + 7) ≤ 2 ^ 63 := Nat.pow_le_pow_right (by norm_num) (by omega)
  have hutoNat : u.toNat = m + if neg then 128 else 0 := by
    rw [hu, UInt8.toNat_ofNat']
    split_ifs <;> omega
  -- the loop reads the bytes as their little-endian value
  have hword : (orBytesFrom 0 (P ++ [u]) 0).toNat = leValue P + 256 ^ P.length * u.toNat := by
    rw [toNat_orBytesFrom _ 0 0 (by simp; omega) (by simp), leValue_append_singleton]
    simp
  have hne : ¬(P ++ [u]).isEmpty := by simp
  simp only [setVch, if_neg hne, List.getLastD_concat, List.length_append, List.length_singleton,
    Nat.add_sub_cancel]
  by_cases hneg : neg
  · -- clear the sign bit, then negate
    have htop : u &&& 0x80 != 0 := by
      rw [bne_iff_ne, and_0x80_ne_zero_iff, hutoNat, if_pos hneg]
      omega
    have hmask : ((0x80 : UInt64) <<< (8 * P.length).toUInt64).toNat = 2 ^ (8 * P.length + 7) := by
      rw [UInt64.toNat_shiftLeft]
      simp only [Nat.toUInt64_eq, UInt64.toNat_ofNat', show (0x80 : UInt64).toNat = 2 ^ 7 from rfl]
      rw [Nat.mod_eq_of_lt (show 8 * P.length < 2 ^ 64 by omega),
        Nat.mod_eq_of_lt (show 8 * P.length < 64 by omega), Nat.shiftLeft_eq, ← pow_add,
        Nat.mod_eq_of_lt (Nat.pow_lt_pow_right (by norm_num) (by omega)), Nat.add_comm 7]
    have hclear := toNat_and_not_of_testBit (by omega)
      (by rw [hword, hutoNat, if_pos hneg, Nat.mul_add, hsign]; ring) ha hmask
    have hval := toInt_toInt64_of_lt (hclear ▸ lt_of_lt_of_le ha hsmall)
    have hnotmin : (orBytesFrom 0 (P ++ [u]) 0 &&&
        ~~~((0x80 : UInt64) <<< (8 * P.length).toUInt64)).toInt64 ≠ Int64.minValue := by
      intro hmin
      have := congrArg Int64.toInt hmin
      rw [hval, Int64.toInt_minValue] at this
      omega
    rw [if_pos htop, toInt_neg_of_ne hnotmin, hval, hclear, if_pos hneg]
  · have hlow : ¬(u &&& 0x80 != 0) := by
      rw [bne_iff_ne, and_0x80_ne_zero_iff, hutoNat, if_neg hneg]
      omega
    have hword' : (orBytesFrom 0 (P ++ [u]) 0).toNat = leValue P + 256 ^ P.length * m := by
      rw [hword, hutoNat, if_neg hneg, Nat.add_zero]
    rw [if_neg hlow, toInt_toInt64_of_lt (hword' ▸ lt_of_lt_of_le ha hsmall), hword', if_neg hneg]

/-- Every `int64_t` but `INT64_MIN` is serialized, passes the minimal decoder and comes back. -/
theorem ofVch_serialize {n : Int64} (hmin : n ≠ Int64.minValue) :
    ∃ vch, serialize n = some vch ∧ ofVch vch true 9 = .ok ⟨n⟩ := by
  by_cases h0 : n = 0
  · subst h0
    exact ⟨[], rfl, rfl⟩
  obtain ⟨P, m, hser, hm, hlen, hval, hsignOnly⟩ := serialize_eq_append h0 hmin
  refine ⟨_, hser, ?_⟩
  set u : UInt8 := (m + if n < 0 then 128 else 0).toUInt8 with hu
  have hutoNat : u.toNat = m + if n < 0 then 128 else 0 := by
    rw [hu, UInt8.toNat_ofNat']
    split_ifs <;> omega
  -- the last byte's low seven bits are m, and a zero m follows a byte with its top bit set
  have hminimal : ¬(true = true ∧ 0 < (P ++ [u]).length ∧ (P ++ [u]).getLastD 0 &&& 0x7f = 0 ∧
      ((P ++ [u]).length ≤ 1 ∨ (P ++ [u]).getD ((P ++ [u]).length - 2) 0 &&& 0x80 = 0)) := by
    rintro ⟨-, -, hlast, hprev⟩
    rw [List.getLastD_concat] at hlast
    have hm0 : m = 0 := by
      have := congrArg UInt8.toNat hlast
      rw [toNat_and_0x7f, hutoNat] at this
      split_ifs at this <;> simp at this <;> omega
    obtain ⟨Q, q, rfl, hq⟩ := hsignOnly hm0
    simp only [List.length_append, List.length_singleton] at hprev
    rcases hprev with hshort | hq0
    · omega
    · rw [show Q.length + 1 + 1 - 2 = Q.length by omega, List.append_assoc,
        List.getD_eq_getElem?_getD, List.getElem?_append_right (le_refl _), Nat.sub_self] at hq0
      simp only [List.cons_append, List.nil_append, List.getElem?_cons_zero,
        Option.getD_some] at hq0
      exact (and_0x80_ne_zero_iff q).mpr hq hq0
  rw [ofVch, if_neg (by simp; omega), if_neg hminimal]
  congr
  apply Int64.toInt_inj.mp
  rw [toInt_setVch_append _ hm hlen, hval]
  by_cases hneg : n < 0
  · have hlt : n.toInt < 0 := Int64.lt_iff_toInt_lt.mp hneg
    rw [if_pos hneg, Int.ofNat_natAbs_of_nonpos hlt.le, neg_neg]
  · have hnn : 0 ≤ n.toInt := by
      have := mt Int64.lt_iff_toInt_lt.mpr hneg
      simp only [Int64.toInt_zero] at this
      omega
    rw [if_neg hneg, Int.natAbs_of_nonneg hnn]

/-- `vch_to_uint64` inverts `serialize` on the non-negative values. -/
theorem vchToUInt64_serialize {n : Int64} (hn : 0 ≤ n) :
    ∃ vch, serialize n = some vch ∧ vchToUInt64 vch = .ok n.toUInt64 := by
  by_cases h0 : n = 0
  · subst h0
    exact ⟨[], rfl, rfl⟩
  have hnn : 0 ≤ n.toInt := by simpa using Int64.le_iff_toInt_le.mp hn
  have hneg : ¬n < 0 := fun h => by
    have := Int64.lt_iff_toInt_lt.mp h
    simp only [Int64.toInt_zero] at this
    omega
  have hmin : n ≠ Int64.minValue := fun h => by
    have := congrArg Int64.toInt h
    rw [Int64.toInt_minValue] at this
    omega
  obtain ⟨P, m, hser, hm, hlen, hval, -⟩ := serialize_eq_append h0 hmin
  have hu : (m + if n < 0 then 128 else 0).toUInt8.toNat = m := by
    rw [if_neg hneg, UInt8.toNat_ofNat']
    omega
  have hfit : ¬8 < (P ++ [(m + if n < 0 then 128 else 0).toUInt8]).length := by simp; omega
  refine ⟨_, hser, ?_⟩
  -- the last byte is below 0x80, so the bytes are read as the value
  simp only [vchToUInt64, if_neg hfit, List.getLast?_concat, hu, show ¬0x80 ≤ m by omega,
    if_false]
  congr 1
  apply UInt64.toNat_inj.mp
  rw [toNat_foldr_le _ (by simp; omega), leValue_append_singleton, hu, hval]
  have := toNat_toUInt64_of_nonneg hnn
  omega

/-- A non-negative number is serialized with a clear sign. -/
theorem serialize_of_nonneg {n : Int64} (hn : 0 ≤ n) : serialize n = some (serializeAbs false n.toUInt64) := by
  by_cases h0 : n = 0
  · subst h0
    have hzero : pushBytes (0 : Int64).toUInt64 = [] := by rw [pushBytes, if_pos (by decide)]
    simp [serialize, serializeAbs, hzero]
  have hnn : 0 ≤ n.toInt := by simpa using Int64.le_iff_toInt_le.mp hn
  have hneg : ¬n < 0 := fun h => by
    have := Int64.lt_iff_toInt_lt.mp h
    simp only [Int64.toInt_zero] at this
    omega
  have hmin : n ≠ Int64.minValue := fun h => by
    have := congrArg Int64.toInt h
    rw [Int64.toInt_minValue] at this
    omega
  simp only [serialize, if_neg h0, if_neg hmin, decide_eq_false hneg, Bool.false_eq_true, if_false]

theorem toInt64_nonneg_of_lt {val : UInt64} (h : val.toNat < 2 ^ 63) : 0 ≤ val.toInt64 := by
  rw [Int64.le_iff_toInt_le, toInt_toInt64_of_lt h, Int64.toInt_zero]
  omega

/-- A `uint64_t` below `2 ^ 63`, taken as an `int64_t`, is serialized with a clear sign. -/
theorem serialize_toInt64 {val : UInt64} (h : val.toNat < 2 ^ 63) :
    serialize val.toInt64 = some (serializeAbs false val) := by
  rw [serialize_of_nonneg (toInt64_nonneg_of_lt h), UInt64.toUInt64_toInt64]

/-- `vch_to_uint64` reads back the serialization of a `uint64_t` below `2 ^ 63`. -/
theorem vchToUInt64_serializeAbs {val : UInt64} (h : val.toNat < 2 ^ 63) :
    vchToUInt64 (serializeAbs false val) = .ok val := by
  obtain ⟨vch, hser, hread⟩ := vchToUInt64_serialize (toInt64_nonneg_of_lt h)
  rw [serialize_toInt64 h, Option.some.injEq] at hser
  rw [hser, hread, UInt64.toUInt64_toInt64]

theorem pushBytes_zero : pushBytes 0 = [] := by
  rw [pushBytes, if_pos rfl]

/-- Zero is serialized as no bytes. -/
theorem serializeAbs_false_zero : serializeAbs false 0 = [] := by
  simp [serializeAbs, pushBytes_zero]

/-- A magnitude other than zero has at least one byte. -/
theorem serializeAbs_ne_nil (neg : Bool) {absvalue : UInt64} (h : absvalue ≠ 0) : serializeAbs neg absvalue ≠ [] := by
  obtain ⟨B, t, hB, -⟩ := pushBytes_eq_append h
  simp only [serializeAbs, hB]
  split_ifs <;> simp

/-- What `vch_to_uint64` accepts is the little-endian value of the bytes, below `2 ^ 63`. -/
theorem vchToUInt64_eq_ok {vch : List UInt8} (hlen : vch.length ≤ 8) {result : UInt64}
    (h : vchToUInt64 vch = .ok result) : result.toNat = leValue vch ∧ result.toNat < 2 ^ 63 := by
  unfold vchToUInt64 at h
  rw [if_neg (by omega)] at h
  rcases hlast : vch.getLast? with _ | last
  · rw [hlast] at h
    cases h
    rw [List.getLast?_eq_none_iff.mp hlast]
    exact ⟨rfl, by decide⟩
  · rw [hlast] at h
    simp only at h
    split_ifs at h with htop
    cases h
    obtain ⟨init, rfl⟩ := List.getLast?_eq_some_iff.mp hlast
    refine ⟨toNat_foldr_le _ hlen, ?_⟩
    rw [toNat_foldr_le _ hlen, leValue_append_singleton]
    have hinit : init.length ≤ 7 := by simp at hlen; omega
    have hlt := leValue_lt init
    have hpow : 256 ^ init.length ≤ 256 ^ 7 := Nat.pow_le_pow_right (by norm_num) hinit
    -- a last byte below 0x80 keeps the value below 128 times the weight of that byte
    have hbelow : leValue init + 256 ^ init.length * last.toNat < 256 ^ init.length * 128 := by
      nlinarith
    calc leValue init + 256 ^ init.length * last.toNat < 256 ^ init.length * 128 := hbelow
      _ ≤ 256 ^ 7 * 128 := Nat.mul_le_mul_right _ hpow
      _ = 2 ^ 63 := by norm_num

/-- What `vch_to_uint64` accepts is below `2 ^ 63`: it refuses more than eight bytes. -/
theorem toNat_lt_of_vchToUInt64 {vch : List UInt8} {result : UInt64} (h : vchToUInt64 vch = .ok result) :
    result.toNat < 2 ^ 63 := by
  have hlen : vch.length ≤ 8 := by
    by_contra hlong
    rw [vchToUInt64, if_pos (by omega)] at h
    cases h
  exact (vchToUInt64_eq_ok hlen h).2

end RoundTrip

/-- Script numbers round-trip: every `int64_t` but `INT64_MIN` is serialized, passes
`CScriptNum(serialize(n), true, 9)` and comes back; `vch_to_uint64` inverts `serialize` on the
non-negative values; and on a vector of at most eight bytes that it accepts, `vch_to_uint64`
returns the little-endian value, below `2 ^ 63`. -/
theorem scriptNum_roundTrip :
    (∀ n : Int64, n ≠ Int64.minValue →
      ∃ vch, CScriptNum.serialize n = some vch ∧ CScriptNum.ofVch vch true 9 = .ok ⟨n⟩) ∧
    (∀ n : Int64, 0 ≤ n → ∃ vch, CScriptNum.serialize n = some vch ∧ vchToUInt64 vch = .ok n.toUInt64) ∧
    (∀ vch : List UInt8, vch.length ≤ 8 → ∀ result : UInt64, vchToUInt64 vch = .ok result →
      result.toNat = leValue vch ∧ result.toNat < 2 ^ 63) :=
  ⟨fun _ hmin => ofVch_serialize hmin, fun _ hn => vchToUInt64_serialize hn,
    fun _ hlen _ h => vchToUInt64_eq_ok hlen h⟩

end UnitedBitcoin.Script
