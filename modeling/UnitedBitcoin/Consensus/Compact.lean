import Mathlib
import UnitedBitcoin.Consensus.Pow
import UnitedBitcoin.Primitives.ArithUint256

/-!
# The compact target codec on `arith_uint256`

`arith_uint256::SetCompact` and `arith_uint256::GetCompact` (`arith_uint256.cpp`) over the
word model of `base_uint`, with the flags `SetCompact` writes through `pfNegative` and
`pfOverflow`. Through the arithmetic of the words (`arithUint256_arith`) they are the codec on
naturals that retargeting uses: `toNat_setCompact` and `getCompact_eq` connect them to
`Pow.setCompact` and `Pow.getCompact`.

A compact word holds a byte length `nSize` in its top byte and a 23-bit mantissa below the
sign bit `0x00800000`. `GetCompact` keeps the top three bytes of the value, or the top two
when the third would set the sign bit; `compactTruncate` is what is kept. The main result,
`setCompact_getCompact`, says that decoding an encoded value never raises a flag and gives
that truncation, that encoding again gives the same word, and that the round trip is monotone.
-/

namespace UnitedBitcoin.Arith

open UnitedBitcoin.Library

/-! ## The codec on the words -/

/-- `arith_uint256::SetCompact(nCompact, pfNegative, pfOverflow)`: the value and the two flags.
For `nSize <= 3` the mantissa is shifted down before the flags are computed from it. -/
def setCompact (nCompact : UInt32) : ArithUint256 × Bool × Bool :=
  let nSize := (nCompact >>> 24).toNat
  let nWord := nCompact &&& 0x007fffff
  let nWord := if nSize ≤ 3 then nWord >>> (8 * (3 - nSize)).toUInt32 else nWord
  let value : ArithUint256 :=
    if nSize ≤ 3 then BaseUint.ofUInt64 nWord.toUInt64
    else (BaseUint.ofUInt64 nWord.toUInt64).shiftLeft (8 * (nSize - 3)).toUInt32
  let fNegative := nWord != 0 && nCompact &&& 0x00800000 != 0
  let fOverflow := nWord != 0 &&
    (decide (nSize > 34) || decide (nWord > 0xff) && decide (nSize > 33) ||
      decide (nWord > 0xffff) && decide (nSize > 32))
  (value, fNegative, fOverflow)

/-- `arith_uint256::GetCompact(fNegative)`. -/
def getCompact (a : ArithUint256) (fNegative : Bool) : UInt32 :=
  let nSize := (a.bits + 7) / 8
  let nCompact : UInt32 :=
    if nSize ≤ 3 then (a.getLow64 <<< (8 * (3 - nSize)).toUInt64).toUInt32
    else (a.shiftRight (8 * (nSize - 3)).toUInt32).getLow64.toUInt32
  -- a mantissa that would set the sign bit loses its low byte to one more byte of length
  let signBit := nCompact &&& 0x00800000 != 0
  let nSize := if signBit then nSize + 1 else nSize
  let nCompact := if signBit then nCompact >>> 8 else nCompact
  let nCompact := nCompact ||| nSize.toUInt32 <<< 24
  nCompact ||| if fNegative && nCompact &&& 0x007fffff != 0 then 0x00800000 else 0

/-! ## What the codec keeps -/

/-- The bytes of `x` below the ones `GetCompact` keeps: all but the top three, or all but the
top two when the top bit of the three is set, as it would read as the sign. -/
def compactDropped (x : Nat) : Nat :=
  let nSize := (x.size + 7) / 8
  if x.size % 8 = 0 then nSize - 2 else nSize - 3

/-- `x` with the bytes `GetCompact` drops cleared. -/
def compactTruncate (x : Nat) : Nat := x / 2 ^ (8 * compactDropped x) * 2 ^ (8 * compactDropped x)

/-! ## The codec on naturals -/

theorem powBits_eq_size (value : Nat) : Pow.bits value = value.size := by
  unfold Pow.bits
  split_ifs with h
  · simp [h]
  · exact (size_eq_of_two_pow_le (Nat.log2_self_le h) Nat.lt_log2_self).symm

/-- The three-byte mantissa `GetCompact` reads before it checks the sign bit. -/
def rawMantissa (x : Nat) : Nat :=
  let nSize := (x.size + 7) / 8
  if nSize ≤ 3 then x * 2 ^ (8 * (3 - nSize)) else x / 2 ^ (8 * (nSize - 3))

section Fields

variable {x : Nat}

theorem size_le_bytes (x : Nat) : x.size ≤ 8 * ((x.size + 7) / 8) := by omega

theorem lt_two_pow_bytes (x : Nat) : x < 2 ^ (8 * ((x.size + 7) / 8)) :=
  lt_of_lt_of_le (Nat.lt_size_self x) (Nat.pow_le_pow_right (by norm_num) (size_le_bytes x))

theorem rawMantissa_lt (x : Nat) : rawMantissa x < 2 ^ 24 := by
  have hx := lt_two_pow_bytes x
  simp only [rawMantissa]
  split_ifs with hsmall
  · calc x * 2 ^ (8 * (3 - (x.size + 7) / 8)) < 2 ^ (8 * ((x.size + 7) / 8)) * 2 ^ (8 * (3 - (x.size + 7) / 8)) :=
          Nat.mul_lt_mul_of_pos_right hx (Nat.two_pow_pos _)
      _ = 2 ^ 24 := by rw [← pow_add]; congr 1; omega
  · rw [Nat.div_lt_iff_lt_mul (Nat.two_pow_pos _), ← pow_add]
    calc x < 2 ^ (8 * ((x.size + 7) / 8)) := hx
      _ = 2 ^ (24 + 8 * ((x.size + 7) / 8 - 3)) := by congr 1; omega

/-- Bit 23 of the mantissa, the one that would read as the sign, is set exactly when the bit
length of a non-zero value is a whole number of bytes. -/
theorem testBit_rawMantissa (x : Nat) : (rawMantissa x).testBit 23 = decide (x ≠ 0 ∧ x.size % 8 = 0) := by
  by_cases hzero : x = 0
  · subst hzero
    simp [rawMantissa]
  have hsize : 0 < x.size := Nat.size_pos.mpr (Nat.pos_of_ne_zero hzero)
  -- bit 23 of the mantissa is bit `8 * nSize - 1` of `x`
  have htop : (rawMantissa x).testBit 23 = x.testBit (8 * ((x.size + 7) / 8) - 1) := by
    simp only [rawMantissa]
    split_ifs with hsmall
    · rw [Nat.testBit_mul_two_pow, decide_eq_true (by omega : 8 * (3 - (x.size + 7) / 8) ≤ 23), Bool.true_and]
      congr 1
      omega
    · rw [Nat.testBit_div_two_pow]
      congr 1
      omega
  rw [htop]
  by_cases hwhole : x.size % 8 = 0
  · have hlow : 2 ^ (8 * ((x.size + 7) / 8) - 1) ≤ x := Nat.lt_size.mp (by omega)
    have hhigh : x < 2 ^ (8 * ((x.size + 7) / 8) - 1 + 1) := by
      rw [show 8 * ((x.size + 7) / 8) - 1 + 1 = x.size by omega]
      exact Nat.lt_size_self x
    rw [Nat.testBit_of_two_pow_le_and_two_pow_add_one_gt hlow hhigh]
    simp [hzero, hwhole]
  · have hlt : x < 2 ^ (8 * ((x.size + 7) / 8) - 1) :=
      lt_of_lt_of_le (Nat.lt_size_self x) (Nat.pow_le_pow_right (by norm_num) (by omega))
    rw [Nat.testBit_lt_two_pow hlt]
    simp [hwhole]

/-- `Pow.getCompact` reads the mantissa and tests its bit 23. -/
theorem powGetCompact_eq (x : Nat) :
    Pow.getCompact x =
      if (rawMantissa x).testBit 23 then UInt32.ofNat (rawMantissa x / 2 ^ 8 + ((x.size + 7) / 8 + 1) * 2 ^ 24)
      else UInt32.ofNat (rawMantissa x + (x.size + 7) / 8 * 2 ^ 24) := by
  simp only [Pow.getCompact, rawMantissa, powBits_eq_size]
  rfl

/-- `Pow.getCompact` as a number: the mantissa and the byte length, moved one byte when the
mantissa would set the sign bit. -/
theorem toNat_powGetCompact (hx : x < 2 ^ 256) :
    (Pow.getCompact x).toNat =
      if x ≠ 0 ∧ x.size % 8 = 0 then rawMantissa x / 2 ^ 8 + ((x.size + 7) / 8 + 1) * 2 ^ 24
      else rawMantissa x + (x.size + 7) / 8 * 2 ^ 24 := by
  have hsize : x.size ≤ 256 := Nat.size_le.mpr hx
  have hmant := rawMantissa_lt x
  rw [powGetCompact_eq, testBit_rawMantissa]
  simp only [decide_eq_true_eq]
  split_ifs <;> rw [UInt32.toNat_ofNat', Nat.mod_eq_of_lt (by omega)]

/-- `Pow.setCompact` of a word with byte length `s` and a mantissa below the sign bit. -/
theorem powSetCompact_of_toNat {c : UInt32} {s m : Nat} (hc : c.toNat = m + s * 2 ^ 24) (hm : m < 2 ^ 23) :
    Pow.setCompact c = if s ≤ 3 then m / 2 ^ (8 * (3 - s)) else m * 2 ^ (8 * (s - 3)) % 2 ^ 256 := by
  have hsize : c.toNat / 2 ^ 24 = s := by rw [hc]; omega
  have hword : c.toNat % 2 ^ 23 = m := by rw [hc]; omega
  simp only [Pow.setCompact, hsize, hword]

theorem div_mul_le_lt {x k : Nat} (hx : x < 2 ^ 256) : x / 2 ^ k * 2 ^ k % 2 ^ 256 = x / 2 ^ k * 2 ^ k :=
  Nat.mod_eq_of_lt (lt_of_le_of_lt (Nat.div_mul_le_self x _) hx)

/-- Decoding what `GetCompact` encodes gives the truncation of the value. -/
theorem powSetCompact_powGetCompact (hx : x < 2 ^ 256) : Pow.setCompact (Pow.getCompact x) = compactTruncate x := by
  have hdecode := toNat_powGetCompact hx
  have hmant := rawMantissa_lt x
  have hbit := testBit_rawMantissa x
  simp only [compactTruncate, compactDropped]
  by_cases hbump : x ≠ 0 ∧ x.size % 8 = 0
  · -- the mantissa lost its low byte to one more byte of length
    rw [if_pos hbump] at hdecode
    rw [powSetCompact_of_toNat hdecode (by omega), if_pos hbump.2]
    simp only [rawMantissa]
    split_ifs with hlong hshort hshort
    · -- at most two bytes: nothing is lost
      have hbytes : (x.size + 7) / 8 - 2 = 0 := by omega
      have hplace : x * 2 ^ (8 * (3 - (x.size + 7) / 8)) = x * 2 ^ (8 * (3 - ((x.size + 7) / 8 + 1))) * 2 ^ 8 := by
        rw [Nat.mul_assoc, ← pow_add]
        congr 2
        omega
      rw [hbytes, hplace, Nat.mul_div_cancel _ (Nat.two_pow_pos _), Nat.mul_div_cancel _ (Nat.two_pow_pos _)]
      simp
    · omega
    · -- exactly three bytes: the low byte goes
      have hthree : (x.size + 7) / 8 = 3 := by omega
      rw [hthree]
      simp only [Nat.sub_self, Nat.mul_zero, pow_zero, Nat.mul_one]
      exact div_mul_le_lt hx
    · rw [Nat.div_div_eq_div_mul, ← pow_add, show 8 * ((x.size + 7) / 8 - 3) + 8 = 8 * ((x.size + 7) / 8 - 2) by omega,
        show (x.size + 7) / 8 + 1 - 3 = (x.size + 7) / 8 - 2 by omega]
      exact div_mul_le_lt hx
  · -- the mantissa is kept whole
    rw [if_neg hbump] at hdecode
    have hclear : (rawMantissa x).testBit 23 = false := by simp [hbit, hbump]
    have hfits : rawMantissa x < 2 ^ 23 := by
      by_contra hge
      have := Nat.testBit_of_two_pow_le_and_two_pow_add_one_gt (Nat.not_lt.mp hge) hmant
      simp_all
    rw [powSetCompact_of_toNat hdecode hfits]
    simp only [rawMantissa]
    split_ifs with hshort hwhole hwhole
    · -- a whole number of bytes without the sign bump: zero
      have hzero : x = 0 := by tauto
      simp [hzero]
    · rw [show (x.size + 7) / 8 - 3 = 0 by omega, Nat.mul_div_cancel _ (Nat.two_pow_pos _)]
      simp
    · exact absurd ⟨fun h => by simp [h] at hshort, hwhole⟩ hbump
    · exact div_mul_le_lt hx

/-! ## Order facts of the truncation -/

theorem compactTruncate_le (x : Nat) : compactTruncate x ≤ x := Nat.div_mul_le_self _ _

theorem compactDropped_lt_size (hx : x ≠ 0) : 8 * compactDropped x < x.size := by
  have hsize : 0 < x.size := Nat.size_pos.mpr (Nat.pos_of_ne_zero hx)
  simp only [compactDropped]
  split_ifs <;> omega

/-- The truncation keeps the top bit. -/
theorem size_compactTruncate (x : Nat) : (compactTruncate x).size = x.size := by
  by_cases hx : x = 0
  · simp [hx, compactTruncate]
  exact size_div_mul_two_pow (compactDropped_lt_size hx)

theorem compactTruncate_mono {x y : Nat} (hxy : x ≤ y) : compactTruncate x ≤ compactTruncate y := by
  by_cases hx : x = 0
  · simp [hx, compactTruncate]
  have hsize : x.size ≤ y.size := Nat.size_le_size hxy
  rcases Nat.lt_or_eq_of_le hsize with hlt | heq
  · -- a shorter value stays below the top bit of the longer one
    have hy : y ≠ 0 := by rintro rfl; simp at hlt
    calc compactTruncate x ≤ x := compactTruncate_le x
      _ ≤ 2 ^ (y.size - 1) := by
          have := Nat.lt_size_self x
          have := Nat.pow_le_pow_right (show 0 < 2 by norm_num) (show x.size ≤ y.size - 1 by omega)
          omega
      _ ≤ compactTruncate y := by
          have hpos : 0 < (compactTruncate y).size := by
            rw [size_compactTruncate]
            exact Nat.size_pos.mpr (Nat.pos_of_ne_zero hy)
          rw [← size_compactTruncate y]
          exact Nat.lt_size.mp (by omega)
  · -- the same bit length drops the same bytes
    have hdropped : compactDropped x = compactDropped y := by simp only [compactDropped, heq]
    unfold compactTruncate
    rw [hdropped]
    exact Nat.mul_le_mul_right _ (Nat.div_le_div_right hxy)

/-- Without the sign bump, the truncation has the mantissa of the value. -/
theorem rawMantissa_compactTruncate (hbump : ¬ (x ≠ 0 ∧ x.size % 8 = 0)) :
    rawMantissa (compactTruncate x) = rawMantissa x := by
  by_cases hx : x = 0
  · simp [hx, compactTruncate]
  have hwhole : x.size % 8 ≠ 0 := fun h => hbump ⟨hx, h⟩
  simp only [rawMantissa, size_compactTruncate]
  simp only [compactTruncate, compactDropped, if_neg hwhole]
  split_ifs with hshort
  · rw [show (x.size + 7) / 8 - 3 = 0 by omega]
    simp
  · rw [Nat.mul_div_cancel _ (Nat.two_pow_pos _)]

/-- With the sign bump, the truncation has the two-byte mantissa of the value. -/
theorem rawMantissa_compactTruncate_div (hbump : x ≠ 0 ∧ x.size % 8 = 0) :
    rawMantissa (compactTruncate x) / 2 ^ 8 = rawMantissa x / 2 ^ 8 := by
  simp only [rawMantissa, size_compactTruncate]
  simp only [compactTruncate, compactDropped, if_pos hbump.2]
  split_ifs with hshort
  · by_cases htwo : (x.size + 7) / 8 ≤ 2
    · rw [show (x.size + 7) / 8 - 2 = 0 by omega]
      simp
    · -- three bytes: the low one goes
      rw [show (x.size + 7) / 8 = 3 by omega]
      simp
  · have hplace : 2 ^ (8 * ((x.size + 7) / 8 - 2)) = 2 ^ 8 * 2 ^ (8 * ((x.size + 7) / 8 - 3)) := by
      rw [← pow_add]
      congr 1
      omega
    rw [hplace, ← Nat.mul_assoc, Nat.mul_div_cancel _ (Nat.two_pow_pos _), Nat.mul_div_cancel _ (Nat.two_pow_pos _),
      Nat.div_div_eq_div_mul, Nat.mul_comm (2 ^ (8 * _))]

/-- Encoding the truncation gives the word of the value. -/
theorem powGetCompact_compactTruncate (hx : x < 2 ^ 256) : Pow.getCompact (compactTruncate x) = Pow.getCompact x := by
  have htrunc : compactTruncate x < 2 ^ 256 := lt_of_le_of_lt (compactTruncate_le x) hx
  have hzero : compactTruncate x ≠ 0 ↔ x ≠ 0 := by
    rw [ne_eq, ne_eq, ← Nat.size_eq_zero (n := compactTruncate x), size_compactTruncate, Nat.size_eq_zero]
  apply UInt32.toNat_inj.mp
  rw [toNat_powGetCompact htrunc, toNat_powGetCompact hx, size_compactTruncate]
  simp only [hzero]
  split_ifs with hbump
  · rw [rawMantissa_compactTruncate_div hbump]
  · rw [rawMantissa_compactTruncate hbump]

end Fields

/-! ## The words refine the naturals -/

theorem toNat_ofNat_toUInt32 {n : Nat} (h : n < 2 ^ 32) : n.toUInt32.toNat = n := by
  simp only [Nat.toUInt32, UInt32.toNat_ofNat']
  exact Nat.mod_eq_of_lt h

theorem toNat_ofNat_toUInt64 {n : Nat} (h : n < 2 ^ 64) : n.toUInt64.toNat = n := by
  simp only [Nat.toUInt64, UInt64.toNat_ofNat']
  exact Nat.mod_eq_of_lt h

/-- The byte length `nCompact >> 24`. -/
theorem toNat_sizeField (nCompact : UInt32) : (nCompact >>> 24).toNat = nCompact.toNat / 2 ^ 24 := by
  rw [UInt32.toNat_shiftRight, Nat.shiftRight_eq_div_pow]
  rfl

/-- The mantissa `nCompact & 0x007fffff`. -/
theorem toNat_wordField (nCompact : UInt32) : (nCompact &&& 0x007fffff).toNat = nCompact.toNat % 2 ^ 23 := by
  rw [UInt32.toNat_and, show (0x007fffff : UInt32).toNat = 2 ^ 23 - 1 from rfl, Nat.and_two_pow_sub_one_eq_mod]

/-- `SetCompact` on the words is `Pow.setCompact`. -/
theorem toNat_setCompact (nCompact : UInt32) : (setCompact nCompact).1.toNat = Pow.setCompact nCompact := by
  have hsize := toNat_sizeField nCompact
  have hword := toNat_wordField nCompact
  have hbyte : nCompact.toNat / 2 ^ 24 < 256 := by
    have := nCompact.toNat_lt
    omega
  simp only [setCompact, Pow.setCompact, hsize]
  split_ifs with hshort
  · rw [BaseUint.toNat_ofUInt64 (by norm_num), UInt32.toNat_toUInt64, UInt32.toNat_shiftRight, hword,
      toNat_ofNat_toUInt32 (by omega), Nat.mod_eq_of_lt (by omega : 8 * (3 - nCompact.toNat / 2 ^ 24) < 32),
      Nat.shiftRight_eq_div_pow]
  · rw [BaseUint.toNat_shiftLeft, BaseUint.toNat_ofUInt64 (by norm_num), UInt32.toNat_toUInt64, hword,
      toNat_ofNat_toUInt32 (by omega)]

/-- A mantissa below `2 ^ 24` and a byte length in the top byte do not overlap. -/
theorem toNat_or_size {w : UInt32} {s : Nat} (hw : w.toNat < 2 ^ 24) (hs : s < 256) :
    (w ||| s.toUInt32 <<< 24).toNat = w.toNat + s * 2 ^ 24 := by
  have hhigh : s * 2 ^ 24 < 2 ^ 32 := by omega
  rw [UInt32.toNat_or, UInt32.toNat_shiftLeft, toNat_ofNat_toUInt32 (by omega),
    show (24 : UInt32).toNat % 32 = 24 from rfl, Nat.shiftLeft_eq, Nat.mod_eq_of_lt hhigh, Nat.or_comm,
    Nat.mul_comm s, ← Nat.two_pow_add_eq_or_of_lt hw]
  ring

/-- The test `nCompact & 0x00800000` reads bit 23. -/
theorem and_signBit_ne_zero (w : UInt32) : (w &&& 0x00800000 != 0) = w.toNat.testBit 23 := by
  have hand : (w &&& 0x00800000).toNat = (w.toNat.testBit 23).toNat * 2 ^ 23 := by
    rw [UInt32.toNat_and, ← Nat.and_two_pow]
    rfl
  have hzero : w &&& 0x00800000 = 0 ↔ w.toNat.testBit 23 = false := by
    rw [← UInt32.toNat_inj, hand]
    cases w.toNat.testBit 23 <;> simp
  cases h : w.toNat.testBit 23
  · simpa using hzero.mpr h
  · simpa [h] using hzero

/-- The mantissa `GetCompact` reads from the words is `rawMantissa`. -/
theorem getCompact_mantissa (a : ArithUint256) :
    (if (a.bits + 7) / 8 ≤ 3 then (a.getLow64 <<< (8 * (3 - (a.bits + 7) / 8)).toUInt64).toUInt32
      else (a.shiftRight (8 * ((a.bits + 7) / 8 - 3)).toUInt32).getLow64.toUInt32) =
      (rawMantissa a.toNat).toUInt32 := by
  have hmant := rawMantissa_lt a.toNat
  have hsize : a.toNat.size ≤ 256 := Nat.size_le.mpr a.toNat_lt
  apply UInt32.toNat_inj.mp
  rw [toNat_ofNat_toUInt32 (by omega), BaseUint.bits_eq_size]
  simp only [rawMantissa] at hmant ⊢
  split_ifs at hmant ⊢ with hshort
  · -- a value of at most three bytes, moved up to fill them
    have hsmall : a.toNat < 2 ^ 64 := by
      have := Nat.le_mul_of_pos_right a.toNat (Nat.two_pow_pos (8 * (3 - (a.toNat.size + 7) / 8)))
      omega
    have hshift : (8 * (3 - (a.toNat.size + 7) / 8)).toUInt64.toNat % 64 = 8 * (3 - (a.toNat.size + 7) / 8) := by
      rw [toNat_ofNat_toUInt64 (by omega)]
      omega
    have hfits64 : a.toNat * 2 ^ (8 * (3 - (a.toNat.size + 7) / 8)) < 2 ^ 64 := by omega
    rw [UInt64.toNat_toUInt32, UInt64.toNat_shiftLeft, BaseUint.toNat_getLow64 (by norm_num), Nat.mod_eq_of_lt hsmall,
      hshift, Nat.shiftLeft_eq, Nat.mod_eq_of_lt hfits64, Nat.mod_eq_of_lt (by omega : _ < 2 ^ 32)]
  · -- a longer value, moved down to its top three bytes
    have hfits64 : a.toNat / 2 ^ (8 * ((a.toNat.size + 7) / 8 - 3)) < 2 ^ 64 := by omega
    rw [UInt64.toNat_toUInt32, BaseUint.toNat_getLow64 (by norm_num), BaseUint.toNat_shiftRight,
      toNat_ofNat_toUInt32 (by omega), Nat.mod_eq_of_lt hfits64, Nat.mod_eq_of_lt (by omega : _ < 2 ^ 32)]

/-- `GetCompact` of a non-negative value on the words is `Pow.getCompact` on its value. -/
theorem getCompact_eq (a : ArithUint256) : getCompact a false = Pow.getCompact a.toNat := by
  have hsize : a.toNat.size ≤ 256 := Nat.size_le.mpr a.toNat_lt
  have hmant := rawMantissa_lt a.toNat
  have hword : (rawMantissa a.toNat).toUInt32.toNat = rawMantissa a.toNat := toNat_ofNat_toUInt32 (by omega)
  apply UInt32.toNat_inj.mp
  rw [toNat_powGetCompact a.toNat_lt]
  simp only [getCompact]
  rw [getCompact_mantissa]
  simp only [and_signBit_ne_zero, hword, testBit_rawMantissa, BaseUint.bits_eq_size, Bool.false_and,
    Bool.false_eq_true, if_false, UInt32.or_zero, decide_eq_true_eq]
  split_ifs with hsign
  · -- the sign bit is set: the mantissa loses its low byte and the length gains one
    have hlow : (rawMantissa a.toNat).toUInt32 >>> 8 = (rawMantissa a.toNat / 2 ^ 8).toUInt32 := by
      apply UInt32.toNat_inj.mp
      rw [UInt32.toNat_shiftRight, hword, toNat_ofNat_toUInt32 (by omega), Nat.shiftRight_eq_div_pow]
      rfl
    rw [hlow, toNat_or_size (by rw [toNat_ofNat_toUInt32 (by omega)]; omega) (by omega),
      toNat_ofNat_toUInt32 (by omega)]
  · rw [toNat_or_size (by omega) (by omega), hword]

-- a three-byte mantissa `0xc0de00` would read as negative: it becomes `0x00c0de` with one more byte
example : getCompact (BaseUint.ofUInt64 0xc0de000000) false = 0x0600c0de := by decide

/-- A compact word with a clear sign bit, at most 32 bytes of length, or 33 with a mantissa of
two bytes, raises neither flag of `SetCompact`. -/
theorem setCompact_flags_of_toNat {c : UInt32} {s m : Nat} (hc : c.toNat = m + s * 2 ^ 24) (hm : m < 2 ^ 23)
    (hs : s ≤ 32 ∨ s = 33 ∧ m < 2 ^ 16) : (setCompact c).2 = (false, false) := by
  have hsize : (c >>> 24).toNat = s := by rw [toNat_sizeField, hc]; omega
  have hword : (c &&& 0x007fffff).toNat = m := by rw [toNat_wordField, hc]; omega
  have hsign : (c &&& 0x00800000 != 0) = false := by
    rw [and_signBit_ne_zero, hc, Nat.testBit_eq_decide_div_mod_eq]
    simp only [decide_eq_false_iff_not]
    omega
  simp only [setCompact, hsize, hsign, Bool.and_false, Prod.mk.injEq, true_and]
  rcases hs with hs | ⟨rfl, hm16⟩
  · -- no length above 32 bytes is flagged
    have hlen : ¬s > 34 ∧ ¬s > 33 ∧ ¬s > 32 := by omega
    simp [hlen]
  · -- 33 bytes are flagged only with a mantissa of more than two bytes
    have hnarrow : ¬(c &&& 0x007fffff) > 0xffff := by
      rw [gt_iff_lt, UInt32.lt_iff_toNat_lt, hword, show (0xffff : UInt32).toNat = 2 ^ 16 - 1 from rfl]
      omega
    simp [hnarrow]

/-! ## The round trip -/

/-- Decoding what `GetCompact` encodes raises neither flag: the encoder never sets the sign bit
and never writes more than 33 bytes of length, and 33 only with a two-byte mantissa. -/
theorem setCompact_getCompact_flags (x : ArithUint256) : (setCompact (getCompact x false)).2 = (false, false) := by
  have hsize : x.toNat.size ≤ 256 := Nat.size_le.mpr x.toNat_lt
  have hmant := rawMantissa_lt x.toNat
  have hc := toNat_powGetCompact x.toNat_lt
  rw [getCompact_eq]
  split_ifs at hc with hsign
  · exact setCompact_flags_of_toNat hc (by omega) (by omega)
  · have hbit := testBit_rawMantissa x.toNat
    rw [decide_eq_false hsign, Nat.testBit_eq_decide_div_mod_eq, decide_eq_false_iff_not] at hbit
    exact setCompact_flags_of_toNat hc (by omega) (by omega)

theorem toNat_setCompact_getCompact (x : ArithUint256) :
    (setCompact (getCompact x false)).1.toNat = compactTruncate x.toNat := by
  rw [toNat_setCompact, getCompact_eq, powSetCompact_powGetCompact x.toNat_lt]

theorem getCompact_setCompact_getCompact (x : ArithUint256) :
    getCompact (setCompact (getCompact x false)).1 false = getCompact x false := by
  rw [getCompact_eq, toNat_setCompact_getCompact, getCompact_eq,
    powGetCompact_compactTruncate x.toNat_lt]

theorem setCompact_getCompact (x : ArithUint256) :
    (setCompact (getCompact x false)).2 = (false, false) ∧
    (setCompact (getCompact x false)).1.toNat = compactTruncate x.toNat ∧
    getCompact (setCompact (getCompact x false)).1 false = getCompact x false ∧
    ∀ y : ArithUint256, x.toNat ≤ y.toNat →
      (setCompact (getCompact x false)).1.toNat ≤ (setCompact (getCompact y false)).1.toNat := by
  refine ⟨setCompact_getCompact_flags x, toNat_setCompact_getCompact x, getCompact_setCompact_getCompact x, ?_⟩
  intro y hxy
  rw [toNat_setCompact_getCompact, toNat_setCompact_getCompact]
  exact compactTruncate_mono hxy

end UnitedBitcoin.Arith
