import Mathlib

/-!
# Two words as sixty-four two-bit cells

A pair of 64-bit words stores 64 cells of two bits each: cell `b` is bit `b` of the first word
plus twice bit `b` of the second (`cellAt`). The lemmas say what the usual word operations do to
the cells. Replacing bit `b` of both words writes one cell (`cellAt_setBitTo`). The masked AND of
`clearCells` empties exactly the cells that hold one value (`cellAt_clearCells`). The OR of the
two words, shifted and masked, tests a cell for zero (`or_shiftRight_and_one_eq_zero`).
-/

namespace UnitedBitcoin.Library

/-- `x` with bit `b` replaced by the low bit of `c`, which is `0` or `1`. -/
def setBitTo (x b c : UInt64) : UInt64 :=
  (x &&& ~~~((1 : UInt64) <<< b)) ||| (c <<< b)

/-- Cell `b` of a pair of words. -/
def cellAt (w : UInt64 × UInt64) (b : Nat) : Nat :=
  (w.1.toBitVec.getLsbD b).toNat + 2 * (w.2.toBitVec.getLsbD b).toNat

/-- Both words ANDed with the mask of the cells whose two bits differ from those of `m1`
and `m2`. -/
def clearCells (m1 m2 : UInt64) (w : UInt64 × UInt64) : UInt64 × UInt64 :=
  let mask := (w.1 ^^^ m1) ||| (w.2 ^^^ m2)
  (w.1 &&& mask, w.2 &&& mask)

@[simp]
theorem cellAt_zero (b : Nat) : cellAt (0, 0) b = 0 := by
  simp [cellAt]

section Write

theorem getLsbD_setBitTo (x c : UInt64) (hc : c = 0 ∨ c = 1) {b b' : Nat} (hb : b < 64)
    (hb' : b' < 64) :
    (setBitTo x b.toUInt64 c).toBitVec.getLsbD b' =
      if b' = b then decide (c = 1) else x.toBitVec.getLsbD b' := by
  have hmod : b % 64 = b := Nat.mod_eq_of_lt hb
  by_cases h : b' = b
  · subst h
    rcases hc with rfl | rfl <;> simp [setBitTo, hb', hmod]
  · -- bit b' of the shifted bit is off, so bit b' of x passes through
    rcases Nat.lt_or_gt_of_ne h with hlt | hgt
    · rcases hc with rfl | rfl <;> simp [setBitTo, hb', hmod, h, hlt]
    · have hge : ¬b' < b := by omega
      have hsub : b' - b ≠ 0 := by omega
      rcases hc with rfl | rfl <;> simp [setBitTo, hb', hmod, h, hge, hsub]

theorem toUInt64_and_one {v : Nat} (hv : v < 4) :
    (v &&& 1).toUInt64 = 0 ∨ (v &&& 1).toUInt64 = 1 := by
  interval_cases v <;> decide

theorem toUInt64_shiftRight_one {v : Nat} (hv : v < 4) :
    (v >>> 1).toUInt64 = 0 ∨ (v >>> 1).toUInt64 = 1 := by
  interval_cases v <;> decide

/-- Writing the low bit of `v` into the first word and its high bit into the second sets cell
`b` to `v` and leaves every other cell. -/
theorem cellAt_setBitTo (w : UInt64 × UInt64) {v b b' : Nat} (hv : v < 4) (hb : b < 64)
    (hb' : b' < 64) :
    cellAt (setBitTo w.1 b.toUInt64 (v &&& 1).toUInt64,
        setBitTo w.2 b.toUInt64 (v >>> 1).toUInt64) b' =
      if b' = b then v else cellAt w b' := by
  simp only [cellAt, getLsbD_setBitTo _ _ (toUInt64_and_one hv) hb hb',
    getLsbD_setBitTo _ _ (toUInt64_shiftRight_one hv) hb hb']
  split_ifs
  · interval_cases v <;> decide
  · rfl

end Write

section Clear

/-- `0 - c` is the all-zero word for `c = 0` and the all-one word for `c = 1`. -/
theorem getLsbD_zero_sub {c : Nat} (hc : c ≤ 1) {b : Nat} (hb : b < 64) :
    ((0 : UInt64) - c.toUInt64).toBitVec.getLsbD b = decide (c = 1) := by
  interval_cases c
  · simp
  · rw [show ((0 : UInt64) - (1 : Nat).toUInt64).toBitVec = BitVec.allOnes 64 from rfl,
      BitVec.getLsbD_allOnes]
    simp [hb]

/-- With the masks `0 - (v & 1)` and `0 - (v >> 1)`, `clearCells` empties the cells that hold
`v` and keeps the others. -/
theorem cellAt_clearCells (w : UInt64 × UInt64) {v b : Nat} (hv : v < 4) (hb : b < 64) :
    cellAt (clearCells ((0 : UInt64) - (v &&& 1).toUInt64) ((0 : UInt64) - (v >>> 1).toUInt64) w) b =
      if cellAt w b = v then 0 else cellAt w b := by
  have hm1 := getLsbD_zero_sub (c := v &&& 1) (by interval_cases v <;> decide) hb
  have hm2 := getLsbD_zero_sub (c := v >>> 1) (by interval_cases v <;> decide) hb
  simp only [cellAt, clearCells, UInt64.toBitVec_and, UInt64.toBitVec_or, UInt64.toBitVec_xor,
    BitVec.getLsbD_and, BitVec.getLsbD_or, BitVec.getLsbD_xor, hm1, hm2]
  -- the cell's two bits against each of the four values
  rcases Bool.eq_false_or_eq_true (w.1.toBitVec.getLsbD b) with h1 | h1 <;>
    rcases Bool.eq_false_or_eq_true (w.2.toBitVec.getLsbD b) with h2 | h2 <;>
    simp only [h1, h2] <;> interval_cases v <;> decide

end Clear

section Test

theorem shiftRight_and_one_eq_zero (x : UInt64) {b : Nat} (hb : b < 64) :
    (x >>> b.toUInt64) &&& 1 = 0 ↔ x.toBitVec.getLsbD b = false := by
  rw [← UInt64.toNat_inj]
  simp only [UInt64.toNat_and, UInt64.toNat_shiftRight]
  simp [Nat.mod_eq_of_lt hb, Nat.shiftRight_eq_div_pow, BitVec.getLsbD,
    Nat.testBit_eq_decide_div_mod_eq]

/-- Bit `b` of the OR of the two words is off exactly when cell `b` is empty. -/
theorem or_shiftRight_and_one_eq_zero (w : UInt64 × UInt64) {b : Nat} (hb : b < 64) :
    ((w.1 ||| w.2) >>> b.toUInt64) &&& 1 = 0 ↔ cellAt w b = 0 := by
  rw [shiftRight_and_one_eq_zero _ hb, UInt64.toBitVec_or, BitVec.getLsbD_or]
  unfold cellAt
  cases w.1.toBitVec.getLsbD b <;> cases w.2.toBitVec.getLsbD b <;> decide

end Test

end UnitedBitcoin.Library
