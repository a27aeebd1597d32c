import Mathlib

/-!
# Counting in binary

Facts about the low bits of a counter, stated with `x % 2 ^ level` so that `omega` can use
them: how one bit splits the remainder (`mod_two_pow_succ_of_testBit`,
`mod_two_pow_succ_of_not_testBit`), how adding one carries through a run of set bits
(`counter_carry`) and where the carry stops (`counter_stop`), and what adding a power of two
to a rounded-down number does to its bit (`testBit_round_add`).
-/

namespace UnitedBitcoin.Library

theorem mod_two_pow_succ_of_testBit {x level : Nat} (hbit : x.testBit level = true) :
    x % 2 ^ (level + 1) = x % 2 ^ level + 2 ^ level := by
  rw [Nat.mod_pow_succ]
  rw [Nat.testBit_eq_decide_div_mod_eq, decide_eq_true_eq] at hbit
  rw [hbit, mul_one]

theorem mod_two_pow_succ_of_not_testBit {x level : Nat} (hbit : x.testBit level = false) :
    x % 2 ^ (level + 1) = x % 2 ^ level := by
  rw [Nat.mod_pow_succ]
  rw [Nat.testBit_eq_decide_div_mod_eq, decide_eq_false_iff_not] at hbit
  rw [show x / 2 ^ level % 2 = 0 by omega, mul_zero, add_zero]

theorem mod_two_pow_lt (x level : Nat) : x % 2 ^ level < 2 ^ level := Nat.mod_lt _ (Nat.two_pow_pos level)

theorem mod_mod_two_pow {x low high : Nat} (hle : low ≤ high) : x % 2 ^ high % 2 ^ low = x % 2 ^ low :=
  Nat.mod_mod_of_dvd x (pow_dvd_pow 2 hle)

theorem mod_two_pow_le_mod_two_pow {x low high : Nat} (hle : low ≤ high) : x % 2 ^ low ≤ x % 2 ^ high := by
  rw [← mod_mod_two_pow (x := x) hle]
  exact Nat.mod_le _ _

/-- Adding one either wraps the remainder to zero or adds one to it. -/
theorem succ_mod_two_pow (x level : Nat) :
    (x + 1) % 2 ^ level = if x % 2 ^ level + 1 = 2 ^ level then 0 else x % 2 ^ level + 1 := by
  have hlt := mod_two_pow_lt x level
  rw [Nat.add_mod]
  rcases Nat.lt_or_ge 1 (2 ^ level) with hbig | hsmall
  · rw [Nat.one_mod_eq_one.mpr (by omega)]
    split_ifs with hwrap
    · rw [hwrap, Nat.mod_self]
    · exact Nat.mod_eq_of_lt (by omega)
  · have hone : 2 ^ level = 1 := by have := Nat.two_pow_pos level; omega
    simp [hone, Nat.mod_one]

/-- A bit below a position under which the number is zero is clear. -/
theorem testBit_of_mod_eq_zero {x level low : Nat} (hzero : x % 2 ^ level = 0) (hlow : low < level) :
    x.testBit low = false := by
  have hmod : x % 2 ^ (low + 1) = 0 := by
    rw [← mod_mod_two_pow (show low + 1 ≤ level by omega), hzero, Nat.zero_mod]
  cases hbit : x.testBit low
  · rfl
  · have := mod_two_pow_succ_of_testBit hbit
    have := Nat.two_pow_pos low
    omega

/-- Counting one more, on a level whose bit of the new count is clear and below which the new
count is zero: the old count has that bit set and all bits below it. -/
theorem counter_carry {count level : Nat} (hlow : (count + 1) % 2 ^ level = 0)
    (hbit : (count + 1).testBit level = false) :
    count.testBit level = true ∧ count % 2 ^ (level + 1) + 1 = 2 ^ (level + 1) ∧ (count + 1) % 2 ^ (level + 1) = 0 := by
  have hnew : (count + 1) % 2 ^ (level + 1) = 0 := by rw [mod_two_pow_succ_of_not_testBit hbit, hlow]
  have hsucc := succ_mod_two_pow count (level + 1)
  have hpow : 2 ^ (level + 1) = 2 * 2 ^ level := pow_succ' 2 level
  have hwrap : count % 2 ^ (level + 1) + 1 = 2 ^ (level + 1) := by
    split_ifs at hsucc with hwrap
    · exact hwrap
    · omega
  refine ⟨?_, hwrap, hnew⟩
  cases hold : count.testBit level
  · have := mod_two_pow_succ_of_not_testBit hold
    have := mod_two_pow_lt count level
    omega
  · rfl

/-- Counting one more, on the first level whose bit of the new count is set: above it the
bits do not change, and neither does the number rounded down to any higher power of two. -/
theorem counter_stop {count level : Nat} (hlow : (count + 1) % 2 ^ level = 0)
    (hbit : (count + 1).testBit level = true) :
    (count + 1) % 2 ^ (level + 1) = 2 ^ level ∧
      ∀ high, level < high → (count + 1).testBit high = count.testBit high ∧
        (count + 1) % 2 ^ (high + 1) = count % 2 ^ (high + 1) + 1 := by
  have hnew : (count + 1) % 2 ^ (level + 1) = 2 ^ level := by
    rw [mod_two_pow_succ_of_testBit hbit, hlow, zero_add]
  have hpos := Nat.two_pow_pos level
  -- above `level` the new count is not a multiple, so adding one did not wrap there
  have hnowrap : ∀ high, level + 1 ≤ high → (count + 1) % 2 ^ high = count % 2 ^ high + 1 := by
    intro high hhigh
    have hlowPart : (count + 1) % 2 ^ high % 2 ^ (level + 1) = 2 ^ level := by
      rw [mod_mod_two_pow hhigh, hnew]
    have hsucc := succ_mod_two_pow count high
    split_ifs at hsucc with hwrap
    · rw [hsucc, Nat.zero_mod] at hlowPart
      omega
    · exact hsucc
  refine ⟨hnew, fun high hhigh => ⟨?_, hnowrap (high + 1) (by omega)⟩⟩
  have hnext := hnowrap (high + 1) (by omega)
  have hhere := hnowrap high (by omega)
  have hhighPos := Nat.two_pow_pos high
  cases hnewBit : (count + 1).testBit high <;> cases holdBit : count.testBit high
  · rfl
  · have := mod_two_pow_succ_of_not_testBit hnewBit
    have := mod_two_pow_succ_of_testBit holdBit
    omega
  · have := mod_two_pow_succ_of_testBit hnewBit
    have := mod_two_pow_succ_of_not_testBit holdBit
    omega
  · rfl

/-- A number one below a multiple of `2 ^ level` has all the bits below `level` set. -/
theorem mod_add_one_of_succ_mod_eq_zero {x level : Nat} (hzero : (x + 1) % 2 ^ level = 0) :
    x % 2 ^ level + 1 = 2 ^ level := by
  have hsucc := succ_mod_two_pow x level
  split_ifs at hsucc with hwrap
  · exact hwrap
  · omega

/-- Counting one more, on the first level whose bit of the new count is set: the old count
has that bit clear. -/
theorem counter_stop_old {count level : Nat} (hlow : (count + 1) % 2 ^ level = 0)
    (hbit : (count + 1).testBit level = true) : count.testBit level = false := by
  have hnew := mod_two_pow_succ_of_testBit hbit
  rw [hlow, zero_add] at hnew
  have hsucc := succ_mod_two_pow count (level + 1)
  have hpos := Nat.two_pow_pos level
  cases hold : count.testBit level
  · rfl
  · have := mod_two_pow_succ_of_testBit hold
    split_ifs at hsucc <;> omega

/-- Below a number whose lowest set bit is `level`, the powers of two that divide it are
those up to `2 ^ level`. -/
theorem two_pow_succ_dvd_iff_lt {x level : Nat} (hlow : x % 2 ^ level = 0) (hbit : x.testBit level = true)
    (below : Nat) : 2 ^ (below + 1) ∣ x ↔ below < level := by
  constructor
  · intro hdvd
    by_contra hge
    have hzero : x % 2 ^ (level + 1) = 0 :=
      Nat.mod_eq_zero_of_dvd ((pow_dvd_pow 2 (show level + 1 ≤ below + 1 by omega)).trans hdvd)
    rw [mod_two_pow_succ_of_testBit hbit, hlow] at hzero
    have := Nat.two_pow_pos level
    omega
  · intro hlt
    exact (pow_dvd_pow 2 (show below + 1 ≤ level by omega)).trans (Nat.dvd_of_mod_eq_zero hlow)

/-- Rounding down to a higher power of two rounds down further. -/
theorem round_le_round {x low high : Nat} (hle : low ≤ high) : x - x % 2 ^ high ≤ x - x % 2 ^ low := by
  have := mod_two_pow_le_mod_two_pow (x := x) hle
  omega

/-- The block of `2 ^ high` below `x` that a set bit `high` stands for ends where `x`
rounded down to any lower level begins. -/
theorem round_add_le_round_of_testBit {x high low : Nat} (hbit : x.testBit high = true) (hlt : low < high) :
    x - x % 2 ^ (high + 1) + 2 ^ high ≤ x - x % 2 ^ (low + 1) := by
  have hsplit := mod_two_pow_succ_of_testBit hbit
  have hle := mod_two_pow_le_mod_two_pow (x := x) (show low + 1 ≤ high by omega)
  have := Nat.mod_le x (2 ^ (high + 1))
  omega

/-- A number rounded down to a multiple of `2 ^ level` is zero or at least `2 ^ level`. -/
theorem two_pow_le_round {x level : Nat} (hne : x - x % 2 ^ level ≠ 0) : 2 ^ level ≤ x - x % 2 ^ level := by
  have hsplit := Nat.div_add_mod x (2 ^ level)
  have hquot : x / 2 ^ level ≠ 0 := by
    intro hzero
    rw [hzero, mul_zero, zero_add] at hsplit
    omega
  have := Nat.le_mul_of_pos_right (2 ^ level) (Nat.pos_of_ne_zero hquot)
  omega

theorem testBit_eq_decide_le_mod (x level : Nat) :
    x.testBit level = decide (2 ^ level ≤ x % 2 ^ (level + 1)) := by
  have hlt := mod_two_pow_lt x level
  cases hbit : x.testBit level
  · rw [mod_two_pow_succ_of_not_testBit hbit]
    exact (decide_eq_false (by omega)).symm
  · rw [mod_two_pow_succ_of_testBit hbit]
    exact (decide_eq_true (by omega)).symm

theorem round_add_mod (x r level : Nat) :
    (x - x % 2 ^ level + r) % 2 ^ level = r % 2 ^ level := by
  have hsplit : x - x % 2 ^ level = 2 ^ level * (x / 2 ^ level) := by
    have := Nat.div_add_mod x (2 ^ level)
    omega
  rw [hsplit, Nat.mul_add_mod]

/-- Rounding down to a multiple of `2 ^ level` and adding `2 ^ level` flips the bit `level`. -/
theorem testBit_round_add (x level : Nat) :
    (x - x % 2 ^ level + 2 ^ level).testBit level = !x.testBit level := by
  have hpos := Nat.two_pow_pos level
  have hpow : 2 ^ (level + 1) = 2 * 2 ^ level := pow_succ' 2 level
  rw [testBit_eq_decide_le_mod]
  cases hbit : x.testBit level
  · -- the rounded number is `x` rounded to `2 ^ (level + 1)`: adding `2 ^ level` sets the bit
    have hsplit : x - x % 2 ^ level + 2 ^ level = x - x % 2 ^ (level + 1) + 2 ^ level := by
      rw [mod_two_pow_succ_of_not_testBit hbit]
    rw [hsplit, round_add_mod, Nat.mod_eq_of_lt (by omega)]
    simp
  · -- the bit was set: adding `2 ^ level` carries out of it
    have hsplit : x - x % 2 ^ level + 2 ^ level = x - x % 2 ^ (level + 1) + 2 ^ (level + 1) := by
      have := mod_two_pow_succ_of_testBit hbit
      have := Nat.mod_le x (2 ^ (level + 1))
      omega
    rw [hsplit, round_add_mod, Nat.mod_self]
    simp

end UnitedBitcoin.Library
