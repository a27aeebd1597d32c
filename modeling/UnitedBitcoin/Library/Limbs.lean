import Mathlib

/-!
# Numbers held in fixed-width digit arrays

A multi-word integer keeps its value as digits `digit 0, digit 1, …` in some base, the least
significant first, and `limbValue base digit n` is the number the first `n` of them stand for.
The lemmas are those that word-level loops over such arrays need:

* the value is below `base ^ n` (`limbValue_lt`), and its digits can be read back from it
  (`limbValue_div_pow_mod`); the value of the digits of `x` is `x % base ^ n`
  (`limbValue_digits`);
* overwriting one digit changes the value by the difference at that place
  (`limbValue_update`), which is the step of every conservation invariant of a loop that
  writes one word per iteration;
* digit-wise sums and multiples (`limbValue_add`, `limbValue_mul_left`), and the value of
  all-maximal digits (`limbValue_const_pred`);
* values compare by their most significant digit first (`limbValue_succ_lt_succ_iff`);
* in base `2 ^ w`, the bits of the value are the bits of the digits (`testBit_limbValue`),
  and a top digit `d ≠ 0` above `m` bits gives bit length `m + d.size`
  (`size_add_mul_two_pow`).
-/

namespace UnitedBitcoin.Library

section LimbValue

variable (base : Nat)

/-- The number held by the digits `digit 0, …, digit (n - 1)`, least significant first. -/
def limbValue (digit : Nat → Nat) : Nat → Nat
  | 0 => 0
  | n + 1 => limbValue digit n + digit n * base ^ n

variable {base}

@[simp]
theorem limbValue_zero (digit : Nat → Nat) : limbValue base digit 0 = 0 := rfl

@[simp]
theorem limbValue_succ (digit : Nat → Nat) (n : Nat) :
    limbValue base digit (n + 1) = limbValue base digit n + digit n * base ^ n := rfl

/-- Only the first `n` digits count. -/
theorem limbValue_congr {digit digit' : Nat → Nat} {n : Nat} (h : ∀ i < n, digit i = digit' i) :
    limbValue base digit n = limbValue base digit' n := by
  induction n with
  | zero => rfl
  | succ n ih => rw [limbValue_succ, limbValue_succ, ih fun i hi => h i (by omega), h n (by omega)]

@[simp]
theorem limbValue_const_zero (n : Nat) : limbValue base (fun _ => 0) n = 0 := by
  induction n with
  | zero => rfl
  | succ n ih => simp [ih]

theorem limbValue_lt {digit : Nat → Nat} {n : Nat} (hdigit : ∀ i < n, digit i < base) :
    limbValue base digit n < base ^ n := by
  induction n with
  | zero => simp
  | succ n ih =>
    have hlow := ih fun i hi => hdigit i (by omega)
    have htop : digit n + 1 ≤ base := hdigit n (by omega)
    calc limbValue base digit n + digit n * base ^ n
        < base ^ n + digit n * base ^ n := by omega
      _ = (digit n + 1) * base ^ n := by ring
      _ ≤ base * base ^ n := Nat.mul_le_mul_right _ htop
      _ = base ^ (n + 1) := by ring

theorem limbValue_add (digit digit' : Nat → Nat) (n : Nat) :
    limbValue base (fun i => digit i + digit' i) n = limbValue base digit n + limbValue base digit' n := by
  induction n with
  | zero => rfl
  | succ n ih => simp only [limbValue_succ, ih]; ring

theorem limbValue_mul_left (c : Nat) (digit : Nat → Nat) (n : Nat) :
    limbValue base (fun i => c * digit i) n = c * limbValue base digit n := by
  induction n with
  | zero => rfl
  | succ n ih => simp only [limbValue_succ, ih]; ring

/-- All digits `base - 1`: the largest value `n` digits hold. -/
theorem limbValue_const_pred (hbase : 0 < base) (n : Nat) :
    limbValue base (fun _ => base - 1) n + 1 = base ^ n := by
  induction n with
  | zero => rfl
  | succ n ih =>
    obtain ⟨b, rfl⟩ : ∃ b, base = b + 1 := ⟨base - 1, by omega⟩
    rw [limbValue_succ, add_right_comm, ih]
    simp only [Nat.add_sub_cancel]
    ring

/-- Overwriting digit `i < n` with `v` trades `digit i` for `v` at place `i`. -/
theorem limbValue_update (digit : Nat → Nat) {i n : Nat} (hi : i < n) (v : Nat) :
    limbValue base (Function.update digit i v) n + digit i * base ^ i =
      limbValue base digit n + v * base ^ i := by
  induction n with
  | zero => omega
  | succ n ih =>
    rcases Nat.lt_succ_iff_lt_or_eq.mp hi with hlt | rfl
    · have htop : Function.update digit i v n = digit n := Function.update_of_ne (by omega) _ _
      rw [limbValue_succ, limbValue_succ, htop, add_right_comm, ih hlt]
      ring
    · have hbelow : limbValue base (Function.update digit i v) i = limbValue base digit i :=
        limbValue_congr fun j hj => Function.update_of_ne (by omega) _ _
      rw [limbValue_succ, limbValue_succ, hbelow, Function.update_self]
      ring

/-- Digit `i` can be read back from the value when every digit is below the base. -/
theorem limbValue_div_pow_mod {digit : Nat → Nat} {n i : Nat} (hdigit : ∀ j < n, digit j < base)
    (hi : i < n) : limbValue base digit n / base ^ i % base = digit i := by
  induction n with
  | zero => omega
  | succ n ih =>
    have hbase : 0 < base := Nat.lt_of_le_of_lt (Nat.zero_le _) (hdigit 0 (by omega))
    have hlow := limbValue_lt fun j (hj : j < n) => hdigit j (by omega)
    rw [limbValue_succ]
    rcases Nat.lt_succ_iff_lt_or_eq.mp hi with hlt | rfl
    · -- the new top digit sits at a multiple of `base ^ (i + 1)` and drops out
      obtain ⟨m, hm⟩ : ∃ m, n = i + 1 + m := ⟨n - i - 1, by omega⟩
      have hplace : digit n * base ^ n = digit n * base ^ m * base * base ^ i := by
        rw [hm]
        ring
      rw [hplace, Nat.add_mul_div_right _ _ (Nat.pow_pos hbase), Nat.add_mul_mod_self_right]
      exact ih (fun j hj => hdigit j (by omega)) hlt
    · rw [Nat.add_mul_div_right _ _ (Nat.pow_pos hbase), Nat.div_eq_of_lt hlow, zero_add]
      exact Nat.mod_eq_of_lt (hdigit _ (by omega))

/-- The digits of `x` hold `x` modulo `base ^ n`. -/
theorem limbValue_digits (x n : Nat) :
    limbValue base (fun i => x / base ^ i % base) n = x % base ^ n := by
  induction n with
  | zero => simp [Nat.mod_one]
  | succ n ih => rw [limbValue_succ, ih, Nat.mod_pow_succ]; ring

/-- Two values of `n + 1` digits compare by their top digit first, then by the rest. -/
theorem limbValue_succ_lt_succ_iff {digit digit' : Nat → Nat} {n : Nat}
    (hdigit : ∀ i < n, digit i < base) (hdigit' : ∀ i < n, digit' i < base) :
    limbValue base digit (n + 1) < limbValue base digit' (n + 1) ↔
      digit n < digit' n ∨ digit n = digit' n ∧ limbValue base digit n < limbValue base digit' n := by
  have hlow := limbValue_lt hdigit
  have hlow' := limbValue_lt hdigit'
  simp only [limbValue_succ]
  constructor
  · intro hlt
    rcases Nat.lt_trichotomy (digit n) (digit' n) with htop | htop | htop
    · exact .inl htop
    · rw [htop] at hlt ⊢
      exact .inr ⟨rfl, by omega⟩
    · have hplace : (digit' n + 1) * base ^ n ≤ digit n * base ^ n := Nat.mul_le_mul_right _ htop
      rw [Nat.add_mul] at hplace
      omega
  · rintro (htop | ⟨htop, hrest⟩)
    · have hplace : (digit n + 1) * base ^ n ≤ digit' n * base ^ n := Nat.mul_le_mul_right _ htop
      rw [Nat.add_mul] at hplace
      omega
    · rw [htop]
      omega

/-! ## Binary digits -/

/-- In base `2 ^ w`, bit `c < w` of digit `i` is bit `w * i + c` of the value; above the `n`
digits every bit is clear. -/
theorem testBit_limbValue {w : Nat} {digit : Nat → Nat} {n : Nat} (hdigit : ∀ i < n, digit i < 2 ^ w)
    (i : Nat) {c : Nat} (hc : c < w) :
    (limbValue (2 ^ w) digit n).testBit (w * i + c) = if i < n then (digit i).testBit c else false := by
  split_ifs with hi
  · have hread := limbValue_div_pow_mod hdigit hi
    rw [← hread, ← pow_mul, Nat.testBit_mod_two_pow, Nat.testBit_div_two_pow]
    simp [hc, Nat.add_comm]
  · apply Nat.testBit_lt_two_pow
    calc limbValue (2 ^ w) digit n < (2 ^ w) ^ n := limbValue_lt hdigit
      _ = 2 ^ (w * n) := by rw [← pow_mul]
      _ ≤ 2 ^ (w * i + c) := Nat.pow_le_pow_right (by norm_num) (by nlinarith)

end LimbValue

/-- Setting a clear bit adds its weight. -/
theorem or_two_pow_eq_add {x k : Nat} (hclear : x.testBit k = false) : x ||| 2 ^ k = x + 2 ^ k := by
  have hsplit := Nat.div_add_mod x (2 ^ (k + 1))
  have hlow : x % 2 ^ (k + 1) < 2 ^ k := by
    have hbit : x / 2 ^ k % 2 = 0 := by
      have := Nat.testBit_eq_decide_div_mod_eq (x := x) (i := k)
      rw [hclear] at this
      simp at this
      omega
    rw [Nat.mod_pow_succ, hbit]
    simpa using Nat.mod_lt x (Nat.two_pow_pos k)
  calc x ||| 2 ^ k = (2 ^ (k + 1) * (x / 2 ^ (k + 1)) ||| x % 2 ^ (k + 1)) ||| 2 ^ k := by
        rw [← Nat.two_pow_add_eq_or_of_lt (Nat.mod_lt x (Nat.two_pow_pos _)), hsplit]
    _ = 2 ^ (k + 1) * (x / 2 ^ (k + 1)) ||| (x % 2 ^ (k + 1) + 2 ^ k) := by
        rw [Nat.or_assoc, Nat.or_two_pow_eq_add_of_lt hlow]
    _ = 2 ^ (k + 1) * (x / 2 ^ (k + 1)) + (x % 2 ^ (k + 1) + 2 ^ k) := by
        have hdouble := Nat.pow_succ 2 k
        rw [Nat.two_pow_add_eq_or_of_lt (by omega)]
    _ = x + 2 ^ k := by omega

/-- A number with its top bit at `k` has bit length `k + 1`. -/
theorem size_eq_of_two_pow_le {x k : Nat} (hlow : 2 ^ k ≤ x) (hhigh : x < 2 ^ (k + 1)) : x.size = k + 1 :=
  le_antisymm (Nat.size_le.mpr hhigh) (Nat.lt_size.mpr hlow)

/-- Clearing the bits below `k` keeps the bit length when the top bit is above them. -/
theorem size_div_mul_two_pow {x k : Nat} (hk : k < x.size) : (x / 2 ^ k * 2 ^ k).size = x.size := by
  apply le_antisymm (Nat.size_le_size (Nat.div_mul_le_self _ _))
  have htop : 2 ^ (x.size - 1) ≤ x := Nat.lt_size.mp (by omega)
  have hquot : 2 ^ (x.size - 1 - k) ≤ x / 2 ^ k := by
    rw [Nat.le_div_iff_mul_le (Nat.two_pow_pos _), ← pow_add, show x.size - 1 - k + k = x.size - 1 by omega]
    exact htop
  have hlow : 2 ^ (x.size - 1) ≤ x / 2 ^ k * 2 ^ k :=
    calc 2 ^ (x.size - 1) = 2 ^ (x.size - 1 - k) * 2 ^ k := by rw [← pow_add]; congr 1; omega
      _ ≤ x / 2 ^ k * 2 ^ k := Nat.mul_le_mul_right _ hquot
  have := Nat.lt_size.mpr hlow
  omega

/-- A top part `d ≠ 0` above `m` low bits: the bit length is `m + d.size`. -/
theorem size_add_mul_two_pow {x d m : Nat} (hx : x < 2 ^ m) (hd : d ≠ 0) :
    (x + d * 2 ^ m).size = m + d.size := by
  have hdsize : 0 < d.size := Nat.size_pos.mpr (Nat.pos_of_ne_zero hd)
  apply le_antisymm
  · rw [Nat.size_le]
    have hfit : d + 1 ≤ 2 ^ d.size := Nat.lt_size_self d
    calc x + d * 2 ^ m < (d + 1) * 2 ^ m := by rw [Nat.add_mul]; omega
      _ ≤ 2 ^ d.size * 2 ^ m := Nat.mul_le_mul_right _ hfit
      _ = 2 ^ (m + d.size) := by rw [← pow_add, Nat.add_comm]
  · have htop : 2 ^ (d.size - 1) ≤ d := Nat.lt_size.mp (by omega)
    have hlower : 2 ^ (m + d.size - 1) ≤ x + d * 2 ^ m :=
      calc 2 ^ (m + d.size - 1) = 2 ^ (d.size - 1) * 2 ^ m := by rw [← pow_add]; congr 1; omega
        _ ≤ d * 2 ^ m := Nat.mul_le_mul_right _ htop
        _ ≤ x + d * 2 ^ m := Nat.le_add_left _ _
    have := Nat.lt_size.mpr hlower
    omega

end UnitedBitcoin.Library
