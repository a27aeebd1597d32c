import Mathlib
import UnitedBitcoin.Library.Limbs

/-!
# `base_uint` and `arith_uint256`

`base_uint<BITS>` (`arith_uint256.h`, `arith_uint256.cpp`) keeps an unsigned number in
`WIDTH = BITS / 32` words `pn[0], …, pn[WIDTH - 1]`, the least significant first, and
`arith_uint256` is `base_uint<256>`. The operators are word loops: carry loops for `+=` and
the two `*=`, the increment loop of `++`, limb-crossing shifts, a top-down scan for
`CompareTo` and `bits()`, and a restoring shift-subtract division.

The words are a `Fin WIDTH → UInt32`, and every intermediate of the loops has the type the
source gives it (`uint32_t`, `uint64_t`), so a carry that does not fit would wrap as it
does in the code. Loop indices are naturals: for `WIDTH = 8` none of the `int`
expressions of the loops can overflow. `1 << 31` in `bits()` and `operator/=` is the bit
`0x80000000`, as `int` shifts into the sign bit are defined since C++14 (and by DR 1457
for C++11).

`toNat` reads the words as `Σ pn[i] · 2^(32 i)`. The main results say that each operator is
the arithmetic of naturals below `2 ^ (32 * WIDTH)`; they are collected for `arith_uint256`
in `arithUint256_arith`.
-/

namespace UnitedBitcoin.Arith

open UnitedBitcoin.Library

/-- `uint_error`, the exception of the big-integer arithmetic. -/
structure UintError where
  what : String
  deriving DecidableEq, Repr

/-- `base_uint<BITS>`, with `WIDTH = BITS / 32` words. -/
structure BaseUint (WIDTH : Nat) where
  pn : Fin WIDTH → UInt32

/-- Equality of the words, decided word by word so that concrete values evaluate. -/
instance {WIDTH : Nat} : DecidableEq (BaseUint WIDTH) := fun a b =>
  decidable_of_iff (List.ofFn a.pn = List.ofFn b.pn) (by
    obtain ⟨pn⟩ := a
    obtain ⟨pn'⟩ := b
    simp [List.ofFn_inj])

namespace BaseUint

variable {WIDTH : Nat}

/-! ## Words -/

/-- `pn[i]`. The loops read only below `WIDTH`; past it the model reads zero. -/
def get (a : BaseUint WIDTH) (i : Nat) : UInt32 := if h : i < WIDTH then a.pn ⟨i, h⟩ else 0

/-- `pn[i] = v`. The loops write only below `WIDTH`; past it the model drops the write. -/
def set (a : BaseUint WIDTH) (i : Nat) (v : UInt32) : BaseUint WIDTH :=
  ⟨fun j => if j.val = i then v else a.pn j⟩

/-- `pn[i] |= v`. -/
def orAt (a : BaseUint WIDTH) (i : Nat) (v : UInt32) : BaseUint WIDTH := a.set i (a.get i ||| v)

/-- `base_uint()` and `*this = 0`. -/
def zero : BaseUint WIDTH := ⟨fun _ => 0⟩

/-- `base_uint(uint64_t b)` and `operator=(uint64_t b)`: the low and the high half of `b`
in `pn[0]` and `pn[1]`. -/
def ofUInt64 (b : UInt64) : BaseUint WIDTH := (zero.set 0 b.toUInt32).set 1 (b >>> 32).toUInt32

/-- `GetLow64()`. -/
def getLow64 (a : BaseUint WIDTH) : UInt64 := (a.get 0).toUInt64 ||| (a.get 1).toUInt64 <<< 32

/-- The number the words stand for. -/
def toNat (a : BaseUint WIDTH) : Nat := limbValue (2 ^ 32) (fun i => (a.get i).toNat) WIDTH

/-! ## Operators -/

/-- Pass `i` of the loop of `operator<<=`, for `k = shift / 32` and `shift % 32`:
`pn[i + k + 1] |= a.pn[i] >> (32 - shift)` if `shift != 0`, then `pn[i + k] |= a.pn[i] << shift`. -/
def shiftLeftStep (a : BaseUint WIDTH) (k : Nat) (shift : UInt32) (pn : BaseUint WIDTH) (i : Nat) : BaseUint WIDTH :=
  let pn := if i + k + 1 < WIDTH ∧ shift ≠ 0 then pn.orAt (i + k + 1) (a.get i >>> (32 - shift)) else pn
  if i + k < WIDTH then pn.orAt (i + k) (a.get i <<< shift) else pn

/-- `operator<<=(unsigned int shift)`. -/
def shiftLeft (a : BaseUint WIDTH) (shift : UInt32) : BaseUint WIDTH :=
  (List.range WIDTH).foldl (shiftLeftStep a (shift / 32).toNat (shift % 32)) zero

/-- Pass `i` of the loop of `operator>>=`, for `k = shift / 32` and `shift % 32`:
`pn[i - k - 1] |= a.pn[i] << (32 - shift)` if `i - k - 1 >= 0` and `shift != 0`, then
`pn[i - k] |= a.pn[i] >> shift` if `i - k >= 0`. -/
def shiftRightStep (a : BaseUint WIDTH) (k : Nat) (shift : UInt32) (pn : BaseUint WIDTH) (i : Nat) : BaseUint WIDTH :=
  let pn := if k + 1 ≤ i ∧ shift ≠ 0 then pn.orAt (i - k - 1) (a.get i <<< (32 - shift)) else pn
  if k ≤ i then pn.orAt (i - k) (a.get i >>> shift) else pn

/-- `operator>>=(unsigned int shift)`. -/
def shiftRight (a : BaseUint WIDTH) (shift : UInt32) : BaseUint WIDTH :=
  (List.range WIDTH).foldl (shiftRightStep a (shift / 32).toNat (shift % 32)) zero

/-- Iteration `i` of a carry loop: `n = carry + term i pn[offset + i]`,
`pn[offset + i] = n & 0xffffffff`, `carry = n >> 32`. -/
def carryStep (term : Nat → UInt32 → UInt64) (offset : Nat) (acc : BaseUint WIDTH × UInt64) (i : Nat) :
    BaseUint WIDTH × UInt64 :=
  let n := acc.2 + term i (acc.1.get (offset + i))
  (acc.1.set (offset + i) (n &&& 0xffffffff).toUInt32, n >>> 32)

/-- The carry loop of `operator+=`, `operator*=(uint32_t)` and of each row of
`operator*=(const base_uint&)`, over words `offset, …, offset + len - 1` from a zero carry:
the words and the carry out. -/
def carryPass (term : Nat → UInt32 → UInt64) (offset len : Nat) (a : BaseUint WIDTH) :
    BaseUint WIDTH × UInt64 :=
  (List.range len).foldl (carryStep term offset) (a, 0)

/-- `operator+=(const base_uint& b)`, and `operator+` on a copy. -/
def add (a b : BaseUint WIDTH) : BaseUint WIDTH :=
  (carryPass (fun i w => w.toUInt64 + (b.get i).toUInt64) 0 WIDTH a).1

/-- `operator*=(uint32_t b32)`, and `operator*` by a `uint32_t` on a copy. -/
def mulUInt32 (a : BaseUint WIDTH) (b32 : UInt32) : BaseUint WIDTH :=
  (carryPass (fun _ w => b32.toUInt64 * w.toUInt64) 0 WIDTH a).1

/-- `operator*=(const base_uint& b)`, and `operator*` on a copy: row `j` adds `a.pn[j] * b`
from word `j` up, keeping only the words below `WIDTH` (`i + j < WIDTH`). -/
def mul (a b : BaseUint WIDTH) : BaseUint WIDTH :=
  (List.range WIDTH).foldl (fun pn j =>
    (carryPass (fun i w => w.toUInt64 + (a.get j).toUInt64 * (b.get i).toUInt64) j (WIDTH - j) pn).1)
    zero

/-- `operator~`. -/
def complement (a : BaseUint WIDTH) : BaseUint WIDTH := ⟨fun i => ~~~a.pn i⟩

/-- `while (i < WIDTH && ++pn[i] == 0) i++` from word `i`, with `fuel` passes left. -/
def incrementFrom : (fuel i : Nat) → BaseUint WIDTH → BaseUint WIDTH
  | 0, _, a => a
  | fuel + 1, i, a =>
    if i < WIDTH then
      if a.get i + 1 = 0 then incrementFrom fuel (i + 1) (a.set i (a.get i + 1))
      else a.set i (a.get i + 1)
    else a

/-- `operator++()`. -/
def increment (a : BaseUint WIDTH) : BaseUint WIDTH := incrementFrom WIDTH 0 a

/-- Unary `operator-`: `~a`, then `++`. -/
def neg (a : BaseUint WIDTH) : BaseUint WIDTH := increment (complement a)

/-- `operator-=(const base_uint& b)`, that is `*this += -b`, and `operator-` on a copy. -/
def sub (a b : BaseUint WIDTH) : BaseUint WIDTH := add a (neg b)

/-- The loop of `CompareTo` over the words `i - 1, …, 0`. -/
def compareFrom (a b : BaseUint WIDTH) : Nat → Int
  | 0 => 0
  | i + 1 => if a.get i < b.get i then -1 else if a.get i > b.get i then 1 else compareFrom a b i

/-- `CompareTo`: `-1`, `0` or `1`, from the most significant word down. -/
def compareTo (a b : BaseUint WIDTH) : Int := compareFrom a b WIDTH

/-- The inner loop of `bits()` on the word at `pos`, testing `nbits, nbits - 1, …, 1`. -/
def bitsInWord (word : UInt32) (pos : Nat) : Nat → Nat
  | 0 => 32 * pos + 1
  | nbits + 1 =>
    if word &&& (1 <<< (nbits + 1).toUInt32) ≠ 0 then 32 * pos + (nbits + 1) + 1
    else bitsInWord word pos nbits

/-- The outer loop of `bits()` over the words `pos - 1, …, 0`. -/
def bitsFrom (a : BaseUint WIDTH) : Nat → Nat
  | 0 => 0
  | pos + 1 => if a.get pos ≠ 0 then bitsInWord (a.get pos) pos 31 else bitsFrom a pos

/-- `bits()`: the position of the highest set bit plus one, zero for zero. -/
def bits (a : BaseUint WIDTH) : Nat := bitsFrom a WIDTH

/-- `pn[shift / 32] |= (1 << (shift & 31))`: set bit `shift`. -/
def setBit (a : BaseUint WIDTH) (shift : Nat) : BaseUint WIDTH :=
  a.orAt (shift / 32) (1 <<< (shift % 32).toUInt32)

/-- The locals of the loop of `operator/=`: the remainder `num`, the shifted divisor `div`
and the quotient. -/
structure DivState (WIDTH : Nat) where
  num : BaseUint WIDTH
  div : BaseUint WIDTH
  quotient : BaseUint WIDTH

/-- One pass of `while (shift >= 0)`: subtract the shifted divisor if it fits and set bit
`shift` of the quotient, then shift the divisor back by one. -/
def divStep (shift : Nat) (st : DivState WIDTH) : DivState WIDTH :=
  if st.num.compareTo st.div ≥ 0 then
    { num := st.num.sub st.div, div := st.div.shiftRight 1, quotient := st.quotient.setBit shift }
  else { st with div := st.div.shiftRight 1 }

/-- The passes for `shift, shift - 1, …, 0`. -/
def divLoop : Nat → DivState WIDTH → DivState WIDTH
  | 0, st => divStep 0 st
  | shift + 1, st => divLoop shift (divStep (shift + 1) st)

/-- `operator/=(const base_uint& b)`, and `operator/` on a copy. -/
def div (a b : BaseUint WIDTH) : Except UintError (BaseUint WIDTH) :=
  let numBits := a.bits
  let divBits := b.bits
  if divBits = 0 then throw ⟨"Division by zero"⟩
  else if divBits > numBits then pure zero
  else
    let shift := numBits - divBits
    pure (divLoop shift ⟨a, b.shiftLeft shift.toUInt32, zero⟩).quotient

/-! ## Reading and writing words -/

theorem get_lt (a : BaseUint WIDTH) (i : Nat) : (a.get i).toNat < 2 ^ 32 := UInt32.toNat_lt _

@[simp]
theorem get_of_le (a : BaseUint WIDTH) {i : Nat} (h : WIDTH ≤ i) : a.get i = 0 := by
  simp [get, Nat.not_lt.mpr h]

@[simp]
theorem get_set_self (a : BaseUint WIDTH) {i : Nat} (h : i < WIDTH) (v : UInt32) : (a.set i v).get i = v := by
  simp [get, set, h]

@[simp]
theorem get_set_of_ne (a : BaseUint WIDTH) {i j : Nat} (h : j ≠ i) (v : UInt32) : (a.set i v).get j = a.get j := by
  unfold get set
  split <;> simp [h]

@[simp]
theorem get_zero (i : Nat) : (zero : BaseUint WIDTH).get i = 0 := by
  simp [get, zero]

/-! ## The value of the words -/

theorem toNat_lt (a : BaseUint WIDTH) : a.toNat < 2 ^ (32 * WIDTH) := by
  rw [pow_mul]
  exact limbValue_lt fun i _ => a.get_lt i

/-- Word `i` is digit `i` of the value in base `2 ^ 32`. -/
theorem get_toNat (a : BaseUint WIDTH) {i : Nat} (h : i < WIDTH) :
    (a.get i).toNat = a.toNat / 2 ^ (32 * i) % 2 ^ 32 := by
  rw [pow_mul]
  exact (limbValue_div_pow_mod (fun j _ => a.get_lt j) h).symm

/-- Words holding the digits of `x` hold `x` modulo `2 ^ (32 * WIDTH)`. -/
theorem toNat_eq_of_get {a : BaseUint WIDTH} {x : Nat}
    (h : ∀ i < WIDTH, (a.get i).toNat = x / 2 ^ (32 * i) % 2 ^ 32) : a.toNat = x % 2 ^ (32 * WIDTH) := by
  rw [pow_mul, ← limbValue_digits]
  exact limbValue_congr fun i hi => by rw [h i hi, pow_mul]

/-- Bit `c` of word `i` is bit `32 * i + c` of the value. -/
theorem testBit_toNat (a : BaseUint WIDTH) (i : Nat) {c : Nat} (hc : c < 32) :
    a.toNat.testBit (32 * i + c) = (a.get i).toNat.testBit c := by
  unfold toNat
  rw [testBit_limbValue (fun j _ => a.get_lt j) i hc]
  split_ifs with hi
  · rfl
  · simp [a.get_of_le (Nat.not_lt.mp hi)]

/-- Writing `v` into word `i` trades the old word for `v` at place `i`. -/
theorem toNat_set (a : BaseUint WIDTH) {i : Nat} (h : i < WIDTH) (v : UInt32) :
    (a.set i v).toNat + (a.get i).toNat * 2 ^ (32 * i) = a.toNat + v.toNat * 2 ^ (32 * i) := by
  have hdigits : (a.set i v).toNat = limbValue (2 ^ 32) (Function.update (fun j => (a.get j).toNat) i v.toNat) WIDTH :=
    limbValue_congr fun j _ => by
      by_cases hji : j = i
      · subst hji
        simp [h]
      · simp [hji]
  rw [hdigits, pow_mul]
  exact limbValue_update _ h _

@[simp]
theorem toNat_zero : (zero : BaseUint WIDTH).toNat = 0 := by
  simp [toNat]

/-- `base_uint(uint64_t b)` holds `b` once there are two words. -/
theorem toNat_ofUInt64 (hwidth : 2 ≤ WIDTH) (b : UInt64) : (ofUInt64 b : BaseUint WIDTH).toNat = b.toNat := by
  have hlow := toNat_set (zero : BaseUint WIDTH) (show 0 < WIDTH by omega) b.toUInt32
  have hhigh := toNat_set ((zero : BaseUint WIDTH).set 0 b.toUInt32) (show 1 < WIDTH by omega) (b >>> 32).toUInt32
  rw [get_set_of_ne _ (by omega), get_zero] at hhigh
  have h32 : (32 : UInt64).toNat % 64 = 32 := rfl
  simp only [toNat_zero, get_zero, UInt32.toNat_zero, Nat.zero_mul, Nat.add_zero, Nat.mul_zero,
    pow_zero, Nat.mul_one, UInt64.toNat_toUInt32, UInt64.toNat_shiftRight, h32, Nat.shiftRight_eq_div_pow] at hlow hhigh
  rw [ofUInt64, hhigh, hlow]
  have := b.toNat_lt
  omega

/-- `GetLow64()` is the value modulo `2 ^ 64`. -/
theorem toNat_getLow64 (hwidth : 2 ≤ WIDTH) (a : BaseUint WIDTH) : a.getLow64.toNat = a.toNat % 2 ^ 64 := by
  have hlow := a.get_toNat (show 0 < WIDTH by omega)
  have hhigh := a.get_toNat (show 1 < WIDTH by omega)
  have hsplit := Nat.mod_pow_succ (b := 2 ^ 32) (x := a.toNat) (k := 1)
  have hw0 := a.get_lt 0
  -- the two words do not overlap, so `|` adds them
  rw [getLow64, UInt64.toNat_or, UInt64.toNat_shiftLeft, UInt32.toNat_toUInt64, UInt32.toNat_toUInt64,
    Nat.or_comm, Nat.shiftLeft_eq]
  have hfit : (a.get 1).toNat * 2 ^ 32 < 2 ^ 64 := by
    have := a.get_lt 1
    calc (a.get 1).toNat * 2 ^ 32 < 2 ^ 32 * 2 ^ 32 := Nat.mul_lt_mul_of_pos_right this (by norm_num)
      _ = 2 ^ 64 := by norm_num
  rw [show (32 : UInt64).toNat % 64 = 32 from rfl, Nat.mod_eq_of_lt hfit, Nat.mul_comm,
    ← Nat.two_pow_add_eq_or_of_lt hw0]
  simp only [pow_one, ← pow_mul] at hsplit hlow hhigh
  norm_num at hsplit hlow hhigh ⊢
  omega

/-! ## Carry loops -/

theorem carryPass_succ (term : Nat → UInt32 → UInt64) (offset len : Nat) (a : BaseUint WIDTH) :
    carryPass term offset (len + 1) a = carryStep term offset (carryPass term offset len a) len := by
  simp [carryPass, List.range_succ, List.foldl_append]

/-- The words outside `offset, …, offset + len - 1` are left alone. -/
theorem get_carryPass_of_not_mem (term : Nat → UInt32 → UInt64) {offset len j : Nat}
    (h : j < offset ∨ offset + len ≤ j) (a : BaseUint WIDTH) :
    (carryPass term offset len a).1.get j = a.get j := by
  induction len with
  | zero => rfl
  | succ len ih =>
    rw [carryPass_succ]
    simp only [carryStep]
    rw [get_set_of_ne _ (by omega), ih (by omega)]

/-- One iteration read as naturals: a carry below `2 ^ 32` and a term that leaves room for it
do not wrap, the low half of the sum is written and the high half carried. -/
theorem carryStep_spec (term : Nat → UInt32 → UInt64) (offset i : Nat) (acc : BaseUint WIDTH × UInt64)
    (hpos : offset + i < WIDTH) (hcarry : acc.2.toNat < 2 ^ 32)
    (hterm : (term i (acc.1.get (offset + i))).toNat + 2 ^ 32 ≤ 2 ^ 64) :
    (carryStep term offset acc i).2.toNat < 2 ^ 32 ∧
      (carryStep term offset acc i).1.toNat + 2 ^ (32 * (offset + i + 1)) * (carryStep term offset acc i).2.toNat +
          (acc.1.get (offset + i)).toNat * 2 ^ (32 * (offset + i)) =
        acc.1.toNat + 2 ^ (32 * (offset + i)) * acc.2.toNat +
          (term i (acc.1.get (offset + i))).toNat * 2 ^ (32 * (offset + i)) := by
  simp only [carryStep]
  set t := term i (acc.1.get (offset + i))
  set place := 2 ^ (32 * (offset + i))
  have hsum : (acc.2 + t).toNat = acc.2.toNat + t.toNat := by
    rw [UInt64.toNat_add]
    exact Nat.mod_eq_of_lt (by omega)
  have hlow : ((acc.2 + t) &&& 0xffffffff).toUInt32.toNat = (acc.2.toNat + t.toNat) % 2 ^ 32 := by
    rw [UInt64.toNat_toUInt32, UInt64.toNat_and, hsum]
    simp [Nat.and_two_pow_sub_one_eq_mod _ 32]
  have hhigh : ((acc.2 + t) >>> 32).toNat = (acc.2.toNat + t.toNat) / 2 ^ 32 := by
    rw [UInt64.toNat_shiftRight, hsum, Nat.shiftRight_eq_div_pow]
    rfl
  have hset := toNat_set acc.1 hpos ((acc.2 + t) &&& 0xffffffff).toUInt32
  rw [hlow] at hset
  have hplace : 2 ^ (32 * (offset + i + 1)) = place * 2 ^ 32 := by
    rw [← pow_add]
    ring_nf
  refine ⟨by rw [hhigh]; omega, ?_⟩
  rw [hhigh, hplace]
  calc _ = ((acc.1.set (offset + i) ((acc.2 + t) &&& 0xffffffff).toUInt32).toNat + (acc.1.get (offset + i)).toNat * place) +
          place * (2 ^ 32 * ((acc.2.toNat + t.toNat) / 2 ^ 32)) := by ring
    _ = acc.1.toNat + place * ((acc.2.toNat + t.toNat) % 2 ^ 32 + 2 ^ 32 * ((acc.2.toNat + t.toNat) / 2 ^ 32)) := by
      rw [hset]
      ring
    _ = _ := by
      rw [Nat.mod_add_div]
      ring

/-- Conservation over a carry loop that fits in the words: what it wrote plus the carry out
equals the words it replaced plus the terms it added, each at its place. -/
theorem carryPass_spec (term : Nat → UInt32 → UInt64) {offset len : Nat} (hlen : offset + len ≤ WIDTH)
    (hterm : ∀ i < len, ∀ w, (term i w).toNat + 2 ^ 32 ≤ 2 ^ 64) (a : BaseUint WIDTH) :
    (carryPass term offset len a).2.toNat < 2 ^ 32 ∧
      (carryPass term offset len a).1.toNat + 2 ^ (32 * (offset + len)) * (carryPass term offset len a).2.toNat +
          2 ^ (32 * offset) * limbValue (2 ^ 32) (fun i => (a.get (offset + i)).toNat) len =
        a.toNat + 2 ^ (32 * offset) * limbValue (2 ^ 32) (fun i => (term i (a.get (offset + i))).toNat) len := by
  induction len with
  | zero => simp [carryPass]
  | succ len ih =>
    obtain ⟨hcarry, hvalue⟩ := ih (by omega) fun i hi => hterm i (by omega)
    -- word `offset + len` is still the one of `a` when the loop reaches it
    have hword : (carryPass term offset len a).1.get (offset + len) = a.get (offset + len) :=
      get_carryPass_of_not_mem term (Or.inr le_rfl) a
    have hstep := carryStep_spec term offset len (carryPass term offset len a) (by omega) hcarry
      (by rw [hword]; exact hterm len (by omega) _)
    rw [hword] at hstep
    rw [carryPass_succ]
    refine ⟨hstep.1, ?_⟩
    -- the digit `len` of each sum sits at the place of word `offset + len`
    have hplace : ∀ x, 2 ^ (32 * offset) * (x * (2 ^ 32) ^ len) = x * 2 ^ (32 * (offset + len)) := by
      intro x
      rw [Nat.mul_add, pow_add, ← pow_mul]
      ring
    simp only [limbValue_succ, Nat.mul_add (2 ^ (32 * offset)), hplace, Nat.add_assoc] at hstep ⊢
    omega

/-- A value below `M` written with a carry out of `M` is the sum modulo `M`. -/
theorem eq_mod_of_add_mul_eq {value total carry M : Nat} (hvalue : value < M) (h : value + M * carry = total) :
    value = total % M := by
  rw [← h, Nat.add_mul_mod_self_left, Nat.mod_eq_of_lt hvalue]

/-- A full-width carry loop from word `0` leaves the sum of its terms, modulo
`2 ^ (32 * WIDTH)`. -/
theorem toNat_carryPass_full (term : Nat → UInt32 → UInt64) (hterm : ∀ i < WIDTH, ∀ w, (term i w).toNat + 2 ^ 32 ≤ 2 ^ 64)
    (a : BaseUint WIDTH) :
    (carryPass term 0 WIDTH a).1.toNat = limbValue (2 ^ 32) (fun i => (term i (a.get i)).toNat) WIDTH % 2 ^ (32 * WIDTH) := by
  obtain ⟨-, hvalue⟩ := carryPass_spec term (show 0 + WIDTH ≤ WIDTH by omega) hterm a
  have hwords : limbValue (2 ^ 32) (fun i => (a.get i).toNat) WIDTH = a.toNat := rfl
  simp only [Nat.zero_add, Nat.mul_zero, pow_zero, Nat.one_mul, hwords] at hvalue
  have hsum : (carryPass term 0 WIDTH a).1.toNat + 2 ^ (32 * WIDTH) * (carryPass term 0 WIDTH a).2.toNat =
      limbValue (2 ^ 32) (fun i => (term i (a.get i)).toNat) WIDTH := by omega
  exact eq_mod_of_add_mul_eq (toNat_lt _) hsum

theorem toNat_add (a b : BaseUint WIDTH) : (a.add b).toNat = (a.toNat + b.toNat) % 2 ^ (32 * WIDTH) := by
  have hterm : ∀ i (w : UInt32), (w.toUInt64 + (b.get i).toUInt64).toNat = w.toNat + (b.get i).toNat := fun i w => by
    rw [UInt64.toNat_add, UInt32.toNat_toUInt64, UInt32.toNat_toUInt64]
    exact Nat.mod_eq_of_lt (by have := w.toNat_lt; have := b.get_lt i; omega)
  have hfull := toNat_carryPass_full (fun i w => w.toUInt64 + (b.get i).toUInt64)
    (fun i _ w => by rw [hterm]; have := w.toNat_lt; have := b.get_lt i; omega) a
  simp only [hterm, limbValue_add] at hfull
  exact hfull

theorem toNat_mulUInt32 (a : BaseUint WIDTH) (b32 : UInt32) :
    (a.mulUInt32 b32).toNat = a.toNat * b32.toNat % 2 ^ (32 * WIDTH) := by
  have hprod : ∀ w : UInt32, b32.toNat * w.toNat + 2 ^ 32 ≤ 2 ^ 64 := fun w => by
    have := Nat.mul_le_mul (Nat.le_pred_of_lt b32.toNat_lt) (Nat.le_pred_of_lt w.toNat_lt)
    norm_num at this ⊢
    omega
  have hterm : ∀ w : UInt32, (b32.toUInt64 * w.toUInt64).toNat = b32.toNat * w.toNat := fun w => by
    rw [UInt64.toNat_mul, UInt32.toNat_toUInt64, UInt32.toNat_toUInt64]
    exact Nat.mod_eq_of_lt (by have := hprod w; omega)
  have hfull := toNat_carryPass_full (fun _ w => b32.toUInt64 * w.toUInt64)
    (fun _ _ w => by rw [hterm]; exact hprod w) a
  simp only [hterm, limbValue_mul_left] at hfull
  rw [Nat.mul_comm]
  exact hfull

/-- Row `j` of `operator*=` adds `a.pn[j] * b` at word `j`, modulo `2 ^ (32 * WIDTH)`: the
products it drops by `i + j < WIDTH` are the multiples of `2 ^ (32 * WIDTH)`. -/
theorem toNat_mulRow (a b pn : BaseUint WIDTH) {j : Nat} (hj : j < WIDTH) :
    (carryPass (fun i w => w.toUInt64 + (a.get j).toUInt64 * (b.get i).toUInt64) j (WIDTH - j) pn).1.toNat =
      (pn.toNat + (a.get j).toNat * 2 ^ (32 * j) * b.toNat) % 2 ^ (32 * WIDTH) := by
  have hbound : ∀ i (w : UInt32), w.toNat + (a.get j).toNat * (b.get i).toNat + 2 ^ 32 ≤ 2 ^ 64 := fun i w => by
    have := Nat.mul_le_mul (Nat.le_pred_of_lt (a.get_lt j)) (Nat.le_pred_of_lt (b.get_lt i))
    have := w.toNat_lt
    norm_num at *
    omega
  have hterm : ∀ i (w : UInt32), (w.toUInt64 + (a.get j).toUInt64 * (b.get i).toUInt64).toNat =
      w.toNat + (a.get j).toNat * (b.get i).toNat := fun i w => by
    have := hbound i w
    rw [UInt64.toNat_add, UInt64.toNat_mul, UInt32.toNat_toUInt64, UInt32.toNat_toUInt64, UInt32.toNat_toUInt64,
      Nat.mod_eq_of_lt (by omega : (a.get j).toNat * (b.get i).toNat < 2 ^ 64)]
    exact Nat.mod_eq_of_lt (by omega)
  obtain ⟨-, hvalue⟩ := carryPass_spec _ (show j + (WIDTH - j) ≤ WIDTH by omega)
    (fun i _ w => by rw [hterm]; exact hbound i w) pn
  -- the row reads `b` modulo `2 ^ (32 * (WIDTH - j))`
  have hlow : limbValue (2 ^ 32) (fun i => (b.get i).toNat) (WIDTH - j) = b.toNat % 2 ^ (32 * (WIDTH - j)) := by
    rw [pow_mul, ← limbValue_digits]
    exact limbValue_congr fun i hi => by rw [b.get_toNat (by omega), pow_mul]
  simp only [hterm, limbValue_add, limbValue_mul_left, hlow, Nat.mul_add, Nat.add_sub_cancel' hj.le] at hvalue
  have hsum : (carryPass (fun i w => w.toUInt64 + (a.get j).toUInt64 * (b.get i).toUInt64) j (WIDTH - j) pn).1.toNat +
      2 ^ (32 * WIDTH) * (carryPass (fun i w => w.toUInt64 + (a.get j).toUInt64 * (b.get i).toUInt64) j (WIDTH - j) pn).2.toNat =
      pn.toNat + 2 ^ (32 * j) * ((a.get j).toNat * (b.toNat % 2 ^ (32 * (WIDTH - j)))) := by omega
  have hplace : 2 ^ (32 * j) * 2 ^ (32 * (WIDTH - j)) = 2 ^ (32 * WIDTH) := by
    rw [← pow_add]
    congr 1
    omega
  rw [eq_mod_of_add_mul_eq (toNat_lt _) hsum]
  calc (pn.toNat + 2 ^ (32 * j) * ((a.get j).toNat * (b.toNat % 2 ^ (32 * (WIDTH - j))))) % 2 ^ (32 * WIDTH)
      = (pn.toNat + (a.get j).toNat * (2 ^ (32 * j) * b.toNat % 2 ^ (32 * WIDTH))) % 2 ^ (32 * WIDTH) := by
        rw [← hplace, Nat.mul_mod_mul_left]
        ring_nf
    _ = _ := by
      rw [Nat.add_mod, Nat.mul_mod, Nat.mod_mod, ← Nat.mul_mod, ← Nat.add_mod]
      ring_nf

theorem toNat_mul (a b : BaseUint WIDTH) : (a.mul b).toNat = a.toNat * b.toNat % 2 ^ (32 * WIDTH) := by
  -- after `m` rows the words hold the low `m` words of `a` times `b`
  have hrows : ∀ m ≤ WIDTH, ((List.range m).foldl (fun (pn : BaseUint WIDTH) j =>
      (carryPass (fun i w => w.toUInt64 + (a.get j).toUInt64 * (b.get i).toUInt64) j (WIDTH - j) pn).1) zero).toNat =
      limbValue (2 ^ 32) (fun i => (a.get i).toNat) m * b.toNat % 2 ^ (32 * WIDTH) := by
    intro m hm
    induction m with
    | zero => simp
    | succ m ih =>
      rw [List.range_succ, List.foldl_append, List.foldl_cons, List.foldl_nil, toNat_mulRow a b _ (by omega),
        ih (by omega), limbValue_succ, Nat.mod_add_mod, pow_mul]
      ring_nf
  exact hrows WIDTH le_rfl

/-! ## Shifts -/

theorem get_orAt (a : BaseUint WIDTH) (i j : Nat) (v : UInt32) :
    (a.orAt i v).get j = if j = i ∧ i < WIDTH then a.get j ||| v else a.get j := by
  unfold orAt
  split_ifs with h
  · obtain ⟨rfl, hi⟩ := h
    exact get_set_self a hi _
  · by_cases hji : j = i
    · subst hji
      have hle : WIDTH ≤ j := Nat.not_lt.mp fun hi => h ⟨rfl, hi⟩
      rw [get_of_le _ hle, get_of_le _ hle]
    · exact get_set_of_ne a hji _

theorem get_shiftLeftStep (a pn : BaseUint WIDTH) (k : Nat) (shift : UInt32) (i : Nat) {j : Nat} (hj : j < WIDTH) :
    (shiftLeftStep a k shift pn i).get j =
      if j = i + k then pn.get j ||| (a.get i <<< shift)
      else if j = i + k + 1 ∧ shift ≠ 0 then pn.get j ||| (a.get i >>> (32 - shift))
      else pn.get j := by
  unfold shiftLeftStep
  split_ifs <;> simp only [get_orAt] <;> (try split_ifs) <;> first | rfl | omega | simp_all

theorem get_shiftLeft_loop (a : BaseUint WIDTH) (k : Nat) (shift : UInt32) (m : Nat) {j : Nat} (hj : j < WIDTH) :
    ((List.range m).foldl (shiftLeftStep a k shift) zero).get j =
      (if shift ≠ 0 ∧ k + 1 ≤ j ∧ j - k - 1 < m then a.get (j - k - 1) >>> (32 - shift) else 0) |||
        (if k ≤ j ∧ j - k < m then a.get (j - k) <<< shift else 0) := by
  induction m with
  | zero => simp
  | succ m ih =>
    rw [List.range_succ, List.foldl_append, List.foldl_cons, List.foldl_nil, get_shiftLeftStep _ _ _ _ _ hj, ih]
    by_cases hlow : j = m + k
    · subst hlow
      simp
    · by_cases hhigh : j = m + k + 1 ∧ shift ≠ 0
      · obtain ⟨rfl, hs⟩ := hhigh
        have hidx' : m + k + 1 - k = m + 1 := by omega
        simp [hs, hidx']
      · have hH : (shift ≠ 0 ∧ k + 1 ≤ j ∧ j - k - 1 < m + 1) ↔ (shift ≠ 0 ∧ k + 1 ≤ j ∧ j - k - 1 < m) := by
          constructor
          · rintro ⟨hs, hk, hlt⟩
            have hne : j ≠ m + k + 1 := fun h => hhigh ⟨h, hs⟩
            exact ⟨hs, hk, by omega⟩
          · rintro ⟨hs, hk, hlt⟩
            exact ⟨hs, hk, by omega⟩
        have hL : (k ≤ j ∧ j - k < m + 1) ↔ (k ≤ j ∧ j - k < m) := by omega
        rw [if_neg hlow, if_neg hhigh]
        simp only [hH, hL]

theorem testBit_shiftLeft_toNat (x y : UInt32) {b : Nat} (hb : b < 32) :
    (x <<< y).toNat.testBit b = (decide (y.toNat % 32 ≤ b) && x.toNat.testBit (b - y.toNat % 32)) := by
  rw [UInt32.toNat_shiftLeft, Nat.testBit_mod_two_pow, Nat.testBit_shiftLeft]
  simp [hb]

theorem testBit_shiftRight_toNat (x y : UInt32) (b : Nat) :
    (x >>> y).toNat.testBit b = x.toNat.testBit (b + y.toNat % 32) := by
  rw [UInt32.toNat_shiftRight, Nat.testBit_shiftRight, Nat.add_comm]

theorem testBit_word_of_le (w : UInt32) {c : Nat} (hc : 32 ≤ c) : w.toNat.testBit c = false :=
  Nat.testBit_lt_two_pow (lt_of_lt_of_le w.toNat_lt (Nat.pow_le_pow_right (by norm_num) hc))

theorem testBit_toNat_eq (a : BaseUint WIDTH) (x : Nat) : a.toNat.testBit x = (a.get (x / 32)).toNat.testBit (x % 32) := by
  rw [← a.testBit_toNat (x / 32) (Nat.mod_lt x (by norm_num)), Nat.div_add_mod]

theorem toNat_shiftAmount (shift : UInt32) :
    (shift / 32).toNat = shift.toNat / 32 ∧ (shift % 32).toNat = shift.toNat % 32 := by
  simp [UInt32.toNat_div, UInt32.toNat_mod]

theorem toNat_shiftComplement {shift : UInt32} (h : shift % 32 ≠ 0) :
    (32 - shift % 32).toNat % 32 = 32 - shift.toNat % 32 := by
  have hr : (shift % 32).toNat = shift.toNat % 32 := (toNat_shiftAmount shift).2
  have hpos : shift.toNat % 32 ≠ 0 := fun h0 => h (UInt32.toNat_inj.mp (by rw [hr, h0]; rfl))
  rw [UInt32.toNat_sub_of_le _ _ (UInt32.le_iff_toNat_le.mpr (by rw [hr]; simp; omega)), hr]
  simp
  omega

theorem testBit_get_congr (a : BaseUint WIDTH) {i i' c c' : Nat} (hi : i = i') (hc : c = c') :
    (a.get i).toNat.testBit c = (a.get i').toNat.testBit c' := by
  rw [hi, hc]

theorem get_shiftLeft (a : BaseUint WIDTH) (shift : UInt32) {j : Nat} (hj : j < WIDTH) :
    ((a.shiftLeft shift).get j).toNat = a.toNat * 2 ^ shift.toNat / 2 ^ (32 * j) % 2 ^ 32 := by
  obtain ⟨hk, hr⟩ := toNat_shiftAmount shift
  apply Nat.eq_of_testBit_eq
  intro b
  rw [Nat.testBit_mod_two_pow, Nat.testBit_div_two_pow, Nat.testBit_mul_two_pow]
  by_cases hb : b < 32
  · unfold shiftLeft
    rw [get_shiftLeft_loop _ _ _ _ hj, UInt32.toNat_or, Nat.testBit_or, hk, a.testBit_toNat_eq]
    have hs : shift % 32 ≠ 0 ↔ shift.toNat % 32 ≠ 0 := by
      rw [← hr]
      exact not_congr ⟨fun h => by rw [h]; rfl, fun h => UInt32.toNat_inj.mp (by rw [h]; rfl)⟩
    rcases (by omega : (shift.toNat / 32 ≤ j ∧ shift.toNat % 32 ≤ b) ∨ (shift.toNat / 32 + 1 ≤ j ∧ b < shift.toNat % 32) ∨
        j < shift.toNat / 32 ∨ (j = shift.toNat / 32 ∧ b < shift.toNat % 32)) with
      ⟨hkj, hrb⟩ | ⟨hkj, hrb⟩ | hkj | ⟨hkj, hrb⟩
    · -- bit `b` comes from word `j - k`, moved up by `shift % 32`
      have hhigh : ((if shift % 32 ≠ 0 ∧ shift.toNat / 32 + 1 ≤ j ∧ j - shift.toNat / 32 - 1 < WIDTH then
          a.get (j - shift.toNat / 32 - 1) >>> (32 - shift % 32) else 0).toNat.testBit b) = false := by
        split_ifs with hcond
        · rw [testBit_shiftRight_toNat, toNat_shiftComplement hcond.1]
          exact testBit_word_of_le _ (by omega)
        · simp
      rw [hhigh, if_pos ⟨hkj, by omega⟩, testBit_shiftLeft_toNat _ _ hb, hr]
      simp only [Nat.mod_mod, decide_eq_true hrb, decide_eq_true hb,
        decide_eq_true (by omega : shift.toNat ≤ b + 32 * j), Bool.true_and, Bool.false_or]
      exact a.testBit_get_congr (by omega) (by omega)
    · -- bit `b` comes from the top bits of word `j - k - 1`
      have hpos : shift % 32 ≠ 0 := hs.mpr (by omega)
      rw [if_pos ⟨hpos, hkj, by omega⟩, if_pos ⟨by omega, by omega⟩, testBit_shiftLeft_toNat _ _ hb, hr,
        testBit_shiftRight_toNat, toNat_shiftComplement hpos]
      simp only [Nat.mod_mod, decide_eq_false (by omega : ¬ shift.toNat % 32 ≤ b), decide_eq_true hb,
        decide_eq_true (by omega : shift.toNat ≤ b + 32 * j), Bool.true_and, Bool.false_and, Bool.or_false]
      exact a.testBit_get_congr (by omega) (by omega)
    · -- below `shift` every bit is clear
      rw [if_neg (by omega), if_neg (by omega)]
      simp [decide_eq_false (by omega : ¬ shift.toNat ≤ b + 32 * j)]
    · rw [if_neg (by omega), if_pos ⟨by omega, by omega⟩, testBit_shiftLeft_toNat _ _ hb, hr]
      simp [decide_eq_false (by omega : ¬ shift.toNat % 32 ≤ b), decide_eq_false (by omega : ¬ shift.toNat ≤ b + 32 * j)]
  · simp [hb, testBit_word_of_le _ (Nat.not_lt.mp hb)]

theorem toNat_shiftLeft (a : BaseUint WIDTH) (shift : UInt32) :
    (a.shiftLeft shift).toNat = a.toNat * 2 ^ shift.toNat % 2 ^ (32 * WIDTH) :=
  toNat_eq_of_get fun _ hj => a.get_shiftLeft shift hj

theorem get_shiftRightStep (a pn : BaseUint WIDTH) (k : Nat) (shift : UInt32) (i : Nat) {j : Nat} (hj : j < WIDTH) :
    (shiftRightStep a k shift pn i).get j =
      if i = j + k then pn.get j ||| (a.get i >>> shift)
      else if i = j + k + 1 ∧ shift ≠ 0 then pn.get j ||| (a.get i <<< (32 - shift))
      else pn.get j := by
  unfold shiftRightStep
  split_ifs <;> simp only [get_orAt] <;> (try split_ifs) <;> first | rfl | omega | (simp_all <;> omega)

theorem get_shiftRight_loop (a : BaseUint WIDTH) (k : Nat) (shift : UInt32) (m : Nat) {j : Nat} (hj : j < WIDTH) :
    ((List.range m).foldl (shiftRightStep a k shift) zero).get j =
      (if j + k < m then a.get (j + k) >>> shift else 0) |||
        (if shift ≠ 0 ∧ j + k + 1 < m then a.get (j + k + 1) <<< (32 - shift) else 0) := by
  induction m with
  | zero => simp
  | succ m ih =>
    rw [List.range_succ, List.foldl_append, List.foldl_cons, List.foldl_nil, get_shiftRightStep _ _ _ _ _ hj, ih]
    by_cases hlow : m = j + k
    · subst hlow
      simp
    · by_cases hhigh : m = j + k + 1 ∧ shift ≠ 0
      · obtain ⟨rfl, hs⟩ := hhigh
        simp [hs]
      · have hH : (shift ≠ 0 ∧ j + k + 1 < m + 1) ↔ (shift ≠ 0 ∧ j + k + 1 < m) := by
          constructor
          · rintro ⟨hs, hlt⟩
            have hne : m ≠ j + k + 1 := fun h => hhigh ⟨h, hs⟩
            exact ⟨hs, by omega⟩
          · rintro ⟨hs, hlt⟩
            exact ⟨hs, by omega⟩
        have hL : j + k < m + 1 ↔ j + k < m := by omega
        rw [if_neg hlow, if_neg hhigh]
        simp only [hH, hL]
theorem get_shiftRight (a : BaseUint WIDTH) (shift : UInt32) {j : Nat} (hj : j < WIDTH) :
    ((a.shiftRight shift).get j).toNat = a.toNat / 2 ^ shift.toNat / 2 ^ (32 * j) % 2 ^ 32 := by
  obtain ⟨hk, hr⟩ := toNat_shiftAmount shift
  apply Nat.eq_of_testBit_eq
  intro b
  rw [Nat.testBit_mod_two_pow, Nat.testBit_div_two_pow, Nat.testBit_div_two_pow]
  by_cases hb : b < 32
  · unfold shiftRight
    rw [get_shiftRight_loop _ _ _ _ hj, UInt32.toNat_or, Nat.testBit_or, hk, a.testBit_toNat_eq]
    have hs : shift % 32 ≠ 0 ↔ shift.toNat % 32 ≠ 0 := by
      rw [← hr]
      exact not_congr ⟨fun h => by rw [h]; rfl, fun h => UInt32.toNat_inj.mp (by rw [h]; rfl)⟩
    simp only [decide_eq_true hb, Bool.true_and]
    by_cases hlow : b + shift.toNat % 32 < 32
    · -- bit `b` comes from word `j + k`, moved down by `shift % 32`
      have hhigh : ((if shift % 32 ≠ 0 ∧ j + shift.toNat / 32 + 1 < WIDTH then
          a.get (j + shift.toNat / 32 + 1) <<< (32 - shift % 32) else 0).toNat.testBit b) = false := by
        split_ifs with hcond
        · rw [testBit_shiftLeft_toNat _ _ hb, toNat_shiftComplement hcond.1]
          simp only [decide_eq_false (by omega : ¬ 32 - shift.toNat % 32 ≤ b), Bool.false_and]
        · simp
      rw [hhigh, Bool.or_false]
      split_ifs with hw
      · rw [testBit_shiftRight_toNat, hr, Nat.mod_mod]
        exact a.testBit_get_congr (by omega) (by omega)
      · rw [a.get_of_le (by omega : WIDTH ≤ (b + 32 * j + shift.toNat) / 32)]
        simp
    · -- bit `b` comes from the low bits of word `j + k + 1`
      have hpos : shift % 32 ≠ 0 := hs.mpr (by omega)
      have hlowbit : ((if j + shift.toNat / 32 < WIDTH then a.get (j + shift.toNat / 32) >>> (shift % 32)
          else 0).toNat.testBit b) = false := by
        split_ifs
        · rw [testBit_shiftRight_toNat, hr, Nat.mod_mod]
          exact testBit_word_of_le _ (by omega)
        · simp
      rw [hlowbit, Bool.false_or]
      split_ifs with hw
      · rw [testBit_shiftLeft_toNat _ _ hb, toNat_shiftComplement hpos]
        simp only [decide_eq_true (by omega : 32 - shift.toNat % 32 ≤ b), Bool.true_and]
        exact a.testBit_get_congr (by omega) (by omega)
      · have hw' : ¬ j + shift.toNat / 32 + 1 < WIDTH := fun h => hw ⟨hpos, h⟩
        rw [a.get_of_le (by omega : WIDTH ≤ (b + 32 * j + shift.toNat) / 32)]
        simp
  · simp [hb, testBit_word_of_le _ (Nat.not_lt.mp hb)]

theorem toNat_shiftRight (a : BaseUint WIDTH) (shift : UInt32) :
    (a.shiftRight shift).toNat = a.toNat / 2 ^ shift.toNat := by
  rw [toNat_eq_of_get fun _ hj => a.get_shiftRight shift hj]
  exact Nat.mod_eq_of_lt (lt_of_le_of_lt (Nat.div_le_self _ _) a.toNat_lt)

/-! ## Negation and subtraction -/

theorem get_complement (a : BaseUint WIDTH) {i : Nat} (h : i < WIDTH) : a.complement.get i = ~~~a.get i := by
  simp [get, complement, h]

theorem toNat_complement (a : BaseUint WIDTH) : a.complement.toNat = 2 ^ (32 * WIDTH) - 1 - a.toNat := by
  have hdigit : ∀ i < WIDTH, (a.complement.get i).toNat + (a.get i).toNat = 2 ^ 32 - 1 := fun i hi => by
    rw [get_complement a hi, UInt32.toNat_not]
    have := a.get_lt i
    simp only [UInt32.size] at *
    omega
  have hwords : a.complement.toNat + a.toNat = 2 ^ (32 * WIDTH) - 1 := by
    unfold toNat
    rw [← limbValue_add, limbValue_congr hdigit, pow_mul]
    have hall := limbValue_const_pred (show 0 < 2 ^ 32 by norm_num) WIDTH
    omega
  omega

/-- `while (i < WIDTH && ++pn[i] == 0) i++` from word `i` adds `2 ^ (32 * i)`, dropping the
carry out of the top word. -/
theorem toNat_incrementFrom {fuel i : Nat} (hfuel : WIDTH ≤ fuel + i) (hi : i ≤ WIDTH) (a : BaseUint WIDTH) :
    (incrementFrom fuel i a).toNat = (a.toNat + 2 ^ (32 * i)) % 2 ^ (32 * WIDTH) := by
  induction fuel generalizing i a with
  | zero =>
    obtain rfl : i = WIDTH := by omega
    rw [incrementFrom, Nat.add_mod_right, Nat.mod_eq_of_lt a.toNat_lt]
  | succ fuel ih =>
    have hset := fun hlt : i < WIDTH => toNat_set a hlt (a.get i + 1)
    have hplace : 2 ^ (32 * (i + 1)) = 2 ^ (32 * i) * 2 ^ 32 := by
      rw [← pow_add]
      ring_nf
    rw [incrementFrom]
    split_ifs with hlt hwrap
    · -- the word wraps to zero and the carry goes on to word `i + 1`
      have hword : (a.get i).toNat = 2 ^ 32 - 1 := by
        have hzero := congrArg UInt32.toNat hwrap
        rw [UInt32.toNat_add, UInt32.toNat_one, UInt32.toNat_zero] at hzero
        have := a.get_lt i
        omega
      have hwritten := hset hlt
      rw [hwrap, hword, UInt32.toNat_zero] at hwritten
      have hvalue : (a.set i 0).toNat + 2 ^ (32 * i) * 2 ^ 32 = a.toNat + 2 ^ (32 * i) := by omega
      rw [ih (by omega) (by omega), hplace, hwrap, hvalue]
    · -- the word does not wrap, and the loop stops
      have hfits : (a.get i).toNat + 1 < 2 ^ 32 := by
        by_contra hge
        apply hwrap
        apply UInt32.toNat_inj.mp
        rw [UInt32.toNat_add, UInt32.toNat_one, UInt32.toNat_zero]
        have := a.get_lt i
        omega
      have hwritten := hset hlt
      rw [UInt32.toNat_add, UInt32.toNat_one, Nat.mod_eq_of_lt hfits, Nat.add_mul, Nat.one_mul] at hwritten
      have hvalue : (a.set i (a.get i + 1)).toNat = a.toNat + 2 ^ (32 * i) := by omega
      rw [← hvalue, Nat.mod_eq_of_lt (toNat_lt _)]
    · have hend : i = WIDTH := by omega
      rw [hend, Nat.add_mod_right, Nat.mod_eq_of_lt a.toNat_lt]

theorem toNat_increment (a : BaseUint WIDTH) : a.increment.toNat = (a.toNat + 1) % 2 ^ (32 * WIDTH) := by
  rw [increment, toNat_incrementFrom (by omega) (Nat.zero_le _), Nat.mul_zero, pow_zero]

/-- Unary `-` is the negation modulo `2 ^ (32 * WIDTH)`. -/
theorem toNat_neg (a : BaseUint WIDTH) : a.neg.toNat = (2 ^ (32 * WIDTH) - a.toNat) % 2 ^ (32 * WIDTH) := by
  have := a.toNat_lt
  rw [neg, toNat_increment, toNat_complement]
  congr 1
  omega

theorem toNat_sub (a b : BaseUint WIDTH) :
    (a.sub b).toNat = (a.toNat + (2 ^ (32 * WIDTH) - b.toNat)) % 2 ^ (32 * WIDTH) := by
  rw [sub, toNat_add, toNat_neg, Nat.add_mod_mod]

/-- Without a borrow, `-` is the difference. -/
theorem toNat_sub_of_le {a b : BaseUint WIDTH} (h : b.toNat ≤ a.toNat) : (a.sub b).toNat = a.toNat - b.toNat := by
  have := a.toNat_lt
  rw [toNat_sub, show a.toNat + (2 ^ (32 * WIDTH) - b.toNat) = a.toNat - b.toNat + 2 ^ (32 * WIDTH) by omega,
    Nat.add_mod_right, Nat.mod_eq_of_lt (by omega)]

/-! ## Comparison and bit length -/

/-- The scan of `CompareTo` over the top `n` words compares the numbers those words hold. -/
theorem compareFrom_eq (a b : BaseUint WIDTH) (n : Nat) :
    compareFrom a b n =
      if limbValue (2 ^ 32) (fun i => (a.get i).toNat) n < limbValue (2 ^ 32) (fun i => (b.get i).toNat) n then -1
      else if limbValue (2 ^ 32) (fun i => (b.get i).toNat) n < limbValue (2 ^ 32) (fun i => (a.get i).toNat) n then 1
      else 0 := by
  induction n with
  | zero => simp [compareFrom]
  | succ n ih =>
    have hab := limbValue_succ_lt_succ_iff (n := n) (fun i _ => a.get_lt i) (fun i _ => b.get_lt i)
    have hba := limbValue_succ_lt_succ_iff (n := n) (fun i _ => b.get_lt i) (fun i _ => a.get_lt i)
    rw [compareFrom]
    by_cases hlt : a.get n < b.get n
    · have hvalue := hab.mpr (.inl (UInt32.lt_iff_toNat_lt.mp hlt))
      rw [if_pos hlt, if_pos hvalue]
    · by_cases hgt : a.get n > b.get n
      · have hvalue := hba.mpr (.inl (UInt32.lt_iff_toNat_lt.mp hgt))
        rw [if_neg hlt, if_pos hgt, if_neg (lt_asymm hvalue), if_pos hvalue]
      · -- equal top words: the scan goes on below
        have htop : (a.get n).toNat = (b.get n).toNat := by
          rw [UInt32.lt_iff_toNat_lt] at hlt
          rw [gt_iff_lt, UInt32.lt_iff_toNat_lt] at hgt
          omega
        rw [if_neg hlt, if_neg hgt, ih]
        simp only [hab, hba, htop, lt_irrefl, false_or, true_and]

/-- `CompareTo` is the order of the numbers. -/
theorem compareTo_eq (a b : BaseUint WIDTH) :
    a.compareTo b = if a.toNat < b.toNat then -1 else if b.toNat < a.toNat then 1 else 0 :=
  compareFrom_eq a b WIDTH

theorem compareTo_nonneg_iff (a b : BaseUint WIDTH) : 0 ≤ a.compareTo b ↔ b.toNat ≤ a.toNat := by
  rw [compareTo_eq]
  split_ifs <;> simp <;> omega

/-- The inner loop of `bits()` on a non-zero word below `2 ^ (nbits + 1)` finds its bit
length. -/
theorem bitsInWord_eq {word : UInt32} (pos : Nat) {nbits : Nat} (hword : word ≠ 0) (hbits : nbits < 32)
    (hlt : word.toNat < 2 ^ (nbits + 1)) : bitsInWord word pos nbits = 32 * pos + word.toNat.size := by
  have hpos : 0 < word.toNat := Nat.pos_of_ne_zero fun h => hword (UInt32.toNat_inj.mp (by rw [h]; rfl))
  induction nbits with
  | zero =>
    obtain hone : word.toNat = 1 := by omega
    simp [bitsInWord, hone]
  | succ nbits ih =>
    -- `word & 1 << (nbits + 1)` tests bit `nbits + 1`
    have htest : (word &&& (1 <<< (nbits + 1).toUInt32) ≠ 0) ↔ word.toNat.testBit (nbits + 1) = true := by
      have hshift : (1 <<< (nbits + 1).toUInt32 : UInt32).toNat = 2 ^ (nbits + 1) := by
        rw [UInt32.toNat_shiftLeft, UInt32.toNat_one, Nat.one_shiftLeft]
        have hsmall : (nbits + 1).toUInt32.toNat % 32 = nbits + 1 := by simp [Nat.toUInt32]; omega
        rw [hsmall]
        exact Nat.mod_eq_of_lt (Nat.pow_lt_pow_right (by norm_num) hbits)
      rw [ne_eq, ← UInt32.toNat_inj, UInt32.toNat_and, hshift, Nat.and_two_pow]
      cases word.toNat.testBit (nbits + 1) <;> simp
    rw [bitsInWord]
    split_ifs with hset
    · have hlow := Nat.ge_two_pow_of_testBit (htest.mp hset)
      rw [size_eq_of_two_pow_le hlow hlt]
      ring
    · have hclear : word.toNat.testBit (nbits + 1) = false := by simpa using mt htest.mpr hset
      have hbelow : word.toNat < 2 ^ (nbits + 1) := by
        by_contra hge
        have := Nat.testBit_of_two_pow_le_and_two_pow_add_one_gt (Nat.not_lt.mp hge) hlt
        simp_all
      exact ih (by omega) hbelow

/-- The scan of `bits()` over the top `n` words finds the bit length of the number they hold. -/
theorem bitsFrom_eq (a : BaseUint WIDTH) (n : Nat) :
    bitsFrom a n = (limbValue (2 ^ 32) (fun i => (a.get i).toNat) n).size := by
  induction n with
  | zero => simp [bitsFrom]
  | succ n ih =>
    rw [bitsFrom, limbValue_succ]
    split_ifs with hword
    · have hlow : limbValue (2 ^ 32) (fun i => (a.get i).toNat) n < 2 ^ (32 * n) := by
        rw [pow_mul]
        exact limbValue_lt fun i _ => a.get_lt i
      have hne : (a.get n).toNat ≠ 0 := fun h => hword (UInt32.toNat_inj.mp (by rw [h]; rfl))
      rw [bitsInWord_eq n hword (by norm_num) (a.get_lt n), ← pow_mul, size_add_mul_two_pow hlow hne]
    · rw [not_not.mp hword, ih]
      simp

/-- `bits()` is the bit length. -/
theorem bits_eq_size (a : BaseUint WIDTH) : a.bits = a.toNat.size := bitsFrom_eq a WIDTH

/-! ## Division -/

/-- Setting a clear bit `shift` of the quotient adds `2 ^ shift`. -/
theorem toNat_setBit (q : BaseUint WIDTH) {shift : Nat} (hshift : shift < 32 * WIDTH)
    (hclear : q.toNat.testBit shift = false) : (q.setBit shift).toNat = q.toNat + 2 ^ shift := by
  have hword : shift / 32 < WIDTH := by omega
  have hmask : (1 <<< (shift % 32).toUInt32 : UInt32).toNat = 2 ^ (shift % 32) := by
    rw [UInt32.toNat_shiftLeft, UInt32.toNat_one, Nat.one_shiftLeft]
    have hsmall : (shift % 32).toUInt32.toNat % 32 = shift % 32 := by simp [Nat.toUInt32]
    rw [hsmall]
    exact Nat.mod_eq_of_lt (Nat.pow_lt_pow_right (by norm_num) (Nat.mod_lt _ (by norm_num)))
  have hbit : (q.get (shift / 32)).toNat.testBit (shift % 32) = false := by
    rw [← q.testBit_toNat_eq]
    exact hclear
  have hset := toNat_set q hword (q.get (shift / 32) ||| 1 <<< (shift % 32).toUInt32)
  rw [UInt32.toNat_or, hmask, or_two_pow_eq_add hbit, Nat.add_mul, ← pow_add,
    show shift % 32 + 32 * (shift / 32) = shift by omega] at hset
  rw [setBit, orAt]
  omega

/-- What holds when the pass of `operator/=` for bit `shift` starts, dividing `A` by `B`:
nothing is lost, the divisor is shifted by `shift`, the quotient bits from `shift` down are
still clear, and the remainder is below twice the shifted divisor. -/
structure DivInvariant (A B shift : Nat) (st : DivState WIDTH) : Prop where
  conserve : st.num.toNat + st.quotient.toNat * B = A
  div_eq : st.div.toNat = B * 2 ^ shift
  low_clear : 2 ^ (shift + 1) ∣ st.quotient.toNat
  num_lt : st.num.toNat < B * 2 ^ (shift + 1)

/-- One pass: after it the remainder is below the shifted divisor, and bit `shift` of the
quotient is settled. -/
theorem divStep_spec {A B shift : Nat} (hB : 0 < B) {st : DivState WIDTH} (hinv : DivInvariant A B shift st) :
    (divStep shift st).num.toNat + (divStep shift st).quotient.toNat * B = A ∧
      2 ^ shift ∣ (divStep shift st).quotient.toNat ∧ (divStep shift st).num.toNat < B * 2 ^ shift ∧
      (divStep shift st).div.toNat = B * 2 ^ shift / 2 := by
  obtain ⟨hconserve, hdiv, hclear, hnum⟩ := hinv
  have hdouble : B * 2 ^ (shift + 1) = B * 2 ^ shift + B * 2 ^ shift := by rw [Nat.pow_succ]; ring
  have hhalf : (st.div.shiftRight 1).toNat = B * 2 ^ shift / 2 := by
    rw [toNat_shiftRight, hdiv]
    rfl
  have hclear' : 2 ^ shift ∣ st.quotient.toNat := Nat.dvd_trans (Nat.pow_dvd_pow 2 (by omega)) hclear
  unfold divStep
  split_ifs with hfits
  · -- the shifted divisor fits: subtract it and set bit `shift`
    rw [ge_iff_le, compareTo_nonneg_iff] at hfits
    have hshift : shift < 32 * WIDTH := by
      have hlt := st.div.toNat_lt
      rw [hdiv] at hlt
      by_contra hge
      have hpow := Nat.pow_le_pow_right (show 0 < 2 by norm_num) (Nat.not_lt.mp hge)
      have hmul : 2 ^ shift ≤ B * 2 ^ shift := Nat.le_mul_of_pos_left _ hB
      omega
    have hbit : st.quotient.toNat.testBit shift = false := by
      obtain ⟨m, hm⟩ := hclear
      rw [hm, Nat.mul_comm, Nat.testBit_mul_two_pow]
      simp
    simp only
    rw [toNat_sub_of_le hfits, toNat_setBit _ hshift hbit, hhalf, hdiv]
    rw [hdiv] at hfits
    refine ⟨?_, Nat.dvd_add hclear' dvd_rfl, by omega, rfl⟩
    have hprod : (st.quotient.toNat + 2 ^ shift) * B = st.quotient.toNat * B + B * 2 ^ shift := by ring
    omega
  · rw [ge_iff_le, compareTo_nonneg_iff, hdiv] at hfits
    simp only
    exact ⟨hconserve, hclear', by omega, hhalf⟩

/-- The passes from `shift` down to `0` leave the quotient `A / B`. -/
theorem divLoop_quotient {A B : Nat} (hB : 0 < B) {shift : Nat} {st : DivState WIDTH}
    (hinv : DivInvariant A B shift st) : (divLoop shift st).quotient.toNat = A / B := by
  induction shift generalizing st with
  | zero =>
    obtain ⟨hconserve, -, hnum, -⟩ := divStep_spec hB hinv
    rw [divLoop, ← hconserve, Nat.add_mul_div_right _ _ hB, Nat.div_eq_of_lt (by simpa using hnum), Nat.zero_add]
  | succ shift ih =>
    obtain ⟨hconserve, hclear, hnum, hdiv⟩ := divStep_spec hB hinv
    apply ih
    refine ⟨hconserve, ?_, hclear, hnum⟩
    rw [hdiv, Nat.pow_succ, ← Nat.mul_assoc, Nat.mul_div_cancel _ (by norm_num)]

/-- `div` shifted to align with `num`: the invariant holds before the first pass. -/
theorem divInvariant_start (a b : BaseUint WIDTH) (hwidth : 32 * WIDTH < 2 ^ 32) (hb : b.toNat ≠ 0)
    (hle : b.bits ≤ a.bits) :
    DivInvariant a.toNat b.toNat (a.bits - b.bits) ⟨a, b.shiftLeft (a.bits - b.bits).toUInt32, zero⟩ := by
  rw [bits_eq_size, bits_eq_size] at *
  have hsizeA : a.toNat.size ≤ 32 * WIDTH := Nat.size_le.mpr a.toNat_lt
  have hsizeB : 0 < b.toNat.size := Nat.size_pos.mpr (Nat.pos_of_ne_zero hb)
  have hBlt : b.toNat < 2 ^ b.toNat.size := Nat.lt_size_self _
  have hBge : 2 ^ (b.toNat.size - 1) ≤ b.toNat := Nat.lt_size.mp (by omega)
  have hAlt : a.toNat < 2 ^ a.toNat.size := Nat.lt_size_self _
  have hshift : (a.toNat.size - b.toNat.size).toUInt32.toNat = a.toNat.size - b.toNat.size := by
    simp [Nat.toUInt32]
    omega
  -- the shifted divisor has the bit length of `a`, so it still fits
  have haligned : b.toNat * 2 ^ (a.toNat.size - b.toNat.size) < 2 ^ a.toNat.size := by
    calc b.toNat * 2 ^ (a.toNat.size - b.toNat.size) < 2 ^ b.toNat.size * 2 ^ (a.toNat.size - b.toNat.size) :=
          Nat.mul_lt_mul_of_pos_right hBlt (Nat.two_pow_pos _)
      _ = 2 ^ a.toNat.size := by rw [← pow_add]; congr 1; omega
  refine ⟨by simp, ?_, by simp, ?_⟩
  · simp only
    rw [toNat_shiftLeft, hshift]
    exact Nat.mod_eq_of_lt (lt_of_lt_of_le haligned (Nat.pow_le_pow_right (by norm_num) hsizeA))
  · calc a.toNat < 2 ^ a.toNat.size := hAlt
      _ = 2 ^ (b.toNat.size - 1) * 2 ^ (a.toNat.size - b.toNat.size + 1) := by rw [← pow_add]; congr 1; omega
      _ ≤ b.toNat * 2 ^ (a.toNat.size - b.toNat.size + 1) := Nat.mul_le_mul_right _ hBge

/-- `operator/=` by zero throws `uint_error`. -/
theorem div_of_toNat_eq_zero (a b : BaseUint WIDTH) (hb : b.toNat = 0) : a.div b = .error ⟨"Division by zero"⟩ := by
  have hbits : b.bits = 0 := by rw [bits_eq_size, hb, Nat.size_zero]
  simp [div, hbits]
  rfl

/-- `operator/=` by a non-zero divisor is floor division. -/
theorem div_eq_ok (a b : BaseUint WIDTH) (hwidth : 32 * WIDTH < 2 ^ 32) (hb : b.toNat ≠ 0) :
    ∃ q, a.div b = .ok q ∧ q.toNat = a.toNat / b.toNat := by
  have hbits : b.bits ≠ 0 := by
    rw [bits_eq_size]
    exact (Nat.size_pos.mpr (Nat.pos_of_ne_zero hb)).ne'
  unfold div
  simp only [if_neg hbits]
  split_ifs with hgt
  · -- `b` has more bits than `a`: the quotient is zero
    refine ⟨zero, rfl, ?_⟩
    rw [bits_eq_size, bits_eq_size] at hgt
    have hlt : a.toNat < b.toNat :=
      calc a.toNat < 2 ^ a.toNat.size := Nat.lt_size_self _
        _ ≤ 2 ^ (b.toNat.size - 1) := Nat.pow_le_pow_right (by norm_num) (by omega)
        _ ≤ b.toNat := Nat.lt_size.mp (by omega)
    rw [toNat_zero, Nat.div_eq_of_lt hlt]
  · exact ⟨_, rfl, divLoop_quotient (Nat.pos_of_ne_zero hb) (divInvariant_start a b hwidth hb (by omega))⟩

/-- `operator/=` as a whole: floor division, or `uint_error` for a zero divisor. -/
theorem div_map_toNat (a b : BaseUint WIDTH) (hwidth : 32 * WIDTH < 2 ^ 32) :
    (a.div b).map toNat =
      if b.toNat = 0 then .error ⟨"Division by zero"⟩ else .ok (a.toNat / b.toNat) := by
  split_ifs with hb
  · rw [div_of_toNat_eq_zero a b hb]
    rfl
  · obtain ⟨q, hdiv, hq⟩ := div_eq_ok a b hwidth hb
    rw [hdiv, ← hq]
    rfl

/-- The difference modulo `2 ^ (32 * WIDTH)`, read in the integers. -/
theorem toNat_sub_eq_emod (a b : BaseUint WIDTH) :
    ((a.sub b).toNat : Int) = ((a.toNat : Int) - b.toNat) % 2 ^ (32 * WIDTH) := by
  have hb := b.toNat_lt
  rw [toNat_sub, Int.natCast_mod, Nat.cast_add, Nat.cast_sub hb.le]
  push_cast
  rw [show (a.toNat : Int) + ((2 : Int) ^ (32 * WIDTH) - b.toNat) = (a.toNat - b.toNat) + 2 ^ (32 * WIDTH) by ring,
    ← Int.emod_eq_add_self_emod]

theorem toNat_neg_eq_emod (a : BaseUint WIDTH) : (a.neg.toNat : Int) = -(a.toNat : Int) % 2 ^ (32 * WIDTH) := by
  have ha := a.toNat_lt
  rw [toNat_neg, Int.natCast_mod, Nat.cast_sub ha.le]
  push_cast
  rw [show (2 : Int) ^ (32 * WIDTH) - a.toNat = -a.toNat + 2 ^ (32 * WIDTH) by ring, ← Int.emod_eq_add_self_emod]

end BaseUint

/-- `arith_uint256`: `base_uint<256>`, eight words. -/
abbrev ArithUint256 := BaseUint 8

/-- `arith_uint256` is the arithmetic of naturals modulo `2 ^ 256`: sums, differences,
negations and products wrap, shifts multiply or divide by a power of two, `bits()` is the bit
length, `CompareTo` the order, and `/` floor division that throws for a zero divisor. -/
theorem arithUint256_arith (a b : ArithUint256) (m shift : UInt32) :
    (a.add b).toNat = (a.toNat + b.toNat) % 2 ^ 256 ∧
    ((a.sub b).toNat : Int) = ((a.toNat : Int) - b.toNat) % 2 ^ 256 ∧
    (a.neg.toNat : Int) = -(a.toNat : Int) % 2 ^ 256 ∧
    (a.mul b).toNat = a.toNat * b.toNat % 2 ^ 256 ∧
    (a.mulUInt32 m).toNat = a.toNat * m.toNat % 2 ^ 256 ∧
    (a.shiftLeft shift).toNat = a.toNat * 2 ^ shift.toNat % 2 ^ 256 ∧
    (a.shiftRight shift).toNat = a.toNat / 2 ^ shift.toNat ∧
    a.bits = a.toNat.size ∧
    a.compareTo b = (if a.toNat < b.toNat then -1 else if b.toNat < a.toNat then 1 else 0) ∧
    (a.div b).map BaseUint.toNat =
      if b.toNat = 0 then .error ⟨"Division by zero"⟩ else .ok (a.toNat / b.toNat) :=
  ⟨a.toNat_add b, a.toNat_sub_eq_emod b, a.toNat_neg_eq_emod, a.toNat_mul b, a.toNat_mulUInt32 m,
    a.toNat_shiftLeft shift, a.toNat_shiftRight shift, a.bits_eq_size, a.compareTo_eq b,
    a.div_map_toNat b (by norm_num)⟩

end UnitedBitcoin.Arith
