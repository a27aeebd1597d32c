import Mathlib
import UnitedBitcoin.Library.PolyRem

/-!
# Bech32 (`bech32.cpp`)

`PolyMod` reads a list of 5-bit values as the coefficients of a polynomial over
GF(32) = GF(2)[a]/(a^5 + a^3 + 1), with an implicit leading `1`. It returns the remainder
modulo the generator `g(x) = x^6 + {29}x^5 + {22}x^4 + {20}x^3 + {21}x^2 + {29}x + {18}`,
packed six 5-bit groups to a word. Its loop is Horner's rule with the products
`{2^n}(x^6 mod g)` written out as five constants. `polyMod_eq_pack_polyRem` says the loop computes
the remainder that long division (`Library.polyRem`) computes. The proof is one step
(`polyModStep_pack`), which rests on the five constants being those products
(`addConstants_eq_pack`), and the library's `polyRem_cons_eq_foldl`.

`Encode` appends to the human-readable part the separator `1`, the values and a checksum, each
value written as a character of `CHARSET`. `Decode` checks the characters and their case, splits
at the last `1`, reads the values back through `CHARSET_REV` and checks the checksum. The checksum
is the remainder of the expanded part and the values followed by six zeros, XOR `1`. Six more
values XOR their packed word into the remainder without touching its top (`foldl_polyModStep_xor`),
so the checksum makes `PolyMod` return `1` (`polyMod_append_createChecksum`). With the character
tables read back (`charset_spec`) that gives the round trip `decode_encode`.

`CHARSET` is a C string of 32 characters: `CHARSET[32]` is its NUL and an index past it reads
outside the array, where `encode` returns `none`. Values below 32 never get there.

A `std::string` is the list of its bytes, and `data` a list of bytes.
-/

namespace UnitedBitcoin.Bech32

open UnitedBitcoin.Library

/-- A character as the byte that stands for it. -/
def ascii (c : Char) : UInt8 := c.toNat.toUInt8

/-- The Bech32 character set for encoding, `CHARSET`. -/
def charset : List UInt8 := "qpzry9x8gf2tvdw0s3jn54khce6mua7l".toList.map ascii

/-- The Bech32 character set for decoding, `CHARSET_REV`. -/
def charsetRev : List Int := [
    -1, -1, -1, -1, -1, -1, -1, -1, -1, -1, -1, -1, -1, -1, -1, -1,
    -1, -1, -1, -1, -1, -1, -1, -1, -1, -1, -1, -1, -1, -1, -1, -1,
    -1, -1, -1, -1, -1, -1, -1, -1, -1, -1, -1, -1, -1, -1, -1, -1,
    15, -1, 10, 17, 21, 20, 26, 30,  7,  5, -1, -1, -1, -1, -1, -1,
    -1, 29, -1, 24, 13, 25,  9,  8, 23, -1, 18, 22, 31, 27, 19, -1,
     1,  0,  3, 16, 11, 28, 12, 14,  6,  4,  2, -1, -1, -1, -1, -1,
    -1, 29, -1, 24, 13, 25,  9,  8, 23, -1, 18, 22, 31, 27, 19, -1,
     1,  0,  3, 16, 11, 28, 12, 14,  6,  4,  2, -1, -1, -1, -1, -1]

/-- The words `{2^n}k(x)`, with `k(x) = x^6 mod g(x)`, that `PolyMod` adds for the bit `2^n`
of `c0`, each with the mask of its bit. -/
def polyModConstants : List (UInt8 × UInt32) :=
  [(1, 0x3b6a57b2), (2, 0x26508e6d), (4, 0x1ea119fa), (8, 0x3d4233dd), (16, 0x2a1462b3)]

/-- For each set bit `n` in `c0`, conditionally add `{2^n}k(x)`. -/
def addConstants (c0 : UInt8) (c : UInt32) : UInt32 :=
  polyModConstants.foldl (fun c (mask, k) => if c0 &&& mask != 0 then c ^^^ k else c) c

/-- The body of the loop of `PolyMod` on the next value `v_i`. -/
def polyModStep (c : UInt32) (v_i : UInt8) : UInt32 :=
  let c0 : UInt8 := (c >>> 25).toUInt8
  addConstants c0 (((c &&& 0x1ffffff) <<< 5) ^^^ v_i.toUInt32)

/-- `PolyMod`. -/
def polyMod (v : List UInt8) : UInt32 := v.foldl polyModStep 1

/-- `LowerCase`. -/
def lowerCase (c : UInt8) : UInt8 :=
  if c ≥ ascii 'A' && c ≤ ascii 'Z' then (c - ascii 'A') + ascii 'a' else c

/-- `ExpandHRP`: the high bits of every character, a zero, then the low five bits of every
character. -/
def expandHRP (hrp : List UInt8) : List UInt8 :=
  hrp.map (fun c : UInt8 => c >>> 5) ++ [0] ++ hrp.map (fun c : UInt8 => c &&& 0x1f)

/-- `VerifyChecksum`. -/
def verifyChecksum (hrp values : List UInt8) : Bool :=
  polyMod (expandHRP hrp ++ values) == 1

/-- `CreateChecksum`: the six 5-bit groups of what to XOR into six zeros appended to the
values. -/
def createChecksum (hrp values : List UInt8) : List UInt8 :=
  let enc := expandHRP hrp ++ values ++ List.replicate 6 0
  let mod := polyMod enc ^^^ 1
  (List.range 6).map fun i => ((mod >>> (5 * (5 - i)).toUInt32) &&& 31).toUInt8

/-- `bech32::Encode`. `CHARSET[32]` is the NUL that ends the table; `none` is a read past it. -/
def encode (hrp values : List UInt8) : Option (List UInt8) := do
  let checksum := createChecksum hrp values
  let combined := values ++ checksum
  let chars ← combined.mapM fun c => if c.toNat ≤ 32 then some (charset.getD c.toNat 0) else none
  pure (hrp ++ [ascii '1'] ++ chars)

/-- `str.rfind(c)`: the position of the last `c`, `none` for `npos`. -/
def rfind (c : UInt8) : List UInt8 → Option Nat
  | [] => none
  | x :: rest =>
    match rfind c rest with
    | some pos => some (pos + 1)
    | none => if x = c then some 0 else none

/-- `CHARSET_REV` as the loop of `Decode` reads it, `none` for `-1`. -/
def charsetRevAt (c : UInt8) : Option UInt8 :=
  let rev : Int := if c < 33 || c > 126 then -1 else charsetRev.getD c.toNat (-1)
  if rev = -1 then none else some rev.toNat.toUInt8

/-- `bech32::Decode`; `{}`, the failure, is the pair of empty lists. -/
def decode (str : List UInt8) : List UInt8 × List UInt8 :=
  if str.any (fun c => c < 33 || c > 126) then ([], [])
  else
    let lower := str.any fun c => c ≥ ascii 'a' && c ≤ ascii 'z'
    let upper := str.any fun c => c ≥ ascii 'A' && c ≤ ascii 'Z'
    if lower && upper then ([], [])
    else
      match rfind (ascii '1') str with
      | none => ([], [])
      | some pos =>
        if str.length > 90 || pos = 0 || pos + 7 > str.length then ([], [])
        else
          match (str.drop (pos + 1)).mapM charsetRevAt with
          | none => ([], [])
          | some values =>
            let hrp := (str.take pos).map lowerCase
            if !verifyChecksum hrp values then ([], [])
            else (hrp, values.take (values.length - 6))

/-! ## GF(32) and the generator -/

/-- Multiplication by `a` in GF(32): the coefficients move up one degree (`x + x` in `Fin 32`
drops the one that reaches `a^5`), and `a^5 = a^3 + 1`, the pattern `9`, is added for it. -/
def mulA (x : Fin 32) : Fin 32 := if x.val < 16 then x + x else (x + x) ^^^ 9

/-- Multiplication in GF(32): the sum of `a^i * x` over the bits `i` of `y`. -/
def gfMul (x y : Fin 32) : Fin 32 :=
  ((List.range 5).foldl (fun (acc, p) i => (if y.val.testBit i then acc ^^^ p else acc, mulA p))
    ((0 : Fin 32), x)).1

/-- The example of the comment in `PolyMod`: `{5} * {26} = {9}`. -/
example : gfMul 5 26 = 9 := by decide

/-- An element of GF(32), its five bits the coefficients of `1, a, ..., a^4`. -/
structure GF32 where
  val : Fin 32
  deriving DecidableEq, Repr, Fintype

namespace GF32

instance : Zero GF32 := ⟨⟨0⟩⟩

/-- Subtraction, which is addition: the exclusive or of the coefficients. -/
instance : Sub GF32 := ⟨fun x y => ⟨x.val ^^^ y.val⟩⟩

instance : Mul GF32 := ⟨fun x y => ⟨gfMul x.val y.val⟩⟩

instance : OfNat GF32 n := ⟨⟨Fin.ofNat 32 n⟩⟩

/-- The byte that holds the value. -/
def toByte (x : GF32) : UInt8 := x.val.val.toUInt8

theorem zero_mul : ∀ x : GF32, 0 * x = 0 := by decide

theorem sub_zero : ∀ x : GF32, x - 0 = x := by decide

end GF32

/-- The lower coefficients of the generator
`g(x) = x^6 + {29}x^5 + {22}x^4 + {20}x^3 + {21}x^2 + {29}x + {18}`. -/
def generator : List GF32 := [29, 22, 20, 21, 29, 18]

/-- Coefficients packed five bits each, the first in the highest group. -/
def pack : List GF32 → Nat
  | [] => 0
  | x :: rest => 32 ^ rest.length * x.val.val + pack rest

/-! ## `PolyMod` is the remainder -/

section Remainder

/-- Two numbers split at bit `k` XOR part by part. -/
theorem two_pow_mul_add_xor {k a b x y : Nat} (hx : x < 2 ^ k) (hy : y < 2 ^ k) :
    (2 ^ k * a + x) ^^^ (2 ^ k * b + y) = 2 ^ k * (a ^^^ b) + (x ^^^ y) := by
  apply Nat.eq_of_testBit_eq
  intro j
  rw [Nat.testBit_xor, Nat.testBit_two_pow_mul_add a hx, Nat.testBit_two_pow_mul_add b hy,
    Nat.testBit_two_pow_mul_add _ (Nat.xor_lt_two_pow hx hy), Nat.testBit_xor, Nat.testBit_xor]
  split_ifs <;> rfl

theorem GF32.val_sub (x y : GF32) : (x - y).val.val = x.val.val ^^^ y.val.val :=
  Nat.mod_eq_of_lt (Nat.xor_lt_two_pow (n := 5) x.val.isLt y.val.isLt)

theorem pack_lt : ∀ l : List GF32, pack l < 32 ^ l.length
  | [] => Nat.one_pos
  | x :: rest => by
    have hx : x.val.val + 1 ≤ 32 := x.val.isLt
    have ih := pack_lt rest
    rw [pack, List.length_cons, pow_succ]
    calc 32 ^ rest.length * x.val.val + pack rest < 32 ^ rest.length * x.val.val + 32 ^ rest.length := by
          omega
      _ = 32 ^ rest.length * (x.val.val + 1) := by ring
      _ ≤ 32 ^ rest.length * 32 := Nat.mul_le_mul_left _ hx

/-- Six coefficients pack into 30 bits. -/
theorem pack_lt_of_length_eq_six {l : List GF32} (hl : l.length = 6) : pack l < 2 ^ 30 := by
  have h := pack_lt l
  rw [hl] at h
  exact lt_of_lt_of_eq h (by norm_num)

theorem pack_append_singleton (l : List GF32) (x : GF32) : pack (l ++ [x]) = 32 * pack l + x.val.val := by
  induction l with
  | nil => simp [pack]
  | cons a l ih =>
    rw [List.cons_append, pack, ih, pack, List.length_append, List.length_singleton, pow_succ]
    ring

/-- Subtracting a multiple of the divisor XORs the packed multiple into the packed coefficients. -/
theorem pack_subScaled (c : GF32) :
    ∀ g r : List GF32, g.length = r.length → pack (subScaled c g r) = pack r ^^^ pack (g.map (c * ·))
  | [], [], _ => by simp [subScaled, pack]
  | [], _ :: _, h => absurd h (by simp)
  | _ :: _, [], h => absurd h (by simp)
  | g₀ :: g, r₀ :: r, h => by
    have hlen : g.length = r.length := by simpa using h
    have h32 : (32 : Nat) ^ r.length = 2 ^ (5 * r.length) := by rw [pow_mul]; rfl
    have hr := pack_lt r
    have hg := pack_lt (g.map (c * ·))
    rw [List.length_map, hlen] at hg
    rw [h32] at hr hg
    rw [subScaled, List.map_cons, pack, pack, pack, length_subScaled, List.length_map, hlen,
      pack_subScaled c g r hlen, GF32.val_sub, h32]
    exact (two_pow_mul_add_xor hr hg).symm

/-- The five constants are the packed products of each coefficient with `k(x) = x^6 mod g(x)`,
that is with the lower coefficients of the generator. -/
theorem addConstants_eq_pack : ∀ c : GF32, addConstants c.toByte 0 = (pack (generator.map (c * ·))).toUInt32 := by
  decide

theorem addConstants_xor (c0 : UInt8) (x y : UInt32) :
    addConstants c0 (x ^^^ y) = addConstants c0 x ^^^ y := by
  unfold addConstants
  generalize polyModConstants = table
  induction table generalizing x with
  | nil => rfl
  | cons entry table ih =>
    obtain ⟨mask, k⟩ := entry
    simp only [List.foldl_cons]
    split_ifs
    · rw [show x ^^^ y ^^^ k = x ^^^ k ^^^ y by ac_rfl]
      exact ih (x ^^^ k)
    · exact ih x

theorem addConstants_eq_xor (c0 : UInt8) (x : UInt32) : addConstants c0 x = addConstants c0 0 ^^^ x := by
  rw [← addConstants_xor, UInt32.zero_xor]

theorem toNat_and_0x1ffffff (a : UInt32) : (a &&& 0x1ffffff).toNat = a.toNat % 2 ^ 25 := by
  rw [UInt32.toNat_and, show (0x1ffffff : UInt32).toNat = 2 ^ 25 - 1 from rfl,
    Nat.and_two_pow_sub_one_eq_mod]

/-- A value below `2 ^ k` XORed into a number shifted up by `k` bits is added to it. -/
theorem two_pow_mul_xor {k a y : Nat} (hy : y < 2 ^ k) : (2 ^ k * a) ^^^ y = 2 ^ k * a + y := by
  have h := two_pow_mul_add_xor (a := a) (b := 0) (Nat.two_pow_pos k) hy
  simpa using h

theorem toNat_toUInt32_of_lt {n : Nat} (h : n < 2 ^ 32) : n.toUInt32.toNat = n := by
  rw [Nat.toUInt32_eq, UInt32.toNat_ofNat', Nat.mod_eq_of_lt h]

/-- One step of `PolyMod` on the packed coefficients of a remainder is one step of Horner's rule:
the top coefficient is bit 25 up, the other five move up a group and `v` comes in below them. -/
theorem polyModStep_pack (cs : List GF32) (hcs : cs.length = 6) (v : GF32) :
    polyModStep (pack cs).toUInt32 v.toByte = (pack (hornerStep generator cs v)).toUInt32 := by
  obtain _ | ⟨c₀, cs⟩ := cs
  · simp at hcs
  have hlen : cs.length = 5 := by simpa using hcs
  have hrest : pack cs < 2 ^ 25 := by simpa [hlen] using pack_lt cs
  have hpack : pack (c₀ :: cs) = 2 ^ 25 * c₀.val.val + pack cs := by rw [pack, hlen]; rfl
  have hc₀ := c₀.val.isLt
  have hv := v.val.isLt
  have hword : (pack (c₀ :: cs)).toUInt32.toNat = 2 ^ 25 * c₀.val.val + pack cs := by
    rw [toNat_toUInt32_of_lt (by omega), hpack]
  have htop : ((pack (c₀ :: cs)).toUInt32 >>> 25).toUInt8 = c₀.toByte := by
    apply UInt8.toNat_inj.mp
    simp only [GF32.toByte, UInt32.toNat_toUInt8, UInt32.toNat_shiftRight, hword, Nat.toUInt8_eq,
      UInt8.toNat_ofNat', Nat.shiftRight_eq_div_pow]
    simp only [show UInt32.toNat 25 % 32 = 25 from rfl]
    omega
  have hbase : (((pack (c₀ :: cs)).toUInt32 &&& 0x1ffffff) <<< 5) ^^^ v.toByte.toUInt32 =
      (pack (cs ++ [v])).toUInt32 := by
    apply UInt32.toNat_inj.mp
    have hshift : (((pack (c₀ :: cs)).toUInt32 &&& 0x1ffffff) <<< 5).toNat = 2 ^ 5 * pack cs := by
      simp only [UInt32.toNat_shiftLeft, toNat_and_0x1ffffff, hword, Nat.shiftLeft_eq,
        show UInt32.toNat 5 % 32 = 5 from rfl]
      omega
    have hbyte : v.toByte.toUInt32.toNat = v.val.val := by
      simp only [GF32.toByte, UInt8.toNat_toUInt32, Nat.toUInt8_eq, UInt8.toNat_ofNat']
      omega
    rw [UInt32.toNat_xor, hshift, hbyte, two_pow_mul_xor (by omega), pack_append_singleton,
      toNat_toUInt32_of_lt (by omega)]
    rfl
  have hmul : pack (generator.map (c₀ * ·)) < 2 ^ 30 :=
    pack_lt_of_length_eq_six (by rw [List.length_map]; rfl)
  have hnext : pack (cs ++ [v]) < 2 ^ 30 :=
    pack_lt_of_length_eq_six (by rw [List.length_append, hlen, List.length_singleton])
  rw [polyModStep, htop, hbase, addConstants_eq_xor, addConstants_eq_pack, hornerStep,
    pack_subScaled c₀ generator (cs ++ [v]) (by simp [generator, hlen])]
  apply UInt32.toNat_inj.mp
  rw [UInt32.toNat_xor, toNat_toUInt32_of_lt (by omega), toNat_toUInt32_of_lt (by omega),
    toNat_toUInt32_of_lt (Nat.xor_lt_two_pow (by omega) (by omega)), Nat.xor_comm]

/-- The loop of `PolyMod` over values of GF(32) is Horner's rule over their coefficients. -/
theorem foldl_polyModStep_pack (x : List GF32) :
    ∀ cs : List GF32, cs.length = 6 →
      (x.map GF32.toByte).foldl polyModStep (pack cs).toUInt32 =
        (pack (x.foldl (hornerStep generator) cs)).toUInt32 := by
  induction x with
  | nil => exact fun _ _ => rfl
  | cons v x ih =>
    intro cs hcs
    rw [List.map_cons, List.foldl_cons, List.foldl_cons, polyModStep_pack cs hcs v]
    exact ih _ (length_hornerStep generator cs v hcs)

theorem length_foldl_hornerStep (x : List GF32) :
    ∀ cs : List GF32, cs.length = generator.length →
      (x.foldl (hornerStep generator) cs).length = generator.length := by
  induction x with
  | nil => exact fun _ hcs => hcs
  | cons v x ih => exact fun cs hcs => ih _ (length_hornerStep generator cs v hcs)

/-- `PolyMod` packs the remainder of `1` followed by its input, modulo the generator. -/
theorem polyMod_eq_pack_polyRem (x : List GF32) :
    (polyMod (x.map GF32.toByte)).toNat = pack (polyRem generator (1 :: x)) := by
  have hinit : (1 : UInt32) = (pack [0, 0, 0, 0, 0, 1]).toUInt32 := by decide
  have hstart : List.replicate (generator.length - 1) 0 ++ [(1 : GF32)] = [0, 0, 0, 0, 0, 1] := rfl
  have hlen := length_foldl_hornerStep x [0, 0, 0, 0, 0, 1] rfl
  have hlt := pack_lt_of_length_eq_six (hlen.trans rfl)
  rw [polyMod, hinit, foldl_polyModStep_pack x _ rfl,
    polyRem_cons_eq_foldl GF32.zero_mul GF32.sub_zero (by decide) 1 x, hstart,
    toNat_toUInt32_of_lt (by omega)]

end Remainder

/-! ## The checksum -/

section Checksum

theorem toNat_addConstants_lt (c0 : UInt8) {x : UInt32} (hx : x.toNat < 2 ^ 30) :
    (addConstants c0 x).toNat < 2 ^ 30 := by
  unfold addConstants
  -- every constant is a word of 30 bits
  have hk : ∀ e ∈ polyModConstants, e.2.toNat < 2 ^ 30 := by simp [polyModConstants]
  generalize polyModConstants = table at hk
  induction table generalizing x with
  | nil => exact hx
  | cons entry table ih =>
    obtain ⟨mask, k⟩ := entry
    have hrest : ∀ e ∈ table, e.2.toNat < 2 ^ 30 := fun e he => hk e (List.mem_cons_of_mem _ he)
    simp only [List.foldl_cons]
    split_ifs
    · have hxk : (x ^^^ k).toNat < 2 ^ 30 := by
        rw [UInt32.toNat_xor]
        exact Nat.xor_lt_two_pow hx (hk _ List.mem_cons_self)
      exact ih hxk hrest
    · exact ih hx hrest

/-- The state of `PolyMod` after a step holds six 5-bit groups. -/
theorem toNat_polyModStep_lt (c : UInt32) (v : UInt8) : (polyModStep c v).toNat < 2 ^ 30 := by
  apply toNat_addConstants_lt
  rw [UInt32.toNat_xor]
  apply Nat.xor_lt_two_pow
  · simp only [UInt32.toNat_shiftLeft, toNat_and_0x1ffffff, Nat.shiftLeft_eq,
      show UInt32.toNat 5 % 32 = 5 from rfl]
    omega
  · have := v.toNat_lt
    simp only [UInt8.toNat_toUInt32]
    omega

theorem toNat_foldl_polyModStep_lt : ∀ (l : List UInt8), l ≠ [] → ∀ c : UInt32,
    (l.foldl polyModStep c).toNat < 2 ^ 30
  | [v], _, c => toNat_polyModStep_lt c v
  | _ :: w :: l, _, _ => toNat_foldl_polyModStep_lt (w :: l) (List.cons_ne_nil w l) _

/-- The value read in enters `PolyMod` by exclusive or, after the top coefficient is taken. -/
theorem polyModStep_eq_xor (c : UInt32) (v : UInt8) :
    polyModStep c v = polyModStep c 0 ^^^ v.toUInt32 := by
  simp only [polyModStep]
  rw [addConstants_xor, show (0 : UInt8).toUInt32 = 0 from rfl, UInt32.xor_zero]

/-- A word below `2 ^ 25` XORed into the state of `PolyMod` does not reach the top coefficient:
it comes out moved up one group. -/
theorem polyModStep_xor_state (s e : UInt32) (he : e.toNat < 2 ^ 25) :
    polyModStep (s ^^^ e) 0 = polyModStep s 0 ^^^ (e <<< 5) := by
  have htop : e >>> 25 = 0 := by
    apply UInt32.toNat_inj.mp
    simp only [UInt32.toNat_shiftRight, Nat.shiftRight_eq_div_pow, show UInt32.toNat 25 % 32 = 25 from rfl,
      UInt32.toNat_zero]
    exact Nat.div_eq_of_lt he
  have hlow : e &&& 0x1ffffff = e := by
    apply UInt32.toNat_inj.mp
    rw [toNat_and_0x1ffffff, Nat.mod_eq_of_lt he]
  have hand : (s ^^^ e) &&& 0x1ffffff = (s &&& 0x1ffffff) ^^^ (e &&& 0x1ffffff) := by
    apply UInt32.toNat_inj.mp
    simp only [UInt32.toNat_and, UInt32.toNat_xor, Nat.and_xor_distrib_right]
  simp only [polyModStep]
  rw [UInt32.shiftRight_xor, htop, UInt32.xor_zero, hand, hlow, UInt32.shiftLeft_xor,
    show (0 : UInt8).toUInt32 = 0 from rfl, UInt32.xor_zero, UInt32.xor_zero, addConstants_xor]

/-- After an error word `e` XORed into the state, values below 32 XOR into the state moved up,
their 5-bit groups packed after `e`, as long as the whole stays within 30 bits. The induction is
on the values, the error carried one group up each step. -/
theorem foldl_polyModStep_xor :
    ∀ (ws : List UInt8) (s : UInt32) (e : Nat), ws.length ≤ 6 → (∀ w ∈ ws, w.toNat < 32) →
      e < 2 ^ (30 - 5 * ws.length) →
      ws.foldl polyModStep (s ^^^ e.toUInt32) =
        (List.replicate ws.length (0 : UInt8)).foldl polyModStep s ^^^
          (ws.foldl (fun acc w => 32 * acc + w.toNat) e).toUInt32
  | [], s, e, _, _, he => by
    simp only [List.foldl_nil, List.length_nil, List.replicate_zero]
  | w :: ws, s, e, hlen, hw, he => by
    have hw₀ := hw w List.mem_cons_self
    have hws : ws.length ≤ 5 := by simp only [List.length_cons] at hlen; omega
    -- the bound before and after the step
    obtain ⟨P, hP⟩ : ∃ P, P = 2 ^ (30 - 5 * (ws.length + 1)) := ⟨_, rfl⟩
    have hpow : 2 ^ (30 - 5 * ws.length) = 2 ^ 5 * P := by
      rw [hP, ← pow_add]
      congr 1
      omega
    have hP25 : P ≤ 2 ^ 25 := by
      rw [hP]
      exact Nat.pow_le_pow_right (by norm_num) (by omega)
    rw [List.length_cons, ← hP] at he
    have he32 : e * 2 ^ 5 < 2 ^ 32 := by omega
    have hstep : polyModStep (s ^^^ e.toUInt32) w = polyModStep s 0 ^^^ (32 * e + w.toNat).toUInt32 := by
      rw [polyModStep_eq_xor, polyModStep_xor_state s _ (by rw [toNat_toUInt32_of_lt (by omega)]; omega),
        UInt32.xor_assoc]
      congr 1
      apply UInt32.toNat_inj.mp
      rw [UInt32.toNat_xor, UInt32.toNat_shiftLeft, toNat_toUInt32_of_lt (by omega),
        show UInt32.toNat 5 % 32 = 5 from rfl, Nat.shiftLeft_eq, Nat.mod_eq_of_lt he32,
        UInt8.toNat_toUInt32, Nat.mul_comm, two_pow_mul_xor (by omega), toNat_toUInt32_of_lt (by omega)]
      rfl
    rw [List.foldl_cons, hstep, List.length_cons, List.replicate_succ, List.foldl_cons, List.foldl_cons]
    exact foldl_polyModStep_xor ws (polyModStep s 0) (32 * e + w.toNat) (by omega)
      (fun x hx => hw x (List.mem_cons_of_mem _ hx)) (by omega)

/-- One base-32 digit: the quotient by `32 a` and the digit at `a` make the quotient by `a`. -/
theorem mul_div_add_div_mod (m : Nat) {a b : Nat} (hab : a * 32 = b) :
    32 * (m / b) + m / a % 32 = m / a := by
  rw [← hab, ← Nat.div_div_eq_div_mul]
  exact Nat.div_add_mod (m / a) 32

/-- The six 5-bit groups of a 30-bit word, packed again, give the word. -/
theorem foldl_groups {m : UInt32} (hm : m.toNat < 2 ^ 30) :
    ((List.range 6).map fun i => ((m >>> (5 * (5 - i)).toUInt32) &&& 31).toUInt8).foldl
      (fun acc w => 32 * acc + w.toNat) 0 = m.toNat := by
  simp only [List.range_succ, List.range_zero, List.nil_append, List.map_append, List.map_cons,
    List.map_nil, List.foldl_append, List.foldl_cons, List.foldl_nil]
  simp only [UInt32.toNat_toUInt8, UInt32.toNat_and, UInt32.toNat_shiftRight, Nat.shiftRight_eq_div_pow,
    show (31 : UInt32).toNat = 2 ^ 5 - 1 from rfl, Nat.and_two_pow_sub_one_eq_mod]
  simp only [Nat.toUInt32_eq, UInt32.toNat_ofNat', Nat.reduceMul, Nat.reduceSub, Nat.reduceMod,
    Nat.reducePow] at hm ⊢
  -- each group is below 32, so the byte conversion keeps it; then the digits fold back from the top
  have h256 : ∀ x : Nat, x % 32 % 256 = x % 32 := fun x => Nat.mod_eq_of_lt (by omega)
  have htop : m.toNat / 33554432 % 32 = m.toNat / 33554432 := Nat.mod_eq_of_lt (by omega)
  rw [h256, h256, h256, h256, h256, h256, zero_add, htop,
    mul_div_add_div_mod _ (rfl : 1048576 * 32 = _), mul_div_add_div_mod _ (rfl : 32768 * 32 = _),
    mul_div_add_div_mod _ (rfl : 1024 * 32 = _), mul_div_add_div_mod _ (rfl : 32 * 32 = _),
    mul_div_add_div_mod _ (rfl : 1 * 32 = _), Nat.div_one]

theorem length_createChecksum (hrp values : List UInt8) : (createChecksum hrp values).length = 6 := by
  simp [createChecksum]

theorem mem_createChecksum_lt (hrp values : List UInt8) :
    ∀ w ∈ createChecksum hrp values, w.toNat < 32 := by
  intro w hw
  simp only [createChecksum, List.mem_map, List.mem_range] at hw
  obtain ⟨i, -, rfl⟩ := hw
  rw [UInt32.toNat_toUInt8, UInt32.toNat_and, show (31 : UInt32).toNat = 2 ^ 5 - 1 from rfl,
    Nat.and_two_pow_sub_one_eq_mod]
  omega

/-- The checksum makes `PolyMod` of the expanded part, the values and the checksum `1`: the six
values XOR the word `mod` into the remainder of six zeros, which is `mod ^ 1`. -/
theorem polyMod_append_createChecksum (hrp values : List UInt8) :
    polyMod (expandHRP hrp ++ values ++ createChecksum hrp values) = 1 := by
  obtain ⟨enc, henc⟩ : ∃ enc, enc = expandHRP hrp ++ values := ⟨_, rfl⟩
  have hzero : polyMod (enc ++ List.replicate 6 0) =
      (List.replicate 6 (0 : UInt8)).foldl polyModStep (polyMod enc) := by
    rw [polyMod, List.foldl_append]
    rfl
  have hmod : (polyMod (enc ++ List.replicate 6 0) ^^^ 1).toNat < 2 ^ 30 := by
    rw [UInt32.toNat_xor]
    exact Nat.xor_lt_two_pow (toNat_foldl_polyModStep_lt _ (by simp) 1) (by decide)
  have hchecksum : createChecksum hrp values = (List.range 6).map fun i =>
      (((polyMod (enc ++ List.replicate 6 0) ^^^ 1) >>> (5 * (5 - i)).toUInt32) &&& 31).toUInt8 := by
    rw [henc]
    rfl
  have hfold := foldl_polyModStep_xor (createChecksum hrp values) (polyMod enc) 0
    (by rw [length_createChecksum]) (mem_createChecksum_lt hrp values)
    (by rw [length_createChecksum]; decide)
  rw [show (0 : Nat).toUInt32 = 0 from rfl, UInt32.xor_zero, length_createChecksum, ← hzero] at hfold
  rw [hchecksum, foldl_groups hmod] at hfold
  rw [← henc, polyMod, List.foldl_append, ← polyMod, hchecksum, hfold,
    UInt32.toNat_inj.mp (toNat_toUInt32_of_lt (by omega)), ← UInt32.xor_assoc, UInt32.xor_self,
    UInt32.zero_xor]

end Checksum

/-! ## `Decode` inverts `Encode` -/

section RoundTrip

theorem rfind_eq_none {c : UInt8} : ∀ {l : List UInt8}, c ∉ l → rfind c l = none
  | [], _ => rfl
  | x :: l, h => by
    rw [List.mem_cons, not_or] at h
    rw [rfind, rfind_eq_none h.2]
    exact if_neg (Ne.symm h.1)

/-- The last `c` is the one before a tail without `c`. -/
theorem rfind_append_cons {c : UInt8} (l : List UInt8) {tail : List UInt8} (h : c ∉ tail) :
    rfind c (l ++ c :: tail) = some l.length := by
  induction l with
  | nil => rw [List.nil_append, rfind, rfind_eq_none h, if_pos rfl, List.length_nil]
  | cons x l ih => rw [List.cons_append, rfind, ih, List.length_cons]

/-- Each character of `CHARSET` is printable, not upper case and not the separator, and
`CHARSET_REV` reads it back. -/
theorem charset_spec : ∀ c : Fin 32,
    33 ≤ charset.getD c 0 ∧ charset.getD c 0 ≤ 126 ∧
      ¬(ascii 'A' ≤ charset.getD c 0 ∧ charset.getD c 0 ≤ ascii 'Z') ∧
      charset.getD c 0 ≠ ascii '1' ∧ charsetRevAt (charset.getD c 0) = some c.val.toUInt8 := by
  decide

/-- Values below 32, written with `CHARSET`, are read back by `CHARSET_REV`. -/
theorem mapM_charsetRevAt : ∀ ws : List UInt8, (∀ w ∈ ws, w.toNat < 32) →
    (ws.map fun c => charset.getD c.toNat 0).mapM charsetRevAt = some ws
  | [], _ => rfl
  | w :: ws, hw => by
    have hrev := (charset_spec ⟨w.toNat, hw w List.mem_cons_self⟩).2.2.2.2
    have hback : (w.toNat).toUInt8 = w := by
      apply UInt8.toNat_inj.mp
      simp only [Nat.toUInt8_eq, UInt8.toNat_ofNat', UInt8.toNat_lt, Nat.mod_eq_of_lt]
    rw [hback] at hrev
    rw [List.map_cons, List.mapM_cons, hrev,
      mapM_charsetRevAt ws fun x hx => hw x (List.mem_cons_of_mem _ hx)]
    rfl

/-- Values below 32 are written with characters of `CHARSET`. -/
theorem mapM_charset : ∀ ws : List UInt8, (∀ w ∈ ws, w.toNat < 32) →
    ws.mapM (fun c => if c.toNat ≤ 32 then some (charset.getD c.toNat 0) else none) =
      some (ws.map fun c => charset.getD c.toNat 0)
  | [], _ => rfl
  | w :: ws, hw => by
    have hw₀ := hw w List.mem_cons_self
    rw [List.mapM_cons, if_pos (by omega), mapM_charset ws fun x hx => hw x (List.mem_cons_of_mem _ hx)]
    rfl

theorem printable_iff (c : UInt8) : (c < 33 || c > 126) = false ↔ 33 ≤ c ∧ c ≤ 126 := by
  simp only [Bool.or_eq_false_iff, decide_eq_false_iff_not, UInt8.not_lt, gt_iff_lt]

theorem upper_iff (c : UInt8) :
    (c ≥ ascii 'A' && c ≤ ascii 'Z') = false ↔ ¬(ascii 'A' ≤ c ∧ c ≤ ascii 'Z') := by
  simp only [ge_iff_le, Bool.and_eq_false_iff, decide_eq_false_iff_not, not_and_or]

theorem lowerCase_of_not_upper {c : UInt8} (h : ¬(ascii 'A' ≤ c ∧ c ≤ ascii 'Z')) : lowerCase c = c := by
  rw [lowerCase, if_neg (by simpa [ge_iff_le] using h)]

/-- `Decode` gives back the human-readable part and the values that `Encode` was given: a
non-empty part of printable characters without upper case, values below 32, and at most 90
characters in all. -/
theorem decode_encode (hrp values : List UInt8) (hne : 1 ≤ hrp.length)
    (hhrp : ∀ c ∈ hrp, 33 ≤ c ∧ c ≤ 126 ∧ ¬(ascii 'A' ≤ c ∧ c ≤ ascii 'Z'))
    (hval : ∀ v ∈ values, v < 32) (hsize : hrp.length + 1 + values.length + 6 ≤ 90) :
    ∃ s, encode hrp values = some s ∧ decode s = (hrp, values) := by
  have hdata : ∀ w ∈ values ++ createChecksum hrp values, w.toNat < 32 := by
    intro w hw
    rcases List.mem_append.mp hw with h | h
    · exact UInt8.lt_iff_toNat_lt.mp (hval w h)
    · exact mem_createChecksum_lt hrp values w h
  obtain ⟨tail, htail⟩ : ∃ tail, tail = (values ++ createChecksum hrp values).map
      fun c => charset.getD c.toNat 0 := ⟨_, rfl⟩
  refine ⟨hrp ++ ascii '1' :: tail, ?_, ?_⟩
  · simp only [encode, mapM_charset _ hdata, Option.bind_eq_bind, Option.bind_some, htail,
      List.append_assoc, List.singleton_append]
    rfl
  -- every character of the data part comes from `CHARSET`
  have htailspec : ∀ x ∈ tail, 33 ≤ x ∧ x ≤ 126 ∧ ¬(ascii 'A' ≤ x ∧ x ≤ ascii 'Z') ∧ x ≠ ascii '1' := by
    intro x hx
    rw [htail, List.mem_map] at hx
    obtain ⟨w, hw, rfl⟩ := hx
    obtain ⟨h1, h2, h3, h4, -⟩ := charset_spec ⟨w.toNat, hdata w hw⟩
    exact ⟨h1, h2, h3, h4⟩
  have hsep : 33 ≤ ascii '1' ∧ ascii '1' ≤ 126 ∧ ¬(ascii 'A' ≤ ascii '1' ∧ ascii '1' ≤ ascii 'Z') := by
    decide
  have hchars : ∀ x ∈ hrp ++ ascii '1' :: tail, 33 ≤ x ∧ x ≤ 126 ∧ ¬(ascii 'A' ≤ x ∧ x ≤ ascii 'Z') := by
    intro x hx
    rw [List.mem_append, List.mem_cons] at hx
    rcases hx with hx | rfl | hx
    · exact hhrp x hx
    · exact hsep
    · exact (htailspec x hx).imp_right fun h => h.imp_right And.left
  have hrange : (hrp ++ ascii '1' :: tail).any (fun c => c < 33 || c > 126) = false :=
    List.any_eq_false.mpr fun x hx => by
      rw [Bool.not_eq_true, printable_iff]
      exact ⟨(hchars x hx).1, (hchars x hx).2.1⟩
  have hupper : (hrp ++ ascii '1' :: tail).any (fun c => c ≥ ascii 'A' && c ≤ ascii 'Z') = false :=
    List.any_eq_false.mpr fun x hx => by
      rw [Bool.not_eq_true, upper_iff]
      exact (hchars x hx).2.2
  have hlen : (hrp ++ ascii '1' :: tail).length = hrp.length + 1 + values.length + 6 := by
    rw [htail]
    simp [length_createChecksum]
    omega
  have hpos : rfind (ascii '1') (hrp ++ ascii '1' :: tail) = some hrp.length :=
    rfind_append_cons hrp fun h => (htailspec _ h).2.2.2 rfl
  have hdrop : (hrp ++ ascii '1' :: tail).drop (hrp.length + 1) = tail := by
    rw [← List.singleton_append, ← List.append_assoc, List.drop_left' (by simp)]
  have htake : (hrp ++ ascii '1' :: tail).take hrp.length = hrp := by
    rw [List.take_left']
    rfl
  have hlower : hrp.map lowerCase = hrp :=
    (List.map_congr_left fun c hc => lowerCase_of_not_upper (hhrp c hc).2.2).trans (List.map_id _)
  have hverify : verifyChecksum hrp (values ++ createChecksum hrp values) = true := by
    rw [verifyChecksum, ← List.append_assoc, polyMod_append_createChecksum]
    rfl
  have hvalues : (values ++ createChecksum hrp values).take
      ((values ++ createChecksum hrp values).length - 6) = values := by
    rw [List.length_append, length_createChecksum, Nat.add_sub_cancel, List.take_left']
    rfl
  have hmapM : tail.mapM charsetRevAt = some (values ++ createChecksum hrp values) := by
    rw [htail]
    exact mapM_charsetRevAt _ hdata
  have hbounds : (decide ((hrp ++ ascii '1' :: tail).length > 90) || decide (hrp.length = 0) ||
      decide (hrp.length + 7 > (hrp ++ ascii '1' :: tail).length)) = false := by
    simp only [hlen, Bool.or_eq_false_iff, decide_eq_false_iff_not]
    omega
  unfold decode
  simp only [hrange, hupper, Bool.and_false, hpos, hdrop, htake, hlower, hbounds, hmapM, hverify,
    hvalues, Bool.false_eq_true, if_false, Bool.not_true]

end RoundTrip

/-- Bech32 round-trips, and `PolyMod` is the remainder by its generator. For a non-empty
human-readable part of characters 33 to 126 without upper case, and values below 32, that fit in
90 characters, `Encode` succeeds and `Decode` of its string is `(hrp, values)`. For every list `x` of elements of
GF(32), `PolyMod(x)` packs the coefficients of the remainder of `1·X^|x| + Σ x_i X^(|x|-1-i)` by
`g(X)`. -/
theorem bech32_roundTrip :
    (∀ hrp values : List UInt8, 1 ≤ hrp.length →
      (∀ c ∈ hrp, 33 ≤ c ∧ c ≤ 126 ∧ ¬(ascii 'A' ≤ c ∧ c ≤ ascii 'Z')) → (∀ v ∈ values, v < 32) →
      hrp.length + 1 + values.length + 6 ≤ 90 →
      ∃ s, encode hrp values = some s ∧ decode s = (hrp, values)) ∧
    ∀ x : List GF32, (polyMod (x.map GF32.toByte)).toNat = pack (polyRem generator (1 :: x)) :=
  ⟨fun hrp values hne hhrp hval hsize => decode_encode hrp values hne hhrp hval hsize,
    polyMod_eq_pack_polyRem⟩

end UnitedBitcoin.Bech32
