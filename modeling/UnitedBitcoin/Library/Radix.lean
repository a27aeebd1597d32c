import Mathlib

/-!
# Schoolbook base conversion in a fixed-size buffer

A number given by its digits in one base is converted to another base by keeping the
number read so far in a buffer of output digits: for each input digit, one pass from the
least significant end multiplies the buffer by the input base and adds the digit. Code
that allocates the buffer once stops each pass as soon as the carry is gone and the digits
that can be non-zero have been passed, and checks that no carry is left at the end.

* `mulAddPass` is such a pass and `mulAddAll` the pass over the whole buffer. They agree
  when the digits beyond those in use are zero (`mulAddPass_eq_mulAddAll`), and
  `mulAddAll_value` says what the pass computes.
* `convertDigits` is the loop over the input digits. `convertDigits_spec` shows that when
  the number fits in the buffer no carry is ever left and the buffer ends up holding it;
  conversely a conversion that succeeds had a number that fits (`lt_of_convertDigits_ok`).
* `significantDigits_eq_digits` reads the result: the digits in use without leading zeros
  are the number's digits.
* `pow_le_pow_of_ratio` turns one comparison of powers into a bound on the buffer size.

Buffers are little-endian lists: the head is the least significant digit.
-/

namespace UnitedBitcoin.Library

/-- Every digit from position `k` on is zero. -/
def ZeroFrom (k : Nat) (digits : List Nat) : Prop := ∀ d ∈ digits.drop k, d = 0

/-! ## One pass -/

section Pass

variable (mult base : Nat)

/-- `buffer := buffer * mult + carry` over the whole buffer: the digits and the carry
left at its end. -/
def mulAddAll : Nat → List Nat → List Nat × Nat
  | carry, [] => ([], carry)
  | carry, d :: ds =>
    let total := carry + mult * d
    let rest := mulAddAll (total / base) ds
    (total % base :: rest.1, rest.2)

/-- The same pass as the code runs it from digit `i` on: it goes on while there is a carry
or a digit below `used` is left, and also returns where it stopped. -/
def mulAddPass (used : Nat) : Nat → Nat → List Nat → List Nat × Nat × Nat
  | carry, i, [] => ([], carry, i)
  | carry, i, d :: ds =>
    if carry ≠ 0 ∨ i < used then
      let total := carry + mult * d
      let rest := mulAddPass used (total / base) (i + 1) ds
      (total % base :: rest.1, rest.2.1, rest.2.2)
    else (d :: ds, carry, i)

variable {mult base}

@[simp]
theorem length_mulAddAll (carry : Nat) (ds : List Nat) : (mulAddAll mult base carry ds).1.length = ds.length := by
  induction ds generalizing carry with
  | nil => rfl
  | cons d ds ih => simp [mulAddAll, ih]

theorem mulAddAll_lt (hbase : 0 < base) (carry : Nat) (ds : List Nat) :
    ∀ d ∈ (mulAddAll mult base carry ds).1, d < base := by
  induction ds generalizing carry with
  | nil => simp [mulAddAll]
  | cons d ds ih =>
    intro x hx
    simp only [mulAddAll, List.mem_cons] at hx
    rcases hx with rfl | hx
    · exact Nat.mod_lt _ hbase
    · exact ih _ x hx

/-- The pass computes `buffer * mult + carry`, the part beyond the buffer left as carry. -/
theorem mulAddAll_value (carry : Nat) (ds : List Nat) :
    Nat.ofDigits base (mulAddAll mult base carry ds).1 + base ^ ds.length * (mulAddAll mult base carry ds).2 =
      Nat.ofDigits base ds * mult + carry := by
  induction ds generalizing carry with
  | nil => simp [mulAddAll]
  | cons d ds ih =>
    have hrest := ih ((carry + mult * d) / base)
    have hsplit := Nat.mod_add_div (carry + mult * d) base
    simp only [mulAddAll, Nat.ofDigits_cons, List.length_cons, pow_succ]
    -- the head digit and the carry into the rest make up `carry + mult * d`
    calc (carry + mult * d) % base + base * Nat.ofDigits base (mulAddAll mult base ((carry + mult * d) / base) ds).1 +
          base ^ ds.length * base * (mulAddAll mult base ((carry + mult * d) / base) ds).2
        = (carry + mult * d) % base + base * (Nat.ofDigits base (mulAddAll mult base ((carry + mult * d) / base) ds).1 +
          base ^ ds.length * (mulAddAll mult base ((carry + mult * d) / base) ds).2) := by ring
      _ = (d + base * Nat.ofDigits base ds) * mult + carry := by rw [hrest]; linarith

/-- With no carry, a pass over zeros leaves them. -/
theorem mulAddAll_zeros {ds : List Nat} (hzero : ∀ d ∈ ds, d = 0) : mulAddAll mult base 0 ds = (ds, 0) := by
  induction ds with
  | nil => rfl
  | cons d ds ih =>
    have hd : d = 0 := hzero d List.mem_cons_self
    subst hd
    simp [mulAddAll, ih fun x hx => hzero x (List.mem_cons_of_mem _ hx)]

theorem zeroFrom_zero {ds : List Nat} : ZeroFrom 0 ds ↔ ∀ x ∈ ds, x = 0 := by
  simp [ZeroFrom]

/-- What a pass that goes on from digit `i` to digit `i + 1` knows of the digits after it. -/
theorem zeroFrom_next {used i d : Nat} {ds : List Nat} (hzero : ZeroFrom (used - i) (d :: ds)) :
    ZeroFrom (used - (i + 1)) ds := by
  by_cases hi : i < used
  · rw [show used - i = used - (i + 1) + 1 by omega] at hzero
    exact hzero
  · rw [show used - i = 0 by omega, zeroFrom_zero] at hzero
    rw [show used - (i + 1) = 0 by omega, zeroFrom_zero]
    exact fun x hx => hzero x (List.mem_cons_of_mem d hx)

/-- Stopping early changes nothing when the digits not in use are zero. -/
theorem mulAddPass_eq_mulAddAll {used : Nat} (ds : List Nat) :
    ∀ {carry i : Nat}, ZeroFrom (used - i) ds →
      ((mulAddPass mult base used carry i ds).1, (mulAddPass mult base used carry i ds).2.1) =
        mulAddAll mult base carry ds := by
  induction ds with
  | nil => intro carry i _; rfl
  | cons d ds ih =>
    intro carry i hzero
    by_cases hgo : carry ≠ 0 ∨ i < used
    · -- the digit is passed, and the rest of the buffer is in use from `i + 1` on
      have hrest := @ih ((carry + mult * d) / base) (i + 1) (zeroFrom_next hzero)
      rw [mulAddPass, if_pos hgo, mulAddAll, ← hrest]
    · -- no carry, and every digit from here on is zero
      have hcarry : carry = 0 := by omega
      have hall : ∀ x ∈ d :: ds, x = 0 := by
        rw [show used - i = 0 by omega, zeroFrom_zero] at hzero
        exact hzero
      rw [mulAddPass, if_neg hgo, hcarry, mulAddAll_zeros hall]

theorem le_mulAddPass_index {used : Nat} (ds : List Nat) :
    ∀ {carry i : Nat}, i ≤ (mulAddPass mult base used carry i ds).2.2 ∧
      (mulAddPass mult base used carry i ds).2.2 ≤ i + ds.length := by
  induction ds with
  | nil => intro carry i; simp [mulAddPass]
  | cons d ds ih =>
    intro carry i
    unfold mulAddPass
    split_ifs
    · have := @ih ((carry + mult * d) / base) (i + 1)
      simp only [List.length_cons]
      omega
    · simp

/-- After a pass the digits beyond where it stopped are still zero. -/
theorem zeroFrom_mulAddPass {used : Nat} (ds : List Nat) :
    ∀ {carry i : Nat}, ZeroFrom (used - i) ds →
      ZeroFrom ((mulAddPass mult base used carry i ds).2.2 - i) (mulAddPass mult base used carry i ds).1 := by
  induction ds with
  | nil => intro carry i _; simp [mulAddPass, ZeroFrom]
  | cons d ds ih =>
    intro carry i hzero
    by_cases hgo : carry ≠ 0 ∨ i < used
    · have hrest := @ih ((carry + mult * d) / base) (i + 1) (zeroFrom_next hzero)
      have hindex := (@le_mulAddPass_index mult base used ds ((carry + mult * d) / base) (i + 1)).1
      simp only [mulAddPass, if_pos hgo]
      rw [show (mulAddPass mult base used ((carry + mult * d) / base) (i + 1) ds).2.2 - i =
        (mulAddPass mult base used ((carry + mult * d) / base) (i + 1) ds).2.2 - (i + 1) + 1 by omega]
      exact hrest
    · simp only [mulAddPass, if_neg hgo, Nat.sub_self]
      rw [show used - i = 0 by omega] at hzero
      exact hzero

end Pass

/-! ## The loop over the input digits -/

/-- Why a conversion stops: a character that is no digit, or a carry left at the end of
the buffer. -/
inductive ConvertStop where
  | invalidDigit
  | carryLeft
  deriving DecidableEq, Repr

section Convert

variable (mult base : Nat)

/-- The input digits, most significant first, each multiplied into the buffer by one pass
that starts with the digit as carry; the returned number is how far the last pass went. -/
def convertDigits : List (Option Nat) → List Nat → Nat → Except ConvertStop (List Nat × Nat)
  | [], buffer, used => .ok (buffer, used)
  | none :: _, _, _ => .error .invalidDigit
  | some digit :: digits, buffer, used =>
    let pass := mulAddPass mult base used digit 0 buffer
    if pass.2.1 = 0 then convertDigits digits pass.1 pass.2.2 else .error .carryLeft

/-- The number whose digits in base `mult` are given, most significant first, read on from
`acc`. -/
def bigEndianValue (acc : Nat) (digits : List Nat) : Nat :=
  digits.foldl (fun acc d => acc * mult + d) acc

variable {mult base}

theorem le_bigEndianValue (hmult : 0 < mult) (acc : Nat) (digits : List Nat) :
    acc ≤ bigEndianValue mult acc digits := by
  induction digits generalizing acc with
  | nil => exact le_refl _
  | cons d ds ih =>
    calc acc ≤ acc * mult + d := by nlinarith
      _ ≤ bigEndianValue mult (acc * mult + d) ds := ih _

theorem bigEndianValue_eq_ofDigits (acc : Nat) (digits : List Nat) :
    bigEndianValue mult acc digits = acc * mult ^ digits.length + Nat.ofDigits mult digits.reverse := by
  induction digits generalizing acc with
  | nil => simp [bigEndianValue]
  | cons d ds ih =>
    simp only [bigEndianValue, List.foldl_cons] at ih ⊢
    rw [ih, List.reverse_cons, Nat.ofDigits_append, List.length_reverse, Nat.ofDigits_singleton,
      List.length_cons, pow_succ]
    ring

theorem bigEndianValue_lt (hmult : 1 < mult) {digits : List Nat} (hlt : ∀ d ∈ digits, d < mult) :
    bigEndianValue mult 0 digits < mult ^ digits.length := by
  rw [bigEndianValue_eq_ofDigits, zero_mul, zero_add, ← List.length_reverse]
  exact Nat.ofDigits_lt_base_pow_length hmult fun d hd => hlt d (List.mem_reverse.mp hd)

/-- Leading zero digits do not change the number. -/
theorem bigEndianValue_replicate_zero_append (zeroes : Nat) (digits : List Nat) :
    bigEndianValue mult 0 (List.replicate zeroes 0 ++ digits) = bigEndianValue mult 0 digits := by
  induction zeroes with
  | zero => rfl
  | succ zeroes ih => simpa [bigEndianValue, List.replicate_succ] using ih

/-- A conversion that succeeds was given a digit for every character. -/
theorem exists_map_some_of_convertDigits_ok {inputs : List (Option Nat)} :
    ∀ {buffer : List Nat} {used : Nat} {result : List Nat × Nat},
      convertDigits mult base inputs buffer used = .ok result → ∃ digits : List Nat, inputs = digits.map some := by
  induction inputs with
  | nil => intro _ _ _ _; exact ⟨[], rfl⟩
  | cons input inputs ih =>
    intro buffer used result hrun
    cases input with
    | none => simp [convertDigits] at hrun
    | some digit =>
      simp only [convertDigits] at hrun
      split_ifs at hrun
      obtain ⟨digits, rfl⟩ := ih hrun
      exact ⟨digit :: digits, rfl⟩

/-- Converting two lists of digits one after the other is converting their concatenation. -/
theorem convertDigits_append (first second : List (Option Nat)) :
    ∀ (buffer : List Nat) (used : Nat), convertDigits mult base (first ++ second) buffer used =
      (convertDigits mult base first buffer used).bind fun r => convertDigits mult base second r.1 r.2 := by
  induction first with
  | nil => intro _ _; rfl
  | cons input first ih =>
    intro buffer used
    cases input with
    | none => rfl
    | some digit =>
      simp only [List.cons_append, convertDigits]
      split_ifs
      · exact ih _ _
      · rfl

/-- Every list of lookups is the digits found up to the first character not found. -/
theorem exists_map_some_append (inputs : List (Option Nat)) :
    ∃ (digits : List Nat) (rest : List (Option Nat)), inputs = digits.map some ++ rest ∧
      (rest = [] ∨ ∃ later, rest = none :: later) := by
  induction inputs with
  | nil => exact ⟨[], [], rfl, .inl rfl⟩
  | cons input inputs ih =>
    cases input with
    | none => exact ⟨[], none :: inputs, rfl, .inr ⟨inputs, rfl⟩⟩
    | some digit =>
      obtain ⟨digits, rest, hsplit, hrest⟩ := ih
      exact ⟨digit :: digits, rest, by rw [hsplit]; rfl, hrest⟩

/-- One pass starting with the digit as carry computes `acc * mult + digit`, the part beyond
the buffer left as carry. -/
theorem mulAddPass_value {buffer : List Nat} {used acc digit : Nat} (hzero : ZeroFrom used buffer)
    (hvalue : Nat.ofDigits base buffer = acc) :
    Nat.ofDigits base (mulAddPass mult base used digit 0 buffer).1 +
      base ^ buffer.length * (mulAddPass mult base used digit 0 buffer).2.1 = acc * mult + digit := by
  have hpass := @mulAddPass_eq_mulAddAll mult base used buffer digit 0 hzero
  have hfst : (mulAddPass mult base used digit 0 buffer).1 = (mulAddAll mult base digit buffer).1 :=
    congrArg Prod.fst hpass
  have hsnd : (mulAddPass mult base used digit 0 buffer).2.1 = (mulAddAll mult base digit buffer).2 :=
    congrArg Prod.snd hpass
  rw [hfst, hsnd, mulAddAll_value, hvalue]

/-- A pass that leaves no carry keeps what the loop over the input digits relies on: the buffer
holds digits, zero beyond where the pass stopped, and now holds `acc * mult + digit`. -/
theorem mulAddPass_keeps (hbase : 0 < base) {buffer : List Nat} {used acc digit : Nat}
    (hzero : ZeroFrom used buffer) (hvalue : Nat.ofDigits base buffer = acc)
    (hcarry : (mulAddPass mult base used digit 0 buffer).2.1 = 0) :
    (∀ d ∈ (mulAddPass mult base used digit 0 buffer).1, d < base) ∧
      ZeroFrom (mulAddPass mult base used digit 0 buffer).2.2 (mulAddPass mult base used digit 0 buffer).1 ∧
      (mulAddPass mult base used digit 0 buffer).2.2 ≤ buffer.length ∧
      (mulAddPass mult base used digit 0 buffer).1.length = buffer.length ∧
      Nat.ofDigits base (mulAddPass mult base used digit 0 buffer).1 = acc * mult + digit := by
  have hfst : (mulAddPass mult base used digit 0 buffer).1 = (mulAddAll mult base digit buffer).1 :=
    congrArg Prod.fst (@mulAddPass_eq_mulAddAll mult base used buffer digit 0 hzero)
  have hstep := @mulAddPass_value mult base buffer used acc digit hzero hvalue
  rw [hcarry, mul_zero, add_zero] at hstep
  have hend := (@le_mulAddPass_index mult base used buffer digit 0).2
  refine ⟨?_, by simpa using @zeroFrom_mulAddPass mult base used buffer digit 0 hzero, by omega, ?_, hstep⟩
  · rw [hfst]
    exact mulAddAll_lt hbase _ _
  · rw [hfst]
    exact length_mulAddAll _ _

/-- When the number fits in the buffer, no pass leaves a carry, and the buffer ends up
holding the number, with zeros beyond the digits in use. -/
theorem convertDigits_spec (hmult : 0 < mult) (hbase : 0 < base) (digits : List Nat) :
    ∀ {buffer : List Nat} {used acc : Nat}, (∀ d ∈ buffer, d < base) → ZeroFrom used buffer →
      used ≤ buffer.length → Nat.ofDigits base buffer = acc →
      bigEndianValue mult acc digits < base ^ buffer.length →
      ∃ buffer' used', convertDigits mult base (digits.map some) buffer used = .ok (buffer', used') ∧
        buffer'.length = buffer.length ∧ (∀ d ∈ buffer', d < base) ∧ ZeroFrom used' buffer' ∧
        used' ≤ buffer'.length ∧ Nat.ofDigits base buffer' = bigEndianValue mult acc digits := by
  induction digits with
  | nil =>
    intro buffer used acc hdigits hzero hused hvalue _
    exact ⟨buffer, used, rfl, rfl, hdigits, hzero, hused, hvalue⟩
  | cons digit digits ih =>
    intro buffer used acc _ hzero _ hvalue hfits
    -- the number so far is below the final one, so the pass leaves no carry
    have hbelow : acc * mult + digit < base ^ buffer.length :=
      lt_of_le_of_lt (le_bigEndianValue hmult _ digits) hfits
    have hcarry : (mulAddPass mult base used digit 0 buffer).2.1 = 0 := by
      by_contra hne
      have hstep := @mulAddPass_value mult base buffer used acc digit hzero hvalue
      have : base ^ buffer.length ≤ base ^ buffer.length * (mulAddPass mult base used digit 0 buffer).2.1 :=
        Nat.le_mul_of_pos_right _ (Nat.pos_of_ne_zero hne)
      omega
    obtain ⟨hlt, hzero', hused', hlength, hvalue'⟩ := mulAddPass_keeps hbase hzero hvalue hcarry
    obtain ⟨buffer', used', hrun, hlength', hrest⟩ :=
      ih hlt hzero' (by omega) hvalue' (by rw [hlength]; exact hfits)
    refine ⟨buffer', used', ?_, hlength'.trans hlength, hrest⟩
    simp only [List.map_cons, convertDigits, if_pos hcarry]
    exact hrun

/-- A conversion that succeeds leaves the number in the buffer, so the number fits. -/
theorem lt_of_convertDigits_ok (hbase : 1 < base) (digits : List Nat) :
    ∀ {buffer : List Nat} {used acc : Nat} {result : List Nat × Nat}, (∀ d ∈ buffer, d < base) →
      ZeroFrom used buffer → Nat.ofDigits base buffer = acc →
      convertDigits mult base (digits.map some) buffer used = .ok result →
      bigEndianValue mult acc digits < base ^ buffer.length := by
  induction digits with
  | nil =>
    intro buffer used acc result hdigits _ hvalue _
    rw [← hvalue]
    exact Nat.ofDigits_lt_base_pow_length hbase hdigits
  | cons digit digits ih =>
    intro buffer used acc result _ hzero hvalue hrun
    simp only [List.map_cons, convertDigits] at hrun
    split_ifs at hrun with hcarry
    obtain ⟨hlt, hzero', -, hlength, hvalue'⟩ := mulAddPass_keeps (by omega) hzero hvalue hcarry
    rw [← hlength]
    exact ih hlt hzero' hvalue' hrun

/-- Every input digit is a digit, so a conversion stops only with a carry left. -/
theorem convertDigits_map_some_ne_invalidDigit (digits : List Nat) :
    ∀ (buffer : List Nat) (used : Nat), convertDigits mult base (digits.map some) buffer used ≠ .error .invalidDigit := by
  induction digits with
  | nil => intro _ _; simp [convertDigits]
  | cons digit digits ih =>
    intro buffer used
    simp only [List.map_cons, convertDigits]
    split_ifs
    · exact ih _ _
    · simp

end Convert

/-! ## Reading the result -/

/-- The digits the code reads out of the buffer: most significant first, from the first
digit in use on, leading zeros skipped. -/
def significantDigits (buffer : List Nat) (used : Nat) : List Nat :=
  (buffer.reverse.drop (buffer.length - used)).dropWhile (· == 0)

section Reading

variable {base : Nat}

/-- Without its leading zeros, a little-endian buffer read most significant first is the
list of the number's digits. -/
theorem dropWhile_reverse_eq_digits (hbase : 1 < base) (buffer : List Nat)
    (hlt : ∀ d ∈ buffer, d < base) :
    buffer.reverse.dropWhile (· == 0) = (Nat.digits base (Nat.ofDigits base buffer)).reverse := by
  obtain ⟨kept, hkept⟩ : ∃ kept, kept = (buffer.reverse.dropWhile (· == 0)).reverse := ⟨_, rfl⟩
  have hzeros : (buffer.reverse.takeWhile (· == 0)).reverse =
      List.replicate (buffer.reverse.takeWhile (· == 0)).length 0 := by
    rw [List.eq_replicate_iff, List.length_reverse]
    refine ⟨rfl, fun d hd => ?_⟩
    simpa using List.mem_takeWhile_imp (List.mem_reverse.mp hd)
  -- the buffer is the digits kept, then zeros
  have hsplit : buffer = kept ++ List.replicate (buffer.reverse.takeWhile (· == 0)).length 0 := by
    rw [hkept, ← hzeros, ← List.reverse_append, List.takeWhile_append_dropWhile, List.reverse_reverse]
  have hkeptLt : ∀ d ∈ kept, d < base := fun d hd =>
    hlt d (by rw [hsplit]; exact List.mem_append_left _ hd)
  have hlast : ∀ h : kept ≠ [], kept.getLast h ≠ 0 := by
    subst hkept
    intro h
    rw [List.getLast_reverse]
    simpa using List.head_dropWhile_not (· == 0) (List.reverse_ne_nil_iff.mp h)
  have hvalue : Nat.ofDigits base buffer = Nat.ofDigits base kept := by
    conv_lhs => rw [hsplit]
    exact Nat.ofDigits_append_replicate_zero kept
  rw [hvalue, Nat.digits_ofDigits base hbase kept hkeptLt hlast, hkept, List.reverse_reverse]

/-- The digits read out after a conversion are the number's digits. -/
theorem significantDigits_eq_digits (hbase : 1 < base) {buffer : List Nat} {used : Nat}
    (hlt : ∀ d ∈ buffer, d < base) (hzero : ZeroFrom used buffer) (hused : used ≤ buffer.length) :
    significantDigits buffer used = (Nat.digits base (Nat.ofDigits base buffer)).reverse := by
  have hdrop : buffer.drop used = List.replicate (buffer.length - used) 0 := by
    rw [List.eq_replicate_iff, List.length_drop]
    exact ⟨rfl, hzero⟩
  have hsplit : buffer = buffer.take used ++ List.replicate (buffer.length - used) 0 := by
    rw [← hdrop, List.take_append_drop]
  have htake : ∀ d ∈ buffer.take used, d < base := fun d hd => hlt d (List.mem_of_mem_take hd)
  -- the digits beyond those in use are the leading zeros the code skips first
  have hreverse : buffer.reverse.drop (buffer.length - used) = (buffer.take used).reverse := by
    conv_lhs => rw [hsplit]
    rw [List.reverse_append, List.reverse_replicate]
    exact List.drop_left' (by simp; omega)
  rw [significantDigits, hreverse, dropWhile_reverse_eq_digits hbase _ htake]
  conv_rhs => rw [hsplit, Nat.ofDigits_append_replicate_zero]

/-- A list of digits without leading zeros is the list of digits of its number. -/
theorem digits_bigEndianValue (hbase : 1 < base) {digits : List Nat} (hlt : ∀ d ∈ digits, d < base)
    (hhead : digits.head? ≠ some 0) :
    (Nat.digits base (bigEndianValue base 0 digits)).reverse = digits := by
  have hlast : ∀ h : digits.reverse ≠ [], digits.reverse.getLast h ≠ 0 := by
    intro h
    rw [List.getLast_reverse]
    intro hzero
    apply hhead
    rw [List.head?_eq_some_head (List.reverse_ne_nil_iff.mp h), hzero]
  rw [bigEndianValue_eq_ofDigits, zero_mul, zero_add,
    Nat.digits_ofDigits base hbase _ (fun d hd => hlt d (List.mem_reverse.mp hd)) hlast,
    List.reverse_reverse]

/-- The digits of a number, most significant first, read back give the number. -/
theorem bigEndianValue_digits_reverse (n : Nat) : bigEndianValue base 0 (Nat.digits base n).reverse = n := by
  rw [bigEndianValue_eq_ofDigits, zero_mul, zero_add, List.reverse_reverse, Nat.ofDigits_digits]

theorem head?_digits_reverse_ne_zero (n : Nat) : (Nat.digits base n).reverse.head? ≠ some 0 := by
  rw [List.head?_reverse]
  intro hlast
  have hne : Nat.digits base n ≠ [] := by
    intro hnil
    simp [hnil] at hlast
  have hn : n ≠ 0 := fun h => hne (by simp [h])
  apply Nat.getLast_digit_ne_zero base hn
  rw [List.getLast?_eq_some_getLast hne] at hlast
  exact Option.some_injective _ hlast

end Reading

/-- A conversion into a zeroed buffer that holds the number succeeds, and the digits read out
are the number's. -/
theorem convertDigits_replicate {mult base : Nat} (hmult : 0 < mult) (hbase : 1 < base) {digits : List Nat}
    {size : Nat} (hfits : bigEndianValue mult 0 digits < base ^ size) :
    ∃ buffer used, convertDigits mult base (digits.map some) (List.replicate size 0) 0 = .ok (buffer, used) ∧
      significantDigits buffer used = (Nat.digits base (bigEndianValue mult 0 digits)).reverse := by
  have hzero : ZeroFrom 0 (List.replicate size 0) := by simp [ZeroFrom]
  obtain ⟨buffer, used, hrun, -, hlt, hzero', hused, hvalue⟩ :=
    @convertDigits_spec mult base hmult (by omega) digits (List.replicate size 0) 0 0
      (fun d hd => by rw [List.eq_of_mem_replicate hd]; omega) hzero
      (Nat.zero_le _) Nat.ofDigits_replicate_zero (by simpa using hfits)
  refine ⟨buffer, used, hrun, ?_⟩
  rw [significantDigits_eq_digits hbase hlt hzero' hused, hvalue]

/-- What a conversion into a zeroed buffer reads out when it succeeds: the number's digits. -/
theorem significantDigits_of_convertDigits_replicate {mult base : Nat} (hmult : 0 < mult) (hbase : 1 < base)
    {digits : List Nat} {size : Nat} {buffer : List Nat} {used : Nat}
    (hrun : convertDigits mult base (digits.map some) (List.replicate size 0) 0 = .ok (buffer, used)) :
    significantDigits buffer used = (Nat.digits base (bigEndianValue mult 0 digits)).reverse := by
  have hfits := lt_of_convertDigits_ok hbase digits
    (fun d hd => by rw [List.eq_of_mem_replicate hd]; omega) (by simp [ZeroFrom]) Nat.ofDigits_replicate_zero hrun
  rw [List.length_replicate] at hfits
  obtain ⟨buffer', used', hrun', hread⟩ := convertDigits_replicate hmult hbase hfits
  rw [hrun, Except.ok.injEq, Prod.mk.injEq] at hrun'
  rw [hrun'.1, hrun'.2]
  exact hread

/-- A conversion into a zeroed buffer too small for the number stops with a carry left. -/
theorem convertDigits_replicate_eq_carryLeft {mult base : Nat} (hbase : 1 < base) {digits : List Nat}
    {size : Nat} (hlarge : base ^ size ≤ bigEndianValue mult 0 digits) :
    convertDigits mult base (digits.map some) (List.replicate size 0) 0 = .error .carryLeft := by
  match hrun : convertDigits mult base (digits.map some) (List.replicate size 0) 0 with
  | .ok _ =>
    have hfits := lt_of_convertDigits_ok hbase digits
      (fun d hd => by rw [List.eq_of_mem_replicate hd]; omega) (by simp [ZeroFrom]) Nat.ofDigits_replicate_zero hrun
    rw [List.length_replicate] at hfits
    omega
  | .error .invalidDigit => exact absurd hrun (convertDigits_map_some_ne_invalidDigit digits _ _)
  | .error .carryLeft => rfl

/-! ## Leading runs

Both conversions count a leading run of one symbol (zero bytes, or the character of the zero
digit) apart from the number. -/

section Runs

variable {α : Type} [BEq α] [LawfulBEq α]

theorem replicate_append_dropWhile (a : α) (l : List α) :
    List.replicate (l.takeWhile (· == a)).length a ++ l.dropWhile (· == a) = l := by
  have hrun : l.takeWhile (· == a) = List.replicate (l.takeWhile (· == a)).length a := by
    rw [List.eq_replicate_iff]
    exact ⟨rfl, fun x hx => by simpa using List.mem_takeWhile_imp hx⟩
  rw [← hrun, List.takeWhile_append_dropWhile]

theorem head?_dropWhile_ne (a : α) (l : List α) : (l.dropWhile (· == a)).head? ≠ some a := by
  intro hhead
  have hne : l.dropWhile (· == a) ≠ [] := by
    intro hnil
    simp [hnil] at hhead
  have hnot := List.head_dropWhile_not (· == a) hne
  rw [List.head?_eq_some_head hne] at hhead
  simp [Option.some_injective _ hhead] at hnot

theorem takeWhile_replicate_append {a : α} {n : Nat} {l : List α} (hhead : l.head? ≠ some a) :
    (List.replicate n a ++ l).takeWhile (· == a) = List.replicate n a := by
  rw [List.takeWhile_append_of_pos (by simp)]
  cases l with
  | nil => simp
  | cons x l =>
    have hx : (x == a) = false := by simpa using hhead
    simp [List.takeWhile_cons_of_neg, hx]

theorem dropWhile_replicate_append {a : α} {n : Nat} {l : List α} (hhead : l.head? ≠ some a) :
    (List.replicate n a ++ l).dropWhile (· == a) = l := by
  rw [List.dropWhile_append_of_pos (by simp)]
  cases l with
  | nil => rfl
  | cons x l =>
    have hx : (x == a) = false := by simpa using hhead
    simp [List.dropWhile_cons_of_neg, hx]

end Runs

theorem length_takeWhile_le_of_imp {α : Type} {p q : α → Bool} (hpq : ∀ a, p a → q a) (l : List α) :
    (l.takeWhile p).length ≤ (l.takeWhile q).length := by
  induction l with
  | nil => simp
  | cons a l ih =>
    by_cases hp : p a
    · simp [hp, hpq a hp, ih]
    · simp [List.takeWhile_cons, hp]

/-- One comparison of powers bounds every power of the same ratio: if `a ^ q ≤ b ^ p`,
then `a ^ r ≤ b ^ k` as soon as `p * r ≤ q * k`. -/
theorem pow_le_pow_of_ratio {a b p q r k : Nat} (hb : 1 ≤ b) (hq : 0 < q) (hratio : a ^ q ≤ b ^ p)
    (hk : p * r ≤ q * k) : a ^ r ≤ b ^ k := by
  rw [← Nat.pow_le_pow_iff_left hq.ne']
  calc (a ^ r) ^ q = (a ^ q) ^ r := by rw [← pow_mul, ← pow_mul, mul_comm]
    _ ≤ (b ^ p) ^ r := Nat.pow_le_pow_left hratio r
    _ = b ^ (p * r) := by rw [← pow_mul]
    _ ≤ b ^ (q * k) := Nat.pow_le_pow_right hb hk
    _ = (b ^ k) ^ q := by rw [← pow_mul, mul_comm]

end UnitedBitcoin.Library
