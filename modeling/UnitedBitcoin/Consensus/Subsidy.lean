import Mathlib
import UnitedBitcoin.Coins.Compressor

/-!
# The block subsidy schedule

`GetBlockSubsidy` (`validation.cpp`) pays in three regimes of height: Bitcoin's halvings before
`ForkV1Height`; from there to `ForkV4Height` a tenth of the halved subsidy times 0.8; and after
that a tenth times 0.4. In both fork regimes the number of halvings is two up to
`PeriodEndHeight` and grows by one every ten halving intervals after it. The double products
`x * 0.8` and `x * 0.4` are read as `x * 4 / 5` and `x * 2 / 5` rounded down.

Heights are naturals: every caller passes the height of a block. On the main network the subsidy
never grows from one height to the next (`getBlockSubsidy_main_succ_le`), nothing is paid from
height 54242410 on (`getBlockSubsidy_main_eq_zero`), and all heights together pay
1865155470600000 (`mainSupply_eq`), which is below `MAX_MONEY` (`subsidy_schedule`).
-/

/-!
## Sums of step functions over the naturals

A schedule that pays a constant amount over stretches of heights, and nothing after some
height, has its total computed stretch by stretch. `sum_Ico_of_const` sums one constant stretch,
`sum_Ico_blocks` cuts a run of equal-length stretches into blocks (`sum_Ico_blocks_of_const`
when each is constant), and
`sum_range_le_of_eq_zero` bounds every partial sum by the sum up to the last paying height.
-/

namespace UnitedBitcoin.Library

open Finset

section Stretches

variable {M : Type*} [AddCommMonoid M]

/-- A function constant on `[a, b)` sums to `(b - a) • c` there. -/
theorem sum_Ico_of_const {f : ℕ → M} {a b : ℕ} {c : M} (hc : ∀ x ∈ Ico a b, f x = c) :
    ∑ x ∈ Ico a b, f x = (b - a) • c := by
  rw [sum_congr rfl hc, sum_const, Nat.card_Ico]

/-- `n` consecutive blocks of length `L` from `a`, summed block by block. -/
theorem sum_Ico_blocks (f : ℕ → M) (a L : ℕ) :
    ∀ n, ∑ x ∈ Ico a (a + L * n), f x = ∑ j ∈ range n, ∑ i ∈ Ico (a + L * j) (a + L * (j + 1)), f i
  | 0 => by simp
  | n + 1 => by
    -- the last block is the one the induction adds
    have hle : a ≤ a + L * n := Nat.le_add_right a _
    have hstep : a + L * n ≤ a + L * (n + 1) := by nlinarith
    rw [← sum_Ico_consecutive f hle hstep, sum_Ico_blocks f a L n, sum_range_succ]

/-- `n` consecutive blocks of length `L`, each constant, sum to `L` times each block's value. -/
theorem sum_Ico_blocks_of_const {f : ℕ → M} {a L n : ℕ} {c : ℕ → M}
    (hc : ∀ j < n, ∀ x ∈ Ico (a + L * j) (a + L * (j + 1)), f x = c j) :
    ∑ x ∈ Ico a (a + L * n), f x = ∑ j ∈ range n, L • c j := by
  rw [sum_Ico_blocks f a L n]
  refine sum_congr rfl fun j hj => ?_
  have hlen : a + L * (j + 1) - (a + L * j) = L := by rw [Nat.mul_succ]; omega
  rw [sum_Ico_of_const (hc j (mem_range.mp hj)), hlen]

/-- Nothing is paid from `m` on, so summing further adds nothing. -/
theorem sum_range_eq_of_eq_zero {f : ℕ → M} {m n : ℕ} (hzero : ∀ x, m ≤ x → f x = 0) (hmn : m ≤ n) :
    ∑ x ∈ range n, f x = ∑ x ∈ range m, f x := by
  rw [range_eq_Ico, range_eq_Ico, ← sum_Ico_consecutive f (Nat.zero_le m) hmn,
    sum_eq_zero fun x hx => hzero x (mem_Ico.mp hx).1, add_zero]

end Stretches

section Tail

variable {M : Type*} [AddCommMonoid M] [PartialOrder M] [IsOrderedAddMonoid M]

/-- A non-negative schedule that pays nothing from `m` on has every partial sum below the sum
up to `m`. -/
theorem sum_range_le_of_eq_zero {f : ℕ → M} {m : ℕ} (hnonneg : ∀ x, 0 ≤ f x)
    (hzero : ∀ x, m ≤ x → f x = 0) (n : ℕ) : ∑ x ∈ range n, f x ≤ ∑ x ∈ range m, f x := by
  rcases le_total n m with hnm | hmn
  · exact sum_le_sum_of_subset_of_nonneg (range_subset_range.mpr hnm) fun x _ _ => hnonneg x
  · exact (sum_range_eq_of_eq_zero hzero hmn).le

end Tail

end UnitedBitcoin.Library

namespace UnitedBitcoin.Subsidy

open Finset UnitedBitcoin.Library
open UnitedBitcoin.Coins (coin maxMoney)

/-- The fields of `Consensus::Params` that `GetBlockSubsidy` reads. Every caller passes
`chainparams.GetConsensus()`, so the fork heights that the source reads through `Params()` are
these too. -/
structure SubsidyParams where
  nSubsidyHalvingInterval : Nat
  ForkV1Height : Nat
  ForkV4Height : Nat
  deriving DecidableEq, Repr

/-- The subsidy fields of `CMainParams`. -/
def mainParams : SubsidyParams where
  nSubsidyHalvingInterval := 210000
  ForkV1Height := 506400
  ForkV4Height := 813500

/-- `50 * COIN >> halvings`, or zero where the shift would be undefined. -/
def halvedSubsidy (halvings : Int) : Int :=
  if halvings ≥ 64 then 0 else (50 * coin) >>> halvings.toNat

/-- The halvings of both fork regimes, in `int`. `halfPeriodLeft` is negative when `ForkV1Height`
comes before the second halving, as on testnet. `halfPeriodRight`, which the source also
computes, is never read. -/
def forkHalvings (nHeight : Nat) (consensusParams : SubsidyParams) : Int :=
  let halfPeriodLeft : Int :=
    (consensusParams.ForkV1Height : Int) - 1 - consensusParams.nSubsidyHalvingInterval * 2
  let PeriodEndHeight : Int :=
    (consensusParams.ForkV1Height : Int) - 1 + (consensusParams.nSubsidyHalvingInterval - halfPeriodLeft) * 10
  if (nHeight : Int) ≤ PeriodEndHeight then 2
  else 3 + ((nHeight : Int) - PeriodEndHeight - 1).tdiv (consensusParams.nSubsidyHalvingInterval * 10)

/-- `GetBlockSubsidy(nHeight, consensusParams)`. In the fork regimes the source returns zero for
64 halvings and more before it scales; scaling the zero of `halvedSubsidy` gives the same. -/
def getBlockSubsidy (nHeight : Nat) (consensusParams : SubsidyParams) : Int :=
  if nHeight < consensusParams.ForkV1Height then
    halvedSubsidy (nHeight / consensusParams.nSubsidyHalvingInterval : Nat)
  else if nHeight < consensusParams.ForkV4Height then
    halvedSubsidy (forkHalvings nHeight consensusParams) / 10 * 4 / 5
  else halvedSubsidy (forkHalvings nHeight consensusParams) / 10 * 2 / 5

/-! ## The schedule on any network -/

theorem halvedSubsidy_of_lt {k : Int} (hk : k < 64) :
    halvedSubsidy k = ((5000000000 / 2 ^ k.toNat : Nat) : Int) := by
  rw [halvedSubsidy, if_neg (by omega), Int.shiftRight_eq_div_pow]
  push_cast
  rfl

theorem halvedSubsidy_nonneg (k : Int) : 0 ≤ halvedSubsidy k := by
  by_cases hk : k < 64
  · rw [halvedSubsidy_of_lt hk]
    exact Int.natCast_nonneg _
  · rw [halvedSubsidy, if_pos (by omega)]

/-- More halvings never pay more. -/
theorem halvedSubsidy_antitone {k k' : Int} (hkk : k ≤ k') :
    halvedSubsidy k' ≤ halvedSubsidy k := by
  by_cases hk' : k' < 64
  · rw [halvedSubsidy_of_lt hk', halvedSubsidy_of_lt (by omega)]
    have hpow : 2 ^ k.toNat ≤ 2 ^ k'.toNat := Nat.pow_le_pow_right (by norm_num) (by omega)
    exact Int.ofNat_le.mpr (Nat.div_le_div_left hpow (Nat.two_pow_pos _))
  · rw [halvedSubsidy, if_pos (by omega)]
    exact halvedSubsidy_nonneg k

/-- Taking a tenth and scaling by `n / 5` keeps the order. -/
theorem scale_mono {x y : Int} (n : Int) (hn : 0 ≤ n) (hxy : x ≤ y) : x / 10 * n / 5 ≤ y / 10 * n / 5 :=
  Int.ediv_le_ediv (by norm_num) (mul_le_mul_of_nonneg_right (Int.ediv_le_ediv (by norm_num) hxy) hn)

theorem two_le_forkHalvings (nHeight : Nat) (consensusParams : SubsidyParams) :
    2 ≤ forkHalvings nHeight consensusParams := by
  simp only [forkHalvings]
  split_ifs
  · exact le_rfl
  · refine le_trans (by norm_num : (2 : Int) ≤ 3) (Int.le_add_of_nonneg_right (Int.tdiv_nonneg (by omega) ?_))
    exact Int.mul_nonneg (Int.natCast_nonneg _) (by norm_num)

/-- The fork halvings never decrease with the height. -/
theorem forkHalvings_mono (consensusParams : SubsidyParams) {h h' : Nat} (hle : h ≤ h') :
    forkHalvings h consensusParams ≤ forkHalvings h' consensusParams := by
  have hlow := two_le_forkHalvings h' consensusParams
  simp only [forkHalvings] at hlow ⊢
  split_ifs at hlow ⊢ with hh hh' hh'
  · exact le_rfl
  · exact hlow
  · omega
  · -- past `PeriodEndHeight` both heights divide a non-negative distance by the same length
    have hdiv : (0 : Int) ≤ consensusParams.nSubsidyHalvingInterval * 10 :=
      Int.mul_nonneg (Int.natCast_nonneg _) (by norm_num)
    rw [Int.tdiv_eq_ediv_of_nonneg (by omega), Int.tdiv_eq_ediv_of_nonneg (by omega)]
    rcases hdiv.lt_or_eq with hpos | hzero
    · exact Int.add_le_add_left (Int.ediv_le_ediv hpos (by omega)) 3
    · rw [← hzero, Int.ediv_zero, Int.ediv_zero]

theorem getBlockSubsidy_nonneg (nHeight : Nat) (consensusParams : SubsidyParams) :
    0 ≤ getBlockSubsidy nHeight consensusParams := by
  have hhalved := halvedSubsidy_nonneg (forkHalvings nHeight consensusParams)
  simp only [getBlockSubsidy]
  split_ifs
  · exact halvedSubsidy_nonneg _
  · omega
  · omega

/-! ## The main network -/

/-- On the main network `PeriodEndHeight` is 1742409 and a fork era lasts 2100000 blocks. -/
theorem forkHalvings_main (h : Nat) :
    forkHalvings h mainParams = if h ≤ 1742409 then (2 : Int) else 3 + ((h - 1742410) / 2100000 : Nat) := by
  show (if (h : Int) ≤ 1742409 then 2 else 3 + ((h : Int) - 1742409 - 1).tdiv 2100000) = _
  split_ifs with hend hend'
  · rfl
  · omega
  · omega
  · -- past the period end both sides count whole eras of 2100000 blocks
    have hsub : ((h - 1742410 : Nat) : Int) = h - 1742410 := by omega
    rw [Int.tdiv_eq_ediv_of_nonneg (by omega)]
    omega

theorem getBlockSubsidy_main_of_lt_forkV1 {h : Nat} (hh : h < 506400) :
    getBlockSubsidy h mainParams = halvedSubsidy (h / 210000 : Nat) := by
  rw [getBlockSubsidy, if_pos (show h < mainParams.ForkV1Height from hh)]
  rfl

theorem getBlockSubsidy_main_of_forkV1 {h : Nat} (hlo : 506400 ≤ h) (hhi : h < 813500) :
    getBlockSubsidy h mainParams = 100000000 := by
  rw [getBlockSubsidy, if_neg (show ¬h < mainParams.ForkV1Height from Nat.not_lt.mpr hlo),
    if_pos (show h < mainParams.ForkV4Height from hhi), forkHalvings_main, if_pos (by omega)]
  decide

theorem getBlockSubsidy_main_of_forkV4 {h : Nat} (hlo : 813500 ≤ h) :
    getBlockSubsidy h mainParams = halvedSubsidy (forkHalvings h mainParams) / 10 * 2 / 5 := by
  rw [getBlockSubsidy, if_neg (show ¬h < mainParams.ForkV1Height from (by omega : ¬h < 506400)),
    if_neg (show ¬h < mainParams.ForkV4Height from Nat.not_lt.mpr hlo)]

/-- The subsidy of the main network never grows from one height to the next. Inside a regime
the halvings only grow; at `ForkV1Height` it drops from 12.5 to 1 coin, at `ForkV4Height` from
1 to 0.5. -/
theorem getBlockSubsidy_main_succ_le (h : Nat) :
    getBlockSubsidy (h + 1) mainParams ≤ getBlockSubsidy h mainParams := by
  rcases Nat.lt_or_ge (h + 1) 506400 with hv1 | hv1
  · rw [getBlockSubsidy_main_of_lt_forkV1 hv1, getBlockSubsidy_main_of_lt_forkV1 (by omega)]
    exact halvedSubsidy_antitone (by omega)
  rcases Nat.lt_or_ge (h + 1) 813500 with hv4 | hv4
  · rw [getBlockSubsidy_main_of_forkV1 hv1 hv4]
    by_cases hswitch : h + 1 = 506400
    · rw [getBlockSubsidy_main_of_lt_forkV1 (by omega), show h / 210000 = 2 by omega]
      decide
    · rw [getBlockSubsidy_main_of_forkV1 (by omega) (by omega)]
  · rw [getBlockSubsidy_main_of_forkV4 hv4]
    by_cases hswitch : h + 1 = 813500
    · rw [getBlockSubsidy_main_of_forkV1 (by omega) (by omega), forkHalvings_main, if_pos (by omega)]
      decide
    · rw [getBlockSubsidy_main_of_forkV4 (by omega)]
      exact scale_mono 2 (by norm_num) (halvedSubsidy_antitone (forkHalvings_mono mainParams (Nat.le_succ h)))

/-- From the 28th halving on a tenth of the subsidy times 0.4 rounds down to nothing. -/
theorem getBlockSubsidy_main_eq_zero {h : Nat} (hh : 54242410 ≤ h) : getBlockSubsidy h mainParams = 0 := by
  have hhalvings : 28 ≤ forkHalvings h mainParams := by
    rw [forkHalvings_main, if_neg (by omega)]
    omega
  have hbound := halvedSubsidy_antitone hhalvings
  have hlast : halvedSubsidy 28 = 18 := by decide
  have hnonneg := halvedSubsidy_nonneg (forkHalvings h mainParams)
  rw [getBlockSubsidy_main_of_forkV4 (by omega)]
  omega

/-- The `j`-th era after `PeriodEndHeight` pays with `3 + j` halvings. -/
theorem getBlockSubsidy_main_of_era {j h : Nat} (hh : h ∈ Ico (1742410 + 2100000 * j) (1742410 + 2100000 * (j + 1))) :
    getBlockSubsidy h mainParams = halvedSubsidy (3 + j) / 10 * 2 / 5 := by
  obtain ⟨hlo, hhi⟩ := mem_Ico.mp hh
  have hera : (h - 1742410) / 2100000 = j := by omega
  rw [getBlockSubsidy_main_of_forkV4 (by omega), forkHalvings_main, if_neg (by omega), hera]

/-- The coins the main network issues below height `n`. -/
def mainSupply (n : Nat) : Int := ∑ h ∈ range n, getBlockSubsidy h mainParams

/-- All heights of the main network together issue 1865155470600000 units. -/
theorem mainSupply_eq {n : Nat} (hn : 54242410 ≤ n) : mainSupply n = 1865155470600000 := by
  rw [mainSupply, sum_range_eq_of_eq_zero (fun h hh => getBlockSubsidy_main_eq_zero hh) hn, range_eq_Ico]
  -- two halving eras, the rest of the third up to `ForkV1Height`, the two fork regimes up to
  -- `PeriodEndHeight`, and 25 eras of the last regime
  have hhalvings : ∑ x ∈ Ico 0 420000, getBlockSubsidy x mainParams = ∑ j ∈ range 2, 210000 • halvedSubsidy j := by
    refine sum_Ico_blocks_of_const (a := 0) (L := 210000) (n := 2) fun j hj x hx => ?_
    -- `omega` does not take the `0 + _` of the block bounds apart
    simp only [zero_add, mem_Ico] at hx
    obtain ⟨hlo, hhi⟩ := hx
    have hfirst : x < 506400 := by omega
    rw [getBlockSubsidy_main_of_lt_forkV1 hfirst, show x / 210000 = j by omega]
  have hthird : ∑ x ∈ Ico 420000 506400, getBlockSubsidy x mainParams = (506400 - 420000) • halvedSubsidy 2 := by
    refine sum_Ico_of_const fun x hx => ?_
    obtain ⟨hlo, hhi⟩ := mem_Ico.mp hx
    rw [getBlockSubsidy_main_of_lt_forkV1 hhi, show x / 210000 = 2 by omega]
    rfl
  have hforkV1 : ∑ x ∈ Ico 506400 813500, getBlockSubsidy x mainParams = (813500 - 506400) • 100000000 :=
    sum_Ico_of_const fun x hx => getBlockSubsidy_main_of_forkV1 (mem_Ico.mp hx).1 (mem_Ico.mp hx).2
  have hforkV4 : ∑ x ∈ Ico 813500 1742410, getBlockSubsidy x mainParams =
      (1742410 - 813500) • (halvedSubsidy 2 / 10 * 2 / 5) := by
    refine sum_Ico_of_const fun x hx => ?_
    obtain ⟨hlo, hhi⟩ := mem_Ico.mp hx
    rw [getBlockSubsidy_main_of_forkV4 hlo, forkHalvings_main, if_pos (by omega)]
  have heras : ∑ x ∈ Ico 1742410 54242410, getBlockSubsidy x mainParams =
      ∑ j ∈ range 25, 2100000 • (halvedSubsidy (3 + j) / 10 * 2 / 5) :=
    sum_Ico_blocks_of_const (a := 1742410) (L := 2100000) (n := 25) fun j _ x hx => getBlockSubsidy_main_of_era hx
  rw [← sum_Ico_consecutive _ (by norm_num : 0 ≤ 1742410) (by norm_num : 1742410 ≤ 54242410),
    ← sum_Ico_consecutive _ (by norm_num : 0 ≤ 813500) (by norm_num : 813500 ≤ 1742410),
    ← sum_Ico_consecutive _ (by norm_num : 0 ≤ 506400) (by norm_num : 506400 ≤ 813500),
    ← sum_Ico_consecutive _ (by norm_num : 0 ≤ 420000) (by norm_num : 420000 ≤ 506400),
    hhalvings, hthird, hforkV1, hforkV4, heras]
  simp only [nsmul_eq_mul]
  decide +kernel

theorem subsidy_schedule :
    (∀ h : Nat, getBlockSubsidy (h + 1) mainParams ≤ getBlockSubsidy h mainParams) ∧
    (∀ n : Nat, ∑ h ∈ range n, getBlockSubsidy h mainParams ≤ maxMoney) ∧
    tsum (fun h : Nat => getBlockSubsidy h mainParams) ≤ maxMoney := by
  have hzero : ∀ h, 54242410 ≤ h → getBlockSubsidy h mainParams = 0 := fun h hh => getBlockSubsidy_main_eq_zero hh
  have htotal : mainSupply 54242410 ≤ maxMoney := by
    rw [mainSupply_eq le_rfl]
    decide
  refine ⟨getBlockSubsidy_main_succ_le, fun n => ?_, ?_⟩
  · exact (sum_range_le_of_eq_zero (fun h => getBlockSubsidy_nonneg h mainParams) hzero n).trans htotal
  · -- only finitely many heights pay, so the series is the supply below 54242410
    rw [tsum_eq_sum (s := range 54242410) fun h hh => hzero h (by simpa using hh)]
    exact htotal

end UnitedBitcoin.Subsidy
