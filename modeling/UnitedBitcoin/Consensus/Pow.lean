import Mathlib
import UnitedBitcoin.Primitives.Transaction

/-!
# Difficulty retargeting

`GetNextWorkRequired`, `CalculateNextWorkRequired`, `PowGetNextTargetRequired` and
`PosGetNextTargetRequired` (`pow.cpp`) over the consensus parameters of the three networks
(`chainparams.cpp`).

An `arith_uint256` is a natural below `2 ^ 256`: `*=` by a `uint32_t` and `<<=` drop the bits
above 256, and `/=` is floor division. `SetCompact` and `GetCompact` are the compact target
codec. The chain is the list of `CBlockIndex` entries from `pindexLast` back, `pprev` being
the next entry.

`GetNextWorkRequired` writes new target timespans and spacings into the parameters, through a
cast of its `const` reference (`UpdateDifficultyAdjustmentInterval...`). The model returns the
parameters with the result, and `ReachedFrom` is the set of parameters these writes reach from
a network's own.

The main results:
* on the main network, no 256-bit product of a retarget overflows, with the parameters that any
  run of `GetNextWorkRequired` leaves (`mainnet_retarget_exact`,
  `getNextWorkRequiredRun_mainnet_exact`);
* on every network, the proof-of-stake retarget, which divides before it multiplies, does not
  overflow;
* on testnet, the `×100` step of the first fork wraps (`testnet_fork_step_wraps`).
-/

namespace UnitedBitcoin.Pow

/-! ## 256-bit targets -/

/-- `base_uint::bits()`: the position of the highest set bit, plus one. -/
def bits (value : Nat) : Nat := if value = 0 then 0 else Nat.log2 value + 1

/-- `arith_uint256::SetCompact`: a 23-bit mantissa and a byte exponent, shifted within 256
bits. The sign and overflow flags it can report are not read by retargeting. -/
def setCompact (nCompact : UInt32) : Nat :=
  let nSize := nCompact.toNat / 2 ^ 24
  let nWord := nCompact.toNat % 2 ^ 23
  if nSize ≤ 3 then nWord / 2 ^ (8 * (3 - nSize)) else nWord * 2 ^ (8 * (nSize - 3)) % 2 ^ 256

/-- `arith_uint256::GetCompact` of a non-negative target: the top three bytes and the byte
length, one more byte when the mantissa would read as negative. -/
def getCompact (value : Nat) : UInt32 :=
  let nSize := (bits value + 7) / 8
  let nCompact := if nSize ≤ 3 then value * 2 ^ (8 * (3 - nSize)) else value / 2 ^ (8 * (nSize - 3))
  if nCompact.testBit 23 then UInt32.ofNat (nCompact / 2 ^ 8 + (nSize + 1) * 2 ^ 24)
  else UInt32.ofNat (nCompact + nSize * 2 ^ 24)

/-- `bnNew *= b` with a `uint32_t` factor: the carry out of the top word is dropped. -/
def mulUInt32 (bnNew factor : Nat) : Nat := bnNew * factor % 2 ^ 256

/-! ## Consensus parameters -/

/-- The fields of `Consensus::Params` that retargeting reads. -/
structure ConsensusParams where
  powLimit : Nat
  posLimit : Nat
  nPowTargetTimespan : Nat
  nPowTargetSpacing : Nat
  fPowAllowMinDifficultyBlocks : Bool
  fPowNoRetargeting : Bool
  isRegtestNet : Bool
  UBCHeight : Nat
  UBCInitBlockCount : Nat
  UBCONTRACT_Height : Nat
  ForkV1Height : Nat
  ForkV2Height : Nat
  deriving DecidableEq, Repr

namespace ConsensusParams

/-- `DifficultyAdjustmentInterval()`. -/
def difficultyAdjustmentInterval (params : ConsensusParams) : Nat :=
  params.nPowTargetTimespan / params.nPowTargetSpacing

/-- `UpdateDifficultyAdjustmentIntervalForkV1()`. -/
def updateForkV1 (params : ConsensusParams) : ConsensusParams :=
  { params with nPowTargetTimespan := 10 * 1 * 60, nPowTargetSpacing := 1 * 60 }

/-- `UpdateDifficultyAdjustmentIntervalForkV2()`. -/
def updateForkV2 (params : ConsensusParams) : ConsensusParams :=
  { params with nPowTargetTimespan := 10 * 2 * 60, nPowTargetSpacing := 2 * 60 }

/-- `UpdateDifficultyAdjustmentInterval()`. -/
def update (params : ConsensusParams) : ConsensusParams :=
  { params with nPowTargetTimespan := 200 * 10 * 60 }

/-- `UpdateOldDifficultyAdjustmentInterval()`. -/
def updateOld (params : ConsensusParams) : ConsensusParams :=
  { params with nPowTargetTimespan := 14 * 24 * 60 * 60 }

end ConsensusParams

/-- `CMainParams`. -/
def mainParams : ConsensusParams where
  powLimit := 2 ^ 224 - 1
  posLimit := 2 ^ 208 - 1
  nPowTargetTimespan := 14 * 24 * 60 * 60
  nPowTargetSpacing := 10 * 60
  fPowAllowMinDifficultyBlocks := false
  fPowNoRetargeting := false
  isRegtestNet := false
  UBCHeight := 498777
  UBCInitBlockCount := 500
  UBCONTRACT_Height := 551111
  ForkV1Height := 506400
  ForkV2Height := 572000

/-- `CTestNetParams`. -/
def testNetParams : ConsensusParams where
  powLimit := 2 ^ 252 - 1
  posLimit := 2 ^ 252 - 1
  nPowTargetTimespan := 14 * 24 * 60 * 60
  nPowTargetSpacing := 1
  fPowAllowMinDifficultyBlocks := true
  fPowNoRetargeting := false
  isRegtestNet := false
  UBCHeight := 0
  UBCInitBlockCount := 0
  UBCONTRACT_Height := 100
  ForkV1Height := 50
  ForkV2Height := 150

/-- `CRegTestParams`. -/
def regTestParams : ConsensusParams where
  powLimit := 2 ^ 255 - 1
  posLimit := 2 ^ 252 - 1
  nPowTargetTimespan := 14 * 24 * 60 * 60
  nPowTargetSpacing := 10 * 60
  fPowAllowMinDifficultyBlocks := true
  fPowNoRetargeting := true
  isRegtestNet := true
  UBCHeight := 0
  UBCInitBlockCount := 0
  UBCONTRACT_Height := 1500
  ForkV1Height := 1400
  ForkV2Height := 1500

/-- The parameters that `GetNextWorkRequired`'s writes reach from a network's own. -/
inductive ReachedFrom (base : ConsensusParams) : ConsensusParams → Prop
  | refl : ReachedFrom base base
  | forkV1 {params} : ReachedFrom base params → ReachedFrom base params.updateForkV1
  | forkV2 {params} : ReachedFrom base params → ReachedFrom base params.updateForkV2
  | update {params} : ReachedFrom base params → ReachedFrom base params.update
  | updateOld {params} : ReachedFrom base params → ReachedFrom base params.updateOld

/-! ## Block index entries -/

/-- The fields of `CBlockIndex` that retargeting reads. -/
structure BlockIndex where
  nHeight : Nat
  nTime : UInt32
  nBits : UInt32
  nVersion : UInt32
  deriving DecidableEq, Repr

namespace BlockIndex

/-- `CBlockIndex::IsProofOfStake`. -/
def isProofOfStake (index : BlockIndex) : Bool := index.nVersion &&& miningTypePos != 0

/-- `CBlockIndex::IsProofOfWork`. -/
def isProofOfWork (index : BlockIndex) : Bool := index.nVersion &&& miningTypePow != 0

/-- `CBlockIndex::GetBlockTime`. -/
def getBlockTime (index : BlockIndex) : Int := index.nTime.toNat

end BlockIndex

/-- `GetLastBlockIndex`: walk back to the last block of the kind `fProofOfStake` asks for;
looking for a proof-of-stake block, give up at `UBCONTRACT_Height`. -/
def getLastBlockIndex (params : ConsensusParams) (fProofOfStake : Bool) : List BlockIndex → Option (List BlockIndex)
  | [] => none
  | [index] => some [index]
  | index :: rest =>
    if index.isProofOfStake != fProofOfStake then
      if fProofOfStake && decide (index.nHeight ≤ params.UBCONTRACT_Height) then none
      else getLastBlockIndex params fProofOfStake rest
    else some (index :: rest)

/-- The loop over `tIndexLast`: the `nBits` of the last `interval` blocks of one kind, newest
first, and the time of the earliest of them. The proof-of-stake walk also stops at
`UBCONTRACT_Height`. -/
def collectBits (params : ConsensusParams) (fProofOfStake : Bool) (interval : Nat) :
    List BlockIndex → List UInt32 → Int → List UInt32 × Int
  | [], tNbits, nFirstBlockTime => (tNbits, nFirstBlockTime)
  | [_], tNbits, nFirstBlockTime => (tNbits, nFirstBlockTime)
  | index :: rest, tNbits, nFirstBlockTime =>
    if tNbits.length = interval ∨ (fProofOfStake = true ∧ index.nHeight ≤ params.UBCONTRACT_Height) then
      (tNbits, nFirstBlockTime)
    else if (if fProofOfStake then index.isProofOfStake else index.isProofOfWork) then
      collectBits params fProofOfStake interval rest (tNbits ++ [index.nBits]) index.getBlockTime
    else collectBits params fProofOfStake interval rest tNbits nFirstBlockTime

/-! ## Retargeting -/

/-- The limits on the adjustment step: `nActualTimespan` within `[T / 4, T * 4]`. -/
def clampTimespan (params : ConsensusParams) (nActualTimespan : Int) : Int :=
  let clamped := if nActualTimespan < ((params.nPowTargetTimespan / 4 : Nat) : Int) then
    ((params.nPowTargetTimespan / 4 : Nat) : Int) else nActualTimespan
  if clamped > ((params.nPowTargetTimespan * 4 : Nat) : Int) then ((params.nPowTargetTimespan * 4 : Nat) : Int)
  else clamped

/-- The retarget of `CalculateNextWorkRequired` and `PowGetNextTargetRequired`:
`bnNew *= nActualTimespan; bnNew /= nPowTargetTimespan`, capped at `powLimit`. The timespan
goes in as a `uint32_t`. -/
def retargetMulDiv (params : ConsensusParams) (nBits : UInt32) (nActualTimespan : Int) : UInt32 :=
  let bnNew := mulUInt32 (setCompact nBits) ((clampTimespan params nActualTimespan).toNat % 2 ^ 32) /
    params.nPowTargetTimespan
  getCompact (if bnNew > params.powLimit then params.powLimit else bnNew)

/-- The retarget of `PosGetNextTargetRequired`: `bnNew /= nPowTargetTimespan;
bnNew *= nActualTimespan`, capped at `posLimit`. -/
def retargetDivMul (params : ConsensusParams) (nBits : UInt32) (nActualTimespan : Int) : UInt32 :=
  let bnNew := mulUInt32 (setCompact nBits / params.nPowTargetTimespan)
    ((clampTimespan params nActualTimespan).toNat % 2 ^ 32)
  getCompact (if bnNew > params.posLimit then params.posLimit else bnNew)

/-- The step of `GetNextWorkRequired` at `UBCHeight` and `ForkV1Height`: `bnNew *= 100`,
capped at `powLimit`. -/
def retargetFork (params : ConsensusParams) (nBits : UInt32) : UInt32 :=
  let bnNew := mulUInt32 (setCompact nBits) 100
  getCompact (if bnNew > params.powLimit then params.powLimit else bnNew)

/-- `CalculateNextWorkRequired`. -/
def calculateNextWorkRequired (params : ConsensusParams) (pindexLast : BlockIndex) (nFirstBlockTime : Int) :
    UInt32 :=
  if params.fPowNoRetargeting then pindexLast.nBits
  else retargetMulDiv params pindexLast.nBits (pindexLast.getBlockTime - nFirstBlockTime)

/-- The common shape of `PowGetNextTargetRequired` and `PosGetNextTargetRequired`: the limit
until two earlier blocks of the kind and a full interval of them exist, then a retarget of
the last one's target when the interval kept one target, and that target otherwise. -/
def getNextTargetRequired (params : ConsensusParams) (fProofOfStake : Bool) (limitBits : UInt32)
    (retarget : UInt32 → Int → UInt32) (chain : List BlockIndex) (pindexPrev : BlockIndex)
    (prevRest : List BlockIndex) : UInt32 :=
  match prevRest with
  | [] => limitBits
  | _ :: _ =>
    match getLastBlockIndex params fProofOfStake prevRest with
    | some (_ :: _ :: _) =>
      let interval := params.nPowTargetTimespan / params.nPowTargetSpacing
      let collected := collectBits params fProofOfStake interval chain [] 0
      if collected.1.length < interval then limitBits
      else if collected.1.dedup.length = 1 then retarget pindexPrev.nBits (pindexPrev.getBlockTime - collected.2)
      else pindexPrev.nBits
    | _ => limitBits

/-- `PowGetNextTargetRequired`. -/
def powGetNextTargetRequired (params : ConsensusParams) (chain : List BlockIndex) : UInt32 :=
  match getLastBlockIndex params false chain with
  | some (pindexPrev :: prevRest) =>
    getNextTargetRequired params false (getCompact params.powLimit) (retargetMulDiv params) chain pindexPrev prevRest
  | _ => getCompact params.powLimit

/-- `PosGetNextTargetRequired`. Between `UBCONTRACT_Height` and `ForkV2Height`, a block whose
parent (`mapBlockIndex[hashPrevBlock]`, here `heightOf`) is at `ForkV2Height - 1` or later
restarts at the limit. -/
def posGetNextTargetRequired (params : ConsensusParams) (chain : List BlockIndex) (hashPrevBlock : Nat)
    (heightOf : Nat → Option Nat) : UInt32 :=
  let limitBits := getCompact params.posLimit
  match getLastBlockIndex params true chain with
  | some (pindexPrev :: prevRest) =>
    let restart := decide (params.UBCONTRACT_Height ≤ pindexPrev.nHeight) && decide (pindexPrev.nHeight < params.ForkV2Height) &&
      hashPrevBlock != 0 &&
      (match heightOf hashPrevBlock with
        | some height => decide (params.ForkV2Height - 1 ≤ height)
        | none => false)
    if restart then limitBits
    else getNextTargetRequired params true limitBits (retargetDivMul params) chain pindexPrev prevRest
  | _ => limitBits

/-- The testnet rule for blocks between retargets: walk back over minimum-difficulty blocks
to the last target set by a retarget. -/
def lastRegularBits (interval : Nat) (nProofOfWorkLimit : UInt32) : List BlockIndex → UInt32
  | [] => 0
  | [index] => index.nBits
  | index :: rest =>
    if index.nHeight % interval ≠ 0 ∧ index.nBits = nProofOfWorkLimit then lastRegularBits interval nProofOfWorkLimit rest
    else index.nBits

/-- The writes at the start of `GetNextWorkRequired` (all networks but regtest): the target
timespan and spacing of the era the next block is in. -/
def adjustInterval (params : ConsensusParams) (nextHeight : Nat) : ConsensusParams :=
  if params.isRegtestNet then params
  else if params.UBCONTRACT_Height ≤ nextHeight then params.updateForkV2
  else if params.ForkV1Height ≤ nextHeight then params.updateForkV1
  else if params.UBCHeight + params.UBCInitBlockCount ≤ nextHeight then params.update
  else params.updateOld

/-- The rest of `GetNextWorkRequired`, with the parameters after its writes: between
retargets the last target, or the testnet minimum-difficulty rule; from `UBCONTRACT_Height`
the proof-of-stake or proof-of-work retarget the header asks for; otherwise
`CalculateNextWorkRequired` over the last interval. `none` where an `assert` fails. -/
def nextWorkBits (params : ConsensusParams) (chain : List BlockIndex) (pindexLast : BlockIndex) (pblock : CBlock)
    (heightOf : Nat → Option Nat) : Option UInt32 :=
  let nProofOfWorkLimit := getCompact params.powLimit
  let nextHeight := pindexLast.nHeight + 1
  let interval := params.difficultyAdjustmentInterval
  if nextHeight % interval ≠ 0 ∧ nextHeight < params.UBCONTRACT_Height then
    if params.fPowAllowMinDifficultyBlocks then
      if (pblock.nTime.toNat : Int) > pindexLast.getBlockTime + params.nPowTargetSpacing * 2 then some nProofOfWorkLimit
      else some (lastRegularBits interval nProofOfWorkLimit chain)
    else some pindexLast.nBits
  else if pblock.isProofOfStake ∧ params.UBCONTRACT_Height ≤ nextHeight then
    some (posGetNextTargetRequired params chain pblock.hashPrevBlock heightOf)
  else if pblock.isProofOfWork ∧ params.UBCONTRACT_Height ≤ nextHeight then
    some (powGetNextTargetRequired params chain)
  else if nextHeight < interval then none
  else (chain.find? (fun index => index.nHeight = nextHeight - interval)).map fun pindexFirst =>
    calculateNextWorkRequired params pindexLast pindexFirst.getBlockTime

/-- `GetNextWorkRequired` for the header `pblock` on top of `chain`, with the parameters it
leaves behind. At `UBCHeight` and `ForkV1Height` the last target is multiplied by 100. -/
def getNextWorkRequired (params : ConsensusParams) (chain : List BlockIndex) (pblock : CBlock)
    (heightOf : Nat → Option Nat) : Option (ConsensusParams × UInt32) :=
  match chain with
  | [] => none
  | pindexLast :: _ =>
    let nextHeight := pindexLast.nHeight + 1
    if nextHeight = params.UBCHeight ∨ nextHeight = params.ForkV1Height then
      some (params, retargetFork params pindexLast.nBits)
    else
      let params := adjustInterval params nextHeight
      (nextWorkBits params chain pindexLast pblock heightOf).map fun nBits => (params, nBits)

/-! ## The parameters the writes reach -/

namespace ReachedFrom

variable {base params : ConsensusParams}

/-- The writes change the target timespan and spacing only. -/
theorem limits_eq (hreach : ReachedFrom base params) :
    params.powLimit = base.powLimit ∧ params.posLimit = base.posLimit := by
  induction hreach with
  | refl => exact ⟨rfl, rfl⟩
  | forkV1 _ ih | forkV2 _ ih | update _ ih | updateOld _ ih => exact ih

/-- Every target timespan the writes install is one of four, at most two weeks. -/
theorem timespan_mem (hreach : ReachedFrom base params) :
    params.nPowTargetTimespan = base.nPowTargetTimespan ∨
      params.nPowTargetTimespan ∈ [10 * 1 * 60, 10 * 2 * 60, 200 * 10 * 60, 14 * 24 * 60 * 60] := by
  induction hreach with
  | refl => exact Or.inl rfl
  | forkV1 _ _ => simp [ConsensusParams.updateForkV1]
  | forkV2 _ _ => simp [ConsensusParams.updateForkV2]
  | update _ _ => simp [ConsensusParams.update]
  | updateOld _ _ => simp [ConsensusParams.updateOld]

/-- From a network whose own timespan is at most two weeks, every timespan is positive and at
most two weeks. -/
theorem timespan_bounds (hreach : ReachedFrom base params) (hpos : 0 < base.nPowTargetTimespan)
    (hle : base.nPowTargetTimespan ≤ 14 * 24 * 60 * 60) :
    0 < params.nPowTargetTimespan ∧ params.nPowTargetTimespan ≤ 14 * 24 * 60 * 60 := by
  rcases hreach.timespan_mem with heq | hmem
  · rw [heq]
    exact ⟨hpos, hle⟩
  · simp only [List.mem_cons, List.not_mem_nil, or_false] at hmem
    omega

end ReachedFrom

theorem ReachedFrom.adjustInterval {base params : ConsensusParams} (hreach : ReachedFrom base params) (nextHeight : Nat) :
    ReachedFrom base (adjustInterval params nextHeight) := by
  unfold Pow.adjustInterval
  split_ifs
  · exact hreach
  · exact hreach.forkV2
  · exact hreach.forkV1
  · exact hreach.update
  · exact hreach.updateOld

/-- `GetNextWorkRequired` leaves parameters that its writes reach. -/
theorem getNextWorkRequired_reachedFrom {base params params' : ConsensusParams} {chain : List BlockIndex}
    {pblock : CBlock} {heightOf : Nat → Option Nat} {nBits : UInt32} (hreach : ReachedFrom base params)
    (hrun : getNextWorkRequired params chain pblock heightOf = some (params', nBits)) :
    ReachedFrom base params' := by
  match chain, hrun with
  | pindexLast :: _, hrun =>
    rw [getNextWorkRequired] at hrun
    split_ifs at hrun
    · cases hrun
      exact hreach
    · obtain ⟨_, -, hpair⟩ := Option.map_eq_some_iff.mp hrun
      cases hpair
      exact hreach.adjustInterval _

/-- `GetNextWorkRequired` for one header after another, each call reading the parameters that
the calls before it wrote, with the targets in order. -/
def getNextWorkRequiredRun (params : ConsensusParams) :
    List (List BlockIndex × CBlock × (Nat → Option Nat)) → Option (ConsensusParams × List UInt32)
  | [] => some (params, [])
  | (chain, pblock, heightOf) :: headers =>
    (getNextWorkRequired params chain pblock heightOf).bind fun (params', nBits) =>
      (getNextWorkRequiredRun params' headers).map fun (params'', rest) => (params'', nBits :: rest)

/-- A run leaves parameters that its writes reach. The induction is on the headers, one call
of `GetNextWorkRequired` each. -/
theorem getNextWorkRequiredRun_reachedFrom {base : ConsensusParams}
    (headers : List (List BlockIndex × CBlock × (Nat → Option Nat))) :
    ∀ {params params' : ConsensusParams} {bits : List UInt32}, ReachedFrom base params →
      getNextWorkRequiredRun params headers = some (params', bits) → ReachedFrom base params' := by
  induction headers with
  | nil =>
    intro params params' bits hreach hrun
    simp only [getNextWorkRequiredRun, Option.some.injEq, Prod.mk.injEq] at hrun
    exact hrun.1 ▸ hreach
  | cons header headers ih =>
    intro params params' bits hreach hrun
    obtain ⟨chain, pblock, heightOf⟩ := header
    obtain ⟨⟨params₁, nBits⟩, hcall, hrest⟩ := Option.bind_eq_some_iff.mp hrun
    obtain ⟨⟨params₂, rest⟩, hheaders, hpair⟩ := Option.map_eq_some_iff.mp hrest
    cases hpair
    exact ih (getNextWorkRequired_reachedFrom hreach hcall) hheaders

/-! ## When the products fit -/

theorem mulUInt32_of_lt {bnNew factor : Nat} (hfits : bnNew * factor < 2 ^ 256) :
    mulUInt32 bnNew factor = bnNew * factor :=
  Nat.mod_eq_of_lt hfits

/-- The cap `if (bnNew > limit) bnNew = limit`. -/
theorem cap_eq_min (bnNew limit : Nat) : (if bnNew > limit then limit else bnNew) = min bnNew limit := by
  split_ifs with hgt
  · exact (min_eq_right (le_of_lt hgt)).symm
  · exact (min_eq_left (not_lt.mp hgt)).symm

/-- The clamped timespan, as the `uint32_t` the product takes, is at most `T * 4`. -/
theorem clampTimespan_toNat_le (params : ConsensusParams) (nActualTimespan : Int) :
    (clampTimespan params nActualTimespan).toNat ≤ params.nPowTargetTimespan * 4 := by
  dsimp only [clampTimespan]
  split_ifs <;> omega

section Exact

variable {params : ConsensusParams} (nBits : UInt32) (nActualTimespan : Int)

/-- Multiplying first does not overflow when the limit times `T * 4` fits in 256 bits. -/
theorem retargetMulDiv_exact (hspan : params.nPowTargetTimespan * 4 < 2 ^ 32)
    (hfits : params.powLimit * (params.nPowTargetTimespan * 4) < 2 ^ 256) (hle : setCompact nBits ≤ params.powLimit) :
    retargetMulDiv params nBits nActualTimespan =
      getCompact (min (setCompact nBits * (clampTimespan params nActualTimespan).toNat / params.nPowTargetTimespan)
        params.powLimit) := by
  have hclamp := clampTimespan_toNat_le params nActualTimespan
  have hproduct : setCompact nBits * (clampTimespan params nActualTimespan).toNat < 2 ^ 256 :=
    lt_of_le_of_lt (Nat.mul_le_mul hle hclamp) hfits
  rw [retargetMulDiv, Nat.mod_eq_of_lt (by omega), mulUInt32_of_lt hproduct, cap_eq_min]

/-- Dividing first cannot overflow while four times the limit fits in 256 bits. -/
theorem retargetDivMul_exact (hpos : 0 < params.nPowTargetTimespan) (hspan : params.nPowTargetTimespan * 4 < 2 ^ 32)
    (hfits : params.posLimit * 4 < 2 ^ 256) (hle : setCompact nBits ≤ params.posLimit) :
    retargetDivMul params nBits nActualTimespan =
      getCompact (min (setCompact nBits / params.nPowTargetTimespan * (clampTimespan params nActualTimespan).toNat)
        params.posLimit) := by
  have hclamp := clampTimespan_toNat_le params nActualTimespan
  have hquotient := Nat.div_mul_le_self (setCompact nBits) params.nPowTargetTimespan
  have hproduct : setCompact nBits / params.nPowTargetTimespan * (clampTimespan params nActualTimespan).toNat < 2 ^ 256 :=
    calc setCompact nBits / params.nPowTargetTimespan * (clampTimespan params nActualTimespan).toNat
        ≤ setCompact nBits / params.nPowTargetTimespan * (params.nPowTargetTimespan * 4) := Nat.mul_le_mul_left _ hclamp
      _ = setCompact nBits / params.nPowTargetTimespan * params.nPowTargetTimespan * 4 := by ring
      _ ≤ params.posLimit * 4 := Nat.mul_le_mul_right 4 (hquotient.trans hle)
      _ < 2 ^ 256 := hfits
  rw [retargetDivMul, Nat.mod_eq_of_lt (by omega), mulUInt32_of_lt hproduct, cap_eq_min]

/-- The `×100` step does not overflow when a hundred times the limit fits in 256 bits. -/
theorem retargetFork_exact (hfits : params.powLimit * 100 < 2 ^ 256) (hle : setCompact nBits ≤ params.powLimit) :
    retargetFork params nBits = getCompact (min (setCompact nBits * 100) params.powLimit) := by
  rw [retargetFork, mulUInt32_of_lt (lt_of_le_of_lt (Nat.mul_le_mul_right 100 hle) hfits), cap_eq_min]

end Exact

/-- On the main network, with any parameters `GetNextWorkRequired`'s writes reach, every
proof-of-work retarget (`CalculateNextWorkRequired`, `PowGetNextTargetRequired`, the `×100`
fork steps) of a target within `powLimit` is the capped exact value. On every network the
proof-of-stake retarget of a target within `posLimit` is the capped exact value. -/
theorem mainnet_retarget_exact :
    (∀ params, ReachedFrom mainParams params → ∀ nBits, setCompact nBits ≤ params.powLimit → ∀ nActualTimespan,
      retargetMulDiv params nBits nActualTimespan =
          getCompact (min (setCompact nBits * (clampTimespan params nActualTimespan).toNat / params.nPowTargetTimespan)
            params.powLimit) ∧
        retargetFork params nBits = getCompact (min (setCompact nBits * 100) params.powLimit)) ∧
    ∀ base ∈ [mainParams, testNetParams, regTestParams], ∀ params, ReachedFrom base params →
      ∀ nBits, setCompact nBits ≤ params.posLimit → ∀ nActualTimespan,
        retargetDivMul params nBits nActualTimespan =
          getCompact (min (setCompact nBits / params.nPowTargetTimespan * (clampTimespan params nActualTimespan).toNat)
            params.posLimit) := by
  refine ⟨fun params hreach nBits hle nActualTimespan => ?_, fun base hbase params hreach nBits hle nActualTimespan => ?_⟩
  · obtain ⟨hpow, -⟩ := hreach.limits_eq
    obtain ⟨hpos, hspan⟩ := hreach.timespan_bounds (by decide) (by decide)
    have hlimit : params.powLimit < 2 ^ 224 := by rw [hpow]; decide
    have hfits : params.powLimit * (params.nPowTargetTimespan * 4) < 2 ^ 256 :=
      calc params.powLimit * (params.nPowTargetTimespan * 4) ≤ 2 ^ 224 * (14 * 24 * 60 * 60 * 4) :=
            Nat.mul_le_mul (le_of_lt hlimit) (by omega)
        _ < 2 ^ 256 := by norm_num
    exact ⟨retargetMulDiv_exact nBits nActualTimespan (by omega) hfits hle,
      retargetFork_exact nBits (by omega) hle⟩
  · obtain ⟨-, hposLimit⟩ := hreach.limits_eq
    have hbaseLimit : base.posLimit < 2 ^ 253 ∧ 0 < base.nPowTargetTimespan ∧
        base.nPowTargetTimespan ≤ 14 * 24 * 60 * 60 := by
      simp only [List.mem_cons, List.not_mem_nil, or_false] at hbase
      rcases hbase with rfl | rfl | rfl <;> decide
    obtain ⟨hpos, hspan⟩ := hreach.timespan_bounds hbaseLimit.2.1 hbaseLimit.2.2
    exact retargetDivMul_exact nBits nActualTimespan hpos (by omega) (by omega) hle

/-- On the main network, after any run of `GetNextWorkRequired` from the network's own
parameters, every proof-of-work retarget of a target within `powLimit`, the `×100` fork step
included, is the capped exact value: the run keeps a `powLimit` and timespans for which no
product leaves 256 bits. -/
theorem getNextWorkRequiredRun_mainnet_exact {headers : List (List BlockIndex × CBlock × (Nat → Option Nat))}
    {params : ConsensusParams} {bits : List UInt32}
    (hrun : getNextWorkRequiredRun mainParams headers = some (params, bits))
    {nBits : UInt32} (hle : setCompact nBits ≤ params.powLimit) (nActualTimespan : Int) :
    retargetMulDiv params nBits nActualTimespan =
        getCompact (min (setCompact nBits * (clampTimespan params nActualTimespan).toNat / params.nPowTargetTimespan)
          params.powLimit) ∧
      retargetFork params nBits = getCompact (min (setCompact nBits * 100) params.powLimit) :=
  mainnet_retarget_exact.1 params (getNextWorkRequiredRun_reachedFrom headers .refl hrun) nBits hle nActualTimespan

/-- Two headers on the main network: the block before `ForkV1Height` keeps the last target
under the parameters of `UpdateDifficultyAdjustmentInterval()`, and the block at it takes the
`×100` step, which the cap brings back to `powLimit`. -/
theorem getNextWorkRequiredRun_mainnet_forkV1 :
    let headers : List (List BlockIndex × CBlock × (Nat → Option Nat)) :=
      [([⟨506398, 0, 0x1d00ffff, miningTypePow⟩], ⟨miningTypePow, 0, 0, 0, []⟩, fun _ => none),
        ([⟨506399, 0, 0x1d00ffff, miningTypePow⟩], ⟨miningTypePow, 0, 0, 0, []⟩, fun _ => none)]
    getNextWorkRequiredRun mainParams headers = some (mainParams.update, [0x1d00ffff, 0x1d00ffff]) ∧
      setCompact 0x1d00ffff ≤ mainParams.update.powLimit ∧
      retargetFork mainParams.update 0x1d00ffff =
        getCompact (min (setCompact 0x1d00ffff * 100) mainParams.update.powLimit) := by
  intro headers
  have hrun : getNextWorkRequiredRun mainParams headers = some (mainParams.update, [0x1d00ffff, 0x1d00ffff]) := by
    decide
  have hle : setCompact 0x1d00ffff ≤ mainParams.update.powLimit := by decide
  exact ⟨hrun, hle, (getNextWorkRequiredRun_mainnet_exact hrun hle 0).2⟩

/-- On testnet the `×100` step at `ForkV1Height` wraps: a target within `powLimit` whose
hundredfold is just past `2 ^ 256` becomes `84 * 2 ^ 232`, far below the limit the exact
product is capped to. -/
theorem testnet_fork_step_wraps :
    setCompact 0x20028F5D ≤ testNetParams.powLimit ∧
      getNextWorkRequired testNetParams [⟨49, 0, 0x20028F5D, miningTypePow⟩] ⟨miningTypePow, 0, 0, 0, []⟩
          (fun _ => none) = some (testNetParams, 0x1E540000) ∧
      getCompact (min (setCompact 0x20028F5D * 100) testNetParams.powLimit) = 0x200FFFFF := by
  decide

end UnitedBitcoin.Pow
