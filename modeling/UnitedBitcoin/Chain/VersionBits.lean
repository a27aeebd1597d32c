import Mathlib
import UnitedBitcoin.Chain.SkipList

/-!
# BIP9 deployment states and their cache

`AbstractThresholdConditionChecker::GetStateFor` (`versionbits.cpp`) gives the state of a
deployment for the child of `pindexPrev`. It first moves `pindexPrev` to the last block of the
period before (`endOfPrevPeriod`). It then walks back a period at a time until the
`ThresholdConditionCache` knows the block, or until it reaches `nullptr` or a block whose median
time is before the start (`walkBack`). Last it replays the transitions forward, writing every
state it computes into the cache (`walkForward`).

The reference `ref` states the same thing without a cache. The state is `THRESHOLD_DEFINED` in
the first period; otherwise it is read from the last block `q` of the period before: `DEFINED`
if the median time of `q` is before the start, else the transition from the state of `q`'s own
period. `ref_periodEnd` is that recursion; `transition` is the abstract BIP9 step, and the code's
`nextState`, which counts the signalling blocks by following `pprev`, computes it at every
period end (`nextState_eq`). `CacheSound` says every cache entry is the reference state of its
key. One call keeps it and answers `ref` (`getStateFor_eq`), so every sequence of queries sharing
one cache does too (`getStatesFor_eq`). A block tree is the linked block index of the skip-list
model; `GetAncestor` is its walk, which `getAncestor_eq` turns into following `pprev`.

What the C++ leaves undefined is a fault, `none`: a period of `0` (`% 0`), and a count that
follows `pprev` past the genesis block. In a linked index with a positive period neither happens.
-/

namespace UnitedBitcoin.Chain

open BlockTree

/-- `ThresholdState` of `versionbits.h`. -/
inductive ThresholdState where
  | defined | started | lockedIn | active | failed
  deriving DecidableEq, Repr

/-- `Consensus::BIP9Deployment::ALWAYS_ACTIVE`, the start time of a deployment that is always
active. -/
def alwaysActive : Int := -1

/-- The virtual methods of `AbstractThresholdConditionChecker` for fixed `Consensus::Params`:
`Period`, `Threshold`, `BeginTime`, `EndTime`, and `Condition` of the block at each position. -/
structure ThresholdChecker where
  period : Nat
  threshold : Nat
  beginTime : Int
  endTime : Int
  condition : Nat → Bool

/-- `VERSIONBITS_TOP_BITS`. -/
def versionbitsTopBits : UInt32 := 0x20000000

/-- `VERSIONBITS_TOP_MASK`. -/
def versionbitsTopMask : UInt32 := 0xE0000000

/-- `VersionBitsConditionChecker::Condition`: the block uses version bits and sets the bit of the
deployment, `Mask(params) = 1 << bit`. -/
def versionBitsCondition (bit : Nat) (nVersion : Int32) : Bool :=
  (nVersion.toUInt32 &&& versionbitsTopMask) == versionbitsTopBits &&
    (nVersion.toUInt32 &&& ((1 : UInt32) <<< bit.toUInt32)) != 0

/-- The fields of `Consensus::BIP9Deployment`. -/
structure BIP9Deployment where
  bit : Nat
  nStartTime : Int
  nTimeout : Int

/-- `VersionBitsConditionChecker` of one deployment, with `nMinerConfirmationWindow`,
`nRuleChangeActivationThreshold` and the `nVersion` of every block. -/
def versionBitsChecker (nMinerConfirmationWindow nRuleChangeActivationThreshold : Nat)
    (deployment : BIP9Deployment) (nVersion : Nat → Int32) : ThresholdChecker where
  period := nMinerConfirmationWindow
  threshold := nRuleChangeActivationThreshold
  beginTime := deployment.nStartTime
  endTime := deployment.nTimeout
  condition i := versionBitsCondition deployment.bit (nVersion i)

/-- `ThresholdConditionCache`, a `std::map` from block pointers to states. `GetStateFor` only
asks `count` of it and assigns with `operator[]`, so it is the partial function of its entries. -/
abbrev ThresholdConditionCache := Option Nat → Option ThresholdState

section GetStateFor

variable (c : ThresholdChecker) (t : BlockTree) (medianTimePast : Nat → Int)

/-- The `for` loop of the `THRESHOLD_STARTED` case: how many of the `n` blocks from `pindexCount`
down along `pprev` satisfy `Condition`; `none` where the loop would read through `nullptr`. -/
def countCondition : Nat → Option Nat → Option Nat
  | 0, _ => some 0
  | _ + 1, none => none
  | n + 1, some pindexCount =>
    (countCondition n (pprev t pindexCount)).map fun count =>
      (if c.condition pindexCount then 1 else 0) + count

/-- The `switch (state)` of the forward loop: the state of the period after `pindexPrev`, from
the state of the period `pindexPrev` ends. -/
def nextState (state : ThresholdState) (pindexPrev : Nat) : Option ThresholdState :=
  match state with
  | .defined =>
    some (if medianTimePast pindexPrev ≥ c.endTime then .failed
      else if medianTimePast pindexPrev ≥ c.beginTime then .started
      else .defined)
  | .started =>
    if medianTimePast pindexPrev ≥ c.endTime then some .failed
    else (countCondition c t c.period (some pindexPrev)).map fun count =>
      if count ≥ c.threshold then .lockedIn else .started
  | .lockedIn => some .active
  | .failed => some .failed
  | .active => some .active

/-- `pindexPrev->GetAncestor(pindexPrev->nHeight - ((pindexPrev->nHeight + 1) % nPeriod))`: the
last block of the period before the one the child of `pindexPrev` is in, `nullptr` in the first
period. `nullptr` is left as it is; `none` is the division by a zero period. -/
def endOfPrevPeriod : Option Nat → Option (Option Nat)
  | none => some none
  | some p =>
    if c.period = 0 then none
    else some (getAncestor t p ((height t p : Int) - ((height t p + 1) % c.period : Nat)))

/-- `pindexPrev->GetAncestor(pindexPrev->nHeight - nPeriod)`, one period back. -/
def prevPeriodEnd (p : Nat) : Option Nat :=
  getAncestor t p ((height t p : Int) - c.period)

/-- The backward loop of `GetStateFor`, while the cache does not know `pindexPrev`. Reaching
`nullptr` or a block whose median time is before the start writes `THRESHOLD_DEFINED` and stops;
any other block is pushed onto `vToCompute`, whose top is the head of the list. The loop makes at
most `fuel` passes, and `none` is a walk that ran out of them. -/
def walkBack : Nat → ThresholdConditionCache → Option Nat → List Nat →
    Option (Option Nat × ThresholdConditionCache × List Nat)
  | 0, _, _, _ => none
  | fuel + 1, cache, pindexPrev, vToCompute =>
    if (cache pindexPrev).isSome then some (pindexPrev, cache, vToCompute)
    else
      match pindexPrev with
      | none => some (none, Function.update cache none (some .defined), vToCompute)
      | some p =>
        if medianTimePast p < c.beginTime then
          some (some p, Function.update cache (some p) (some .defined), vToCompute)
        else walkBack fuel cache (prevPeriodEnd c t p) (p :: vToCompute)

/-- The forward loop of `GetStateFor`: pop the blocks of `vToCompute`, compute the state of the
period after each and assign it in the cache. -/
def walkForward : ThresholdState → ThresholdConditionCache → List Nat →
    Option (ThresholdState × ThresholdConditionCache)
  | state, cache, [] => some (state, cache)
  | state, cache, pindexPrev :: vToCompute => do
    let stateNext ← nextState c t medianTimePast state pindexPrev
    walkForward stateNext (Function.update cache (some pindexPrev) (some stateNext)) vToCompute

/-- Passes enough for the backward walk from `pindexPrev`: every pass goes down at least one
block while the period is positive. -/
def walkFuel : Option Nat → Nat
  | none => 1
  | some p => height t p + 2

/-- `AbstractThresholdConditionChecker::GetStateFor`: the state of the child of `pindexPrev` and
the cache after the call. -/
def getStateFor (pindexPrev : Option Nat) (cache : ThresholdConditionCache) :
    Option (ThresholdState × ThresholdConditionCache) :=
  if c.beginTime = alwaysActive then some (.active, cache)
  else do
    let pindexPrev ← endOfPrevPeriod c t pindexPrev
    let (pindexPrev, cache, vToCompute) ←
      walkBack c t medianTimePast (walkFuel t pindexPrev) cache pindexPrev []
    -- `assert(cache.count(pindexPrev))`, then `state = cache[pindexPrev]`
    walkForward c t medianTimePast ((cache pindexPrev).getD .defined) cache vToCompute

/-- A sequence of `GetStateFor` queries sharing one cache. -/
def getStatesFor : ThresholdConditionCache → List (Option Nat) → Option (List ThresholdState)
  | _, [] => some []
  | cache, pindexPrev :: queries => do
    let (state, cache) ← getStateFor c t medianTimePast pindexPrev cache
    let states ← getStatesFor cache queries
    pure (state :: states)

/-- `VersionBitsState` with the cache of its deployment. -/
def versionBitsState (nMinerConfirmationWindow nRuleChangeActivationThreshold : Nat)
    (deployment : BIP9Deployment) (nVersion : Nat → Int32) (pindexPrev : Option Nat)
    (cache : ThresholdConditionCache) : Option (ThresholdState × ThresholdConditionCache) :=
  getStateFor (versionBitsChecker nMinerConfirmationWindow nRuleChangeActivationThreshold deployment
    nVersion) t medianTimePast pindexPrev cache

end GetStateFor

/-! ## The reference states -/

section Reference

variable (c : ThresholdChecker) (t : BlockTree) (medianTimePast : Nat → Int)

/-- The blocks of the period that `q` ends: `q` and the `period - 1` blocks below it. -/
def periodBlocks (q : Nat) : List Nat := (List.range c.period).filterMap (ancestorAt t q)

/-- The BIP9 transition from the state of one period to that of the next, read at the last
block `q` of the period: the start and the timeout against its median time, and the blocks of
the period that satisfy the condition against the threshold. -/
def transition (state : ThresholdState) (q : Nat) : ThresholdState :=
  match state with
  | .defined =>
    if medianTimePast q ≥ c.endTime then .failed
    else if medianTimePast q ≥ c.beginTime then .started
    else .defined
  | .started =>
    if medianTimePast q ≥ c.endTime then .failed
    else if (periodBlocks c t q).countP c.condition ≥ c.threshold then .lockedIn
    else .started
  | .lockedIn => .active
  | .failed => .failed
  | .active => .active

/-- The reference state of the `n`-th period of the chain of `p`: `THRESHOLD_DEFINED` in the
first period, and otherwise read from the last block `q` of the period before, at height
`n * period - 1`. -/
def refAt (p : Nat) : Nat → ThresholdState
  | 0 => .defined
  | n + 1 =>
    match ancestorAt t p (height t p + 1 - (n + 1) * c.period) with
    | none => .defined
    | some q =>
      if medianTimePast q < c.beginTime then .defined
      else transition c t medianTimePast (refAt p n) q

/-- The reference state of the child of `pindexPrev`. -/
def ref : Option Nat → ThresholdState
  | none => .defined
  | some p => refAt c t medianTimePast p ((height t p + 1) / c.period)

/-- Every entry of the cache is the reference state of its key. -/
def CacheSound (cache : ThresholdConditionCache) : Prop :=
  ∀ p s, cache p = some s → s = ref c t medianTimePast p

/-- A pointer that `GetStateFor` may use as a key: `nullptr`, or a block of the index that ends
a period. -/
def IsPeriodEnd (pindexPrev : Option Nat) : Prop :=
  ∀ q ∈ pindexPrev, q < t.length ∧ (height t q + 1) % c.period = 0

/-- The blocks of `vToCompute`, top first: each ends the period after the one before it (the
first, the period after `pindexPrev`), and none has its median time before the start. -/
inductive ForwardChain : Option Nat → List Nat → Prop
  | nil (pindexPrev : Option Nat) : ForwardChain pindexPrev []
  | cons {pindexPrev : Option Nat} {q : Nat} {rest : List Nat} :
      prevPeriodEnd c t q = pindexPrev → IsPeriodEnd c t (some q) →
      ¬medianTimePast q < c.beginTime → ForwardChain (some q) rest → ForwardChain pindexPrev (q :: rest)

end Reference

/-! ## The reference is the recursion over period ends -/

section Recursion

variable {c : ThresholdChecker} {t : BlockTree} {medianTimePast : Nat → Int}

/-- One period back from a period end is `nullptr` in the first period and otherwise the period
end `period` blocks below. -/
theorem prevPeriodEnd_cases (hl : LinkedBelow t t.length) {q : Nat}
    (hq : IsPeriodEnd c t (some q)) :
    (prevPeriodEnd c t q = none ∧ height t q + 1 = c.period) ∨
      ∃ a, prevPeriodEnd c t q = some a ∧ ancestorAt t q c.period = some a ∧
        IsPeriodEnd c t (some a) ∧ height t a + c.period = height t q := by
  obtain ⟨hlen, hmod⟩ := hq q rfl
  by_cases hfirst : height t q < c.period
  · -- the only multiple of the period up to it is the period itself
    have hle : height t q + 1 ≤ c.period := hfirst
    have heq : height t q + 1 = c.period := by
      rcases Nat.lt_or_eq_of_le hle with hlt | heq
      · rw [Nat.mod_eq_of_lt hlt] at hmod
        omega
      · exact heq
    exact .inl ⟨getAncestor_of_neg t q (by omega), heq⟩
  · obtain ⟨a, ha, -, hah⟩ := hl.ancestorAt_spec hlen c.period (by omega)
    have hamod : (height t a + 1) % c.period = 0 := by
      rw [← Nat.add_mod_right, show height t a + 1 + c.period = height t q + 1 by omega, hmod]
    refine .inr ⟨a, ?_, ha, fun a' ha' => ?_, hah⟩
    · rw [prevPeriodEnd, getAncestor_sub hl hlen (by omega), ha]
    · cases ha'
      exact ⟨(hl.ancestorAt_some hlen _ _ ha).1, hamod⟩

/-- The reference state of a period depends only on the chain below the period: an ancestor
that reaches the period end before it gives the same state. -/
theorem refAt_ancestor (hl : LinkedBelow t t.length) {p a j : Nat} (hp : p < t.length)
    (ha : ancestorAt t p j = some a) :
    ∀ n, n * c.period ≤ height t a + 1 → refAt c t medianTimePast p n = refAt c t medianTimePast a n
  | 0, _ => rfl
  | n + 1, hn => by
    have hah := (hl.ancestorAt_some hp j a ha).2
    have hsteps : height t p + 1 - (n + 1) * c.period =
        height t a + 1 - (n + 1) * c.period + j := by omega
    have hprev : n * c.period ≤ height t a + 1 :=
      le_trans (Nat.mul_le_mul_right _ (Nat.le_succ n)) hn
    simp only [refAt]
    rw [hsteps, ancestorAt_add ha, refAt_ancestor hl hp ha n hprev]

/-- `Ref` at a period end, as the recursion states it: `THRESHOLD_DEFINED` before the start time,
and otherwise the transition from `Ref` of the period end before. -/
theorem ref_periodEnd (hl : LinkedBelow t t.length) (hP : 0 < c.period) {q : Nat}
    (hq : IsPeriodEnd c t (some q)) :
    ref c t medianTimePast (some q) =
      if medianTimePast q < c.beginTime then .defined
      else transition c t medianTimePast (ref c t medianTimePast (prevPeriodEnd c t q)) q := by
  obtain ⟨hlen, hmod⟩ := hq q rfl
  -- the period end closes period number `k + 1` of its chain
  obtain ⟨k, hk⟩ : ∃ k, (height t q + 1) / c.period = k + 1 :=
    Nat.exists_eq_succ_of_ne_zero (Nat.div_ne_zero_iff_of_dvd (Nat.dvd_of_mod_eq_zero hmod) |>.mpr
      ⟨by omega, by omega⟩)
  have hmul : height t q + 1 = (k + 1) * c.period := by
    rw [← hk, Nat.div_mul_cancel (Nat.dvd_of_mod_eq_zero hmod)]
  have hself : ancestorAt t q (height t q + 1 - (k + 1) * c.period) = some q := by
    rw [← hmul, Nat.sub_self, ancestorAt_zero]
  have hprev : ref c t medianTimePast (prevPeriodEnd c t q) = refAt c t medianTimePast q k := by
    rcases prevPeriodEnd_cases hl hq with ⟨hnone, hfirst⟩ | ⟨a, hsome, ha, haend, hah⟩
    · have hk0 : k = 0 := by
        have hone : (k + 1) * c.period = 1 * c.period := by rw [← hmul, hfirst, Nat.one_mul]
        have := Nat.eq_of_mul_eq_mul_right hP hone
        omega
      rw [hnone, hk0]
      rfl
    · have hamul : height t a + 1 = k * c.period := by
        rw [Nat.succ_mul] at hmul
        omega
      rw [hsome, ref, hamul, Nat.mul_div_cancel _ hP]
      exact (refAt_ancestor hl hlen ha k hamul.ge).symm
  rw [ref, hk, hprev]
  simp only [refAt]
  rw [hself]

/-- `endOfPrevPeriod` moves a query, for a positive period, to a key of the cache with the same
reference state. -/
theorem endOfPrevPeriod_ref (hl : LinkedBelow t t.length) (hP : 0 < c.period) {pindexPrev : Option Nat}
    (hp : ∀ q ∈ pindexPrev, q < t.length) :
    ∃ key, endOfPrevPeriod c t pindexPrev = some key ∧ IsPeriodEnd c t key ∧
      ref c t medianTimePast key = ref c t medianTimePast pindexPrev := by
  cases pindexPrev with
  | none => exact ⟨none, rfl, nofun, rfl⟩
  | some p =>
    have hlen := hp p rfl
    refine ⟨_, by rw [endOfPrevPeriod, if_neg (Nat.pos_iff_ne_zero.mp hP)], ?_⟩
    have hdiv := Nat.div_add_mod (height t p + 1) c.period
    have hmodle := Nat.mod_le (height t p + 1) c.period
    by_cases hfirst : (height t p + 1) % c.period = height t p + 1
    · -- the first period: its key is `nullptr`
      have hk0 : (height t p + 1) / c.period = 0 := Nat.div_eq_of_lt (hfirst ▸ Nat.mod_lt _ hP)
      rw [getAncestor_of_neg t p (by omega), ref, ref, hk0]
      exact ⟨nofun, rfl⟩
    · obtain ⟨a, ha, -, hah⟩ := hl.ancestorAt_spec hlen ((height t p + 1) % c.period) (by omega)
      have hamul : height t a + 1 = c.period * ((height t p + 1) / c.period) := by omega
      rw [getAncestor_sub hl hlen (by omega), ha]
      refine ⟨?_, ?_⟩
      · rintro a' ⟨⟩
        exact ⟨(hl.ancestorAt_some hlen _ _ ha).1, by rw [hamul, Nat.mul_mod_right]⟩
      · rw [ref, ref, hamul, Nat.mul_div_cancel_left _ hP]
        exact (refAt_ancestor hl hlen ha _ (by rw [hamul, Nat.mul_comm])).symm

end Recursion

/-! ## The loop's transition is the BIP9 transition -/

section Transition

variable {c : ThresholdChecker} {t : BlockTree} {medianTimePast : Nat → Int}

/-- The counting loop, from a block at least `n - 1` high, meets no `nullptr` and counts the
blocks among the `n` from it down that satisfy `Condition`. -/
theorem countCondition_eq (hl : LinkedBelow t t.length) :
    ∀ n b, b < t.length → n ≤ height t b + 1 →
      countCondition c t n (some b) = some (((List.range n).filterMap (ancestorAt t b)).countP c.condition)
  | 0, _, _, _ => rfl
  | 1, b, _, _ => by
    simp [countCondition, ancestorAt_zero]
  | n + 2, b, hb, hn => by
    obtain ⟨p, hp, hpb, hph⟩ := hl.exists_pprev hb (by omega)
    -- the blocks from `b` are `b` and those from its parent
    have hshift : (ancestorAt t b ∘ Nat.succ) = ancestorAt t p :=
      funext fun i => ancestorAt_add (ancestorAt_one hp) i
    have hblocks : (List.range (n + 2)).filterMap (ancestorAt t b) =
        b :: (List.range (n + 1)).filterMap (ancestorAt t p) := by
      rw [List.range_succ_eq_map (n := n + 1), List.filterMap_cons, ancestorAt_zero, List.filterMap_map, hshift]
    rw [countCondition, hp, countCondition_eq hl (n + 1) p (lt_trans hpb hb) (by omega), Option.map_some,
      hblocks, List.countP_cons, Nat.add_comm]

/-- At a period end the forward loop's transition meets no `nullptr` and is the BIP9
transition. -/
theorem nextState_eq (hl : LinkedBelow t t.length) {q : Nat} (hq : IsPeriodEnd c t (some q))
    (state : ThresholdState) :
    nextState c t medianTimePast state q = some (transition c t medianTimePast state q) := by
  obtain ⟨hlen, hmod⟩ := hq q rfl
  have hcount : countCondition c t c.period (some q) = some ((periodBlocks c t q).countP c.condition) :=
    countCondition_eq hl c.period q hlen (Nat.le_of_dvd (Nat.succ_pos _) (Nat.dvd_of_mod_eq_zero hmod))
  cases state with
  | started =>
    simp only [nextState, transition, hcount, Option.map_some]
    split_ifs <;> rfl
  | defined => rfl
  | lockedIn => rfl
  | failed => rfl
  | active => rfl

end Transition

/-! ## One call keeps the cache sound -/

section Cache

variable {c : ThresholdChecker} {t : BlockTree} {medianTimePast : Nat → Int}

theorem cacheSound_empty : CacheSound c t medianTimePast fun _ => none := nofun

/-- Assigning a key its reference state keeps the cache sound. -/
theorem CacheSound.update {cache : ThresholdConditionCache} (hsound : CacheSound c t medianTimePast cache)
    (p : Option Nat) :
    CacheSound c t medianTimePast (Function.update cache p (some (ref c t medianTimePast p))) := by
  intro q s hq
  by_cases hqp : q = p
  · subst hqp
    rw [Function.update_self, Option.some.injEq] at hq
    exact hq.symm
  · rw [Function.update_of_ne hqp] at hq
    exact hsound q s hq

theorem getLast?_cons_or (q : Nat) (rest : List Nat) (pindexPrev : Option Nat) :
    (q :: rest).getLast?.or pindexPrev = rest.getLast?.or (some q) := by
  rw [List.getLast?_cons]
  cases rest.getLast? <;> rfl

/-- The forward loop, started from the reference state of `pindexPrev`, computes the reference
state of each block it pops and assigns it; it ends at the state of the last. -/
theorem walkForward_ref (hl : LinkedBelow t t.length) (hP : 0 < c.period) {pindexPrev : Option Nat}
    {vToCompute : List Nat} (hchain : ForwardChain c t medianTimePast pindexPrev vToCompute) :
    ∀ cache, CacheSound c t medianTimePast cache →
      ∃ cache', walkForward c t medianTimePast (ref c t medianTimePast pindexPrev) cache vToCompute =
          some (ref c t medianTimePast (vToCompute.getLast?.or pindexPrev), cache') ∧
        CacheSound c t medianTimePast cache' := by
  induction hchain with
  | nil pindexPrev => exact fun cache hsound => ⟨cache, rfl, hsound⟩
  | @cons pindexPrev q rest hprev hq hstart _ ih =>
    intro cache hsound
    -- the state `GetStateFor` computes for `q` is its reference state
    have hnext : nextState c t medianTimePast (ref c t medianTimePast pindexPrev) q =
        some (ref c t medianTimePast (some q)) := by
      rw [nextState_eq hl hq, ref_periodEnd hl hP hq, if_neg hstart, hprev]
    obtain ⟨cache', hrun, hsound'⟩ := ih _ (hsound.update (some q))
    refine ⟨cache', ?_, hsound'⟩
    simp only [walkForward, hnext, Option.bind_eq_bind, Option.bind_some, hrun, getLast?_cons_or]

/-- The backward loop, from a key with enough passes, stops at a key whose entry is its
reference state, and leaves on `vToCompute` the period ends from there up to where it started. -/
theorem walkBack_spec (hl : LinkedBelow t t.length) (hP : 0 < c.period) :
    ∀ fuel cache pindexPrev vToCompute, walkFuel t pindexPrev ≤ fuel →
      CacheSound c t medianTimePast cache → IsPeriodEnd c t pindexPrev →
      ForwardChain c t medianTimePast pindexPrev vToCompute →
      ∃ stop cache' vToCompute',
        walkBack c t medianTimePast fuel cache pindexPrev vToCompute = some (stop, cache', vToCompute') ∧
        CacheSound c t medianTimePast cache' ∧ cache' stop = some (ref c t medianTimePast stop) ∧
        ForwardChain c t medianTimePast stop vToCompute' ∧
        vToCompute'.getLast?.or stop = vToCompute.getLast?.or pindexPrev
  | 0, cache, pindexPrev, vToCompute, hfuel, _, _, _ => by
    cases pindexPrev <;> simp [walkFuel] at hfuel
  | fuel + 1, cache, pindexPrev, vToCompute, hfuel, hsound, hend, hchain => by
    simp only [walkBack]
    by_cases hknown : (cache pindexPrev).isSome
    · -- the cache knows the key
      obtain ⟨s, hs⟩ := Option.isSome_iff_exists.mp hknown
      rw [if_pos hknown]
      exact ⟨pindexPrev, cache, vToCompute, rfl, hsound, by rw [hs, hsound _ _ hs], hchain, rfl⟩
    rw [if_neg hknown]
    cases pindexPrev with
    | none =>
      exact ⟨none, _, vToCompute, rfl, hsound.update none, Function.update_self .., hchain, rfl⟩
    | some p =>
      dsimp only
      have hp := hend p rfl
      by_cases hbefore : medianTimePast p < c.beginTime
      · -- a block before the start time: its period is defined
        have hdef : ref c t medianTimePast (some p) = .defined := by
          rw [ref_periodEnd hl hP hend, if_pos hbefore]
        rw [if_pos hbefore, ← hdef]
        exact ⟨some p, _, vToCompute, rfl, hsound.update (some p), Function.update_self .., hchain, rfl⟩
      · -- push the block and go back a period
        rw [if_neg hbefore]
        have hnext : walkFuel t (prevPeriodEnd c t p) ≤ fuel ∧ IsPeriodEnd c t (prevPeriodEnd c t p) := by
          rcases prevPeriodEnd_cases hl hend with ⟨hnone, -⟩ | ⟨a, hsome, -, haend, hah⟩
          · rw [hnone]
            exact ⟨by simp only [walkFuel] at hfuel ⊢; omega, nofun⟩
          · rw [hsome]
            exact ⟨by simp only [walkFuel] at hfuel ⊢; omega, haend⟩
        obtain ⟨stop, cache', vToCompute', hrun, hsound', hstop, hchain', hlast⟩ :=
          walkBack_spec hl hP fuel cache _ (p :: vToCompute) hnext.1 hsound hnext.2
            (.cons rfl hend hbefore hchain)
        exact ⟨stop, cache', vToCompute', hrun, hsound', hstop, hchain', by
          rw [hlast, getLast?_cons_or]⟩

/-- One call of `GetStateFor` on a block of the index, with a sound cache, answers the reference
state (`THRESHOLD_ACTIVE` for a deployment that is always active) and leaves the cache sound. -/
theorem getStateFor_eq (hl : LinkedBelow t t.length) (hP : 0 < c.period) {cache : ThresholdConditionCache}
    (hsound : CacheSound c t medianTimePast cache) {pindexPrev : Option Nat}
    (hp : ∀ q ∈ pindexPrev, q < t.length) :
    ∃ cache', getStateFor c t medianTimePast pindexPrev cache =
        some (if c.beginTime = alwaysActive then .active else ref c t medianTimePast pindexPrev, cache') ∧
      CacheSound c t medianTimePast cache' := by
  rw [getStateFor]
  by_cases hstart : c.beginTime = alwaysActive
  · rw [if_pos hstart, if_pos hstart]
    exact ⟨cache, rfl, hsound⟩
  rw [if_neg hstart, if_neg hstart]
  obtain ⟨key, hkey, hend, href⟩ := @endOfPrevPeriod_ref _ _ medianTimePast hl hP _ hp
  obtain ⟨stop, cache', vToCompute, hback, hsound', hstop, hchain, hlast⟩ :=
    walkBack_spec hl hP _ cache _ [] le_rfl hsound hend (.nil _)
  obtain ⟨cache'', hforward, hsound''⟩ := walkForward_ref hl hP hchain cache' hsound'
  refine ⟨cache'', ?_, hsound''⟩
  rw [List.getLast?_nil, Option.none_or] at hlast
  simp only [hkey, hback, hstop, Option.getD_some, hforward, hlast, href, Option.bind_eq_bind,
    Option.bind_some]

/-- A sequence of queries on blocks of the index, sharing one sound cache, answers the reference
state of each. -/
theorem getStatesFor_eq (hl : LinkedBelow t t.length) (hP : 0 < c.period) :
    ∀ (queries : List (Option Nat)) (cache : ThresholdConditionCache), CacheSound c t medianTimePast cache →
      (∀ p ∈ queries, ∀ q ∈ p, q < t.length) →
      getStatesFor c t medianTimePast cache queries =
        some (queries.map fun p => if c.beginTime = alwaysActive then .active else ref c t medianTimePast p)
  | [], _, _, _ => rfl
  | pindexPrev :: queries, cache, hsound, hq => by
    obtain ⟨cache', hstep, hsound'⟩ := getStateFor_eq hl hP hsound (hq pindexPrev List.mem_cons_self)
    rw [getStatesFor, hstep]
    simp only [Option.bind_eq_bind, Option.bind_some,
      getStatesFor_eq hl hP queries cache' hsound' fun p hp => hq p (List.mem_cons_of_mem _ hp)]
    rfl

end Cache

/-! ## Periods share a state; terminal states persist -/

section Periods

variable {c : ThresholdChecker} {t : BlockTree} {medianTimePast : Nat → Int}

/-- The state of a block, the reference state of the child of its parent, is that of the period
the block is in. -/
theorem ref_pprev (hl : LinkedBelow t t.length) {b : Nat} (hb : b < t.length) :
    ref c t medianTimePast (pprev t b) = refAt c t medianTimePast b (height t b / c.period) := by
  cases hp : pprev t b with
  | none =>
    rw [hl.height_root b hb hp, Nat.zero_div]
    rfl
  | some p =>
    have hph := hl.height_pprev b hb p hp
    rw [ref, ← hph]
    exact (refAt_ancestor hl hb (ancestorAt_one hp) _ (by rw [← hph]; exact Nat.div_mul_le_self _ _)).symm

/-- The period of an ancestor has, seen from a descendant, the state it has seen from itself. -/
theorem refAt_ancestor_period (hl : LinkedBelow t t.length) {b₁ b₂ k : Nat} (hb₂ : b₂ < t.length)
    (hanc : ancestorAt t b₂ k = some b₁) :
    refAt c t medianTimePast b₂ (height t b₁ / c.period) =
      refAt c t medianTimePast b₁ (height t b₁ / c.period) :=
  refAt_ancestor hl hb₂ hanc _ (le_trans (Nat.div_mul_le_self _ _) (Nat.le_succ _))

/-- Two blocks of one chain in one period have the same state. -/
theorem ref_pprev_of_same_period (hl : LinkedBelow t t.length) {b₁ b₂ k : Nat} (hb₂ : b₂ < t.length)
    (hanc : ancestorAt t b₂ k = some b₁) (hsame : height t b₁ / c.period = height t b₂ / c.period) :
    ref c t medianTimePast (pprev t b₁) = ref c t medianTimePast (pprev t b₂) := by
  have hb₁ := (hl.ancestorAt_some hb₂ k b₁ hanc).1
  rw [ref_pprev hl hb₁, ref_pprev hl hb₂, ← hsame]
  exact (refAt_ancestor_period hl hb₂ hanc).symm

/-- Median times that do not decrease from parent to child do not decrease along a chain. -/
theorem medianTimePast_ancestorAt_le
    (hmono : ∀ i p, pprev t i = some p → medianTimePast p ≤ medianTimePast i) :
    ∀ k i j, ancestorAt t i k = some j → medianTimePast j ≤ medianTimePast i
  | 0, i, j, h => by
    rw [ancestorAt_zero, Option.some.injEq] at h
    rw [h]
  | k + 1, i, j, h => by
    rw [ancestorAt_succ] at h
    cases hk : ancestorAt t i k with
    | none => rw [hk] at h; cases h
    | some a =>
      rw [hk, Option.bind_some] at h
      exact le_trans (hmono a j h) (medianTimePast_ancestorAt_le hmono k i a hk)

/-- A period whose reference state is not `THRESHOLD_DEFINED` follows a period end at or after the
start time. -/
theorem refAt_ne_defined {p n : Nat} (h : refAt c t medianTimePast p n ≠ .defined) :
    ∃ q, ancestorAt t p (height t p + 1 - n * c.period) = some q ∧ ¬medianTimePast q < c.beginTime := by
  cases n with
  | zero => exact absurd rfl h
  | succ n =>
    simp only [refAt] at h
    cases hq : ancestorAt t p (height t p + 1 - (n + 1) * c.period) with
    | none =>
      rw [hq] at h
      exact absurd rfl h
    | some q =>
      rw [hq] at h
      refine ⟨q, rfl, fun hbefore => h ?_⟩
      dsimp only
      rw [if_pos hbefore]

/-- With median times that do not decrease, `THRESHOLD_ACTIVE` and `THRESHOLD_FAILED` carry over
to the next period: its period end is not before the start time either. -/
theorem refAt_succ_of_terminal (hl : LinkedBelow t t.length) (hP : 0 < c.period)
    (hmono : ∀ i p, pprev t i = some p → medianTimePast p ≤ medianTimePast i) {p n : Nat}
    (hp : p < t.length) (hn : (n + 1) * c.period ≤ height t p + 1)
    (hterm : refAt c t medianTimePast p n = .active ∨ refAt c t medianTimePast p n = .failed) :
    refAt c t medianTimePast p (n + 1) = refAt c t medianTimePast p n := by
  have hsucc : (n + 1) * c.period = n * c.period + c.period := Nat.succ_mul n c.period
  obtain ⟨q₀, hq₀, hstart⟩ := refAt_ne_defined (by rcases hterm with h | h <;> rw [h] <;> nofun)
  obtain ⟨q, hq, -, -⟩ := hl.ancestorAt_spec hp (height t p + 1 - (n + 1) * c.period) (by omega)
  -- the period end before is `period` blocks below the next one
  have hbelow : ancestorAt t q c.period = some q₀ := by
    rw [← ancestorAt_add hq, show c.period + (height t p + 1 - (n + 1) * c.period) =
      height t p + 1 - n * c.period by omega]
    exact hq₀
  have hmq := medianTimePast_ancestorAt_le hmono _ _ _ hbelow
  simp only [refAt]
  rw [hq]
  dsimp only
  rw [if_neg (by omega)]
  rcases hterm with h | h <;> rw [h] <;> rfl

theorem refAt_add_of_terminal (hl : LinkedBelow t t.length) (hP : 0 < c.period)
    (hmono : ∀ i p, pprev t i = some p → medianTimePast p ≤ medianTimePast i) {p n : Nat}
    (hp : p < t.length)
    (hterm : refAt c t medianTimePast p n = .active ∨ refAt c t medianTimePast p n = .failed) :
    ∀ d, (n + d) * c.period ≤ height t p + 1 → refAt c t medianTimePast p (n + d) = refAt c t medianTimePast p n
  | 0, _ => rfl
  | d + 1, hd => by
    have ih := refAt_add_of_terminal hl hP hmono hp hterm d
      (le_trans (Nat.mul_le_mul_right _ (by omega)) hd)
    rw [← Nat.add_assoc, refAt_succ_of_terminal (n := n + d) hl hP hmono hp (by rwa [Nat.add_assoc])
      (by rw [ih]; exact hterm), ih]

/-- With median times that do not decrease, a block whose state is `THRESHOLD_ACTIVE` or
`THRESHOLD_FAILED` passes it to every descendant. -/
theorem ref_pprev_of_terminal (hl : LinkedBelow t t.length) (hP : 0 < c.period)
    (hmono : ∀ i p, pprev t i = some p → medianTimePast p ≤ medianTimePast i) {b₁ b₂ k : Nat}
    (hb₂ : b₂ < t.length) (hanc : ancestorAt t b₂ k = some b₁)
    (hterm : ref c t medianTimePast (pprev t b₁) = .active ∨ ref c t medianTimePast (pprev t b₁) = .failed) :
    ref c t medianTimePast (pprev t b₂) = ref c t medianTimePast (pprev t b₁) := by
  obtain ⟨hb₁, hheight⟩ := hl.ancestorAt_some hb₂ k b₁ hanc
  rw [ref_pprev hl hb₁, ← refAt_ancestor_period hl hb₂ hanc] at hterm ⊢
  have hle : height t b₁ / c.period ≤ height t b₂ / c.period := Nat.div_le_div_right (by omega)
  rw [ref_pprev hl hb₂, ← Nat.add_sub_cancel' hle]
  exact refAt_add_of_terminal hl hP hmono hb₂ hterm _
    (by rw [Nat.add_sub_cancel' hle]; exact le_trans (Nat.div_mul_le_self _ _) (Nat.le_succ _))

end Periods

/-- `GetStateFor` with one shared cache agrees with the reference on every linked block index,
every deployment with a positive period, and every sequence of queries: each answer is the
reference state of its block, or `THRESHOLD_ACTIVE` for a deployment that is always active. The
blocks of one period of a chain share a state. When median times do not decrease from parent to
child, `THRESHOLD_ACTIVE` and `THRESHOLD_FAILED` pass to every descendant. -/
theorem versionBits_state_eq_ref (c : ThresholdChecker) (t : BlockTree) (medianTimePast : Nat → Int)
    (hl : LinkedBelow t t.length) (hP : 0 < c.period) :
    (∀ queries : List (Option Nat), (∀ p ∈ queries, ∀ q ∈ p, q < t.length) →
      getStatesFor c t medianTimePast (fun _ => none) queries =
        some (queries.map fun p =>
          if c.beginTime = alwaysActive then .active else ref c t medianTimePast p)) ∧
    (∀ b₁ b₂ k, b₂ < t.length → ancestorAt t b₂ k = some b₁ →
      height t b₁ / c.period = height t b₂ / c.period →
      ref c t medianTimePast (pprev t b₁) = ref c t medianTimePast (pprev t b₂)) ∧
    ((∀ i p, pprev t i = some p → medianTimePast p ≤ medianTimePast i) →
      ∀ b₁ b₂ k, b₂ < t.length → ancestorAt t b₂ k = some b₁ →
        (ref c t medianTimePast (pprev t b₁) = .active ∨ ref c t medianTimePast (pprev t b₁) = .failed) →
        ref c t medianTimePast (pprev t b₂) = ref c t medianTimePast (pprev t b₁)) :=
  ⟨fun queries hq => getStatesFor_eq hl hP queries _ cacheSound_empty hq,
    fun _ _ _ hb₂ hanc hsame => ref_pprev_of_same_period hl hb₂ hanc hsame,
    fun hmono _ _ _ hb₂ hanc hterm => ref_pprev_of_terminal hl hP hmono hb₂ hanc hterm⟩

/-- Four blocks in one chain, from the genesis block up. -/
def fourBlocks : BlockTree :=
  addToBlockIndex (addToBlockIndex (addToBlockIndex (addToBlockIndex [] none) (some 0)) (some 1)) (some 2)

theorem built_fourBlocks : Built fourBlocks :=
  .add (.add (.add (.add .empty nofun) (by decide)) (by decide)) (by decide)

/-- A deployment of one-block periods, started at time zero, that every block signals. -/
def signalling : ThresholdChecker := ⟨1, 1, 0, 100, fun _ => true⟩

/-- Over the four-block chain the signalling deployment moves from `THRESHOLD_DEFINED` through
`THRESHOLD_STARTED` and `THRESHOLD_LOCKED_IN` to `THRESHOLD_ACTIVE`, and every answer of
`GetStateFor` is the reference state. -/
theorem versionBits_state_eq_ref_fourBlocks :
    LinkedBelow fourBlocks fourBlocks.length ∧ 0 < signalling.period ∧
      getStatesFor signalling fourBlocks (fun _ => 0) (fun _ => none) [none, some 0, some 1, some 2, some 3] =
        some [.defined, .started, .lockedIn, .active, .active] ∧
      (∀ queries : List (Option Nat), (∀ p ∈ queries, ∀ q ∈ p, q < fourBlocks.length) →
        getStatesFor signalling fourBlocks (fun _ => 0) (fun _ => none) queries =
          some (queries.map fun p =>
            if signalling.beginTime = alwaysActive then .active else ref signalling fourBlocks (fun _ => 0) p)) ∧
      (∀ b₁ b₂ k, b₂ < fourBlocks.length → ancestorAt fourBlocks b₂ k = some b₁ →
        height fourBlocks b₁ / signalling.period = height fourBlocks b₂ / signalling.period →
        ref signalling fourBlocks (fun _ => 0) (pprev fourBlocks b₁) =
          ref signalling fourBlocks (fun _ => 0) (pprev fourBlocks b₂)) ∧
      ((∀ i p, pprev fourBlocks i = some p → (fun _ => (0 : Int)) p ≤ (fun _ => (0 : Int)) i) →
        ∀ b₁ b₂ k, b₂ < fourBlocks.length → ancestorAt fourBlocks b₂ k = some b₁ →
          (ref signalling fourBlocks (fun _ => 0) (pprev fourBlocks b₁) = .active ∨
            ref signalling fourBlocks (fun _ => 0) (pprev fourBlocks b₁) = .failed) →
          ref signalling fourBlocks (fun _ => 0) (pprev fourBlocks b₂) =
            ref signalling fourBlocks (fun _ => 0) (pprev fourBlocks b₁)) :=
  ⟨built_fourBlocks.linked, by decide, by decide +kernel,
    versionBits_state_eq_ref signalling fourBlocks (fun _ => 0) built_fourBlocks.linked (by decide)⟩

/-- Two answers of `GetStateFor` outside the bare recursion. A deployment that is always active
answers `THRESHOLD_ACTIVE` at the genesis block, where the recursion gives `THRESHOLD_DEFINED`.
With a period of one block and the start at time zero, the fourth block is `THRESHOLD_ACTIVE`; the
fifth, whose parent's median time is before the start, is `THRESHOLD_DEFINED` again. -/
theorem versionBits_always_active_and_reset :
    (getStatesFor ⟨1, 0, alwaysActive, 1, fun _ => false⟩ [] (fun _ => 0) (fun _ => none) [none] =
        some [.active] ∧
      ref ⟨1, 0, alwaysActive, 1, fun _ => false⟩ [] (fun _ => 0) none = .defined) ∧
    getStatesFor ⟨1, 0, 0, 100, fun _ => false⟩ fourBlocks (fun i => if i = 3 then -1 else 0)
        (fun _ => none) [some 2, some 3] = some [.active, .defined] := by
  refine ⟨⟨by decide, rfl⟩, ?_⟩
  decide +kernel

end UnitedBitcoin.Chain
