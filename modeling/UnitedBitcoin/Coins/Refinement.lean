import Mathlib
import UnitedBitcoin.Coins.Stack

/-!
# The stack of caches refines a list of flat maps

The specification is a list of plain maps, one per cache and the backing view
last: `AddCoin` inserts (unless the script is unspendable), `SpendCoin`
deletes, `Flush` copies a layer's map into the layer below, `push` copies the
top map and `pop` drops it.

The invariant `StackCoherent` is the flag discipline: an entry without
`DIRTY` shows what its parent shows, and an entry with `FRESH` sits over a
parent that shows nothing. Every operation keeps it as long as coins are added
and spent at the top cache only; under it no `BatchWrite` throws and every
layer shows exactly its reference map (`coinsStack_refines`). Adding a coin at
a lower cache breaks the discipline, and the discipline does not reach past
the parent (`coinsStack_fresh_discipline_fails`).
-/

/-!
## Runs of fallible steps and their simulation by a total specification

A concrete machine takes operations through `step : σ → ω → Except ε σ` and
stops at the first failure. A specification takes the same operations through
a total `spec : τ → ω → τ`. A caller contract `Allowed` says which operations
may be issued in which specification state.

`runSteps_simulates` is the forward-simulation rule: if every allowed step
from a state satisfying `Inv` succeeds, keeps `Inv` and commutes with the
abstraction `abs`, then every allowed run succeeds, ends in a state satisfying
`Inv`, and its abstraction is the specification's run.
-/

namespace UnitedBitcoin.Library

universe u v w x

variable {σ : Type u} {τ : Type v} {ω : Type w} {ε : Type x}

@[simp]
theorem except_ok_bind {α β : Type u} (a : α) (f : α → Except ε β) :
    (Except.ok a >>= f) = f a := rfl

/-- Apply the operations in order, stopping at the first failure. -/
def runSteps (step : σ → ω → Except ε σ) : σ → List ω → Except ε σ
  | state, [] => .ok state
  | state, op :: ops => (step state op).bind fun next => runSteps step next ops

@[simp]
theorem runSteps_nil (step : σ → ω → Except ε σ) (state : σ) :
    runSteps step state [] = .ok state := rfl

theorem runSteps_cons (step : σ → ω → Except ε σ) (state : σ) (op : ω) (ops : List ω) :
    runSteps step state (op :: ops) = (step state op).bind fun next => runSteps step next ops :=
  rfl

/-- Every operation of the list is allowed in the specification state it
meets. -/
def AllowedRun (spec : τ → ω → τ) (Allowed : τ → ω → Prop) : τ → List ω → Prop
  | _, [] => True
  | state, op :: ops => Allowed state op ∧ AllowedRun spec Allowed (spec state op) ops

@[simp]
theorem allowedRun_nil (spec : τ → ω → τ) (Allowed : τ → ω → Prop) (state : τ) :
    AllowedRun spec Allowed state [] := trivial

@[simp]
theorem allowedRun_cons (spec : τ → ω → τ) (Allowed : τ → ω → Prop) (state : τ) (op : ω)
    (ops : List ω) :
    AllowedRun spec Allowed state (op :: ops) ↔
      Allowed state op ∧ AllowedRun spec Allowed (spec state op) ops := Iff.rfl

section Simulation

variable (step : σ → ω → Except ε σ) (spec : τ → ω → τ) (abs : σ → τ)
  (Inv : σ → Prop) (Allowed : τ → ω → Prop)

/-- One allowed step from an invariant state succeeds, keeps the invariant
and is matched by the specification. -/
def SimulatesStep : Prop :=
  ∀ state op, Inv state → Allowed (abs state) op →
    ∃ next, step state op = .ok next ∧ Inv next ∧ abs next = spec (abs state) op

/-- Forward simulation over whole runs, by induction on the operations. -/
theorem runSteps_simulates (hstep : SimulatesStep step spec abs Inv Allowed) :
    ∀ (ops : List ω) (state : σ), Inv state → AllowedRun spec Allowed (abs state) ops →
      ∃ final, runSteps step state ops = .ok final ∧ Inv final ∧
        abs final = ops.foldl spec (abs state)
  | [], state, hinv, _ => ⟨state, rfl, hinv, rfl⟩
  | op :: ops, state, hinv, ⟨hallowed, hrest⟩ => by
      obtain ⟨next, hrun, hinvNext, habs⟩ := hstep state op hinv hallowed
      rw [← habs] at hrest
      obtain ⟨final, hfinal, hinvFinal, habsFinal⟩ :=
        runSteps_simulates hstep ops next hinvNext hrest
      refine ⟨final, ?_, hinvFinal, ?_⟩
      · rw [runSteps_cons, hrun]
        exact hfinal
      · rw [List.foldl_cons, ← habs]
        exact habsFinal

end Simulation

end UnitedBitcoin.Library

namespace UnitedBitcoin.Coins

open UnitedBitcoin.Library

/-- The coins a map of outpoints shows. -/
abbrev CoinsMap := COutPoint → Option Coin

/-- What a layer shows at one outpoint, from its own entry there and from
what the layer below shows. -/
def entryView : Option CCoinsCacheEntry → Option Coin → Option Coin
  | some entry, _ => entry.coin.shown
  | none, below => below

/-- What a cache shows over the map its parent shows. -/
def overlay (cache : CCoinsViewCache) (below : CoinsMap) : CoinsMap := fun outpoint =>
  entryView (cache.cacheCoins.lookup outpoint) (below outpoint)

/-- What the first cache of the list shows (the backing view for none). -/
def layerView (base : BaseView) : List CCoinsViewCache → CoinsMap
  | [] => base.view
  | cache :: parents => overlay cache (layerView base parents)

/-- What every layer shows, the top first and the backing view last. -/
def stackViews (base : BaseView) : List CCoinsViewCache → List CoinsMap
  | [] => [base.view]
  | cache :: parents => layerView base (cache :: parents) :: stackViews base parents

/-- The abstraction of a stack into its reference maps. -/
def CoinsStack.views (stack : CoinsStack) : List CoinsMap :=
  stackViews stack.base stack.caches

/-! ## The reference maps -/

/-- Apply a change to the reference maps from the one `layer` places down. -/
def refAt (change : List CoinsMap → List CoinsMap) : Nat → List CoinsMap → List CoinsMap
  | 0, maps => change maps
  | _ + 1, [] => []
  | layer + 1, map :: rest => map :: refAt change layer rest

/-- `AddCoin` on a cache's reference map; the last map is the backing view,
which is no cache. -/
def refAdd (outpoint : COutPoint) (coin : Coin) : List CoinsMap → List CoinsMap
  | map :: below :: rest =>
      (if isUnspendable coin.out.scriptPubKey then map else Function.update map outpoint (some coin))
        :: below :: rest
  | maps => maps

/-- `SpendCoin` on a cache's reference map. -/
def refSpend (outpoint : COutPoint) : List CoinsMap → List CoinsMap
  | map :: below :: rest => Function.update map outpoint none :: below :: rest
  | maps => maps

/-- `Flush`: the map below becomes a copy of the flushed one. -/
def refFlush : List CoinsMap → List CoinsMap
  | map :: _ :: rest => map :: map :: rest
  | maps => maps

/-- The reference step. -/
def refStep (maps : List CoinsMap) : CoinsOp → List CoinsMap
  | .addCoin layer outpoint coin _ => refAt (refAdd outpoint coin) layer maps
  | .spendCoin layer outpoint => refAt (refSpend outpoint) layer maps
  | .flush layer => refAt refFlush layer maps
  | .push =>
      match maps with
      | map :: rest => map :: map :: rest
      | [] => []
  | .pop =>
      match maps with
      | _ :: below :: rest => below :: rest
      | _ => maps
  | .accessCoin .. | .uncache .. | .setBestBlock .. => maps

/-- The caller's contract read for any layer: a coin is added only when
it is unspent, and without `possible_overwrite` only where the layer shows
none. -/
def AnyLayerAllowed (maps : List CoinsMap) : CoinsOp → Prop
  | .addCoin layer outpoint coin possibleOverwrite =>
      coin.isSpent = false ∧
        (possibleOverwrite = true ∨ ((maps.drop layer).headD fun _ => none) outpoint = none)
  | _ => True

/-- The same contract with coins added and spent at the top cache only. -/
def TopAllowed (maps : List CoinsMap) (op : CoinsOp) : Prop :=
  AnyLayerAllowed maps op ∧
    match op with
    | .addCoin layer .. | .spendCoin layer _ => layer = 0
    | _ => True

/-! ## The flag discipline -/

/-- An entry agrees with what the layer below shows at its outpoint: without
`DIRTY` it shows the same coin, with `FRESH` the layer below shows none. -/
def EntryCoherent (below : Option Coin) (entry : CCoinsCacheEntry) : Prop :=
  (entry.dirty = false → entry.coin.shown = below) ∧ (entry.fresh = true → below = none)

/-- Every entry of a cache agrees with the map below it. -/
def CacheCoherent (cache : CCoinsViewCache) (below : CoinsMap) : Prop :=
  ∀ outpoint entry, cache.cacheCoins.lookup outpoint = some entry →
    EntryCoherent (below outpoint) entry

/-- Every cache of the stack agrees with what its parents show. -/
def StackCoherent (base : BaseView) : List CCoinsViewCache → Prop
  | [] => True
  | cache :: parents => CacheCoherent cache (layerView base parents) ∧ StackCoherent base parents

/-! ## Views -/

@[simp]
theorem entryView_some (entry : CCoinsCacheEntry) (below : Option Coin) :
    entryView (some entry) below = entry.coin.shown := rfl

@[simp]
theorem entryView_none (below : Option Coin) : entryView none below = below := rfl

@[simp]
theorem overlay_apply (cache : CCoinsViewCache) (below : CoinsMap) (outpoint : COutPoint) :
    overlay cache below outpoint = entryView (cache.cacheCoins.lookup outpoint) (below outpoint) :=
  rfl

@[simp]
theorem layerView_nil (base : BaseView) : layerView base [] = base.view := rfl

@[simp]
theorem layerView_cons (base : BaseView) (cache : CCoinsViewCache) (parents : List CCoinsViewCache) :
    layerView base (cache :: parents) = overlay cache (layerView base parents) := rfl

theorem stackViews_cons (base : BaseView) (cache : CCoinsViewCache)
    (parents : List CCoinsViewCache) :
    stackViews base (cache :: parents) = layerView base (cache :: parents) :: stackViews base parents :=
  rfl

theorem stackViews_head? (base : BaseView) (caches : List CCoinsViewCache) :
    (stackViews base caches).head? = some (layerView base caches) := by
  cases caches <;> rfl

theorem layerView_eq_of_stackViews_eq {base base' : BaseView}
    {caches caches' : List CCoinsViewCache}
    (h : stackViews base caches = stackViews base' caches') :
    layerView base caches = layerView base' caches' := by
  have hhead := congrArg List.head? h
  rw [stackViews_head?, stackViews_head?] at hhead
  exact Option.some.inj hhead

theorem overlay_insert (cache : CCoinsViewCache) (below : CoinsMap) (outpoint : COutPoint)
    (entry : CCoinsCacheEntry) :
    overlay { cache with cacheCoins := cache.cacheCoins.insert outpoint entry } below =
      Function.update (overlay cache below) outpoint entry.coin.shown := by
  funext other
  by_cases h : other = outpoint
  · subst other
    simp [AList.lookup_insert]
  · simp [AList.lookup_insert_ne h, Function.update_of_ne h]

theorem overlay_erase (cache : CCoinsViewCache) (below : CoinsMap) (outpoint : COutPoint) :
    overlay { cache with cacheCoins := cache.cacheCoins.erase outpoint } below =
      Function.update (overlay cache below) outpoint (below outpoint) := by
  funext other
  by_cases h : other = outpoint
  · subst other
    simp [AList.lookup_erase]
  · simp [AList.lookup_erase_ne h, Function.update_of_ne h]

@[simp]
theorem overlay_clear (cache : CCoinsViewCache) (below : CoinsMap) :
    overlay { cache with cacheCoins := ∅ } below = below := by
  funext outpoint
  simp [AList.lookup_empty]

@[simp]
theorem overlay_empty (below : CoinsMap) : overlay CCoinsViewCache.empty below = below :=
  overlay_clear CCoinsViewCache.empty below

/-- A `DIRTY` entry only has to respect `FRESH`. -/
theorem entryCoherent_of_dirty {below : Option Coin} {entry : CCoinsCacheEntry}
    (hdirty : entry.dirty = true) (hfresh : entry.fresh = true → below = none) :
    EntryCoherent below entry :=
  ⟨fun h => absurd (hdirty.symm.trans h) (by decide), hfresh⟩

theorem cacheCoherent_insert {cache : CCoinsViewCache} {below : CoinsMap} {outpoint : COutPoint}
    {entry : CCoinsCacheEntry} (hcoherent : CacheCoherent cache below)
    (hentry : EntryCoherent (below outpoint) entry) :
    CacheCoherent { cache with cacheCoins := cache.cacheCoins.insert outpoint entry } below := by
  intro other found hfound
  by_cases h : other = outpoint
  · subst other
    simp only [AList.lookup_insert, Option.some.injEq] at hfound
    subst hfound
    exact hentry
  · simp only [AList.lookup_insert_ne h] at hfound
    exact hcoherent other found hfound

theorem cacheCoherent_erase {cache : CCoinsViewCache} {below : CoinsMap} {outpoint : COutPoint}
    (hcoherent : CacheCoherent cache below) :
    CacheCoherent { cache with cacheCoins := cache.cacheCoins.erase outpoint } below := by
  intro other found hfound
  by_cases h : other = outpoint
  · subst other
    simp [AList.lookup_erase] at hfound
  · simp only [AList.lookup_erase_ne h] at hfound
    exact hcoherent other found hfound

theorem cacheCoherent_clear (cache : CCoinsViewCache) (below : CoinsMap) :
    CacheCoherent { cache with cacheCoins := ∅ } below := by
  intro outpoint entry h
  simp [AList.lookup_empty] at h

theorem stackCoherent_replicate_empty (base : BaseView) (depth : Nat) :
    StackCoherent base (List.replicate depth CCoinsViewCache.empty) := by
  induction depth with
  | zero => trivial
  | succ depth ih => exact ⟨cacheCoherent_clear CCoinsViewCache.empty _, ih⟩

/-! ## Reads through the stack -/

/-- Caching what the parent answered changes no view and keeps the cache
coherent. -/
theorem storeFetched_spec {cache : CCoinsViewCache} {below : CoinsMap} {outpoint : COutPoint}
    {found : Option Coin} (hnone : cache.cacheCoins.lookup outpoint = none)
    (hcoherent : CacheCoherent cache below) (hfound : found.bind Coin.shown = below outpoint) :
    (storeFetched cache outpoint found).1 =
        (storeFetched cache outpoint found).2.cacheCoins.lookup outpoint ∧
      ((storeFetched cache outpoint found).1.bind fun entry => entry.coin.shown) = below outpoint ∧
      overlay (storeFetched cache outpoint found).2 below = overlay cache below ∧
      CacheCoherent (storeFetched cache outpoint found).2 below := by
  cases found with
  | none => exact ⟨hnone.symm, hfound, rfl, hcoherent⟩
  | some coin =>
      have hshown : coin.shown = below outpoint := hfound
      have hview : overlay cache below outpoint = coin.shown := by simp [hnone, hshown]
      simp only [storeFetched]
      refine ⟨by rw [AList.lookup_insert], hshown, ?_, ?_⟩
      · rw [overlay_insert, ← hview, Function.update_eq_self]
      · refine cacheCoherent_insert hcoherent ⟨fun _ => hshown, fun hspent => ?_⟩
        rw [← hshown]
        exact Coin.shown_of_isSpent hspent

/-- What `FetchCoin` guarantees on a coherent stack: the entry it returns is
the one the cache now holds and shows what the layer showed, and no view of
the stack and no coherence is lost. -/
structure FetchResult (base : BaseView) (cache : CCoinsViewCache) (parents : List CCoinsViewCache)
    (outpoint : COutPoint)
    (result : Option CCoinsCacheEntry × CCoinsViewCache × List CCoinsViewCache) : Prop where
  entry_eq : result.1 = result.2.1.cacheCoins.lookup outpoint
  shows : (result.1.bind fun entry => entry.coin.shown) = layerView base (cache :: parents) outpoint
  views : stackViews base (result.2.1 :: result.2.2) = stackViews base (cache :: parents)
  coherent : StackCoherent base (result.2.1 :: result.2.2)

theorem fetchCoin_hit {base : BaseView} {cache : CCoinsViewCache} {parents : List CCoinsViewCache}
    {outpoint : COutPoint} {entry : CCoinsCacheEntry}
    (h : cache.cacheCoins.lookup outpoint = some entry) :
    fetchCoin base cache parents outpoint = (some entry, cache, parents) := by
  cases parents <;> simp [fetchCoin, h]

theorem fetchCoin_nil_miss {base : BaseView} {cache : CCoinsViewCache} {outpoint : COutPoint}
    (h : cache.cacheCoins.lookup outpoint = none) :
    fetchCoin base cache [] outpoint =
      ((storeFetched cache outpoint (base.getCoin outpoint)).1,
        (storeFetched cache outpoint (base.getCoin outpoint)).2, []) := by
  simp [fetchCoin, h]

theorem fetchCoin_cons_miss {base : BaseView} {cache parent : CCoinsViewCache}
    {grandparents : List CCoinsViewCache} {outpoint : COutPoint}
    (h : cache.cacheCoins.lookup outpoint = none) :
    fetchCoin base cache (parent :: grandparents) outpoint =
      let up := fetchCoin base parent grandparents outpoint
      let stored := storeFetched cache outpoint (up.1.bind fun found => found.coin.shown)
      (stored.1, stored.2, up.2.1 :: up.2.2) := by
  simp [fetchCoin, h]

theorem fetchResult_hit {base : BaseView} {cache : CCoinsViewCache}
    {parents : List CCoinsViewCache} {outpoint : COutPoint} {entry : CCoinsCacheEntry}
    (h : cache.cacheCoins.lookup outpoint = some entry)
    (hcoherent : StackCoherent base (cache :: parents)) :
    FetchResult base cache parents outpoint (some entry, cache, parents) :=
  ⟨h.symm, by simp [h], rfl, hcoherent⟩

/-- A miss caches what the parents answered; the parents may have pulled the
coin in on their own way. -/
theorem fetchResult_miss {base : BaseView} {cache : CCoinsViewCache}
    {parents parents' : List CCoinsViewCache} {outpoint : COutPoint} {found : Option Coin}
    (hnone : cache.cacheCoins.lookup outpoint = none)
    (hcoherent : StackCoherent base (cache :: parents))
    (hfound : found.bind Coin.shown = layerView base parents outpoint)
    (hviews : stackViews base parents' = stackViews base parents)
    (hparents : StackCoherent base parents') :
    FetchResult base cache parents outpoint
      ((storeFetched cache outpoint found).1, (storeFetched cache outpoint found).2, parents') := by
  obtain ⟨hentry, hshown, hview, hcoh⟩ := storeFetched_spec hnone hcoherent.1 hfound
  have hbelow : layerView base parents' = layerView base parents :=
    layerView_eq_of_stackViews_eq hviews
  refine ⟨hentry, ?_, ?_, ⟨?_, hparents⟩⟩
  · rw [hshown, layerView_cons, overlay_apply, hnone, entryView_none]
  · rw [stackViews_cons, stackViews_cons, hviews, layerView_cons, layerView_cons, hbelow, hview]
  · rw [hbelow]
    exact hcoh

/-- `FetchCoin` on a coherent stack, by induction on the parents. -/
theorem fetchCoin_spec (base : BaseView) (outpoint : COutPoint) (parents : List CCoinsViewCache) :
    ∀ cache, StackCoherent base (cache :: parents) →
      FetchResult base cache parents outpoint (fetchCoin base cache parents outpoint) := by
  induction parents with
  | nil =>
      intro cache hcoherent
      cases hlookup : cache.cacheCoins.lookup outpoint with
      | some entry =>
          rw [fetchCoin_hit hlookup]
          exact fetchResult_hit hlookup hcoherent
      | none =>
          rw [fetchCoin_nil_miss hlookup]
          exact fetchResult_miss hlookup hcoherent rfl rfl trivial
  | cons parent grandparents ih =>
      intro cache hcoherent
      cases hlookup : cache.cacheCoins.lookup outpoint with
      | some entry =>
          rw [fetchCoin_hit hlookup]
          exact fetchResult_hit hlookup hcoherent
      | none =>
          have hup := ih parent hcoherent.2
          rw [fetchCoin_cons_miss hlookup]
          refine fetchResult_miss hlookup hcoherent ?_ hup.views hup.coherent
          -- a parent cache hands up its unspent coin only
          rw [Option.bind_assoc]
          simpa only [Coin.shown_bind_shown] using hup.shows

theorem getCoin_fst {base : BaseView} {cache : CCoinsViewCache} {parents : List CCoinsViewCache}
    (outpoint : COutPoint) (hcoherent : StackCoherent base (cache :: parents)) :
    (getCoin base cache parents outpoint).1 = layerView base (cache :: parents) outpoint :=
  (fetchCoin_spec base outpoint parents cache hcoherent).shows

theorem getCoin_views {base : BaseView} {cache : CCoinsViewCache} {parents : List CCoinsViewCache}
    (outpoint : COutPoint) (hcoherent : StackCoherent base (cache :: parents)) :
    stackViews base ((getCoin base cache parents outpoint).2.1 ::
        (getCoin base cache parents outpoint).2.2) = stackViews base (cache :: parents) ∧
      StackCoherent base ((getCoin base cache parents outpoint).2.1 ::
        (getCoin base cache parents outpoint).2.2) :=
  ⟨(fetchCoin_spec base outpoint parents cache hcoherent).views,
    (fetchCoin_spec base outpoint parents cache hcoherent).coherent⟩

theorem topCoin_eq_layerView {stack : CoinsStack} (hcoherent : StackCoherent stack.base stack.caches)
    (outpoint : COutPoint) : stack.topCoin outpoint = layerView stack.base stack.caches outpoint := by
  rcases stack with ⟨base, caches⟩
  cases caches with
  | nil => rfl
  | cons cache parents => exact getCoin_fst outpoint hcoherent

/-! ## Writes to one cache -/

theorem refAdd_stackViews (base : BaseView) (cache : CCoinsViewCache)
    (parents : List CCoinsViewCache) (outpoint : COutPoint) (coin : Coin) :
    refAdd outpoint coin (stackViews base (cache :: parents)) =
      (if isUnspendable coin.out.scriptPubKey then layerView base (cache :: parents)
        else Function.update (layerView base (cache :: parents)) outpoint (some coin)) ::
        stackViews base parents := by
  cases parents <;> rfl

theorem refSpend_stackViews (base : BaseView) (cache : CCoinsViewCache)
    (parents : List CCoinsViewCache) (outpoint : COutPoint) :
    refSpend outpoint (stackViews base (cache :: parents)) =
      Function.update (layerView base (cache :: parents)) outpoint none :: stackViews base parents := by
  cases parents <;> rfl

/-- `AddCoin` under the caller's contract: no throw, the entry it writes is
coherent, and the cache now shows the coin (unless its script is
unspendable). -/
theorem addCoin_spec {cache : CCoinsViewCache} {below : CoinsMap} {outpoint : COutPoint}
    {coin : Coin} {possibleOverwrite : Bool} (hcoherent : CacheCoherent cache below)
    (hspent : coin.isSpent = false)
    (hfree : possibleOverwrite = true ∨ overlay cache below outpoint = none) :
    ∃ cache', cache.addCoin outpoint coin possibleOverwrite = .ok cache' ∧
      CacheCoherent cache' below ∧
      overlay cache' below = if isUnspendable coin.out.scriptPubKey then overlay cache below
        else Function.update (overlay cache below) outpoint (some coin) := by
  by_cases hunspendable : isUnspendable coin.out.scriptPubKey = true
  · refine ⟨cache, ?_, hcoherent, by simp [hunspendable]⟩
    simp [CCoinsViewCache.addCoin, hspent, hunspendable]
  have hview (fresh : Bool) :
      overlay { cache with cacheCoins := cache.cacheCoins.insert outpoint ⟨coin, true, fresh⟩ } below =
        Function.update (overlay cache below) outpoint (some coin) := by
    rw [overlay_insert, Coin.shown_of_not_isSpent hspent]
  cases hlookup : cache.cacheCoins.lookup outpoint with
  | none =>
      -- the entry is emplaced empty: spent, neither `DIRTY` nor `FRESH`
      have hbelow : possibleOverwrite = false → below outpoint = none := by
        intro how
        simpa [how, hlookup] using hfree
      refine ⟨{ cache with
          cacheCoins := cache.cacheCoins.insert outpoint ⟨coin, true, !possibleOverwrite⟩ },
        ?_, ?_, by simp [hunspendable, hview]⟩
      · simp [CCoinsViewCache.addCoin, hspent, hunspendable, hlookup]
      · refine cacheCoherent_insert hcoherent (entryCoherent_of_dirty rfl fun hfresh => hbelow ?_)
        simpa using hfresh
  | some existing =>
      have hagree := hcoherent outpoint existing hlookup
      have hok : possibleOverwrite = true ∨ existing.coin.isSpent = true := by
        rcases hfree with how | hnone
        · exact .inl how
        · right
          simpa [hlookup, Coin.shown_eq_none_iff] using hnone
      have hfresh : (existing.fresh || (!possibleOverwrite && !existing.dirty)) = true →
          below outpoint = none := by
        intro hfresh
        rcases Bool.or_eq_true_iff.mp hfresh with hold | hnew
        · exact hagree.2 hold
        · simp only [Bool.and_eq_true, Bool.not_eq_true'] at hnew
          have hnone : existing.coin.shown = none := by
            simpa [hlookup, hnew.1] using hfree
          rw [← hagree.1 hnew.2, hnone]
      refine ⟨{ cache with
          cacheCoins := cache.cacheCoins.insert outpoint
            ⟨coin, true, existing.fresh || (!possibleOverwrite && !existing.dirty)⟩ }, ?_, ?_,
        by simp [hunspendable, hview]⟩
      · rcases hok with how | hspentExisting
        · simp [CCoinsViewCache.addCoin, hspent, hunspendable, hlookup, how]
        · simp [CCoinsViewCache.addCoin, hspent, hunspendable, hlookup, hspentExisting]
      · exact cacheCoherent_insert hcoherent (entryCoherent_of_dirty rfl hfresh)

/-- `SpendCoin` on a coherent stack: the layer stops showing the coin, the
layers below are unchanged, and coherence is kept. A `FRESH` entry can be
erased because the layer below shows nothing there. -/
theorem spendCoin_spec {base : BaseView} {cache : CCoinsViewCache} {parents : List CCoinsViewCache}
    (outpoint : COutPoint) (hcoherent : StackCoherent base (cache :: parents)) :
    stackViews base ((spendCoin base cache parents outpoint).2.1 ::
        (spendCoin base cache parents outpoint).2.2) =
        refSpend outpoint (stackViews base (cache :: parents)) ∧
      StackCoherent base ((spendCoin base cache parents outpoint).2.1 ::
        (spendCoin base cache parents outpoint).2.2) := by
  have hres := fetchCoin_spec base outpoint parents cache hcoherent
  rcases hfetch : fetchCoin base cache parents outpoint with ⟨found, cache', parents'⟩
  rw [hfetch] at hres
  obtain ⟨hentry, hshows, hviews, hcoh⟩ := hres
  simp only at hentry hshows hviews hcoh
  have htail : stackViews base parents' = stackViews base parents := by
    rw [stackViews_cons, stackViews_cons] at hviews
    exact (List.cons.inj hviews).2
  have hhead : overlay cache' (layerView base parents') = layerView base (cache :: parents) :=
    layerView_eq_of_stackViews_eq hviews
  rw [refSpend_stackViews, ← hhead, ← htail]
  cases found with
  | none =>
      have hnone : overlay cache' (layerView base parents') outpoint = none := by
        rw [hhead, ← hshows]
        rfl
      simp only [spendCoin, hfetch]
      refine ⟨?_, hcoh⟩
      rw [stackViews_cons, layerView_cons, Function.update_eq_self_iff.mpr hnone.symm]
  | some entry =>
      have hagree := hcoh.1 outpoint entry hentry.symm
      by_cases hfresh : entry.fresh = true
      · simp only [spendCoin, hfetch, hfresh, ↓reduceIte]
        refine ⟨?_, cacheCoherent_erase hcoh.1, hcoh.2⟩
        rw [stackViews_cons, layerView_cons, overlay_erase, hagree.2 hfresh]
      · simp only [spendCoin, hfetch, hfresh, Bool.false_eq_true, ↓reduceIte]
        refine ⟨?_, cacheCoherent_insert hcoh.1 (entryCoherent_of_dirty rfl fun h => nomatch h),
          hcoh.2⟩
        rw [stackViews_cons, layerView_cons, overlay_insert, Coin.shown_of_isSpent (Coin.isSpent_clear _)]

/-- `Uncache` drops only entries that show what the layer below shows. -/
theorem uncache_spec {cache : CCoinsViewCache} {below : CoinsMap} (outpoint : COutPoint)
    (hcoherent : CacheCoherent cache below) :
    overlay (cache.uncache outpoint) below = overlay cache below ∧
      CacheCoherent (cache.uncache outpoint) below := by
  cases hlookup : cache.cacheCoins.lookup outpoint with
  | none =>
      have hsame : cache.uncache outpoint = cache := by simp [CCoinsViewCache.uncache, hlookup]
      rw [hsame]
      exact ⟨rfl, hcoherent⟩
  | some entry =>
      by_cases hclean : (!entry.dirty && !entry.fresh) = true
      · simp only [CCoinsViewCache.uncache, hlookup, hclean, if_true]
        have hdirty : entry.dirty = false := by
          simp only [Bool.and_eq_true, Bool.not_eq_true'] at hclean
          exact hclean.1
        have hsame : overlay cache below outpoint = below outpoint := by
          rw [overlay_apply, hlookup, entryView_some]
          exact (hcoherent outpoint entry hlookup).1 hdirty
        refine ⟨?_, cacheCoherent_erase hcoherent⟩
        rw [overlay_erase, Function.update_eq_self_iff.mpr hsame.symm]
      · have hsame : cache.uncache outpoint = cache := by
          simp [CCoinsViewCache.uncache, hlookup, hclean]
        rw [hsame]
        exact ⟨rfl, hcoherent⟩

/-! ## Writing a cache into its parent -/

/-- One entry of `BatchWrite` into a parent cache, read at the entry's key:
the parent then shows what the child showed and stays coherent. -/
theorem mergeEntry_coherent {parent : Option CCoinsCacheEntry} {below : Option Coin}
    {child : CCoinsCacheEntry} (hparent : ∀ entry, parent = some entry → EntryCoherent below entry)
    (hchild : EntryCoherent (entryView parent below) child) :
    entryView (mergeEntry parent child) below = child.coin.shown ∧
      ∀ entry, mergeEntry parent child = some entry → EntryCoherent below entry := by
  cases hdirty : child.dirty
  · simp only [mergeEntry, hdirty, Bool.not_false, if_true]
    exact ⟨(hchild.1 hdirty).symm, hparent⟩
  cases parent with
  | none =>
      by_cases hdrop : (child.fresh && child.coin.isSpent) = true
      · simp only [Bool.and_eq_true] at hdrop
        have hbelow : below = none := hchild.2 hdrop.1
        simp [mergeEntry, hdirty, hdrop, hbelow]
      · simp only [mergeEntry, hdirty, hdrop, Bool.not_true, Bool.false_eq_true, if_false]
        refine ⟨rfl, ?_⟩
        rintro entry ⟨⟩
        exact entryCoherent_of_dirty rfl hchild.2
  | some entry =>
      have hagree := hparent entry rfl
      by_cases hdrop : (entry.fresh && child.coin.isSpent) = true
      · simp only [Bool.and_eq_true] at hdrop
        simp [mergeEntry, hdirty, hdrop, hagree.2 hdrop.1]
      · simp only [mergeEntry, hdirty, hdrop, Bool.not_true, Bool.false_eq_true, if_false]
        refine ⟨rfl, ?_⟩
        rintro merged ⟨⟩
        exact entryCoherent_of_dirty rfl hagree.2

/-- `BatchWrite` into a coherent parent from a child coherent over it never
throws, and the parent then shows what the child showed. -/
theorem batchWrite_spec {parent cache : CCoinsViewCache} {below : CoinsMap}
    (hparent : CacheCoherent parent below) (hcache : CacheCoherent cache (overlay parent below))
    (hashBlock : Nat) :
    ∃ parent', parent.batchWrite cache.cacheCoins hashBlock = .ok parent' ∧
      overlay parent' below = overlay cache (overlay parent below) ∧
      CacheCoherent parent' below := by
  have hgood : ∀ item ∈ cache.cacheCoins.entries,
      ¬ FreshMisapplied (parent.cacheCoins.lookup item.1) item.2 := by
    rintro ⟨outpoint, child⟩ hmem ⟨-, hfresh, entry, hentry, hunspent⟩
    have hlookup : cache.cacheCoins.lookup outpoint = some child := AList.mem_lookup_iff.mpr hmem
    have hnone := (hcache outpoint child hlookup).2 hfresh
    simp [hentry, Coin.shown_of_not_isSpent hunspent] at hnone
  obtain ⟨coins, hfold, hcoins⟩ := foldlM_of_updatesOneKeyOrFails batchWriteEntry_updatesOneKey
    cache.cacheCoins.entries cache.cacheCoins.nodupKeys parent.cacheCoins hgood
  refine ⟨⟨coins, hashBlock⟩, by simp [CCoinsViewCache.batchWrite, hfold], ?_, ?_⟩
  · funext outpoint
    rw [overlay_apply, overlay_apply, hcoins]
    cases hlookup : cache.cacheCoins.lookup outpoint with
    | none => rw [batchValue_of_dlookup_none hlookup]; rfl
    | some child =>
        rw [batchValue_of_dlookup_some hlookup, entryView_some]
        exact (mergeEntry_coherent (hparent outpoint) (hcache outpoint child hlookup)).1
  · intro outpoint entry hentry
    simp only [hcoins] at hentry
    cases hlookup : cache.cacheCoins.lookup outpoint with
    | none =>
        rw [batchValue_of_dlookup_none hlookup] at hentry
        exact hparent outpoint entry hentry
    | some child =>
        rw [batchValue_of_dlookup_some hlookup] at hentry
        exact (mergeEntry_coherent (hparent outpoint) (hcache outpoint child hlookup)).2 entry hentry

theorem writeValue_shown {stored : Option Coin} {entry : CCoinsCacheEntry}
    (h : EntryCoherent (stored.bind Coin.shown) entry) :
    (BaseView.writeValue stored entry).bind Coin.shown = entry.coin.shown := by
  cases hdirty : entry.dirty
  · simp only [BaseView.writeValue, hdirty, Bool.false_eq_true, if_false]
    exact (h.1 hdirty).symm
  cases hspent : entry.coin.isSpent
  · simp [BaseView.writeValue, hdirty, hspent, Coin.shown_of_not_isSpent hspent]
  · simp [BaseView.writeValue, hdirty, hspent]

/-- `BatchWrite` into the backing view from a cache coherent over it: the
view then shows what the cache showed. -/
theorem view_batchWrite {base : BaseView} {cache : CCoinsViewCache}
    (hcoherent : CacheCoherent cache base.view) (hashBlock : Nat) :
    (base.batchWrite cache.cacheCoins hashBlock).view = overlay cache base.view := by
  funext outpoint
  have hfold := lookup_foldl_of_updatesOneKey BaseView.writeEntry_updatesOneKey
    cache.cacheCoins.entries cache.cacheCoins.nodupKeys base.coins outpoint
  simp only [BaseView.view, BaseView.getCoin, BaseView.batchWrite, hfold, overlay_apply]
  cases hlookup : cache.cacheCoins.lookup outpoint with
  | none => rw [batchValue_of_dlookup_none hlookup]; rfl
  | some entry =>
      rw [batchValue_of_dlookup_some hlookup, entryView_some]
      exact writeValue_shown (hcoherent outpoint entry hlookup)

/-- `Flush` on a coherent stack: the layer below becomes a copy of the
flushed layer, the flushed cache is empty and shows the same, and coherence
is kept. -/
theorem flush_spec {base : BaseView} {cache : CCoinsViewCache} {parents : List CCoinsViewCache}
    (hcoherent : StackCoherent base (cache :: parents)) :
    ∃ base' cache' parents', flush base cache parents = .ok (base', cache', parents') ∧
      StackCoherent base' (cache' :: parents') ∧
      stackViews base' (cache' :: parents') = refFlush (stackViews base (cache :: parents)) := by
  cases parents with
  | nil =>
      refine ⟨base.batchWrite cache.cacheCoins cache.hashBlock, { cache with cacheCoins := ∅ }, [],
        rfl, ⟨cacheCoherent_clear cache _, trivial⟩, ?_⟩
      have hview := view_batchWrite hcoherent.1 cache.hashBlock
      simp only [stackViews, layerView_cons, layerView_nil, overlay_clear, hview]
      rfl
  | cons parent grandparents =>
      obtain ⟨parent', hwrite, hview, hcoh⟩ :=
        batchWrite_spec hcoherent.2.1 hcoherent.1 cache.hashBlock
      refine ⟨base, { cache with cacheCoins := ∅ }, parent' :: grandparents, ?_,
        ⟨cacheCoherent_clear cache _, hcoh, hcoherent.2.2⟩, ?_⟩
      · simp [flush, hwrite]
      · simp only [stackViews, layerView_cons, overlay_clear, hview]
        rfl

/-! ## Operations addressed to a layer -/

/-- What an action does when it starts from a coherent stack whose views
meet `Pre`: it succeeds, keeps the stack coherent, and changes the views by
`change`. -/
def LayerSpec (action : LayerAction) (Pre : List CoinsMap → Prop)
    (change : List CoinsMap → List CoinsMap) : Prop :=
  ∀ base cache parents, StackCoherent base (cache :: parents) →
    Pre (stackViews base (cache :: parents)) →
    ∃ base' cache' parents', action base cache parents = .ok (base', cache', parents') ∧
      StackCoherent base' (cache' :: parents') ∧
      stackViews base' (cache' :: parents') = change (stackViews base (cache :: parents))

section RefAt

variable {change : List CoinsMap → List CoinsMap}

theorem refAt_nil (hnil : change [] = []) : ∀ layer, refAt change layer [] = []
  | 0 => hnil
  | _ + 1 => rfl

theorem refAt_single (hnil : change [] = []) (hsingle : ∀ map, change [map] = [map]) :
    ∀ layer map, refAt change layer [map] = [map]
  | 0, map => hsingle map
  | layer + 1, map => by rw [refAt, refAt_nil hnil layer]

theorem refAt_head? (hhead : ∀ maps, (change maps).head? = maps.head?) :
    ∀ layer maps, (refAt change layer maps).head? = maps.head?
  | 0, maps => hhead maps
  | _ + 1, [] => rfl
  | _ + 1, _ :: _ => rfl

theorem refAt_id : ∀ layer maps, refAt id layer maps = maps
  | 0, _ => rfl
  | _ + 1, [] => rfl
  | layer + 1, map :: rest => by rw [refAt, refAt_id layer rest]

end RefAt

/-- An action applied `layer` caches down. The caches above it keep their
entries; they stay coherent as long as the action keeps the view of the
layer it acts on, which every action does except at the top. By induction on
the layer. -/
theorem atLayer_spec {action : LayerAction} {Pre : List CoinsMap → Prop}
    {change : List CoinsMap → List CoinsMap} (hspec : LayerSpec action Pre change)
    (hnil : change [] = []) (hsingle : ∀ map, change [map] = [map]) :
    ∀ (layer : Nat) (base : BaseView) (caches : List CCoinsViewCache),
      StackCoherent base caches → Pre ((stackViews base caches).drop layer) →
      (0 < layer → ∀ maps, (change maps).head? = maps.head?) →
      ∃ base' caches', atLayer action layer base caches = .ok (base', caches') ∧
        StackCoherent base' caches' ∧
        stackViews base' caches' = refAt change layer (stackViews base caches)
  | layer, base, [], _, _, _ => by
      refine ⟨base, [], by cases layer <;> rfl, trivial, ?_⟩
      exact (refAt_single hnil hsingle layer base.view).symm
  | 0, base, cache :: parents, hcoherent, hpre, _ => by
      obtain ⟨base', cache', parents', haction, hcoh, hviews⟩ :=
        hspec base cache parents hcoherent hpre
      exact ⟨base', cache' :: parents', by simp [atLayer, haction], hcoh, hviews⟩
  | layer + 1, base, cache :: parents, hcoherent, hpre, hhead => by
      have hkeeps := hhead (Nat.succ_pos layer)
      obtain ⟨base', parents', hat, hcoh, hviews⟩ :=
        atLayer_spec hspec hnil hsingle layer base parents hcoherent.2 hpre fun _ => hkeeps
      have hbelow : layerView base' parents' = layerView base parents := by
        have hfirst := congrArg List.head? hviews
        rw [stackViews_head?, refAt_head? hkeeps, stackViews_head?] at hfirst
        exact Option.some.inj hfirst
      refine ⟨base', cache :: parents', by simp [atLayer, hat], ⟨?_, hcoh⟩, ?_⟩
      · rw [hbelow]
        exact hcoherent.1
      · rw [stackViews_cons, stackViews_cons, hviews, layerView_cons, layerView_cons, hbelow]
        rfl

theorem layerSpec_addCoin (layer : Nat) (outpoint : COutPoint) (coin : Coin)
    (possibleOverwrite : Bool) :
    LayerSpec (layerAction (.addCoin layer outpoint coin possibleOverwrite))
      (fun maps => coin.isSpent = false ∧
        (possibleOverwrite = true ∨ (maps.headD fun _ => none) outpoint = none))
      (refAdd outpoint coin) := by
  intro base cache parents hcoherent ⟨hspent, hfree⟩
  obtain ⟨cache', hadd, hcoh, hview⟩ := addCoin_spec hcoherent.1 hspent hfree
  refine ⟨base, cache', parents, by simp [layerAction, hadd], ⟨hcoh, hcoherent.2⟩, ?_⟩
  rw [stackViews_cons, refAdd_stackViews, layerView_cons, layerView_cons, hview]

theorem layerSpec_spendCoin (layer : Nat) (outpoint : COutPoint) :
    LayerSpec (layerAction (.spendCoin layer outpoint)) (fun _ => True) (refSpend outpoint) := by
  intro base cache parents hcoherent _
  obtain ⟨hviews, hcoh⟩ := spendCoin_spec outpoint hcoherent
  exact ⟨base, _, _, rfl, hcoh, hviews⟩

theorem layerSpec_accessCoin (layer : Nat) (outpoint : COutPoint) :
    LayerSpec (layerAction (.accessCoin layer outpoint)) (fun _ => True) id := by
  intro base cache parents hcoherent _
  obtain ⟨hviews, hcoh⟩ := getCoin_views outpoint hcoherent
  exact ⟨base, _, _, rfl, hcoh, hviews⟩

theorem layerSpec_uncache (layer : Nat) (outpoint : COutPoint) :
    LayerSpec (layerAction (.uncache layer outpoint)) (fun _ => True) id := by
  intro base cache parents hcoherent _
  obtain ⟨hview, hcoh⟩ := uncache_spec outpoint hcoherent.1
  refine ⟨base, cache.uncache outpoint, parents, rfl, ⟨hcoh, hcoherent.2⟩, ?_⟩
  rw [stackViews_cons, stackViews_cons, layerView_cons, layerView_cons, hview]
  rfl

theorem layerSpec_flush (layer : Nat) :
    LayerSpec (layerAction (.flush layer)) (fun _ => True) refFlush := by
  intro base cache parents hcoherent _
  exact flush_spec hcoherent

theorem layerSpec_setBestBlock (layer hash : Nat) :
    LayerSpec (layerAction (.setBestBlock layer hash)) (fun _ => True) id := by
  intro base cache parents hcoherent _
  exact ⟨base, cache.setBestBlock hash, parents, rfl, hcoherent, rfl⟩

theorem refFlush_head? (maps : List CoinsMap) : (refFlush maps).head? = maps.head? := by
  rcases maps with _ | ⟨map, _ | ⟨below, rest⟩⟩ <;> rfl

/-! ## Runs -/

/-- A per-layer operation steps the stack as its action at its layer does. -/
theorem step_of_atLayer {stack : CoinsStack} {op : CoinsOp} {base' : BaseView}
    {caches' : List CCoinsViewCache} (hpush : op ≠ .push) (hpop : op ≠ .pop)
    (hat : atLayer (layerAction op) op.layer stack.base stack.caches = .ok (base', caches')) :
    stack.step op = .ok ⟨base', caches'⟩ := by
  cases op <;> first | contradiction | simp [CoinsStack.step, hat]

/-- A per-layer operation with a specification simulates its reference step. -/
theorem simulates_of_layerSpec {stack : CoinsStack} {op : CoinsOp} {Pre : List CoinsMap → Prop}
    {change : List CoinsMap → List CoinsMap} (hpush : op ≠ .push) (hpop : op ≠ .pop)
    (hspec : LayerSpec (layerAction op) Pre change) (hnil : change [] = [])
    (hsingle : ∀ map, change [map] = [map])
    (hhead : 0 < op.layer → ∀ maps, (change maps).head? = maps.head?)
    (hcoherent : StackCoherent stack.base stack.caches)
    (hpre : Pre (stack.views.drop op.layer))
    (href : refStep stack.views op = refAt change op.layer stack.views) :
    ∃ next, stack.step op = .ok next ∧ StackCoherent next.base next.caches ∧
      next.views = refStep stack.views op := by
  obtain ⟨base', caches', hat, hcoh, hviews⟩ :=
    atLayer_spec hspec hnil hsingle op.layer stack.base stack.caches hcoherent hpre hhead
  exact ⟨⟨base', caches'⟩, step_of_atLayer hpush hpop hat, hcoh, href ▸ hviews⟩

/-- One allowed step keeps the stack coherent and matches the reference step.
`AddCoin` and `SpendCoin` change the view of the cache they act on, so they
are allowed at the top only; the other operations keep the view of their
layer and may address any cache. -/
theorem coinsStack_step_simulates :
    SimulatesStep CoinsStack.step refStep CoinsStack.views
      (fun stack => StackCoherent stack.base stack.caches) TopAllowed := by
  intro stack op hcoherent hallowed
  cases op with
  | addCoin layer outpoint coin possibleOverwrite =>
      obtain ⟨hadd, hlayer⟩ := hallowed
      subst hlayer
      exact simulates_of_layerSpec (by simp) (by simp) (layerSpec_addCoin 0 outpoint coin _) rfl
        (fun _ => rfl) (fun h => absurd h (Nat.lt_irrefl 0)) hcoherent hadd rfl
  | spendCoin layer outpoint =>
      obtain ⟨-, hlayer⟩ := hallowed
      subst hlayer
      exact simulates_of_layerSpec (by simp) (by simp) (layerSpec_spendCoin 0 outpoint) rfl
        (fun _ => rfl) (fun h => absurd h (Nat.lt_irrefl 0)) hcoherent trivial rfl
  | accessCoin layer outpoint =>
      exact simulates_of_layerSpec (by simp) (by simp) (layerSpec_accessCoin layer outpoint) rfl
        (fun _ => rfl) (fun _ _ => rfl) hcoherent trivial (refAt_id layer _).symm
  | uncache layer outpoint =>
      exact simulates_of_layerSpec (by simp) (by simp) (layerSpec_uncache layer outpoint) rfl
        (fun _ => rfl) (fun _ _ => rfl) hcoherent trivial (refAt_id layer _).symm
  | flush layer =>
      exact simulates_of_layerSpec (by simp) (by simp) (layerSpec_flush layer) rfl
        (fun _ => rfl) (fun _ => refFlush_head?) hcoherent trivial rfl
  | setBestBlock layer hash =>
      exact simulates_of_layerSpec (by simp) (by simp) (layerSpec_setBestBlock layer hash) rfl
        (fun _ => rfl) (fun _ _ => rfl) hcoherent trivial (refAt_id layer _).symm
  | push =>
      refine ⟨⟨stack.base, CCoinsViewCache.empty :: stack.caches⟩, rfl,
        ⟨cacheCoherent_clear CCoinsViewCache.empty _, hcoherent⟩, ?_⟩
      rcases stack with ⟨base, _ | ⟨cache, parents⟩⟩ <;>
        simp [CoinsStack.views, stackViews, refStep]
  | pop =>
      refine ⟨⟨stack.base, stack.caches.tail⟩, rfl, ?_, ?_⟩
      · rcases stack with ⟨base, _ | ⟨cache, parents⟩⟩
        · trivial
        · exact hcoherent.2
      · rcases stack with ⟨base, _ | ⟨cache, _ | ⟨parent, grandparents⟩⟩⟩ <;> rfl

/-- Every allowed run from a coherent stack succeeds, stays coherent and
follows the reference maps. -/
theorem coinsStack_run_simulates (stack : CoinsStack) (ops : List CoinsOp)
    (hcoherent : StackCoherent stack.base stack.caches)
    (hallowed : AllowedRun refStep TopAllowed stack.views ops) :
    ∃ final, runSteps CoinsStack.step stack ops = .ok final ∧
      StackCoherent final.base final.caches ∧ final.views = ops.foldl refStep stack.views :=
  runSteps_simulates _ _ _ _ _ coinsStack_step_simulates ops stack hcoherent hallowed

theorem view_mem_stackViews (base : BaseView) (caches : List CCoinsViewCache) :
    base.view ∈ stackViews base caches := by
  induction caches with
  | nil => exact List.mem_singleton_self _
  | cons cache parents ih => exact List.mem_cons_of_mem _ ih

theorem views_headD (stack : CoinsStack) :
    stack.views.headD (fun _ => none) = layerView stack.base stack.caches := by
  rcases stack with ⟨base, _ | ⟨cache, parents⟩⟩ <;> rfl

/-- With coins added and spent at the top cache only, every run over a stack
of fresh caches succeeds (no `BatchWrite` throws), every reachable stack
keeps the flag discipline, every layer shows its reference map, and the top
`GetCoin` reports the top reference map. -/
theorem coinsStack_refines (base : BaseView) (depth : Nat) (ops : List CoinsOp)
    (hallowed : AllowedRun refStep TopAllowed
      (stackViews base (List.replicate depth CCoinsViewCache.empty)) ops) :
    ∃ final, runSteps CoinsStack.step ⟨base, List.replicate depth CCoinsViewCache.empty⟩ ops =
        .ok final ∧
      StackCoherent final.base final.caches ∧
      final.views = ops.foldl refStep (stackViews base (List.replicate depth CCoinsViewCache.empty)) ∧
      ∀ outpoint, final.topCoin outpoint =
        (ops.foldl refStep (stackViews base (List.replicate depth CCoinsViewCache.empty))).headD
          (fun _ => none) outpoint := by
  obtain ⟨final, hrun, hcoh, hviews⟩ := coinsStack_run_simulates
    ⟨base, List.replicate depth CCoinsViewCache.empty⟩ ops
    (stackCoherent_replicate_empty base depth) hallowed
  refine ⟨final, hrun, hcoh, hviews, fun outpoint => ?_⟩
  rw [topCoin_eq_layerView hcoh, ← views_headD, hviews]
  rfl

/-- Over one fresh cache: add a coin at the top, flush it into the backing
view, spend it, flush again. -/
theorem coinsStack_refines_addSpendFlush :
    AllowedRun refStep TopAllowed (stackViews ⟨∅, 0⟩ (List.replicate 1 CCoinsViewCache.empty))
        [.addCoin 0 ⟨1, 0⟩ ⟨⟨1, []⟩, false, 1⟩ false, .flush 0, .spendCoin 0 ⟨1, 0⟩, .flush 0] ∧
      ∃ final, runSteps CoinsStack.step ⟨⟨∅, 0⟩, List.replicate 1 CCoinsViewCache.empty⟩
          [.addCoin 0 ⟨1, 0⟩ ⟨⟨1, []⟩, false, 1⟩ false, .flush 0, .spendCoin 0 ⟨1, 0⟩, .flush 0] =
          .ok final ∧
        StackCoherent final.base final.caches ∧
        final.views = [.addCoin 0 ⟨1, 0⟩ ⟨⟨1, []⟩, false, 1⟩ false, .flush 0, .spendCoin 0 ⟨1, 0⟩,
          .flush 0].foldl refStep (stackViews ⟨∅, 0⟩ (List.replicate 1 CCoinsViewCache.empty)) ∧
        ∀ outpoint, final.topCoin outpoint =
          ([.addCoin 0 ⟨1, 0⟩ ⟨⟨1, []⟩, false, 1⟩ false, .flush 0, .spendCoin 0 ⟨1, 0⟩,
            .flush 0].foldl refStep
            (stackViews ⟨∅, 0⟩ (List.replicate 1 CCoinsViewCache.empty))).headD
            (fun _ => none) outpoint := by
  have hallowed : AllowedRun refStep TopAllowed
      (stackViews ⟨∅, 0⟩ (List.replicate 1 CCoinsViewCache.empty))
      [.addCoin 0 ⟨1, 0⟩ ⟨⟨1, []⟩, false, 1⟩ false, .flush 0, .spendCoin 0 ⟨1, 0⟩, .flush 0] := by
    refine ⟨⟨⟨rfl, .inr ?_⟩, rfl⟩, ⟨trivial, trivial⟩, ⟨trivial, rfl⟩, ⟨trivial, trivial⟩, trivial⟩
    decide
  exact ⟨hallowed, coinsStack_refines ⟨∅, 0⟩ 1 _ hallowed⟩

/-- The stack departs from the list of maps on two counts. Over two fresh caches, add a coin at the
top cache (`FRESH`, as the layers below show none), then the same coin at the
cache below (allowed: that layer shows none either), then flush the top
cache: its `BatchWrite` finds the `FRESH` entry over an unspent parent entry
and throws. And with every change at the top, a `FRESH` entry can still sit
over a coin the backing view holds: spend a coin of the backing view in one
cache, push a second cache and add the coin again there. -/
theorem coinsStack_fresh_discipline_fails :
    (¬ ∀ (base : BaseView) (depth : Nat) (ops : List CoinsOp),
        AllowedRun refStep AnyLayerAllowed
          (stackViews base (List.replicate depth CCoinsViewCache.empty)) ops →
        ∃ final, runSteps CoinsStack.step ⟨base, List.replicate depth CCoinsViewCache.empty⟩ ops =
            .ok final ∧
          final.views = ops.foldl refStep (stackViews base (List.replicate depth CCoinsViewCache.empty))) ∧
      ¬ ∀ (base : BaseView) (depth : Nat) (ops : List CoinsOp) (final : CoinsStack),
        AllowedRun refStep TopAllowed
          (stackViews base (List.replicate depth CCoinsViewCache.empty)) ops →
        runSteps CoinsStack.step ⟨base, List.replicate depth CCoinsViewCache.empty⟩ ops = .ok final →
        ∀ cache parents outpoint entry, final.caches = cache :: parents →
          cache.cacheCoins.lookup outpoint = some entry → entry.fresh = true →
          ∀ below ∈ stackViews final.base parents, below outpoint = none := by
  let coin : Coin := ⟨⟨1, []⟩, false, 1⟩
  constructor
  · intro hall
    let ops : List CoinsOp := [.addCoin 0 ⟨1, 0⟩ coin false, .addCoin 1 ⟨1, 0⟩ coin false, .flush 0]
    have hallowed : AllowedRun refStep AnyLayerAllowed
        (stackViews ⟨∅, 0⟩ (List.replicate 2 CCoinsViewCache.empty)) ops := by
      refine ⟨⟨rfl, .inr ?_⟩, ⟨rfl, .inr ?_⟩, trivial, trivial⟩ <;> decide
    obtain ⟨final, hrun, _⟩ := hall ⟨∅, 0⟩ 2 ops hallowed
    have hfails : (runSteps CoinsStack.step ⟨⟨∅, 0⟩, List.replicate 2 CCoinsViewCache.empty⟩
        ops).toOption.isNone = true := by decide
    rw [hrun] at hfails
    cases hfails
  · intro hall
    let base : BaseView := ⟨(∅ : AList fun _ : COutPoint => Coin).insert ⟨1, 0⟩ coin, 0⟩
    let ops : List CoinsOp := [.push, .spendCoin 0 ⟨1, 0⟩, .push, .addCoin 0 ⟨1, 0⟩ coin false]
    have hallowed : AllowedRun refStep TopAllowed
        (stackViews base (List.replicate 0 CCoinsViewCache.empty)) ops :=
      ⟨⟨trivial, trivial⟩, ⟨trivial, rfl⟩, ⟨trivial, trivial⟩, ⟨⟨rfl, .inr (by decide)⟩, rfl⟩, trivial⟩
    obtain ⟨final, hrun, -⟩ := coinsStack_run_simulates ⟨base, []⟩ ops trivial hallowed
    -- the top cache holds the coin `FRESH` while the backing view still shows it
    have hcheck : ((runSteps CoinsStack.step ⟨base, []⟩ ops).toOption.bind fun stack =>
        match stack.caches with
        | cache :: _ =>
            (cache.cacheCoins.lookup ⟨1, 0⟩).map fun entry => (entry.fresh, stack.base.view ⟨1, 0⟩)
        | [] => none) = some (true, some coin) := by decide
    rw [hrun] at hcheck
    rcases hcaches : final.caches with _ | ⟨cache, parents⟩
    · simp [Except.toOption, hcaches] at hcheck
    · simp only [Except.toOption, Option.bind_some, hcaches, Option.map_eq_some_iff,
        Prod.mk.injEq] at hcheck
      obtain ⟨entry, hlookup, hfresh, hview⟩ := hcheck
      have hnone := hall base 0 ops final hallowed hrun cache parents ⟨1, 0⟩ entry hcaches hlookup
        hfresh final.base.view (view_mem_stackViews final.base parents)
      rw [hview] at hnone
      cases hnone

end UnitedBitcoin.Coins
