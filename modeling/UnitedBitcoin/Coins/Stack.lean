import Mathlib
import UnitedBitcoin.Coins.Cache

/-!
# A stack of UTXO caches

Caches are stacked over a backing view, the top cache first in the list. The
operations that read through the parents (`FetchCoin`, `GetCoin`,
`SpendCoin`) pull the coin into every cache on the way, and `Flush` writes a
cache's map into its parent (`coins.cpp`). A run applies operations addressed
to any layer, and pushes and pops caches as the callers of `coins.cpp` do.
-/

namespace UnitedBitcoin.Coins

/-- The end of `FetchCoin`: cache what the parent's `GetCoin` returned, as a
`FRESH` entry when the coin is spent. -/
def storeFetched (cache : CCoinsViewCache) (outpoint : COutPoint) :
    Option Coin → Option CCoinsCacheEntry × CCoinsViewCache
  | none => (none, cache)
  | some coin =>
      (some ⟨coin, false, coin.isSpent⟩,
        { cache with cacheCoins := cache.cacheCoins.insert outpoint ⟨coin, false, coin.isSpent⟩ })

/-- `CCoinsViewCache::FetchCoin` on `cache` over `parents` (nearest first)
and `base`: the entry found or pulled in, and the updated cache and parents.
A parent cache answers `GetCoin` with its unspent coin only; the backing view
may hand up a spent coin. -/
def fetchCoin (base : BaseView) :
    CCoinsViewCache → List CCoinsViewCache → COutPoint →
      Option CCoinsCacheEntry × CCoinsViewCache × List CCoinsViewCache
  | cache, parents, outpoint =>
      match cache.cacheCoins.lookup outpoint with
      | some entry => (some entry, cache, parents)
      | none =>
          let fetched : Option Coin × List CCoinsViewCache :=
            match parents with
            | [] => (base.getCoin outpoint, [])
            | parent :: grandparents =>
                let up := fetchCoin base parent grandparents outpoint
                (up.1.bind fun found => found.coin.shown, up.2.1 :: up.2.2)
          let stored := storeFetched cache outpoint fetched.1
          (stored.1, stored.2, fetched.2)

/-- `CCoinsViewCache::GetCoin` (and `AccessCoin`, `HaveCoin`): the unspent
coin, after `FetchCoin`. -/
def getCoin (base : BaseView) (cache : CCoinsViewCache) (parents : List CCoinsViewCache)
    (outpoint : COutPoint) : Option Coin × CCoinsViewCache × List CCoinsViewCache :=
  match fetchCoin base cache parents outpoint with
  | (entry, cache', parents') => (entry.bind fun found => found.coin.shown, cache', parents')

/-- `CCoinsViewCache::SpendCoin`: a `FRESH` entry is erased, any other entry
is cleared and marked `DIRTY`. -/
def spendCoin (base : BaseView) (cache : CCoinsViewCache) (parents : List CCoinsViewCache)
    (outpoint : COutPoint) : Bool × CCoinsViewCache × List CCoinsViewCache :=
  match fetchCoin base cache parents outpoint with
  | (none, cache', parents') => (false, cache', parents')
  | (some entry, cache', parents') =>
      if entry.fresh then
        (true, { cache' with cacheCoins := cache'.cacheCoins.erase outpoint }, parents')
      else
        (true, { cache' with
          cacheCoins := cache'.cacheCoins.insert outpoint ⟨entry.coin.clear, true, entry.fresh⟩ },
          parents')

/-- `CCoinsViewCache::Flush`: `BatchWrite` into the parent (or the backing
view), then an empty map. -/
def flush (base : BaseView) (cache : CCoinsViewCache) :
    List CCoinsViewCache → Except CoinsError (BaseView × CCoinsViewCache × List CCoinsViewCache)
  | [] => .ok (base.batchWrite cache.cacheCoins cache.hashBlock, { cache with cacheCoins := ∅ }, [])
  | parent :: grandparents => do
      let parent' ← parent.batchWrite cache.cacheCoins cache.hashBlock
      .ok (base, { cache with cacheCoins := ∅ }, parent' :: grandparents)

/-- The backing view and the caches over it, the top cache first. -/
structure CoinsStack where
  base : BaseView
  caches : List CCoinsViewCache

/-- An operation on the stack; `layer` counts caches from the top. -/
inductive CoinsOp where
  | addCoin (layer : Nat) (outpoint : COutPoint) (coin : Coin) (possibleOverwrite : Bool)
  | spendCoin (layer : Nat) (outpoint : COutPoint)
  | accessCoin (layer : Nat) (outpoint : COutPoint)
  | uncache (layer : Nat) (outpoint : COutPoint)
  | flush (layer : Nat)
  | setBestBlock (layer : Nat) (hash : Nat)
  | push
  | pop

/-- What an operation does to the cache it addresses, given its parents. -/
abbrev LayerAction :=
  BaseView → CCoinsViewCache → List CCoinsViewCache →
    Except CoinsError (BaseView × CCoinsViewCache × List CCoinsViewCache)

/-- Apply an action to the cache `layer` places from the top; the caches
above it are untouched, and a layer past the bottom cache does nothing. -/
def atLayer (action : LayerAction) : Nat → BaseView → List CCoinsViewCache →
    Except CoinsError (BaseView × List CCoinsViewCache)
  | _, base, [] => .ok (base, [])
  | 0, base, cache :: parents => do
      let (base', cache', parents') ← action base cache parents
      .ok (base', cache' :: parents')
  | layer + 1, base, cache :: parents => do
      let (base', parents') ← atLayer action layer base parents
      .ok (base', cache :: parents')

/-- The action of each per-cache operation. -/
def layerAction : CoinsOp → LayerAction
  | .addCoin _ outpoint coin possibleOverwrite => fun base cache parents => do
      let cache' ← cache.addCoin outpoint coin possibleOverwrite
      .ok (base, cache', parents)
  | .spendCoin _ outpoint => fun base cache parents =>
      match spendCoin base cache parents outpoint with
      | (_, cache', parents') => .ok (base, cache', parents')
  | .accessCoin _ outpoint => fun base cache parents =>
      match getCoin base cache parents outpoint with
      | (_, cache', parents') => .ok (base, cache', parents')
  | .uncache _ outpoint => fun base cache parents => .ok (base, cache.uncache outpoint, parents)
  | .flush _ => fun base cache parents => flush base cache parents
  | .setBestBlock _ hash => fun base cache parents => .ok (base, cache.setBestBlock hash, parents)
  | .push | .pop => fun base cache parents => .ok (base, cache, parents)

/-- The layer an operation addresses. -/
def CoinsOp.layer : CoinsOp → Nat
  | .addCoin layer .. | .spendCoin layer _ | .accessCoin layer _ | .uncache layer _
  | .flush layer | .setBestBlock layer _ => layer
  | .push | .pop => 0

/-- One operation on the stack. `push` constructs a new cache over the top
one; `pop` destroys the top cache (its unflushed changes are forgotten). -/
def CoinsStack.step (stack : CoinsStack) : CoinsOp → Except CoinsError CoinsStack
  | .push => .ok ⟨stack.base, CCoinsViewCache.empty :: stack.caches⟩
  | .pop => .ok ⟨stack.base, stack.caches.tail⟩
  | op => do
      let (base', caches') ← atLayer (layerAction op) op.layer stack.base stack.caches
      .ok ⟨base', caches'⟩

/-- `GetCoin` on the top cache of the stack, or on the backing view when no
cache is left. -/
def CoinsStack.topCoin (stack : CoinsStack) (outpoint : COutPoint) : Option Coin :=
  match stack.caches with
  | [] => stack.base.view outpoint
  | cache :: parents => (getCoin stack.base cache parents outpoint).1

end UnitedBitcoin.Coins
