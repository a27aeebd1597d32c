import Mathlib
import UnitedBitcoin.Primitives.Transaction
import UnitedBitcoin.Library.AListFold

/-!
# One layer of the UTXO cache

`Coin`, `CCoinsCacheEntry` and the operations of `CCoinsViewCache` that touch
only its own map (`coins.h`, `coins.cpp`): `AddCoin`, `Uncache`, the per-entry
step of `BatchWrite`, and the backing view a stack of caches sits on. The
operations that consult the parent (`FetchCoin`, `GetCoin`, `SpendCoin`) and
`Flush` live with the stack in `Coins.Stack`.

The memory-usage counter `cachedCoinsUsage` only feeds `DynamicMemoryUsage`
and is left out.
-/

namespace UnitedBitcoin.Coins

open UnitedBitcoin.Library

/-- `Coin`: an output with its coinbase flag and height. -/
structure Coin where
  out : CTxOut
  fCoinBase : Bool
  nHeight : Nat
  deriving DecidableEq, Repr

namespace Coin

/-- `Coin()`, the pruned coin. -/
def empty : Coin := ⟨CTxOut.null, false, 0⟩

/-- `Coin::IsSpent`. -/
def isSpent (coin : Coin) : Bool := coin.out.isNull

/-- `Coin::Clear`. -/
def clear (_ : Coin) : Coin := ⟨CTxOut.null, false, 0⟩

/-- What a view reports for a stored coin: nothing once it is spent. -/
def shown (coin : Coin) : Option Coin := if coin.isSpent then none else some coin

@[simp]
theorem isSpent_empty : empty.isSpent = true := rfl

@[simp]
theorem isSpent_clear (coin : Coin) : coin.clear.isSpent = true := rfl

@[simp]
theorem shown_of_isSpent {coin : Coin} (h : coin.isSpent = true) : coin.shown = none := by
  simp [shown, h]

theorem shown_of_not_isSpent {coin : Coin} (h : coin.isSpent = false) : coin.shown = some coin := by
  simp [shown, h]

theorem shown_eq_none_iff (coin : Coin) : coin.shown = none ↔ coin.isSpent = true := by
  cases h : coin.isSpent <;> simp [shown, h]

@[simp]
theorem shown_bind_shown (coin : Coin) : coin.shown.bind shown = coin.shown := by
  cases h : coin.isSpent
  · simp [shown_of_not_isSpent h]
  · simp [shown_of_isSpent h]

end Coin

/-- `CCoinsCacheEntry`: the cached coin and the `DIRTY` and `FRESH` bits of
its flags. -/
structure CCoinsCacheEntry where
  coin : Coin
  dirty : Bool
  fresh : Bool
  deriving DecidableEq, Repr

/-- `CCoinsMap`, keyed by outpoint. -/
abbrev CCoinsMap := AList (fun _ : COutPoint => CCoinsCacheEntry)

/-- How the cache operations fail. -/
inductive CoinsError where
  /-- A `std::logic_error` with its message. -/
  | logicError (msg : String)
  /-- A failed `assert` with its condition. -/
  | assertionFailure (condition : String)
  deriving DecidableEq, Repr

/-- `CCoinsViewCache`: its map and `hashBlock`. -/
structure CCoinsViewCache where
  cacheCoins : CCoinsMap
  hashBlock : Nat

namespace CCoinsViewCache

/-- A freshly constructed cache. -/
def empty : CCoinsViewCache := ⟨∅, 0⟩

/-- `CCoinsViewCache::AddCoin`. A missing entry is first emplaced empty; the
parent is never consulted. -/
def addCoin (cache : CCoinsViewCache) (outpoint : COutPoint) (coin : Coin)
    (possibleOverwrite : Bool) : Except CoinsError CCoinsViewCache :=
  if coin.isSpent then .error (.assertionFailure "!coin.IsSpent()")
  else if isUnspendable coin.out.scriptPubKey then .ok cache
  else
    let existing := (cache.cacheCoins.lookup outpoint).getD ⟨Coin.empty, false, false⟩
    if !possibleOverwrite && !existing.coin.isSpent then
      .error (.logicError "Adding new coin that replaces non-pruned entry")
    else
      let fresh := !possibleOverwrite && !existing.dirty
      .ok { cache with
        cacheCoins := cache.cacheCoins.insert outpoint ⟨coin, true, existing.fresh || fresh⟩ }

/-- `CCoinsViewCache::Uncache`: drop an entry whose flags are both clear. -/
def uncache (cache : CCoinsViewCache) (outpoint : COutPoint) : CCoinsViewCache :=
  match cache.cacheCoins.lookup outpoint with
  | some entry =>
      if !entry.dirty && !entry.fresh then
        { cache with cacheCoins := cache.cacheCoins.erase outpoint }
      else cache
  | none => cache

/-- `CCoinsViewCache::SetBestBlock`. -/
def setBestBlock (cache : CCoinsViewCache) (hash : Nat) : CCoinsViewCache :=
  { cache with hashBlock := hash }

end CCoinsViewCache

/-- One iteration of `CCoinsViewCache::BatchWrite`: the child's entry for
`outpoint` merged into the parent's map. -/
def batchWriteEntry (parentCoins : CCoinsMap) (outpoint : COutPoint)
    (child : CCoinsCacheEntry) : Except CoinsError CCoinsMap :=
  if !child.dirty then .ok parentCoins
  else
    match parentCoins.lookup outpoint with
    | none =>
        if child.fresh && child.coin.isSpent then .ok parentCoins
        else .ok (parentCoins.insert outpoint ⟨child.coin, true, child.fresh⟩)
    | some parent =>
        if child.fresh && !parent.coin.isSpent then
          .error (.logicError
            "FRESH flag misapplied to cache entry for base transaction with spendable outputs")
        else if parent.fresh && child.coin.isSpent then .ok (parentCoins.erase outpoint)
        else .ok (parentCoins.insert outpoint ⟨child.coin, true, parent.fresh⟩)

/-- The value `batchWriteEntry` leaves at the child's key. -/
def mergeEntry (parent : Option CCoinsCacheEntry) (child : CCoinsCacheEntry) :
    Option CCoinsCacheEntry :=
  if !child.dirty then parent
  else
    match parent with
    | none => if child.fresh && child.coin.isSpent then none else some ⟨child.coin, true, child.fresh⟩
    | some entry =>
        if entry.fresh && child.coin.isSpent then none else some ⟨child.coin, true, entry.fresh⟩

/-- When `batchWriteEntry` throws: a dirty `FRESH` child over an unspent
parent entry. -/
def FreshMisapplied (parent : Option CCoinsCacheEntry) (child : CCoinsCacheEntry) : Prop :=
  child.dirty = true ∧ child.fresh = true ∧ ∃ entry, parent = some entry ∧ entry.coin.isSpent = false

theorem batchWriteEntry_updatesOneKey :
    UpdatesOneKeyOrFails batchWriteEntry mergeEntry FreshMisapplied := by
  intro store key child hok
  unfold batchWriteEntry mergeEntry
  cases hdirty : child.dirty
  · exact ⟨store, rfl, by simp, fun _ _ => rfl⟩
  cases hparent : store.lookup key with
  | none =>
      by_cases hdrop : child.fresh && child.coin.isSpent
      · exact ⟨store, by simp [hdrop], by simp [hparent, hdrop], fun _ _ => rfl⟩
      · refine ⟨store.insert key ⟨child.coin, true, child.fresh⟩, by simp [hdrop], ?_, ?_⟩
        · simp [hdrop, AList.lookup_insert]
        · intro other hne
          exact AList.lookup_insert_ne hne
  | some entry =>
      have hspent : ¬ (child.fresh = true ∧ entry.coin.isSpent = false) := fun h =>
        hok ⟨hdirty, h.1, entry, hparent, h.2⟩
      have hcheck : (child.fresh && !entry.coin.isSpent) = false := by
        cases hf : child.fresh <;> cases hs : entry.coin.isSpent <;> simp_all
      by_cases herase : entry.fresh && child.coin.isSpent
      · refine ⟨store.erase key, by simp [hcheck, herase], by simp [herase, AList.lookup_erase], ?_⟩
        intro other hne
        exact AList.lookup_erase_ne hne
      · refine ⟨store.insert key ⟨child.coin, true, entry.fresh⟩, by simp [hcheck, herase], ?_, ?_⟩
        · simp [herase, AList.lookup_insert]
        · intro other hne
          exact AList.lookup_insert_ne hne

/-- `CCoinsViewCache::BatchWrite`: every entry of the child's map in turn,
then the child's best block. -/
def CCoinsViewCache.batchWrite (cache : CCoinsViewCache) (mapCoins : CCoinsMap)
    (hashBlockIn : Nat) : Except CoinsError CCoinsViewCache := do
  let coins ← mapCoins.entries.foldlM
    (fun acc entry => batchWriteEntry acc entry.1 entry.2) cache.cacheCoins
  .ok ⟨coins, hashBlockIn⟩

/-- The backing `CCoinsView` below the lowest cache, with the coin semantics
of `CCoinsViewDB`: `GetCoin` reads the stored coin, `BatchWrite` erases the
dirty entries that are spent and writes the other dirty ones. -/
structure BaseView where
  coins : AList (fun _ : COutPoint => Coin)
  bestBlock : Nat

namespace BaseView

/-- `GetCoin` on the backing view: the stored coin, if any. -/
def getCoin (base : BaseView) (outpoint : COutPoint) : Option Coin :=
  base.coins.lookup outpoint

/-- The unspent coin the backing view holds. -/
def view (base : BaseView) (outpoint : COutPoint) : Option Coin :=
  (base.getCoin outpoint).bind Coin.shown

/-- One entry of the backing view's `BatchWrite`. -/
def writeEntry (coins : AList (fun _ : COutPoint => Coin)) (outpoint : COutPoint)
    (entry : CCoinsCacheEntry) : AList (fun _ : COutPoint => Coin) :=
  if entry.dirty then
    if entry.coin.isSpent then coins.erase outpoint else coins.insert outpoint entry.coin
  else coins

/-- The coin `writeEntry` leaves at the entry's key. -/
def writeValue (stored : Option Coin) (entry : CCoinsCacheEntry) : Option Coin :=
  if entry.dirty then (if entry.coin.isSpent then none else some entry.coin) else stored

theorem writeEntry_updatesOneKey : UpdatesOneKey writeEntry writeValue := by
  intro store key entry
  unfold writeEntry writeValue
  cases hdirty : entry.dirty
  · exact ⟨rfl, fun _ _ => rfl⟩
  cases hspent : entry.coin.isSpent
  · exact ⟨AList.lookup_insert _, fun _ hne => AList.lookup_insert_ne hne⟩
  · exact ⟨AList.lookup_erase _ _, fun _ hne => AList.lookup_erase_ne hne⟩

/-- `BatchWrite` on the backing view; a null block hash leaves the best block. -/
def batchWrite (base : BaseView) (mapCoins : CCoinsMap) (hashBlock : Nat) : BaseView :=
  ⟨mapCoins.entries.foldl (fun acc entry => writeEntry acc entry.1 entry.2) base.coins,
    if hashBlock = 0 then base.bestBlock else hashBlock⟩

end BaseView

end UnitedBitcoin.Coins
