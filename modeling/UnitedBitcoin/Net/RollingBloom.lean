import Mathlib
import UnitedBitcoin.Library.BitPlanes

/-!
# The rolling Bloom filter

`CRollingBloomFilter` (bloom.cpp) remembers recently inserted keys. Each position of the filter
holds a two-bit generation number: `0` when unset, and otherwise the generation, `1`, `2` or `3`,
that last wrote it. The two bits of a position sit at the same bit of the two words of one pair
(`Library.BitPlanes`). A generation takes `nEntriesPerGeneration` inserts. When a new one starts,
its number is reused, so the positions still holding it are wiped first.

`MurmurHash3` is a parameter, so the results hold for every hash function. The constructor's
double arithmetic (`log`, `exp`, `round`, `ceil`) is read over the reals (`hashFuncsOf`,
`filterBitsOf`); everything after it is computed on the words.

The main results:
* `cell_insert`: what one `insert` does to every position.
* `Recent.insert` and `Recent.insertAll`: a key's positions keep one of the last `d + 1`
  generation numbers, where `d` is the number of generations started since the key went in.
* `contains_of_window`: every key among the last `2 * nEntriesPerGeneration` inserted is
  contained.
* `exists_runCalls_eq`: after any calls, the filter is a counted filter into which the keys
  since the last `reset` were inserted.
* `rollingBloom_recent_contained`: a filter the constructor builds contains the last
  `nElements` keys inserted since the last `reset`, where its sizes fit in their integers.
* `new_wraps_to_empty`: at `nElements = 2 ^ 32 - 1` the size wraps to zero and the filter has
  no word for the header's promise to hold on.
-/

namespace UnitedBitcoin.Bloom

open UnitedBitcoin.Library

/-- The members of `CRollingBloomFilter`. The words of `data` come in pairs: pair `i` holds
`data[2 * i]` and `data[2 * i + 1]`. `data` is never empty, since `insert` and `contains` take a
hash modulo `data.size()`. -/
structure CRollingBloomFilter where
  nEntriesPerGeneration : Nat
  nEntriesThisGeneration : Nat
  nGeneration : Nat
  data : List (UInt64 × UInt64)
  nTweak : UInt32
  nHashFuncs : Nat
  data_pos : 0 < data.length

section Operations

variable (murmurHash3 : UInt32 → List UInt8 → UInt32)

/-- `RollingBloomHash`: the seed `nHashNum * 0xFBA4C795 + nTweak` is computed in 32 bits. -/
def rollingBloomHash (nHashNum : Nat) (nTweak : UInt32) (vDataToHash : List UInt8) : UInt32 :=
  murmurHash3 (nHashNum.toUInt32 * 0xFBA4C795 + nTweak) vDataToHash

/-- The pair of words and the bit that hash `h` selects. `bit = h & 0x3F` and
`pos = (h >> 6) % data.size()`; `data[pos & ~1]` and `data[pos | 1]` make up pair `pos / 2`. -/
def position (nPairs : Nat) (h : UInt32) : Nat × Nat :=
  ((h >>> 6).toNat % (2 * nPairs) / 2, (h &&& 0x3F).toNat)

/-- One step of the loop in `insert`: write `nGeneration` at the position of `h`. -/
def setGeneration (nGeneration : Nat) (data : List (UInt64 × UInt64)) (h : UInt32) :
    List (UInt64 × UInt64) :=
  let (pair, bit) := position data.length h
  data.modify pair fun w =>
    (setBitTo w.1 bit.toUInt64 (nGeneration &&& 1).toUInt64,
      setBitTo w.2 bit.toUInt64 (nGeneration >>> 1).toUInt64)

/-- Wipe old entries that used generation number `nGeneration`. -/
def wipeGeneration (nGeneration : Nat) (data : List (UInt64 × UInt64)) :
    List (UInt64 × UInt64) :=
  let nGenerationMask1 : UInt64 := (0 : UInt64) - (nGeneration &&& 1).toUInt64
  let nGenerationMask2 : UInt64 := (0 : UInt64) - (nGeneration >>> 1).toUInt64
  data.map (clearCells nGenerationMask1 nGenerationMask2)

theorem length_wipeGeneration (nGeneration : Nat) (data : List (UInt64 × UInt64)) :
    (wipeGeneration nGeneration data).length = data.length := by
  simp [wipeGeneration]

theorem length_setGeneration (nGeneration : Nat) (data : List (UInt64 × UInt64)) (h : UInt32) :
    (setGeneration nGeneration data h).length = data.length :=
  List.length_modify _ _ _

theorem length_foldl_setGeneration (nGeneration : Nat) (hs : List UInt32) :
    ∀ data : List (UInt64 × UInt64),
      (hs.foldl (setGeneration nGeneration) data).length = data.length := by
  induction hs with
  | nil => intro data; rfl
  | cons h hs ih =>
    intro data
    rw [List.foldl_cons, ih, length_setGeneration]

/-- The first half of `insert` when the generation is full: start the next generation
(`1 → 2 → 3 → 1`) and wipe the positions that hold its number. -/
def nextGeneration (f : CRollingBloomFilter) : CRollingBloomFilter :=
  let nGeneration := if f.nGeneration + 1 = 4 then 1 else f.nGeneration + 1
  { f with
    nEntriesThisGeneration := 0
    nGeneration := nGeneration
    data := wipeGeneration nGeneration f.data
    data_pos := by rw [length_wipeGeneration]; exact f.data_pos }

/-- `if (nEntriesThisGeneration == nEntriesPerGeneration) { ... }` at the head of `insert`. -/
def advanceIfFull (f : CRollingBloomFilter) : CRollingBloomFilter :=
  if f.nEntriesThisGeneration = f.nEntriesPerGeneration then nextGeneration f else f

/-- The hashes of `vKey`, one for each `n < nHashFuncs`. -/
def keyHashes (f : CRollingBloomFilter) (vKey : List UInt8) : List UInt32 :=
  (List.range f.nHashFuncs).map fun n => rollingBloomHash murmurHash3 n f.nTweak vKey

/-- `CRollingBloomFilter::insert`. -/
def insert (f : CRollingBloomFilter) (vKey : List UInt8) : CRollingBloomFilter :=
  let f := advanceIfFull f
  { f with
    nEntriesThisGeneration := f.nEntriesThisGeneration + 1
    data := (keyHashes murmurHash3 f vKey).foldl (setGeneration f.nGeneration) f.data
    data_pos := by rw [length_foldl_setGeneration]; exact f.data_pos }

/-- The test in `contains` for hash `h`: bit `bit` of `data[pos & ~1] | data[pos | 1]`. -/
def isSetAt (data : List (UInt64 × UInt64)) (h : UInt32) : Bool :=
  let (pair, bit) := position data.length h
  -- `pair < data.length` whenever data is not empty, so the default is never read
  let w := data.getD pair (0, 0)
  ((w.1 ||| w.2) >>> bit.toUInt64) &&& 1 != 0

/-- `CRollingBloomFilter::contains`. -/
def contains (f : CRollingBloomFilter) (vKey : List UInt8) : Bool :=
  (keyHashes murmurHash3 f vKey).all (isSetAt f.data)

/-- `CRollingBloomFilter::reset`, with the value `GetRand` draws for `nTweak`. -/
def reset (f : CRollingBloomFilter) (nTweak : UInt32) : CRollingBloomFilter :=
  { f with
    nTweak := nTweak
    nEntriesThisGeneration := 0
    nGeneration := 1
    data := f.data.map fun _ => (0, 0)
    data_pos := by rw [List.length_map]; exact f.data_pos }

/-- The calls that change a filter. -/
inductive Call
  | insert (vKey : List UInt8)
  | reset (nTweak : UInt32)

def runCall (f : CRollingBloomFilter) : Call → CRollingBloomFilter
  | .insert vKey => insert murmurHash3 f vKey
  | .reset nTweak => reset f nTweak

def runCalls (f : CRollingBloomFilter) (calls : List Call) : CRollingBloomFilter :=
  calls.foldl (runCall murmurHash3) f

/-- Inserts one after another. -/
def insertAll (f : CRollingBloomFilter) (keys : List (List UInt8)) : CRollingBloomFilter :=
  keys.foldl (insert murmurHash3) f

end Operations

/-- The keys inserted since the last `reset`, oldest first, after `keys` were already. -/
def insertedSince (keys : List (List UInt8)) : List Call → List (List UInt8)
  | [] => keys
  | .insert vKey :: calls => insertedSince (keys ++ [vKey]) calls
  | .reset _ :: calls => insertedSince [] calls

/-- The keys inserted since the last `reset`. -/
def insertedSinceReset (calls : List Call) : List (List UInt8) :=
  insertedSince [] calls

/-- The generation number at a position: cell `p.2` of pair `p.1`. -/
def cell (data : List (UInt64 × UInt64)) (p : Nat × Nat) : Nat :=
  cellAt (data.getD p.1 (0, 0)) p.2

section Positions

theorem position_lt {nPairs : Nat} (hn : 0 < nPairs) (h : UInt32) :
    (position nPairs h).1 < nPairs ∧ (position nPairs h).2 < 64 := by
  have hpos := Nat.mod_lt (h >>> 6).toNat (show 0 < 2 * nPairs by omega)
  have hbit : (h &&& 0x3F).toNat ≤ 63 := by
    rw [UInt32.toNat_and]
    exact Nat.and_le_right
  simp only [position]
  omega

/-- One write of the loop in `insert` sets its own position to `g` and keeps every other. -/
theorem cell_setGeneration {g : Nat} (hg : g < 4) {data : List (UInt64 × UInt64)}
    (hdata : 0 < data.length) (h : UInt32) {p : Nat × Nat} (hp : p.2 < 64) :
    cell (setGeneration g data h) p = if p = position data.length h then g else cell data p := by
  obtain ⟨hpair, hbit⟩ := position_lt hdata h
  obtain ⟨i, b⟩ := p
  generalize hq : position data.length h = q at hpair hbit ⊢
  obtain ⟨pair, bit⟩ := q
  simp only [setGeneration, hq, cell, List.getD_eq_getElem?_getD, List.getElem?_modify]
  simp only at hp hpair hbit
  rcases lt_or_ge i data.length with hi | hi
  · rw [List.getElem?_eq_getElem hi]
    by_cases hpi : pair = i
    · subst hpi
      simp only [Option.map_eq_map, Option.map_some, if_true, Option.getD_some, Prod.mk.injEq,
        true_and]
      exact cellAt_setBitTo _ hg hbit hp
    · simp [hpi, Ne.symm hpi]
  · -- past the end both sides read the default pair
    have hne : (i, b) ≠ (pair, bit) := by
      intro heq
      cases heq
      omega
    simp [List.getElem?_eq_none hi, hne]

/-- The loop of `insert` sets each position it visits to `g` and keeps every other. -/
theorem cell_foldl_setGeneration {g : Nat} (hg : g < 4) (hs : List UInt32) :
    ∀ data : List (UInt64 × UInt64), 0 < data.length → ∀ p : Nat × Nat, p.2 < 64 →
      cell (hs.foldl (setGeneration g) data) p =
        if p ∈ hs.map (position data.length) then g else cell data p := by
  induction hs with
  | nil => intro data _ p _; simp
  | cons h hs ih =>
    intro data hdata p hp
    have hlen := length_setGeneration g data h
    rw [List.foldl_cons, ih _ (hlen ▸ hdata) p hp, cell_setGeneration hg hdata h hp, hlen]
    -- every write is of g, so which of them reaches p last does not matter
    by_cases hlater : p ∈ hs.map (position data.length)
    · simp [hlater]
    · by_cases hfirst : p = position data.length h <;> simp [hlater, hfirst]

/-- The wipe empties the positions that hold `g` and keeps every other. -/
theorem cell_wipeGeneration {g : Nat} (hg : g < 4) (data : List (UInt64 × UInt64))
    {p : Nat × Nat} (hp : p.2 < 64) :
    cell (wipeGeneration g data) p = if cell data p = g then 0 else cell data p := by
  simp only [cell, wipeGeneration, List.getD_eq_getElem?_getD, List.getElem?_map]
  rcases data[p.1]? with _ | w
  · simp
  · exact cellAt_clearCells w hg hp

end Positions

section Keys

variable (murmurHash3 : UInt32 → List UInt8 → UInt32)

/-- The positions of the hashes of `vKey`, which `insert` writes and `contains` tests. -/
def keyPositions (f : CRollingBloomFilter) (vKey : List UInt8) : List (Nat × Nat) :=
  (keyHashes murmurHash3 f vKey).map (position f.data.length)

theorem mem_keyPositions {f : CRollingBloomFilter} {vKey : List UInt8} {p : Nat × Nat}
    (hp : p ∈ keyPositions murmurHash3 f vKey) : p.1 < f.data.length ∧ p.2 < 64 := by
  obtain ⟨h, -, rfl⟩ := List.mem_map.mp hp
  exact position_lt f.data_pos h

/-- Filters with the same hash count, tweak and size put a key at the same positions. -/
theorem keyPositions_congr {f f' : CRollingBloomFilter} (hk : f'.nHashFuncs = f.nHashFuncs)
    (ht : f'.nTweak = f.nTweak) (hl : f'.data.length = f.data.length) (vKey : List UInt8) :
    keyPositions murmurHash3 f' vKey = keyPositions murmurHash3 f vKey := by
  simp only [keyPositions, keyHashes, hk, ht, hl]

/-- `contains` holds exactly when every position of the key is set. -/
theorem contains_iff (f : CRollingBloomFilter) (vKey : List UInt8) :
    contains murmurHash3 f vKey = true ↔ ∀ p ∈ keyPositions murmurHash3 f vKey, cell f.data p ≠ 0 := by
  simp only [contains, keyPositions, List.all_eq_true, List.forall_mem_map]
  refine forall₂_congr fun h _ => ?_
  obtain ⟨-, hbit⟩ := position_lt f.data_pos h
  generalize hq : position f.data.length h = q at hbit
  obtain ⟨pair, bit⟩ := q
  simp only [isSetAt, hq, cell, bne_iff_ne, ne_eq]
  exact not_congr (or_shiftRight_and_one_eq_zero _ hbit)

end Keys

section Insert

variable (murmurHash3 : UInt32 → List UInt8 → UInt32)

theorem advanceIfFull_cases (f : CRollingBloomFilter) :
    (f.nEntriesThisGeneration = f.nEntriesPerGeneration ∧ advanceIfFull f = nextGeneration f) ∨
      (f.nEntriesThisGeneration ≠ f.nEntriesPerGeneration ∧ advanceIfFull f = f) := by
  unfold advanceIfFull
  split_ifs with h
  · exact .inl ⟨h, rfl⟩
  · exact .inr ⟨h, rfl⟩

theorem nGeneration_nextGeneration (f : CRollingBloomFilter) :
    (nextGeneration f).nGeneration = if f.nGeneration + 1 = 4 then 1 else f.nGeneration + 1 :=
  rfl

@[simp]
theorem advanceIfFull_nEntriesPerGeneration (f : CRollingBloomFilter) :
    (advanceIfFull f).nEntriesPerGeneration = f.nEntriesPerGeneration := by
  unfold advanceIfFull
  split <;> rfl

@[simp]
theorem advanceIfFull_nHashFuncs (f : CRollingBloomFilter) :
    (advanceIfFull f).nHashFuncs = f.nHashFuncs := by
  unfold advanceIfFull
  split <;> rfl

@[simp]
theorem advanceIfFull_nTweak (f : CRollingBloomFilter) : (advanceIfFull f).nTweak = f.nTweak := by
  unfold advanceIfFull
  split <;> rfl

@[simp]
theorem advanceIfFull_length (f : CRollingBloomFilter) :
    (advanceIfFull f).data.length = f.data.length := by
  rcases advanceIfFull_cases f with ⟨-, h⟩ | ⟨-, h⟩ <;> rw [h]
  exact length_wipeGeneration _ _

@[simp]
theorem insert_nEntriesPerGeneration (f : CRollingBloomFilter) (vKey : List UInt8) :
    (insert murmurHash3 f vKey).nEntriesPerGeneration = f.nEntriesPerGeneration :=
  advanceIfFull_nEntriesPerGeneration f

theorem insert_nEntriesThisGeneration (f : CRollingBloomFilter) (vKey : List UInt8) :
    (insert murmurHash3 f vKey).nEntriesThisGeneration =
      (advanceIfFull f).nEntriesThisGeneration + 1 :=
  rfl

theorem insert_nGeneration (f : CRollingBloomFilter) (vKey : List UInt8) :
    (insert murmurHash3 f vKey).nGeneration = (advanceIfFull f).nGeneration :=
  rfl

theorem keyPositions_advanceIfFull (f : CRollingBloomFilter) (vKey : List UInt8) :
    keyPositions murmurHash3 (advanceIfFull f) vKey = keyPositions murmurHash3 f vKey :=
  keyPositions_congr murmurHash3 (advanceIfFull_nHashFuncs f) (advanceIfFull_nTweak f)
    (advanceIfFull_length f) vKey

theorem keyPositions_insert (f : CRollingBloomFilter) (vKey vKey' : List UInt8) :
    keyPositions murmurHash3 (insert murmurHash3 f vKey') vKey = keyPositions murmurHash3 f vKey := by
  rw [← keyPositions_advanceIfFull murmurHash3 f vKey]
  apply keyPositions_congr
  · rfl
  · rfl
  · exact length_foldl_setGeneration _ _ _

/-- What `insert` does to a position: the key's own positions get the current generation
number, every other keeps what the start of a new generation, if any, left there. -/
theorem cell_insert (f : CRollingBloomFilter) (vKey : List UInt8)
    (hg : (advanceIfFull f).nGeneration < 4) {p : Nat × Nat} (hp : p.2 < 64) :
    cell (insert murmurHash3 f vKey).data p =
      if p ∈ keyPositions murmurHash3 f vKey then (advanceIfFull f).nGeneration
      else cell (advanceIfFull f).data p := by
  rw [← keyPositions_advanceIfFull]
  exact cell_foldl_setGeneration hg _ _ (advanceIfFull f).data_pos p hp

/-- Starting a generation wipes the positions holding its number. -/
theorem cell_nextGeneration (f : CRollingBloomFilter) (hg : f.nGeneration ≤ 3) {p : Nat × Nat}
    (hp : p.2 < 64) :
    cell (nextGeneration f).data p =
      if cell f.data p = (nextGeneration f).nGeneration then 0 else cell f.data p := by
  have hnext : (nextGeneration f).nGeneration < 4 := by
    rw [nGeneration_nextGeneration]
    split_ifs <;> omega
  exact cell_wipeGeneration hnext f.data hp

end Insert

section Counters

variable (murmurHash3 : UInt32 → List UInt8 → UInt32)

/-- The counters of a filter in use: generations are numbered `1` to `3`, and the current one
holds at most `nEntriesPerGeneration` entries, of which there is at least one. -/
structure Counted (f : CRollingBloomFilter) : Prop where
  per_pos : 0 < f.nEntriesPerGeneration
  this_le : f.nEntriesThisGeneration ≤ f.nEntriesPerGeneration
  gen_pos : 1 ≤ f.nGeneration
  gen_le : f.nGeneration ≤ 3

theorem Counted.reset {f : CRollingBloomFilter} (hper : 0 < f.nEntriesPerGeneration)
    (nTweak : UInt32) : Counted (reset f nTweak) where
  per_pos := hper
  this_le := Nat.zero_le _
  gen_pos := le_refl 1
  gen_le := show 1 ≤ 3 by omega

theorem counted_advanceIfFull {f : CRollingBloomFilter} (hc : Counted f) :
    Counted (advanceIfFull f) := by
  have := hc.gen_le
  rcases advanceIfFull_cases f with ⟨-, h⟩ | ⟨-, h⟩ <;> rw [h]
  · exact ⟨hc.per_pos, Nat.zero_le _, by rw [nGeneration_nextGeneration]; split_ifs <;> omega,
      by rw [nGeneration_nextGeneration]; split_ifs <;> omega⟩
  · exact hc

theorem Counted.insert {f : CRollingBloomFilter} (hc : Counted f) (vKey : List UInt8) :
    Counted (insert murmurHash3 f vKey) := by
  have ha := counted_advanceIfFull hc
  have hthis : (advanceIfFull f).nEntriesThisGeneration < f.nEntriesPerGeneration := by
    rcases advanceIfFull_cases f with ⟨-, h⟩ | ⟨hfull, h⟩ <;> rw [h]
    · exact hc.per_pos
    · exact lt_of_le_of_ne hc.this_le hfull
  refine ⟨?_, ?_, ha.gen_pos, ha.gen_le⟩
  · rw [insert_nEntriesPerGeneration]
    exact hc.per_pos
  · rw [insert_nEntriesThisGeneration, insert_nEntriesPerGeneration]
    exact hthis

theorem Counted.insertAll {f : CRollingBloomFilter} (hc : Counted f) (keys : List (List UInt8)) :
    Counted (insertAll murmurHash3 f keys) := by
  induction keys generalizing f with
  | nil => exact hc
  | cons k keys ih => exact ih (hc.insert murmurHash3 k)

@[simp]
theorem insertAll_nEntriesPerGeneration (f : CRollingBloomFilter) (keys : List (List UInt8)) :
    (insertAll murmurHash3 f keys).nEntriesPerGeneration = f.nEntriesPerGeneration := by
  induction keys generalizing f with
  | nil => rfl
  | cons k keys ih => rw [insertAll, List.foldl_cons, ← insertAll, ih, insert_nEntriesPerGeneration]

/-- Once something was inserted, the current generation is not empty. -/
theorem one_le_insertAll_nEntriesThisGeneration {f : CRollingBloomFilter}
    (hf : 1 ≤ f.nEntriesThisGeneration) (keys : List (List UInt8)) :
    1 ≤ (insertAll murmurHash3 f keys).nEntriesThisGeneration := by
  induction keys generalizing f with
  | nil => exact hf
  | cons k keys ih =>
    apply ih
    rw [insert_nEntriesThisGeneration]
    omega

theorem insertAll_append_cons (f : CRollingBloomFilter) (pre post : List (List UInt8))
    (vKey : List UInt8) :
    insertAll murmurHash3 f (pre ++ vKey :: post) =
      insertAll murmurHash3 (insert murmurHash3 (insertAll murmurHash3 f pre) vKey) post := by
  simp only [insertAll, List.foldl_append, List.foldl_cons]

end Counters

section Window

variable (murmurHash3 : UInt32 → List UInt8 → UInt32)

/-- `v` is a generation number at most `d` generations behind `g`, counting
`1 → 2 → 3 → 1`. -/
def Aged (g d v : Nat) : Prop :=
  1 ≤ v ∧ v ≤ 3 ∧ (g + 3 - v) % 3 ≤ d

instance (g d v : Nat) : Decidable (Aged g d v) :=
  inferInstanceAs (Decidable (_ ∧ _ ∧ _))

theorem aged_self {g : Nat} (hg1 : 1 ≤ g) (hg3 : g ≤ 3) (d : Nat) : Aged g d g := by
  unfold Aged
  omega

theorem Aged.ne_zero {g d v : Nat} (h : Aged g d v) : v ≠ 0 := by
  unfold Aged at h
  omega

/-- A number at most one generation behind `g` is not the number of the next generation, and is
one generation further behind it. -/
theorem Aged.next {g d v : Nat} (h : Aged g d v) (hd : d ≤ 1) (hg1 : 1 ≤ g) (hg3 : g ≤ 3) :
    v ≠ (if g + 1 = 4 then 1 else g + 1) ∧ Aged (if g + 1 = 4 then 1 else g + 1) (d + 1) v := by
  unfold Aged at *
  split_ifs <;> omega

example : Aged 1 1 3 ∧ ¬Aged 1 1 2 := by decide

/-- Key `vKey` went in `j` inserts ago, when the count of its generation became `ck`, and `d`
generations have started since. The counters then satisfy `d * nEntriesPerGeneration +
nEntriesThisGeneration = j + ck`, and while `d ≤ 2` each position of the key holds a generation
number at most `d` behind the current one. -/
structure Recent (f : CRollingBloomFilter) (vKey : List UInt8) (ck j d : Nat) : Prop where
  counted : d * f.nEntriesPerGeneration + f.nEntriesThisGeneration = j + ck
  cells : d ≤ 2 → ∀ p ∈ keyPositions murmurHash3 f vKey, Aged f.nGeneration d (cell f.data p)

/-- Right after its insert, a key holds the current generation number at each position. -/
theorem Recent.insert_self {f : CRollingBloomFilter} (hc : Counted f) (vKey : List UInt8) :
    Recent murmurHash3 (insert murmurHash3 f vKey) vKey
      (insert murmurHash3 f vKey).nEntriesThisGeneration 0 0 := by
  have ha := counted_advanceIfFull hc
  refine ⟨by rw [Nat.zero_mul], fun _ p hp => ?_⟩
  rw [keyPositions_insert] at hp
  have hgen : (advanceIfFull f).nGeneration < 4 := by
    have := ha.gen_le
    omega
  rw [cell_insert murmurHash3 f vKey hgen (mem_keyPositions murmurHash3 hp).2, if_pos hp,
    insert_nGeneration]
  exact aged_self ha.gen_pos ha.gen_le 0

/-- The step lemma: one more insert keeps a key recent, one generation older when the insert
starts a generation. -/
theorem Recent.insert {f : CRollingBloomFilter} {vKey : List UInt8} {ck j d : Nat}
    (hc : Counted f) (hr : Recent murmurHash3 f vKey ck j d) (vKey' : List UInt8) :
    ∃ d', Recent murmurHash3 (insert murmurHash3 f vKey') vKey ck (j + 1) d' := by
  have ha := counted_advanceIfFull hc
  have hgen : (advanceIfFull f).nGeneration < 4 := by
    have := ha.gen_le
    omega
  have hcount := insert_nEntriesThisGeneration murmurHash3 f vKey'
  rcases advanceIfFull_cases f with ⟨hfull, hadv⟩ | ⟨-, hadv⟩
  · -- a generation starts: wiped positions held a number two generations behind
    refine ⟨d + 1, ?_, fun hd p hp => ?_⟩
    · have hzero : (advanceIfFull f).nEntriesThisGeneration = 0 := by rw [hadv]; rfl
      have := hr.counted
      rw [insert_nEntriesPerGeneration, hcount, hzero, Nat.succ_mul]
      omega
    · rw [keyPositions_insert] at hp
      have hp64 := (mem_keyPositions murmurHash3 hp).2
      obtain ⟨hne, hold⟩ := (hr.cells (by omega) p hp).next (by omega) hc.gen_pos hc.gen_le
      have hnext : Counted (nextGeneration f) := hadv ▸ ha
      have hne' : cell f.data p ≠ (nextGeneration f).nGeneration := hne
      rw [cell_insert murmurHash3 f vKey' hgen hp64, insert_nGeneration, hadv,
        cell_nextGeneration f hc.gen_le hp64, if_neg hne']
      by_cases hmem : p ∈ keyPositions murmurHash3 f vKey'
      · rw [if_pos hmem]
        exact aged_self hnext.gen_pos hnext.gen_le _
      · rw [if_neg hmem]
        exact hold
  · -- the same generation goes on
    refine ⟨d, ?_, fun hd p hp => ?_⟩
    · have := hr.counted
      rw [insert_nEntriesPerGeneration, hcount, hadv]
      omega
    · rw [keyPositions_insert] at hp
      have hp64 := (mem_keyPositions murmurHash3 hp).2
      rw [cell_insert murmurHash3 f vKey' hgen hp64, insert_nGeneration, hadv]
      by_cases hmem : p ∈ keyPositions murmurHash3 f vKey'
      · rw [if_pos hmem]
        exact aged_self hc.gen_pos hc.gen_le d
      · rw [if_neg hmem]
        exact hr.cells hd p hp

/-- The run lemma: a key stays recent through any further inserts. -/
theorem Recent.insertAll {vKey : List UInt8} {ck : Nat} (keys : List (List UInt8)) :
    ∀ {f : CRollingBloomFilter} {j d : Nat}, Counted f → Recent murmurHash3 f vKey ck j d →
      ∃ d', Recent murmurHash3 (insertAll murmurHash3 f keys) vKey ck (j + keys.length) d' := by
  induction keys with
  | nil => intro f j d _ hr; exact ⟨d, hr⟩
  | cons k keys ih =>
    intro f j d hc hr
    obtain ⟨d', hr'⟩ := hr.insert murmurHash3 hc k
    obtain ⟨d'', hr''⟩ := ih (hc.insert murmurHash3 k) hr'
    refine ⟨d'', ?_⟩
    rw [show j + (k :: keys).length = j + 1 + keys.length by rw [List.length_cons]; omega]
    exact hr''

/-- No false negatives: a key followed by fewer than `2 * nEntriesPerGeneration` inserts is
contained. At most two generations start after it, and a number is only wiped three
generations after it was written. -/
theorem contains_of_window {f : CRollingBloomFilter} (hc : Counted f)
    (pre post : List (List UInt8)) (vKey : List UInt8)
    (hpost : post.length < 2 * f.nEntriesPerGeneration) :
    contains murmurHash3 (insertAll murmurHash3 f (pre ++ vKey :: post)) vKey = true := by
  rw [insertAll_append_cons]
  set f1 := insert murmurHash3 (insertAll murmurHash3 f pre) vKey with hf1
  have hc0 := hc.insertAll murmurHash3 pre
  have hc1 : Counted f1 := hc0.insert murmurHash3 vKey
  have hr0 : Recent murmurHash3 f1 vKey f1.nEntriesThisGeneration 0 0 :=
    Recent.insert_self murmurHash3 hc0 vKey
  obtain ⟨d, hr⟩ := hr0.insertAll murmurHash3 post hc1
  have hE : (insertAll murmurHash3 f1 post).nEntriesPerGeneration = f.nEntriesPerGeneration := by
    rw [insertAll_nEntriesPerGeneration, hf1, insert_nEntriesPerGeneration,
      insertAll_nEntriesPerGeneration]
  have hlast : 1 ≤ (insertAll murmurHash3 f1 post).nEntriesThisGeneration :=
    one_le_insertAll_nEntriesThisGeneration murmurHash3
      (by rw [hf1, insert_nEntriesThisGeneration]; omega) post
  have hck : f1.nEntriesThisGeneration ≤ f.nEntriesPerGeneration := by
    have := hc1.this_le
    rwa [hf1, insert_nEntriesPerGeneration, insertAll_nEntriesPerGeneration] at this
  -- d * E + (count now) = |post| + (count after the key) < 3 * E, so d ≤ 2
  have hd : d ≤ 2 := by
    have hcounted := hr.counted
    rw [hE] at hcounted
    have hlt : d * f.nEntriesPerGeneration < 3 * f.nEntriesPerGeneration := by omega
    have := Nat.lt_of_mul_lt_mul_right hlt
    omega
  rw [contains_iff]
  exact fun p hp => (hr.cells hd p hp).ne_zero

/-- The keys of a run since its last `reset`: a `reset` forgets what was inserted before it. -/
theorem exists_runCalls_eq (calls : List Call) :
    ∀ (f : CRollingBloomFilter) (keys : List (List UInt8)), Counted f →
      ∃ s, Counted s ∧ s.nEntriesPerGeneration = f.nEntriesPerGeneration ∧
        runCalls murmurHash3 (insertAll murmurHash3 f keys) calls =
          insertAll murmurHash3 s (insertedSince keys calls) := by
  induction calls with
  | nil => intro f keys hc; exact ⟨f, hc, rfl, rfl⟩
  | cons call calls ih =>
    intro f keys hc
    cases call with
    | insert vKey =>
      have hstep : insert murmurHash3 (insertAll murmurHash3 f keys) vKey =
          insertAll murmurHash3 f (keys ++ [vKey]) := by
        simp only [insertAll, List.foldl_append, List.foldl_cons, List.foldl_nil]
      obtain ⟨s, hs, hE, hrun⟩ := ih f (keys ++ [vKey]) hc
      exact ⟨s, hs, hE, by rw [runCalls, List.foldl_cons, runCall, hstep]; exact hrun⟩
    | reset nTweak =>
      -- the run goes on from a counted filter with nothing inserted
      set g := reset (insertAll murmurHash3 f keys) nTweak
      have hgE : g.nEntriesPerGeneration = f.nEntriesPerGeneration :=
        insertAll_nEntriesPerGeneration murmurHash3 f keys
      have hg : Counted g := Counted.reset (hgE ▸ hc.per_pos) nTweak
      obtain ⟨s, hs, hE, hrun⟩ := ih g [] hg
      exact ⟨s, hs, hE.trans hgE, by rw [runCalls, List.foldl_cons, runCall]; exact hrun⟩

end Window

/-- A member of the last `n` entries of a list has fewer than `n` entries after it. -/
theorem exists_append_cons_of_mem_drop {α : Type*} {l : List α} {n : Nat} {a : α}
    (ha : a ∈ l.drop (l.length - n)) : ∃ s t, l = s ++ a :: t ∧ t.length < n := by
  obtain ⟨s, t, hst⟩ := List.mem_iff_append.mp ha
  refine ⟨l.take (l.length - n) ++ s, t, ?_, ?_⟩
  · rw [List.append_assoc, ← hst, List.take_append_drop]
  · have hlen := congrArg List.length hst
    simp only [List.length_drop, List.length_append, List.length_cons] at hlen
    omega

section Constructor

/-- The constructor once `nHashFuncs` and `nFilterBits` are known. `data.resize` gives
`(nFilterBits + 63) / 64` pairs of words, in 32-bit arithmetic; `reset()` sets the counters and
the tweak. When no pair is allocated, every later `insert` and `contains` would take a hash
modulo zero, and the model gives `none`. -/
def init (nElements : UInt32) (nHashFuncs : Nat) (nFilterBits nTweak : UInt32) :
    Option CRollingBloomFilter :=
  let nPairs := ((nFilterBits + 63) / 64).toNat
  if h : 0 < nPairs then
    some (reset
      { nEntriesPerGeneration := ((nElements + 1) / 2).toNat
        -- set by reset()
        nEntriesThisGeneration := 0
        nGeneration := 0
        data := List.replicate nPairs (0, 0)
        nTweak := 0
        nHashFuncs := nHashFuncs
        data_pos := by rw [List.length_replicate]; exact h }
      nTweak)
  else none

/-- `nHashFuncs = max(1, min((int)round(log(fpRate) / log(0.5)), 50))`. -/
noncomputable def hashFuncsOf (fpRate : ℝ) : Nat :=
  (max 1 (min (round (Real.log fpRate / Real.log 0.5)) 50)).toNat

/-- `ceil(-1.0 * nHashFuncs * nMaxElements / log(1.0 - exp(logFpRate / nHashFuncs)))`. -/
noncomputable def filterBitsOf (nHashFuncs nMaxElements : Nat) (fpRate : ℝ) : Nat :=
  ⌈-1 * (nHashFuncs : ℝ) * nMaxElements /
    Real.log (1 - Real.exp (Real.log fpRate / nHashFuncs))⌉₊

/-- `CRollingBloomFilter(nElements, fpRate)`, with the tweak `reset()` draws. The model gives
`none` where the constructor is undefined. For a rate of `0` or less, or above `1`, a logarithm
is infinite or undefined and is cast to an integer. `nEntriesPerGeneration * 3` is an `int`
product, undefined past `INT_MAX`. `(uint32_t)ceil(...)` is undefined from `2 ^ 32` on. -/
noncomputable def new (nElements : UInt32) (fpRate : ℝ) (nTweak : UInt32) :
    Option CRollingBloomFilter :=
  if fpRate ≤ 0 ∨ 1 < fpRate then none
  else
    let nHashFuncs := hashFuncsOf fpRate
    -- `(nElements + 1) / 2` is computed in 32 bits and stored in an `int`
    let nEntriesPerGeneration := ((nElements + 1) / 2).toNat
    if 2 ^ 31 - 1 < nEntriesPerGeneration * 3 then none
    else
      let nFilterBits := filterBitsOf nHashFuncs (nEntriesPerGeneration * 3) fpRate
      if 2 ^ 32 ≤ nFilterBits then none
      else init nElements nHashFuncs nFilterBits.toUInt32 nTweak

/-- Where the constructor is defined, it is `init` with the filter size. -/
theorem new_eq {nElements : UInt32} {fpRate : ℝ} (h0 : 0 < fpRate) (h1 : fpRate < 1)
    (hint : ((nElements + 1) / 2).toNat * 3 ≤ 2 ^ 31 - 1)
    (hcast : filterBitsOf (hashFuncsOf fpRate) (((nElements + 1) / 2).toNat * 3) fpRate < 2 ^ 32)
    (nTweak : UInt32) :
    new nElements fpRate nTweak =
      init nElements (hashFuncsOf fpRate)
        (filterBitsOf (hashFuncsOf fpRate) (((nElements + 1) / 2).toNat * 3) fpRate).toUInt32 nTweak := by
  have hrate : ¬ (fpRate ≤ 0 ∨ 1 < fpRate) := by
    rintro (h | h) <;> linarith
  simp only [new, if_neg hrate, if_neg (Nat.not_lt.mpr hint), if_neg (Nat.not_le.mpr hcast)]

theorem one_le_hashFuncsOf (fpRate : ℝ) : 1 ≤ hashFuncsOf fpRate := by
  unfold hashFuncsOf
  omega

theorem filterBitsOf_zero (nHashFuncs : Nat) (fpRate : ℝ) : filterBitsOf nHashFuncs 0 fpRate = 0 := by
  simp [filterBitsOf]

/-- A rate of `1/2` asks for one hash function. -/
theorem hashFuncsOf_half : hashFuncsOf (1 / 2) = 1 := by
  have hlog : Real.log (1 / 2) / Real.log 0.5 = 1 := by
    rw [show (0.5 : ℝ) = 1 / 2 by norm_num]
    exact div_self (Real.log_neg (by norm_num) (by norm_num)).ne
  rw [hashFuncsOf, hlog]
  norm_num

/-- With one hash function at a rate of `1/2` the filter has `⌈M / log 2⌉` bits, at most two
per element, since `log 2 > 1/2`. -/
theorem filterBitsOf_half_le (M : Nat) : filterBitsOf 1 M (1 / 2) ≤ 2 * M := by
  have hexp : Real.exp (Real.log (1 / 2) / (1 : Nat)) = 1 / 2 := by
    rw [Nat.cast_one, div_one, Real.exp_log (by norm_num)]
  have hlog : Real.log (1 - Real.exp (Real.log (1 / 2) / (1 : Nat))) = - Real.log 2 := by
    rw [hexp, show (1 : ℝ) - 1 / 2 = 2⁻¹ by norm_num, Real.log_inv]
  have htwo := Real.log_two_gt_d9
  have hpos : 0 < Real.log 2 := by linarith
  unfold filterBitsOf
  have hquotient : -1 * ((1 : Nat) : ℝ) * M / -Real.log 2 = M / Real.log 2 := by
    push_cast
    ring
  rw [hlog, hquotient, Nat.ceil_le, div_le_iff₀ hpos]
  push_cast
  nlinarith [(Nat.cast_nonneg M : (0 : ℝ) ≤ M)]

/-- For a rate in `(0, 1)` and at least one element, the filter has at least one bit: the
numerator is negative, and so is the logarithm of `1 - exp(log(fpRate) / nHashFuncs) < 1`. -/
theorem filterBitsOf_pos {nHashFuncs nMaxElements : Nat} (hk : 1 ≤ nHashFuncs)
    (hM : 1 ≤ nMaxElements) {fpRate : ℝ} (h0 : 0 < fpRate) (h1 : fpRate < 1) :
    0 < filterBitsOf nHashFuncs nMaxElements fpRate := by
  have hk' : (0 : ℝ) < nHashFuncs := by exact_mod_cast hk
  have hM' : (0 : ℝ) < nMaxElements := by exact_mod_cast hM
  have hexp : Real.exp (Real.log fpRate / nHashFuncs) < 1 :=
    Real.exp_lt_one_iff.mpr (div_neg_of_neg_of_pos (Real.log_neg h0 h1) hk')
  have hlog : Real.log (1 - Real.exp (Real.log fpRate / nHashFuncs)) < 0 :=
    Real.log_neg (by linarith) (by linarith [Real.exp_pos (Real.log fpRate / nHashFuncs)])
  have hnum : -1 * (nHashFuncs : ℝ) * nMaxElements < 0 := by
    have := mul_pos hk' hM'
    linarith
  unfold filterBitsOf
  exact Nat.ceil_pos.mpr (div_pos_of_neg_of_neg hnum hlog)

/-- `(nElements + 1) / 2` in 32 bits, when the sum does not wrap. -/
theorem toNat_succ_div_two {nElements : UInt32} (hwrap : nElements.toNat + 1 < 2 ^ 32) :
    ((nElements + 1) / 2).toNat = (nElements.toNat + 1) / 2 := by
  simp [UInt32.toNat_div, UInt32.toNat_add]
  omega

/-- With at least one pair of words, `init` builds a counted filter. -/
theorem init_eq_some {nElements : UInt32} (hN : 1 ≤ nElements.toNat)
    (hwrap : nElements.toNat + 1 < 2 ^ 32) (nHashFuncs : Nat) {nFilterBits : Nat}
    (hbits0 : 0 < nFilterBits) (hbits : nFilterBits + 63 < 2 ^ 32) (nTweak : UInt32) :
    ∃ f, init nElements nHashFuncs nFilterBits.toUInt32 nTweak = some f ∧ Counted f ∧
      f.nEntriesPerGeneration = (nElements.toNat + 1) / 2 := by
  have hpairs : 0 < ((nFilterBits.toUInt32 + 63) / 64).toNat := by
    simp [UInt32.toNat_div, UInt32.toNat_add]
    omega
  have hE := toNat_succ_div_two hwrap
  refine ⟨_, dif_pos hpairs, Counted.reset ?_ nTweak, hE⟩
  show 0 < ((nElements + 1) / 2).toNat
  omega

/-- For `1 ≤ nElements`, a rate in `(0, 1)`, `3 * ((nElements + 1) / 2)` within `INT_MAX` and a
filter size for which `nFilterBits + 63` does not wrap, the constructor builds a counted filter
with `nEntriesPerGeneration = (nElements + 1) / 2`. -/
theorem new_eq_some {nElements : UInt32} (hN : 1 ≤ nElements.toNat) {fpRate : ℝ} (h0 : 0 < fpRate)
    (h1 : fpRate < 1) (hint : (nElements.toNat + 1) / 2 * 3 ≤ 2 ^ 31 - 1)
    (hbits : filterBitsOf (hashFuncsOf fpRate) ((nElements.toNat + 1) / 2 * 3) fpRate + 63 < 2 ^ 32)
    (nTweak : UInt32) :
    ∃ f, new nElements fpRate nTweak = some f ∧ Counted f ∧
      f.nEntriesPerGeneration = (nElements.toNat + 1) / 2 := by
  have hwrap : nElements.toNat + 1 < 2 ^ 32 := by omega
  have hE := toNat_succ_div_two hwrap
  rw [← hE] at hint hbits
  rw [new_eq h0 h1 hint (by omega)]
  exact init_eq_some hN hwrap _ (filterBitsOf_pos (one_le_hashFuncsOf fpRate) (by omega) h0 h1) hbits nTweak

/-- For `nElements = 2^32 - 1`, `(nElements + 1) / 2` wraps to `0`, so does `nMaxElements`, the
filter has no bit, and no pair of words is allocated. -/
theorem new_eq_none_of_wrap (fpRate : ℝ) (nTweak : UInt32) : new 4294967295 fpRate nTweak = none := by
  have hE : (((4294967295 : UInt32) + 1) / 2).toNat = 0 := by decide
  by_cases hrate : fpRate ≤ 0 ∨ 1 < fpRate
  · simp only [new, if_pos hrate]
  · simp only [new, if_neg hrate, hE, Nat.zero_mul, filterBitsOf_zero]
    rfl

end Constructor

section Contained

/-- No false negatives, for the filters the constructor builds with a non-empty data vector:
after any sequence of `insert` and `reset` calls, each of the last `nElements` keys inserted
since the last `reset` is contained. -/
theorem rollingBloom_recent_contained (murmurHash3 : UInt32 → List UInt8 → UInt32)
    (nElements : UInt32) (fpRate : ℝ) (nTweak : UInt32) (hN : 1 ≤ nElements.toNat)
    (h0 : 0 < fpRate) (h1 : fpRate < 1) (hint : (nElements.toNat + 1) / 2 * 3 ≤ 2 ^ 31 - 1)
    (hbits : filterBitsOf (hashFuncsOf fpRate) ((nElements.toNat + 1) / 2 * 3) fpRate + 63 < 2 ^ 32) :
    ∃ f, new nElements fpRate nTweak = some f ∧
      ∀ calls : List Call, ∀ vKey ∈ (insertedSinceReset calls).drop
          ((insertedSinceReset calls).length - nElements.toNat),
        contains murmurHash3 (runCalls murmurHash3 f calls) vKey = true := by
  obtain ⟨f, hnew, hc, hE⟩ := new_eq_some hN h0 h1 hint hbits nTweak
  refine ⟨f, hnew, fun calls vKey hmem => ?_⟩
  obtain ⟨s, hs, hsE, hrun⟩ := exists_runCalls_eq murmurHash3 calls f [] hc
  obtain ⟨pre, post, hsplit, hpost⟩ := exists_append_cons_of_mem_drop hmem
  have hrun' : runCalls murmurHash3 f calls = insertAll murmurHash3 s (pre ++ vKey :: post) := by
    rw [← hsplit]
    exact hrun
  rw [hrun']
  -- nElements ≤ 2 * nEntriesPerGeneration, the window of `contains_of_window`
  exact contains_of_window murmurHash3 hs pre post vKey (by omega)

/-- Two elements at a rate of `1/2`, with a hash that reads every byte: the last two keys
inserted since the last `reset` are contained, whatever the calls. -/
theorem rollingBloom_recent_contained_two :
    ∃ f, new 2 (1 / 2) 0 = some f ∧
      ∀ calls : List Call, ∀ vKey ∈ (insertedSinceReset calls).drop ((insertedSinceReset calls).length - 2),
        contains (fun seed data => data.foldl (fun h b => h * 31 + b.toUInt32) seed)
          (runCalls (fun seed data => data.foldl (fun h b => h * 31 + b.toUInt32) seed) f calls) vKey = true := by
  have hbits : filterBitsOf (hashFuncsOf (1 / 2)) (((2 : UInt32).toNat + 1) / 2 * 3) (1 / 2) + 63 < 2 ^ 32 := by
    rw [hashFuncsOf_half]
    have hle := filterBitsOf_half_le ((((2 : UInt32).toNat + 1) / 2 * 3))
    have htwo : (2 : UInt32).toNat = 2 := rfl
    rw [htwo] at hle ⊢
    omega
  exact rollingBloom_recent_contained _ 2 (1 / 2) 0 (by decide) (by norm_num) (by norm_num) (by decide) hbits

/-- **At `nElements = 2 ^ 32 - 1` the constructor allocates nothing.** `(nElements + 1) / 2`
wraps to `0` in 32 bits, so `nMaxElements` and `nFilterBits` are `0` and `data.resize` gets
`((0 + 63) / 64) << 1 = 0` words: the first `insert` or `contains` takes a hash modulo
`data.size() = 0`, where the header promises that `contains` holds for the last `nElements`
keys inserted. -/
theorem new_wraps_to_empty :
    ((4294967295 : UInt32) + 1) / 2 = 0 ∧ filterBitsOf (hashFuncsOf (1 / 2)) 0 (1 / 2) = 0 ∧
      (((0 : UInt32) + 63) / 64) <<< 1 = 0 ∧ new 4294967295 (1 / 2) 0 = none :=
  ⟨by decide, filterBitsOf_zero _ _, by decide, new_eq_none_of_wrap (1 / 2) 0⟩

end Contained

end UnitedBitcoin.Bloom
