import Mathlib
import UnitedBitcoin.Primitives.Serialize

/-!
# The `getblocktxn` message

`BlockTransactionsRequest` (`blockencodings.h`) asks a peer for the transactions of a block at
some positions. On the wire the positions are written differentially: each as its distance from
the previous position plus one, as a `CompactSize`. The reader refuses a difference above
`0xffff` and a position that would pass `0xffff`; it adds the differences up in a `uint16_t`
offset, which holds the previous position plus one.

* `deserialize_serialize`: a request for strictly increasing positions below `2 ^ 16`, as the
  receiver of a compact block builds it, reads back from its bytes, with the bytes after it
  untouched.
* `eq_serialize_of_deserialize`: every request the reader accepts is the writer's encoding of
  what it reads, unless a position follows `0xffff`: there the offset `0xffff + 1` wraps to `0`,
  and `deserialize_wrap` reads a position after `0xffff` that is not above it.
* `deserialize_serialize_error`: a request for positions below `2 ^ 16` that do not strictly
  increase is refused, since the writer's difference for a position not above the one before
  is a `uint64_t` near `2 ^ 64`.
-/

namespace UnitedBitcoin.CompactBlocks

open UnitedBitcoin.Serialize

/-- `BlockTransactionsRequest`: the block, and the `uint16_t` positions of the transactions
asked for. -/
structure BlockTransactionsRequest where
  blockhash : Nat
  indexes : List Nat
  deriving DecidableEq, Repr

/-- What the writer puts on the wire for each position: the position less the previous one
plus one (`0` before the first), computed as an `int` and stored in a `uint64_t`. -/
def differentialIndexes (prevNext : Int) : List Nat → List Nat
  | [] => []
  | index :: rest => ((index - prevNext) % 2 ^ 64).toNat :: differentialIndexes (index + 1) rest

/-- The writing half of `BlockTransactionsRequest::SerializationOp`: the 32 bytes of the block
hash, the number of positions, and the differences. -/
def BlockTransactionsRequest.serialize (req : BlockTransactionsRequest) : List UInt8 :=
  leBytes 32 req.blockhash ++ writeCompactSize req.indexes.length ++
    (differentialIndexes 0 req.indexes).flatMap writeCompactSize

/-- The first loop of the reader: `count` differences, each refused above `0xffff`. -/
def readIndexes : Nat → List UInt8 → Except String (List Nat × List UInt8)
  | 0, bytes => .ok ([], bytes)
  | count + 1, bytes => do
    let (index, bytes) ← readCompactSize bytes
    if 0xFFFF < index then throw "index overflowed 16 bits"
    let (rest, bytes) ← readIndexes count bytes
    return (index :: rest, bytes)

/-- The second loop of the reader: each difference plus `offset`, the previous position plus
one held in a `uint16_t`, is the position. -/
def accumulateIndexes (offset : UInt16) : List Nat → Except String (List Nat)
  | [] => .ok []
  | index :: rest =>
    if 0xFFFF < index + offset.toNat then throw "indexes overflowed 16 bits"
    else ((index + offset.toNat) :: ·) <$> accumulateIndexes ((index + offset.toNat).toUInt16 + 1) rest

/-- The reading half of `BlockTransactionsRequest::SerializationOp`. -/
def BlockTransactionsRequest.deserialize (bytes : List UInt8) :
    Except String (BlockTransactionsRequest × List UInt8) := do
  let (blockhash, bytes) ← readLe 32 bytes
  let (indexesSize, bytes) ← readCompactSize bytes
  let (differences, bytes) ← readIndexes indexesSize bytes
  let indexes ← accumulateIndexes 0 differences
  return (⟨blockhash, indexes⟩, bytes)

section RoundTrip

/-- Differences up to `0xffff` read back one by one, with the bytes after them untouched. -/
theorem readIndexes_flatMap (rest : List UInt8) : ∀ differences : List Nat, (∀ d ∈ differences, d ≤ 0xFFFF) →
    readIndexes differences.length (differences.flatMap writeCompactSize ++ rest) = .ok (differences, rest)
  | [], _ => rfl
  | d :: ds, hds => by
    have hd : d ≤ 0xFFFF := hds d List.mem_cons_self
    have hsize : d ≤ maxSize := by simp only [maxSize]; omega
    have ih := readIndexes_flatMap rest ds fun x hx => hds x (List.mem_cons_of_mem d hx)
    rw [List.length_cons, readIndexes, List.flatMap_cons, List.append_assoc, readCompactSize_writeCompactSize hsize]
    simp [bind, Except.bind, Nat.not_lt.mpr hd, ih, pure, Except.pure]

theorem toNat_toUInt16_of_lt {n : Nat} (hn : n < 2 ^ 16) : n.toUInt16.toNat = n := by
  rw [Nat.toUInt16_eq, UInt16.toNat_ofNat', Nat.mod_eq_of_lt hn]

/-- The offset after a position: the position plus one, as a `uint16_t`. -/
theorem toUInt16_add_one (n : Nat) : n.toUInt16 + 1 = (n + 1).toUInt16 := by
  apply UInt16.toNat_inj.mp
  rw [UInt16.toNat_add, Nat.toUInt16_eq, Nat.toUInt16_eq, UInt16.toNat_ofNat', UInt16.toNat_ofNat',
    UInt16.toNat_one]
  omega

/-- The writer's differences of positions from `prevNext` on, strictly increasing and below
`2 ^ 16`, are the positions' distances, each at most `0xffff`. -/
theorem differentialIndexes_le : ∀ (prevNext : Nat) (indexes : List Nat), indexes.Pairwise (· < ·) →
    (∀ i ∈ indexes, prevNext ≤ i ∧ i < 2 ^ 16) → ∀ d ∈ differentialIndexes prevNext indexes, d ≤ 0xFFFF
  | _, [], _, _ => by simp [differentialIndexes]
  | prevNext, index :: rest, hsorted, hbounds => by
    obtain ⟨hle, hlt⟩ := hbounds index List.mem_cons_self
    have hrest := List.pairwise_cons.mp hsorted
    have ih := differentialIndexes_le (index + 1) rest hrest.2 fun i hi =>
      ⟨hrest.1 i hi, (hbounds i (List.mem_cons_of_mem index hi)).2⟩
    intro d hd
    rw [differentialIndexes, List.mem_cons] at hd
    rcases hd with rfl | hd
    · omega
    · exact ih d (by exact_mod_cast hd)

theorem length_differentialIndexes (prevNext : Int) : ∀ indexes : List Nat,
    (differentialIndexes prevNext indexes).length = indexes.length
  | [] => rfl
  | _ :: rest => by rw [differentialIndexes, List.length_cons, List.length_cons, length_differentialIndexes _ rest]

/-- The reader's sums give back strictly increasing positions below `2 ^ 16` from their
differences. The induction is on the positions, with the offset the previous one plus one. -/
theorem accumulateIndexes_differentialIndexes : ∀ (prevNext : Nat) (indexes : List Nat),
    indexes.Pairwise (· < ·) → (∀ i ∈ indexes, prevNext ≤ i ∧ i < 2 ^ 16) →
    accumulateIndexes prevNext.toUInt16 (differentialIndexes prevNext indexes) = .ok indexes
  | _, [], _, _ => rfl
  | prevNext, index :: rest, hsorted, hbounds => by
    obtain ⟨hle, hlt⟩ := hbounds index List.mem_cons_self
    have hrest := List.pairwise_cons.mp hsorted
    have ih := accumulateIndexes_differentialIndexes (index + 1) rest hrest.2 fun i hi =>
      ⟨hrest.1 i hi, (hbounds i (List.mem_cons_of_mem index hi)).2⟩
    have hoffset : prevNext.toUInt16.toNat = prevNext := toNat_toUInt16_of_lt (by omega)
    have hdiff : (((index : Int) - prevNext) % 2 ^ 64).toNat = index - prevNext := by omega
    have hsum : index - prevNext + prevNext = index := Nat.sub_add_cancel hle
    rw [differentialIndexes, hdiff, accumulateIndexes, hoffset, hsum, if_neg (by omega), toUInt16_add_one]
    rw [show ((index : Int) + 1) = ((index + 1 : Nat) : Int) by push_cast; rfl, ih]
    rfl

/-- A strictly increasing list of positions below `2 ^ 16` has at most `2 ^ 16` of them. -/
theorem length_le_of_pairwise_lt {indexes : List Nat} (hsorted : indexes.Pairwise (· < ·))
    (hbounds : ∀ i ∈ indexes, i < 2 ^ 16) : indexes.length ≤ 2 ^ 16 := by
  have hnodup : indexes.Nodup := hsorted.imp (fun h => Nat.ne_of_lt h)
  have hsub : indexes.toFinset ⊆ Finset.range (2 ^ 16) := by
    intro i hi
    exact Finset.mem_range.mpr (hbounds i (List.mem_toFinset.mp hi))
  calc indexes.length = indexes.toFinset.card := (List.toFinset_card_of_nodup hnodup).symm
    _ ≤ (Finset.range (2 ^ 16)).card := Finset.card_le_card hsub
    _ = 2 ^ 16 := Finset.card_range _

/-- **A request reads back.** A `getblocktxn` for strictly increasing positions below `2 ^ 16`
is read back from its bytes, with the bytes after it untouched. -/
theorem deserialize_serialize {req : BlockTransactionsRequest} (hhash : req.blockhash < 2 ^ 256)
    (hsorted : req.indexes.Pairwise (· < ·)) (hbounds : ∀ i ∈ req.indexes, i < 2 ^ 16) (rest : List UInt8) :
    BlockTransactionsRequest.deserialize (req.serialize ++ rest) = .ok (req, rest) := by
  have hlength : req.indexes.length ≤ maxSize := by
    have := length_le_of_pairwise_lt hsorted hbounds
    simp only [maxSize]
    omega
  have hdifferences := differentialIndexes_le 0 req.indexes hsorted fun i hi => ⟨Nat.zero_le i, hbounds i hi⟩
  have hread := readIndexes_flatMap rest _ hdifferences
  rw [length_differentialIndexes, Nat.cast_zero] at hread
  have hsums := accumulateIndexes_differentialIndexes 0 req.indexes hsorted fun i hi => ⟨Nat.zero_le i, hbounds i hi⟩
  rw [Nat.cast_zero] at hsums
  rw [BlockTransactionsRequest.serialize, List.append_assoc, List.append_assoc,
    BlockTransactionsRequest.deserialize, readLe_append (length_leBytes 32 req.blockhash),
    leValue_leBytes, Nat.mod_eq_of_lt (by simpa using hhash)]
  simp only [bind, Except.bind]
  rw [readCompactSize_writeCompactSize hlength]
  simp only
  rw [hread]
  simp only
  rw [show (0 : UInt16) = (0 : Nat).toUInt16 from rfl, hsums]
  rfl

theorem deserialize_serialize_pair :
    BlockTransactionsRequest.deserialize ((⟨5, [1, 3]⟩ : BlockTransactionsRequest).serialize ++ []) =
      .ok (⟨5, [1, 3]⟩, []) :=
  deserialize_serialize (by norm_num) (by decide) (by decide) []

end RoundTrip

section Canonical

/-- One pass of the reader's first loop. -/
theorem readIndexes_succ_eq_ok {count : Nat} {bytes rest : List UInt8} {differences : List Nat} :
    readIndexes (count + 1) bytes = .ok (differences, rest) ↔
      ∃ index after tail, readCompactSize bytes = .ok (index, after) ∧ index ≤ 0xFFFF ∧
        readIndexes count after = .ok (tail, rest) ∧ differences = index :: tail := by
  rw [readIndexes]
  cases hindex : readCompactSize bytes with
  | error e => simp [bind, Except.bind]
  | ok read =>
    obtain ⟨index, after⟩ := read
    by_cases hbig : 0xFFFF < index
    · simp [bind, Except.bind, hbig, throw, throwThe, MonadExceptOf.throw]
    cases htail : readIndexes count after with
    | error e => simp [bind, Except.bind, hbig, htail]
    | ok read =>
      obtain ⟨tail, after⟩ := read
      simp only [bind, Except.bind, hbig, htail, if_false, pure, Except.pure, Except.ok.injEq, Prod.mk.injEq]
      constructor
      · rintro ⟨rfl, rfl⟩
        exact ⟨index, _, tail, ⟨rfl, rfl⟩, Nat.le_of_not_lt hbig, htail, rfl⟩
      · rintro ⟨_, _, tail', ⟨rfl, rfl⟩, -, htail', rfl⟩
        rw [htail] at htail'
        cases htail'
        exact ⟨rfl, rfl⟩

/-- One pass of the reader's second loop. -/
theorem accumulateIndexes_cons_eq_ok {offset : UInt16} {d : Nat} {ds indexes : List Nat} :
    accumulateIndexes offset (d :: ds) = .ok indexes ↔
      d + offset.toNat ≤ 0xFFFF ∧ ∃ rest, accumulateIndexes ((d + offset.toNat).toUInt16 + 1) ds = .ok rest ∧
        indexes = (d + offset.toNat) :: rest := by
  rw [accumulateIndexes]
  by_cases hbig : 0xFFFF < d + offset.toNat
  · simp [hbig, throw, throwThe, MonadExceptOf.throw, Nat.not_le.mpr hbig]
  rw [if_neg hbig]
  cases hrest : accumulateIndexes ((d + offset.toNat).toUInt16 + 1) ds with
  | error e => simp [Functor.map, Except.map]
  | ok rest =>
    simp only [Functor.map, Except.map, Except.ok.injEq, Nat.le_of_not_lt hbig, true_and, exists_eq_left', eq_comm]

/-- What `readIndexes` accepts is the differences it returns, each at most `0xffff`, written
one after the other. -/
theorem eq_flatMap_of_readIndexes : ∀ {count : Nat} {bytes rest : List UInt8} {differences : List Nat},
    readIndexes count bytes = .ok (differences, rest) →
    differences.length = count ∧ (∀ d ∈ differences, d ≤ 0xFFFF) ∧
      bytes = differences.flatMap writeCompactSize ++ rest
  | 0, bytes, rest, differences, hread => by
    simp only [readIndexes, Except.ok.injEq, Prod.mk.injEq] at hread
    obtain ⟨rfl, rfl⟩ := hread
    simp
  | count + 1, bytes, rest, differences, hread => by
    obtain ⟨index, after, tail, hindex, hle, htail, rfl⟩ := readIndexes_succ_eq_ok.mp hread
    obtain ⟨rfl, -⟩ := eq_writeCompactSize_of_readCompactSize hindex
    obtain ⟨hlength, htailLe, rfl⟩ := eq_flatMap_of_readIndexes htail
    refine ⟨by simp [hlength], ?_, by simp⟩
    intro d hd
    rcases List.mem_cons.mp hd with rfl | hd
    · exact hle
    · exact htailLe d hd

/-- What `accumulateIndexes` accepts, from an offset below `2 ^ 16`, are the writer's differences
of the positions it returns, as long as no position follows `0xffff`. The induction is on the
differences; a position of `0xffff` with one after it is where the offset wraps. -/
theorem differentialIndexes_of_accumulateIndexes : ∀ {prevNext : Nat} {differences indexes : List Nat},
    prevNext < 2 ^ 16 → accumulateIndexes prevNext.toUInt16 differences = .ok indexes →
    0xFFFF ∉ indexes.dropLast →
    differences = differentialIndexes prevNext indexes ∧ indexes.Pairwise (· < ·) ∧
      ∀ i ∈ indexes, prevNext ≤ i ∧ i < 2 ^ 16
  | _, [], indexes, _, hsums, _ => by
    cases hsums
    simp [differentialIndexes]
  | prevNext, d :: ds, indexes, hprev, hsums, hwrap => by
    rw [accumulateIndexes_cons_eq_ok, toNat_toUInt16_of_lt hprev] at hsums
    obtain ⟨hle, rest, hrest, rfl⟩ := hsums
    have hdiff : ((((d + prevNext : Nat) : Int) - prevNext) % 2 ^ 64).toNat = d := by omega
    cases rest with
    | nil =>
      -- the last position: nothing after it is read
      cases ds with
      | nil => simp [differentialIndexes]; omega
      | cons _ _ => simp [accumulateIndexes_cons_eq_ok] at hrest
    | cons next rest =>
      -- a position with one after it is not `0xffff`, so the offset does not wrap
      have hne : d + prevNext ≠ 0xFFFF := fun h => hwrap (by simp [h])
      have hwrap' : 0xFFFF ∉ (next :: rest).dropLast := fun h =>
        hwrap (by rw [List.dropLast_cons_of_ne_nil (List.cons_ne_nil next rest)]; exact List.mem_cons_of_mem _ h)
      rw [toUInt16_add_one] at hrest
      obtain ⟨rfl, hsorted, hbounds⟩ := differentialIndexes_of_accumulateIndexes (by omega) hrest hwrap'
      have hstep : differentialIndexes (prevNext : Int) ((d + prevNext) :: next :: rest) =
          d :: differentialIndexes ((d + prevNext + 1 : Nat) : Int) (next :: rest) := by
        rw [differentialIndexes, hdiff]
        push_cast
        rfl
      refine ⟨hstep.symm, ?_, ?_⟩
      · exact List.pairwise_cons.mpr ⟨fun i hi => by have := hbounds i hi; omega, hsorted⟩
      · intro i hi
        rcases List.mem_cons.mp hi with rfl | hi
        · omega
        · have := hbounds i hi
          omega

/-- **The encoding is canonical.** Every request the reader accepts, unless it asks for a
position after `0xffff`, is for strictly increasing positions below `2 ^ 16`, and its bytes are
the writer's encoding of it. -/
theorem eq_serialize_of_deserialize {bytes rest : List UInt8} {req : BlockTransactionsRequest}
    (hread : BlockTransactionsRequest.deserialize bytes = .ok (req, rest))
    (hwrap : 0xFFFF ∉ req.indexes.dropLast) :
    bytes = req.serialize ++ rest ∧ req.blockhash < 2 ^ 256 ∧ req.indexes.Pairwise (· < ·) ∧
      ∀ i ∈ req.indexes, i < 2 ^ 16 := by
  obtain ⟨⟨blockhash, afterHash⟩, hhash, hafterHash⟩ := except_bind_eq_ok.mp hread
  obtain ⟨data, hdata, rfl, rfl⟩ := readLe_eq_ok hhash
  obtain ⟨⟨indexesSize, afterSize⟩, hsize, hafterSize⟩ := except_bind_eq_ok.mp hafterHash
  obtain ⟨rfl, -⟩ := eq_writeCompactSize_of_readCompactSize hsize
  obtain ⟨⟨differences, after⟩, hdifferences, hafterIndexes⟩ := except_bind_eq_ok.mp hafterSize
  obtain ⟨hlength, -, rfl⟩ := eq_flatMap_of_readIndexes hdifferences
  obtain ⟨indexes, hsums, hresult⟩ := except_bind_eq_ok.mp hafterIndexes
  cases hresult
  rw [show (0 : UInt16) = (0 : Nat).toUInt16 from rfl] at hsums
  obtain ⟨rfl, hsorted, hbounds⟩ := differentialIndexes_of_accumulateIndexes (by norm_num) hsums hwrap
  have hvalue := leValue_lt data
  refine ⟨?_, by rw [hdata] at hvalue; simpa using hvalue, hsorted, fun i hi => (hbounds i hi).2⟩
  rw [← hlength, length_differentialIndexes, Nat.cast_zero, BlockTransactionsRequest.serialize, ← hdata,
    leBytes_leValue]
  simp

theorem eq_serialize_of_deserialize_pair :
    leBytes 32 5 ++ [2, 1, 1] = (⟨5, [1, 3]⟩ : BlockTransactionsRequest).serialize ++ [] ∧ 5 < 2 ^ 256 ∧
      [1, 3].Pairwise (· < ·) ∧ ∀ i ∈ [1, 3], i < 2 ^ 16 :=
  eq_serialize_of_deserialize (by rfl) (by decide)

/-- The offset wraps: after a position of `0xffff` the offset is `0`, and the reader takes the
next difference for the position itself, which is not above the last one. -/
theorem deserialize_wrap {blockhash index : Nat} (hhash : blockhash < 2 ^ 256) (hindex : index ≤ 0xFFFF)
    (rest : List UInt8) :
    BlockTransactionsRequest.deserialize (leBytes 32 blockhash ++ writeCompactSize 2 ++
      ([0xFFFF, index].flatMap writeCompactSize ++ rest)) = .ok (⟨blockhash, [0xFFFF, index]⟩, rest) := by
  have hread : readIndexes 2 ([0xFFFF, index].flatMap writeCompactSize ++ rest) = .ok ([0xFFFF, index], rest) :=
    readIndexes_flatMap rest [0xFFFF, index] (by simp [hindex])
  have hwrapped : (((0xFFFF : Nat) + (0 : UInt16).toNat).toUInt16 + 1) = 0 := by decide
  have hsums : accumulateIndexes 0 [0xFFFF, index] = .ok [0xFFFF, index] := by
    rw [accumulateIndexes_cons_eq_ok, hwrapped]
    refine ⟨by decide, [index], ?_, rfl⟩
    rw [accumulateIndexes_cons_eq_ok]
    exact ⟨by simpa using hindex, [], rfl, by simp⟩
  rw [List.append_assoc, BlockTransactionsRequest.deserialize, readLe_append (length_leBytes 32 blockhash),
    leValue_leBytes, Nat.mod_eq_of_lt (by simpa using hhash)]
  simp only [bind, Except.bind]
  rw [readCompactSize_writeCompactSize (by simp [maxSize])]
  simp only
  rw [hread]
  simp only
  rw [hsums]
  rfl

/-- Positions `0xffff` and then `5`, after the hash `0`: accepted, the second not above the first. -/
theorem deserialize_wrap_five :
    BlockTransactionsRequest.deserialize (leBytes 32 0 ++ writeCompactSize 2 ++
      ([0xFFFF, 5].flatMap writeCompactSize ++ [])) = .ok (⟨0, [0xFFFF, 5]⟩, []) ∧ ¬ (0xFFFF : Nat) < 5 :=
  ⟨deserialize_wrap (by decide) (by decide) [], by decide⟩

end Canonical

section Refused

/-- The writer's differences are `uint64_t`s. -/
theorem differentialIndexes_lt (prevNext : Int) :
    ∀ (indexes : List Nat), ∀ d ∈ differentialIndexes prevNext indexes, d < 2 ^ 64
  | [] => by simp [differentialIndexes]
  | index :: rest => by
    intro d hd
    rw [differentialIndexes, List.mem_cons] at hd
    rcases hd with rfl | hd
    · omega
    · exact differentialIndexes_lt _ rest d hd

/-- Where every difference passes the reader's check, the positions strictly increase from
`prevNext` on: a position not above the one before has a difference of `2 ^ 64` less a number
below `2 ^ 16`. -/
theorem pairwise_of_differentialIndexes_le : ∀ (prevNext : Nat) (indexes : List Nat), prevNext ≤ 2 ^ 16 →
    (∀ i ∈ indexes, i < 2 ^ 16) → (∀ d ∈ differentialIndexes prevNext indexes, d ≤ 0xFFFF) →
    indexes.Pairwise (· < ·) ∧ ∀ i ∈ indexes, prevNext ≤ i
  | _, [], _, _, _ => by simp
  | prevNext, index :: rest, hprev, hbounds, hdifferences => by
    have hindex : index < 2 ^ 16 := hbounds index List.mem_cons_self
    have hstep : differentialIndexes (prevNext : Int) (index :: rest) =
        (((index : Int) - prevNext) % 2 ^ 64).toNat :: differentialIndexes ((index + 1 : Nat) : Int) rest := by
      rw [differentialIndexes]
      push_cast
      rfl
    rw [hstep] at hdifferences
    have hle : prevNext ≤ index := by
      have := hdifferences _ List.mem_cons_self
      omega
    obtain ⟨hsorted, hafter⟩ := pairwise_of_differentialIndexes_le (index + 1) rest (by omega)
      (fun i hi => hbounds i (List.mem_cons_of_mem index hi))
      (fun d hd => hdifferences d (List.mem_cons_of_mem _ hd))
    refine ⟨List.pairwise_cons.mpr ⟨fun i hi => hafter i hi, hsorted⟩, ?_⟩
    intro i hi
    rcases List.mem_cons.mp hi with rfl | hi
    · exact hle
    · have := hafter i hi
      omega

/-- The reader's first loop refuses differences with one above `0xffff` among them: at the first
such one either the compact size is above `MAX_SIZE`, or the loop's own check throws. -/
theorem readIndexes_flatMap_error (rest : List UInt8) : ∀ differences : List Nat,
    (∀ d ∈ differences, d < 2 ^ 64) → (∃ d ∈ differences, 0xFFFF < d) →
    ∃ e, readIndexes differences.length (differences.flatMap writeCompactSize ++ rest) = .error e
  | [], _, ⟨d, hd, _⟩ => by simp at hd
  | d :: ds, hfits, hlarge => by
    rw [List.length_cons, readIndexes, List.flatMap_cons, List.append_assoc]
    by_cases hd : 0xFFFF < d
    · by_cases hsize : d ≤ maxSize
      · exact ⟨"index overflowed 16 bits", by
          simp [readCompactSize_writeCompactSize hsize, hd, bind, Except.bind, throw, throwThe,
            MonadExceptOf.throw]⟩
      · exact ⟨"ReadCompactSize(): size too large", by
          simp [readCompactSize_writeCompactSize_large (Nat.lt_of_not_le hsize) (hfits d List.mem_cons_self),
            bind, Except.bind]⟩
    · have hsize : d ≤ maxSize := by simp only [maxSize]; omega
      have hlarge' : ∃ x ∈ ds, 0xFFFF < x := by
        obtain ⟨x, hx, hbig⟩ := hlarge
        rcases List.mem_cons.mp hx with rfl | hx
        · exact absurd hbig hd
        · exact ⟨x, hx, hbig⟩
      obtain ⟨e, he⟩ := readIndexes_flatMap_error rest ds (fun x hx => hfits x (List.mem_cons_of_mem d hx)) hlarge'
      exact ⟨e, by simp [readCompactSize_writeCompactSize hsize, hd, he, bind, Except.bind]⟩

/-- A request for positions below `2 ^ 16` that do not strictly increase cannot be read from the
writer's bytes. -/
theorem deserialize_serialize_error {req : BlockTransactionsRequest} (hbounds : ∀ i ∈ req.indexes, i < 2 ^ 16)
    (hsorted : ¬ req.indexes.Pairwise (· < ·)) (hlength : req.indexes.length ≤ maxSize) (rest : List UInt8) :
    ∃ e, BlockTransactionsRequest.deserialize (req.serialize ++ rest) = .error e := by
  -- some difference fails the check, or the positions would be in order
  have hlarge : ∃ d ∈ differentialIndexes 0 req.indexes, 0xFFFF < d := by
    by_contra hnone
    simp only [not_exists, not_and, Nat.not_lt] at hnone
    have hle := pairwise_of_differentialIndexes_le 0 req.indexes (by norm_num) hbounds
    rw [Nat.cast_zero] at hle
    exact hsorted (hle hnone).1
  obtain ⟨e, he⟩ := readIndexes_flatMap_error rest _ (differentialIndexes_lt 0 req.indexes) hlarge
  rw [length_differentialIndexes] at he
  refine ⟨e, ?_⟩
  rw [BlockTransactionsRequest.serialize, List.append_assoc, List.append_assoc,
    BlockTransactionsRequest.deserialize, readLe_append (length_leBytes 32 req.blockhash)]
  simp only [bind, Except.bind]
  rw [readCompactSize_writeCompactSize hlength]
  simp only
  rw [he]

end Refused

end UnitedBitcoin.CompactBlocks
