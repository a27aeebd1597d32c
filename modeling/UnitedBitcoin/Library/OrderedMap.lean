import Mathlib

/-!
# Maps kept as key-sorted entry lists

A `std::map` with a comparison `lt` iterates its entries in increasing key
order, and the assignment `m[key] = value` overwrites the entry of an equal key
or adds a new entry in its place. This module models such a map as the list of
its entries in iteration order, for any comparison that is a strict total order,
and proves what the maps of this development need: assignment keeps the keys
strictly increasing, a key above every key of the map goes to the end, a lookup
after a run of assignments of distinct keys finds the assigned value, and
assignment commutes with a function applied to the values.

The last section is about one kind of key: decimal numerals, compared first by
length and then character by character, come in numeric order.
-/

namespace UnitedBitcoin.Library

universe u v w

variable {κ : Type u} {β : Type v} {γ : Type w}

/-- A `bool` comparison that is a strict total order: what `std::map` needs of its
`Compare`, with equivalent keys equal. -/
structure StrictTotal (lt : κ → κ → Bool) : Prop where
  irrefl : ∀ a, lt a a = false
  trans : ∀ a b c, lt a b = true → lt b c = true → lt a c = true
  total : ∀ a b, lt a b = true ∨ a = b ∨ lt b a = true

namespace StrictTotal

variable {lt : κ → κ → Bool} (hlt : StrictTotal lt)
include hlt

theorem asymm {a b : κ} (h : lt a b = true) : lt b a = false := by
  cases hba : lt b a
  · rfl
  · have haa := hlt.trans a b a h hba
    rw [hlt.irrefl a] at haa
    cases haa

theorem ne_of_lt {a b : κ} (h : lt a b = true) : a ≠ b := by
  rintro rfl
  rw [hlt.irrefl a] at h
  cases h

theorem eq_of_not_lt {a b : κ} (hab : lt a b = false) (hba : lt b a = false) : a = b := by
  rcases hlt.total a b with h | h | h
  · rw [hab] at h
    cases h
  · exact h
  · rw [hba] at h
    cases h

end StrictTotal

/-- `map[key] = value` on a `std::map` ordered by `lt`. -/
def mapAssign (lt : κ → κ → Bool) (key : κ) (value : β) : List (κ × β) → List (κ × β)
  | [] => [(key, value)]
  | (k, v) :: rest =>
      if lt key k then (key, value) :: (k, v) :: rest
      else if lt k key then (k, v) :: mapAssign lt key value rest
      else (key, value) :: rest

/-- The map built by assigning the entries of `entries` one after another into
`map`. -/
def assignAll (lt : κ → κ → Bool) (map : List (κ × β)) (entries : List (κ × β)) :
    List (κ × β) :=
  entries.foldl (fun acc entry => mapAssign lt entry.1 entry.2 acc) map

@[simp]
theorem assignAll_nil (lt : κ → κ → Bool) (map : List (κ × β)) : assignAll lt map [] = map := rfl

theorem assignAll_cons (lt : κ → κ → Bool) (map : List (κ × β)) (key : κ) (value : β)
    (rest : List (κ × β)) :
    assignAll lt map ((key, value) :: rest) = assignAll lt (mapAssign lt key value map) rest := rfl

section Order

variable {lt : κ → κ → Bool}

theorem mem_keys_mapAssign {key other : κ} {value : β} {map : List (κ × β)}
    (h : other ∈ (mapAssign lt key value map).map Prod.fst) :
    other = key ∨ other ∈ map.map Prod.fst := by
  induction map with
  | nil => simpa [mapAssign] using h
  | cons entry rest ih =>
      obtain ⟨k, v⟩ := entry
      simp only [mapAssign] at h
      split_ifs at h with hbefore hafter
      · simpa using h
      · simp only [List.map_cons, List.mem_cons] at h ⊢
        rcases h with h | h
        · exact .inr (.inl h)
        · rcases ih h with h | h
          · exact .inl h
          · exact .inr (.inr h)
      · simp only [List.map_cons, List.mem_cons] at h ⊢
        rcases h with h | h
        · exact .inl h
        · exact .inr (.inr h)

variable (hlt : StrictTotal lt)
include hlt

/-- Assignment keeps the keys strictly increasing. -/
theorem mapAssign_sorted {key : κ} {value : β} {map : List (κ × β)}
    (h : (map.map Prod.fst).Pairwise (fun a b => lt a b = true)) :
    ((mapAssign lt key value map).map Prod.fst).Pairwise (fun a b => lt a b = true) := by
  induction map with
  | nil => simp [mapAssign]
  | cons entry rest ih =>
      obtain ⟨k, v⟩ := entry
      simp only [List.map_cons, List.pairwise_cons] at h
      obtain ⟨hk, hrest⟩ := h
      simp only [mapAssign]
      split_ifs with hbefore hafter
      · -- the new key goes in front of `k`
        simp only [List.map_cons, List.pairwise_cons, List.mem_cons]
        refine ⟨?_, hk, hrest⟩
        rintro other (rfl | hother)
        · exact hbefore
        · exact hlt.trans _ _ _ hbefore (hk other hother)
      · -- `k` stays in front and the new key goes into the rest
        simp only [List.map_cons, List.pairwise_cons]
        refine ⟨?_, ih hrest⟩
        intro other hother
        rcases mem_keys_mapAssign hother with rfl | hother
        · exact hafter
        · exact hk other hother
      · -- the new value replaces the one of the equal key `k`
        have hkey : key = k := hlt.eq_of_not_lt (Bool.not_eq_true _ ▸ hbefore)
          (Bool.not_eq_true _ ▸ hafter)
        subst hkey
        simp only [List.map_cons, List.pairwise_cons]
        exact ⟨hk, hrest⟩

theorem assignAll_sorted {map : List (κ × β)} (entries : List (κ × β))
    (h : (map.map Prod.fst).Pairwise (fun a b => lt a b = true)) :
    ((assignAll lt map entries).map Prod.fst).Pairwise (fun a b => lt a b = true) := by
  induction entries generalizing map with
  | nil => exact h
  | cons entry rest ih =>
      obtain ⟨k, v⟩ := entry
      rw [assignAll_cons]
      exact ih (mapAssign_sorted hlt h)

/-- A key above every key of the map is added at the end. -/
theorem mapAssign_of_forall_lt {key : κ} {value : β} {map : List (κ × β)}
    (h : ∀ k ∈ map.map Prod.fst, lt k key = true) :
    mapAssign lt key value map = map ++ [(key, value)] := by
  induction map with
  | nil => rfl
  | cons entry rest ih =>
      obtain ⟨k, v⟩ := entry
      have hk : lt k key = true := h k (by simp)
      have hrest : ∀ k ∈ rest.map Prod.fst, lt k key = true := fun k hk => h k (by simp [hk])
      simp [mapAssign, hlt.asymm hk, hk, ih hrest]

/-- Assigning entries whose keys increase past every key of the map appends them. -/
theorem assignAll_of_sorted {map : List (κ × β)} (entries : List (κ × β))
    (h : ((map ++ entries).map Prod.fst).Pairwise (fun a b => lt a b = true)) :
    assignAll lt map entries = map ++ entries := by
  induction entries generalizing map with
  | nil => simp
  | cons entry rest ih =>
      obtain ⟨k, v⟩ := entry
      have hbelow : ∀ k' ∈ map.map Prod.fst, lt k' k = true := by
        simp only [List.map_append, List.map_cons, List.pairwise_append, List.mem_cons] at h
        exact fun k' hk' => h.2.2 k' hk' k (.inl rfl)
      rw [assignAll_cons, mapAssign_of_forall_lt hlt hbelow, ih (by simpa using h)]
      simp

end Order

section Lookup

variable [DecidableEq κ] {lt : κ → κ → Bool}

theorem lookup_cons_eq_ite (key other : κ) (value : β) (rest : List (κ × β)) :
    ((key, value) :: rest).lookup other = if other = key then some value else rest.lookup other := by
  by_cases h : other = key
  · subst h
    simp
  · simp [List.lookup_cons, beq_eq_false_iff_ne.mpr h, h]

/-- A lookup after an assignment sees the assigned value at its key and the old
map elsewhere. -/
theorem lookup_mapAssign (hlt : StrictTotal lt) (key other : κ) (value : β)
    (map : List (κ × β)) :
    (mapAssign lt key value map).lookup other =
      if other = key then some value else map.lookup other := by
  induction map with
  | nil => simp [mapAssign, lookup_cons_eq_ite]
  | cons entry rest ih =>
      obtain ⟨k, v⟩ := entry
      by_cases hbefore : lt key k = true
      · simp only [mapAssign, if_pos hbefore, lookup_cons_eq_ite]
      by_cases hafter : lt k key = true
      · -- `k` is not the assigned key, and the assignment goes into the rest
        have hne : k ≠ key := hlt.ne_of_lt hafter
        simp only [mapAssign, if_neg hbefore, if_pos hafter, lookup_cons_eq_ite, ih]
        by_cases ho : other = k
        · subst ho
          simp [hne]
        · simp [ho]
      · -- the overwritten entry has the assigned key
        have hkey : key = k := hlt.eq_of_not_lt (Bool.not_eq_true _ ▸ hbefore)
          (Bool.not_eq_true _ ▸ hafter)
        subst hkey
        simp only [mapAssign, if_neg hbefore, lookup_cons_eq_ite]
        split_ifs <;> rfl

/-- After assigning entries with distinct keys, a lookup finds the entry's value,
or the map's own where no entry has the key. -/
theorem lookup_assignAll (hlt : StrictTotal lt) (other : κ) (map : List (κ × β))
    (entries : List (κ × β)) (hnodup : (entries.map Prod.fst).Nodup) :
    (assignAll lt map entries).lookup other = (entries.lookup other).or (map.lookup other) := by
  induction entries generalizing map with
  | nil => simp
  | cons entry rest ih =>
      obtain ⟨k, v⟩ := entry
      simp only [List.map_cons, List.nodup_cons] at hnodup
      obtain ⟨hfresh, hrest⟩ := hnodup
      rw [assignAll_cons, ih _ hrest, lookup_mapAssign hlt]
      by_cases ho : other = k
      · -- `k` has no further entry, so its own value is found
        subst ho
        have hnone : rest.lookup other = none := by
          rw [List.lookup_eq_none_iff]
          intro p hp
          have hne : other ≠ p.1 := fun heq => hfresh (heq ▸ List.mem_map_of_mem hp)
          simpa using hne
        simp [hnone]
      · simp [ho, lookup_cons_eq_ite]

/-- Among entries with distinct keys, a key's value is the one beside it. -/
theorem lookup_zip_getElem : ∀ {keys : List κ} {vals : List β} {j : Nat}, keys.Nodup →
    (hj : j < keys.length) → (hv : j < vals.length) → (keys.zip vals).lookup keys[j] = some vals[j]
  | [], _, _, _, hj, _ => absurd hj (Nat.not_lt_zero _)
  | _ :: _, [], _, _, _, hv => absurd hv (Nat.not_lt_zero _)
  | k :: keys, v :: vals, 0, _, _, _ => by simp
  | k :: keys, v :: vals, j + 1, hnodup, hj, hv => by
    have hj' : j < keys.length := by simpa using hj
    have hv' : j < vals.length := by simpa using hv
    have hne : keys[j] ≠ k := fun h => (List.nodup_cons.mp hnodup).1 (h ▸ List.getElem_mem hj')
    rw [List.getElem_cons_succ, List.getElem_cons_succ, List.zip_cons_cons, lookup_cons_eq_ite, if_neg hne]
    exact lookup_zip_getElem (List.nodup_cons.mp hnodup).2 hj' hv'

theorem lookup_zip_eq_none {keys : List κ} {vals : List β} {other : κ} (h : other ∉ keys) :
    (keys.zip vals).lookup other = none := by
  rw [List.lookup_eq_none_iff]
  intro entry hentry
  have hkey : entry.1 ∈ keys := (List.of_mem_zip hentry).1
  simpa using fun heq : other = entry.1 => h (heq ▸ hkey)

/-- The keys of a map after an assignment: the assigned key and the old ones. -/
theorem mem_keys_mapAssign_iff (hlt : StrictTotal lt) {key other : κ} {value : β} {map : List (κ × β)} :
    other ∈ (mapAssign lt key value map).map Prod.fst ↔ other = key ∨ other ∈ map.map Prod.fst := by
  induction map with
  | nil => simp [mapAssign]
  | cons entry rest ih =>
      obtain ⟨k, v⟩ := entry
      by_cases hbefore : lt key k = true
      · simp [mapAssign, hbefore]
      by_cases hafter : lt k key = true
      · simp only [mapAssign, if_neg hbefore, if_pos hafter, List.map_cons, List.mem_cons, ih]
        tauto
      · -- the entry of the equal key `k` is overwritten
        have hkey : key = k := hlt.eq_of_not_lt (Bool.not_eq_true _ ▸ hbefore)
          (Bool.not_eq_true _ ▸ hafter)
        subst hkey
        simp [mapAssign, hbefore]

theorem mem_keys_assignAll_iff (hlt : StrictTotal lt) {other : κ} (map entries : List (κ × β)) :
    other ∈ (assignAll lt map entries).map Prod.fst ↔
      other ∈ map.map Prod.fst ∨ other ∈ entries.map Prod.fst := by
  induction entries generalizing map with
  | nil => simp
  | cons entry rest ih =>
      obtain ⟨k, v⟩ := entry
      rw [assignAll_cons, ih, mem_keys_mapAssign_iff hlt]
      simp only [List.map_cons, List.mem_cons]
      tauto

/-- A map built from nothing has one entry for each distinct key assigned. -/
theorem length_assignAll_nil (hlt : StrictTotal lt) (entries : List (κ × β)) :
    (assignAll lt [] entries).length = (entries.map Prod.fst).toFinset.card := by
  have hsorted : ((assignAll lt [] entries).map Prod.fst).Pairwise (fun a b => lt a b = true) :=
    assignAll_sorted hlt entries List.Pairwise.nil
  have hnodup : ((assignAll lt [] entries).map Prod.fst).Nodup := hsorted.imp (hlt.ne_of_lt ·)
  have hkeys : ((assignAll lt [] entries).map Prod.fst).toFinset = (entries.map Prod.fst).toFinset := by
    ext other
    simp [List.mem_toFinset, mem_keys_assignAll_iff hlt]
  rw [← hkeys, List.toFinset_card_of_nodup hnodup, List.length_map]

/-- A map built from nothing has as many entries as were assigned exactly when no key was
assigned twice. -/
theorem length_assignAll_nil_eq_iff (hlt : StrictTotal lt) (entries : List (κ × β)) :
    (assignAll lt [] entries).length = entries.length ↔ (entries.map Prod.fst).Nodup := by
  rw [length_assignAll_nil hlt, ← List.length_map (f := Prod.fst)]
  exact Multiset.toFinset_card_eq_card_iff_nodup

end Lookup

/-- Assignment commutes with a function applied to the values. -/
theorem map_mapAssign (lt : κ → κ → Bool) (f : β → γ) (key : κ) (value : β)
    (map : List (κ × β)) :
    (mapAssign lt key value map).map (Prod.map id f) =
      mapAssign lt key (f value) (map.map (Prod.map id f)) := by
  induction map with
  | nil => rfl
  | cons entry rest ih =>
      obtain ⟨k, v⟩ := entry
      simp only [mapAssign, List.map_cons, Prod.map_apply, id_eq]
      split_ifs <;> simp [ih]

theorem map_assignAll (lt : κ → κ → Bool) (f : β → γ) (map entries : List (κ × β)) :
    (assignAll lt map entries).map (Prod.map id f) =
      assignAll lt (map.map (Prod.map id f)) (entries.map (Prod.map id f)) := by
  induction entries generalizing map with
  | nil => rfl
  | cons entry rest ih =>
      obtain ⟨k, v⟩ := entry
      rw [assignAll_cons, ih, map_mapAssign]
      rfl

theorem assignAll_map (lt : κ → κ → Bool) (f : β → γ) (entries : List (κ × β)) :
    assignAll lt [] (entries.map (Prod.map id f)) = (assignAll lt [] entries).map (Prod.map id f) :=
  (map_assignAll lt f [] entries).symm

theorem mem_assignAll {lt : κ → κ → Bool} {map entries : List (κ × β)} {entry : κ × β}
    (h : entry ∈ assignAll lt map entries) : entry ∈ map ∨ entry ∈ entries := by
  induction entries generalizing map with
  | nil => exact .inl h
  | cons head rest ih =>
      obtain ⟨k, v⟩ := head
      rw [assignAll_cons] at h
      rcases ih h with h | h
      · -- an entry of the map after one assignment is old or the assigned one
        have hstep : ∀ m : List (κ × β), entry ∈ mapAssign lt k v m → entry ∈ m ∨ entry = (k, v) := by
          intro m
          induction m with
          | nil => simp [mapAssign]
          | cons e es ihm =>
              simp only [mapAssign]
              split_ifs
              · simp only [List.mem_cons]
                tauto
              · simp only [List.mem_cons]
                tauto
              · simp only [List.mem_cons]
                tauto
        rcases hstep map h with h | h
        · exact .inl h
        · exact .inr (h ▸ List.mem_cons_self)
      · exact .inr (List.mem_cons_of_mem _ h)

/-! ## Decimal numerals in length-then-lexicographic order -/

/-- Lists of equal length keep their lexicographic order under any suffixes. -/
theorem append_lt_append_of_length_eq {α : Type u} [LT α] {l₁ l₂ : List α} (a b : List α)
    (hlt : l₁ < l₂) (hlen : l₁.length = l₂.length) : l₁ ++ a < l₂ ++ b := by
  induction l₁ generalizing l₂ with
  | nil =>
      cases l₂ with
      | nil => exact absurd hlt (List.not_lt_nil _)
      | cons y ys => simp at hlen
  | cons x xs ih =>
      cases l₂ with
      | nil => simp at hlen
      | cons y ys =>
          simp only [List.length_cons, Nat.add_right_cancel_iff] at hlen
          rw [List.cons_lt_cons_iff] at hlt
          rw [List.cons_append, List.cons_append, List.cons_lt_cons_iff]
          rcases hlt with hxy | ⟨rfl, hrest⟩
          · exact .inl hxy
          · exact .inr ⟨rfl, ih hrest hlen⟩

theorem digitChar_lt_digitChar {m n : Nat} (hmn : m < n) (hn : n < 10) :
    Nat.digitChar m < Nat.digitChar n := by
  rw [Char.lt_def, UInt32.lt_iff_toNat_lt]
  have hm' := Nat.toNat_digitChar_of_lt_ten (show m < 10 by omega)
  have hn' := Nat.toNat_digitChar_of_lt_ten hn
  simp only [Char.toNat] at hm' hn'
  omega

theorem length_toDigits_le_of_le {m n : Nat} (hmn : m ≤ n) :
    (Nat.toDigits 10 m).length ≤ (Nat.toDigits 10 n).length := by
  have hpos := Nat.length_toDigits_pos (b := 10) (n := n)
  rw [Nat.length_toDigits_le_iff (by decide) hpos]
  exact lt_of_le_of_lt hmn ((Nat.length_toDigits_le_iff (by decide) hpos).mp le_rfl)

/-- Decimal numerals of one length compare lexicographically as their numbers do. -/
theorem toDigits_lt_of_lt {m n : Nat} (hmn : m < n)
    (hlen : (Nat.toDigits 10 m).length = (Nat.toDigits 10 n).length) :
    Nat.toDigits 10 m < Nat.toDigits 10 n := by
  induction n using Nat.strongRecOn generalizing m with
  | ind n ih =>
    by_cases hn : n < 10
    · -- one digit each
      rw [Nat.toDigits_of_lt_base (by omega), Nat.toDigits_of_lt_base hn, List.cons_lt_cons_iff]
      exact .inl (digitChar_lt_digitChar hmn hn)
    · -- `m` has as many digits as `n`, so at least two; compare the leading digits first
      have hlong : ¬ (Nat.toDigits 10 n).length ≤ 1 := by
        rw [Nat.length_toDigits_le_iff (by decide) (by decide)]
        omega
      have hm : 10 ≤ m := by
        by_contra hm
        have hshort : (Nat.toDigits 10 m).length ≤ 1 :=
          (Nat.length_toDigits_le_iff (by decide) (by decide)).mpr (by omega)
        omega
      have hmDigits : Nat.toDigits 10 m = Nat.toDigits 10 (m / 10) ++ [Nat.digitChar (m % 10)] :=
        Nat.toDigits_of_base_le (by decide) hm
      have hnDigits : Nat.toDigits 10 n = Nat.toDigits 10 (n / 10) ++ [Nat.digitChar (n % 10)] :=
        Nat.toDigits_of_base_le (by decide) (by omega)
      rw [hmDigits, hnDigits] at hlen ⊢
      simp only [List.length_append, List.length_singleton, Nat.add_right_cancel_iff] at hlen
      rcases Nat.lt_or_eq_of_le (Nat.div_le_div_right (c := 10) hmn.le) with hdiv | hdiv
      · exact append_lt_append_of_length_eq _ _ (ih (n / 10) (by omega) hdiv hlen) hlen
      · rw [hdiv]
        apply List.append_left_lt
        rw [List.cons_lt_cons_iff]
        exact .inl (digitChar_lt_digitChar (by omega) (Nat.mod_lt _ (by decide)))

/-- A larger number has a longer decimal numeral, or one of the same length that
comes later character by character. -/
theorem toDigits_shortlex_of_lt {m n : Nat} (hmn : m < n) :
    (Nat.toDigits 10 m).length < (Nat.toDigits 10 n).length ∨
      ((Nat.toDigits 10 m).length = (Nat.toDigits 10 n).length ∧
        Nat.toDigits 10 m < Nat.toDigits 10 n) := by
  rcases Nat.lt_or_eq_of_le (length_toDigits_le_of_le hmn.le) with hlen | hlen
  · exact .inl hlen
  · exact .inr ⟨hlen, toDigits_lt_of_lt hmn hlen⟩

end UnitedBitcoin.Library
