import Mathlib

/-!
# Folding the entries of one finite map into another, key by key

Writing a batch of changes into a store walks the entries of a change map and
updates the store at each entry's key. When every update touches only its own
key and the change map has no repeated key, the result can be read key by key:
a key the batch does not mention keeps its value, a key it mentions gets the
update of its old value by its one entry. The fallible version adds that the
walk succeeds when no single update fails on the store's original value at its
key.
-/

namespace UnitedBitcoin.Library

universe u v w x

variable {κ : Type u} [DecidableEq κ] {β : Type v} {γ : Type w} {ε : Type x}

/-- The value at `key` after a batch whose entries update their key by
`update`, read off the batch's own entry for `key`. -/
def batchValue (update : Option γ → β → Option γ) (batch : List (Σ _ : κ, β))
    (old : Option γ) (key : κ) : Option γ :=
  match batch.dlookup key with
  | some entry => update old entry
  | none => old

theorem batchValue_of_dlookup_none {update : Option γ → β → Option γ} {batch : List (Σ _ : κ, β)}
    {old : Option γ} {key : κ} (h : batch.dlookup key = none) :
    batchValue update batch old key = old := by
  simp [batchValue, h]

theorem batchValue_of_dlookup_some {update : Option γ → β → Option γ} {batch : List (Σ _ : κ, β)}
    {old : Option γ} {key : κ} {entry : β} (h : batch.dlookup key = some entry) :
    batchValue update batch old key = update old entry := by
  simp [batchValue, h]

/-- A store update that acts at one key only. -/
def UpdatesOneKey (apply : AList (fun _ : κ => γ) → κ → β → AList (fun _ : κ => γ))
    (update : Option γ → β → Option γ) : Prop :=
  ∀ store key entry,
    (apply store key entry).lookup key = update (store.lookup key) entry ∧
      ∀ other, other ≠ key → (apply store key entry).lookup other = store.lookup other

/-- Pointwise reading of a batch fold, by induction on the batch. -/
theorem lookup_foldl_of_updatesOneKey
    {apply : AList (fun _ : κ => γ) → κ → β → AList (fun _ : κ => γ)}
    {update : Option γ → β → Option γ} (happly : UpdatesOneKey apply update) :
    ∀ (batch : List (Σ _ : κ, β)), batch.NodupKeys → ∀ (store : AList (fun _ : κ => γ)) key,
      (batch.foldl (fun acc entry => apply acc entry.1 entry.2) store).lookup key =
        batchValue update batch (store.lookup key) key
  | [], _, store, key => rfl
  | ⟨first, entry⟩ :: rest, hnodup, store, key => by
      have hfirst : first ∉ rest.keys := List.notMem_keys_of_nodupKeys_cons hnodup
      have hrest : rest.NodupKeys := (List.nodupKeys_cons.mp hnodup).2
      rw [List.foldl_cons, lookup_foldl_of_updatesOneKey happly rest hrest]
      by_cases hkey : key = first
      · subst hkey
        have hnone : rest.dlookup key = none := List.dlookup_eq_none.mpr hfirst
        simp [batchValue, hnone, List.dlookup_cons_eq, (happly store key entry).1]
      · simp only [batchValue, List.dlookup_cons_ne (β := fun _ : κ => β) rest ⟨first, entry⟩ hkey]
        rw [(happly store first entry).2 key hkey]

/-- A fallible store update that acts at one key only and fails only when
`Fails` holds of the old value at its key and the entry. -/
def UpdatesOneKeyOrFails (apply : AList (fun _ : κ => γ) → κ → β → Except ε (AList (fun _ : κ => γ)))
    (update : Option γ → β → Option γ) (Fails : Option γ → β → Prop) : Prop :=
  ∀ store key entry, ¬ Fails (store.lookup key) entry →
    ∃ next, apply store key entry = .ok next ∧
      next.lookup key = update (store.lookup key) entry ∧
      ∀ other, other ≠ key → next.lookup other = store.lookup other

/-- The fallible batch fold succeeds when no entry fails against the original
store, and it is then read pointwise. -/
theorem foldlM_of_updatesOneKeyOrFails
    {apply : AList (fun _ : κ => γ) → κ → β → Except ε (AList (fun _ : κ => γ))}
    {update : Option γ → β → Option γ} {Fails : Option γ → β → Prop}
    (happly : UpdatesOneKeyOrFails apply update Fails) :
    ∀ (batch : List (Σ _ : κ, β)), batch.NodupKeys → ∀ (store : AList (fun _ : κ => γ)),
      (∀ item ∈ batch, ¬ Fails (store.lookup item.1) item.2) →
      ∃ result, batch.foldlM (fun acc entry => apply acc entry.1 entry.2) store = .ok result ∧
        ∀ key, result.lookup key = batchValue update batch (store.lookup key) key
  | [], _, store, _ => ⟨store, rfl, fun _ => rfl⟩
  | ⟨first, entry⟩ :: rest, hnodup, store, hgood => by
      have hfirst : first ∉ rest.keys := List.notMem_keys_of_nodupKeys_cons hnodup
      have hrest : rest.NodupKeys := (List.nodupKeys_cons.mp hnodup).2
      obtain ⟨next, hnext, hnextKey, hnextOther⟩ :=
        happly store first entry (hgood ⟨first, entry⟩ List.mem_cons_self)
      have hgoodRest : ∀ item ∈ rest, ¬ Fails (next.lookup item.1) item.2 := by
        intro item hitem
        have hne : item.1 ≠ first := fun heq => hfirst (heq ▸ List.mem_keys_of_mem hitem)
        rw [hnextOther item.1 hne]
        exact hgood item (List.mem_cons_of_mem _ hitem)
      obtain ⟨result, hresult, hlookup⟩ :=
        foldlM_of_updatesOneKeyOrFails happly rest hrest next hgoodRest
      refine ⟨result, ?_, fun key => ?_⟩
      · simp only [List.foldlM_cons, hnext]
        exact hresult
      · rw [hlookup key]
        by_cases hkey : key = first
        · subst hkey
          have hnone : rest.dlookup key = none := List.dlookup_eq_none.mpr hfirst
          simp [batchValue, hnone, List.dlookup_cons_eq, hnextKey]
        · simp only [batchValue, List.dlookup_cons_ne (β := fun _ : κ => β) rest ⟨first, entry⟩ hkey]
          rw [hnextOther key hkey]

end UnitedBitcoin.Library
