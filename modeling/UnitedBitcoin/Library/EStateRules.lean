import Mathlib

/-!
# Frame, invariant and commutation rules for `EStateM` programs

A program of `EStateM ε σ` ends in a state whether it returns or throws.

* `Guarantees R x`: every run of `x` ends in a state related by `R` to the one
  it started in. For a reflexive and transitive `R` this is closed under
  `pure`, `throw`, `>>=` and `List.forM`, so it is proved of a whole program
  from its primitive steps.
* `Commutes f x`: the state map `f` can be applied before `x` or to the state
  `x` ends in, with the same outcome; `x` neither reads nor writes what `f`
  changes. It is closed under the same combinators.
* `Compositional P`: a property of programs that holds of `pure` and `throw`
  and is closed under `>>=`, and so under `List.forM`; `Guarantees R` and
  `Commutes f` are both compositional, so one proof that a program is built
  from steps with a compositional property serves all of them.
* `Triple P x Q`: every run of `x` from a state satisfying `P` that returns
  ends in a state satisfying `Q` of its result (partial correctness for the
  returning runs), with the sequencing and loop rules.

The bind equations and their inversions let a proof follow one run through a
program without unfolding `EStateM.bind`.
-/

namespace UnitedBitcoin.Library

universe u

variable {ε σ α β : Type u}

/-- The state a run ends in, whether it returns or throws. -/
def resultState : EStateM.Result ε σ α → σ
  | .ok _ s => s
  | .error _ s => s

@[simp]
theorem resultState_ok (a : α) (s : σ) : resultState (.ok a s : EStateM.Result ε σ α) = s := rfl

@[simp]
theorem resultState_error (e : ε) (s : σ) :
    resultState (.error e s : EStateM.Result ε σ α) = s := rfl

/-- Whether a run returned, as a test a run on fixed inputs can decide. -/
def returned : EStateM.Result ε σ α → Bool
  | .ok _ _ => true
  | .error _ _ => false

/-- A run that returned did so in the state it ends in. -/
theorem eq_ok_of_returned {r : EStateM.Result ε σ α} (h : returned r = true) :
    ∃ a, r = .ok a (resultState r) := by
  cases r with
  | ok a s => exact ⟨a, rfl⟩
  | error e s => cases h

/-- A run that did not return threw in the state it ends in. -/
theorem eq_error_of_returned_eq_false {r : EStateM.Result ε σ α} (h : returned r = false) :
    ∃ e, r = .error e (resultState r) := by
  cases r with
  | ok a s => cases h
  | error e s => exact ⟨e, rfl⟩

/-- Apply a map to the state a run ends in. -/
def mapResultState (f : σ → σ) : EStateM.Result ε σ α → EStateM.Result ε σ α
  | .ok a s => .ok a (f s)
  | .error e s => .error e (f s)

@[simp]
theorem mapResultState_ok (f : σ → σ) (a : α) (s : σ) :
    mapResultState f (.ok a s : EStateM.Result ε σ α) = .ok a (f s) := rfl

@[simp]
theorem mapResultState_error (f : σ → σ) (e : ε) (s : σ) :
    mapResultState f (.error e s : EStateM.Result ε σ α) = .error e (f s) := rfl

/-! ## Running binds -/

section Bind

variable {x : EStateM ε σ α} {f : α → EStateM ε σ β} {s : σ}

@[simp]
theorem estate_pure_apply (a : α) (s : σ) : (pure a : EStateM ε σ α) s = .ok a s := rfl

@[simp]
theorem estate_throw_apply (e : ε) (s : σ) : (throw e : EStateM ε σ α) s = .error e s := rfl

@[simp]
theorem estate_get_apply (s : σ) : (get : EStateM ε σ σ) s = .ok s s := rfl

@[simp]
theorem estate_modify_apply (f : σ → σ) (s : σ) :
    (modify f : EStateM ε σ PUnit) s = .ok ⟨⟩ (f s) := rfl

theorem estate_bind_apply (x : EStateM ε σ α) (f : α → EStateM ε σ β) (s : σ) :
    (x >>= f) s = match x s with
      | .ok a s' => f a s'
      | .error e s' => .error e s' := by
  show EStateM.bind x f s = _
  unfold EStateM.bind
  cases x s <;> rfl

@[simp]
theorem estate_map_apply (g : α → β) (x : EStateM ε σ α) (s : σ) :
    (g <$> x) s = match x s with
      | .ok a s' => .ok (g a) s'
      | .error e s' => .error e s' := by
  show EStateM.map g x s = _
  unfold EStateM.map
  cases x s <;> rfl

theorem bind_apply_of_ok {a : α} {s' : σ} (h : x s = .ok a s') : (x >>= f) s = f a s' := by
  rw [estate_bind_apply, h]

theorem bind_apply_of_error {e : ε} {s' : σ} (h : x s = .error e s') :
    (x >>= f) s = .error e s' := by
  rw [estate_bind_apply, h]

/-- A bind returns exactly when its first program returns and the rest
returns from there. -/
theorem bind_eq_ok {b : β} {t : σ} :
    (x >>= f) s = .ok b t ↔ ∃ a s', x s = .ok a s' ∧ f a s' = .ok b t := by
  rw [estate_bind_apply]
  cases hx : x s with
  | ok a s' => simp
  | error e s' => simp

end Bind

/-! ## Guarantees -/

/-- Every run of `x`, returning or throwing, ends in a state related by `R` to
its initial state. -/
def Guarantees (R : σ → σ → Prop) (x : EStateM ε σ α) : Prop :=
  ∀ s, R s (resultState (x s))

section Guarantees

variable {R : σ → σ → Prop}

theorem guarantees_pure [Std.Refl R] (a : α) : Guarantees R (pure a : EStateM ε σ α) :=
  fun s => Std.Refl.refl s

theorem guarantees_throw [Std.Refl R] (e : ε) : Guarantees R (throw e : EStateM ε σ α) :=
  fun s => Std.Refl.refl s

theorem guarantees_bind [IsTrans σ R] {x : EStateM ε σ α} {f : α → EStateM ε σ β}
    (hx : Guarantees R x) (hf : ∀ a, Guarantees R (f a)) : Guarantees R (x >>= f) := by
  intro s
  rw [estate_bind_apply]
  cases hrun : x s with
  | ok a s' =>
      have first : R s s' := by simpa [hrun] using hx s
      exact trans_of R first (hf a s')
  | error e s' => simpa [hrun] using hx s

theorem guarantees_forM [Std.Refl R] [IsTrans σ R] (f : α → EStateM ε σ PUnit) :
    ∀ xs : List α, (∀ a ∈ xs, Guarantees R (f a)) → Guarantees R (xs.forM f)
  | [], _ => guarantees_pure _
  | a :: rest, h => by
      show Guarantees R (f a >>= fun _ => rest.forM f)
      apply guarantees_bind (h a List.mem_cons_self)
      intro _
      exact guarantees_forM f rest fun b hb => h b (List.mem_cons_of_mem a hb)

/-- A run that returns ends in a state related to its start. -/
theorem guarantees_apply_ok {x : EStateM ε σ α} (hx : Guarantees R x) {s t : σ} {a : α}
    (h : x s = .ok a t) : R s t := by
  have hrun := hx s
  rwa [h, resultState_ok] at hrun

theorem guarantees_of_imp {R' : σ → σ → Prop} (himp : ∀ s t, R s t → R' s t)
    {x : EStateM ε σ α} (hx : Guarantees R x) : Guarantees R' x :=
  fun s => himp _ _ (hx s)

end Guarantees

/-! ## Commuting with a state map -/

/-- Applying `f` before `x` is applying it to the state `x` ends in, with the
same result. -/
def Commutes (f : σ → σ) (x : EStateM ε σ α) : Prop :=
  ∀ s, x (f s) = mapResultState f (x s)

section Commutes

variable {f : σ → σ}

theorem commutes_pure (a : α) : Commutes f (pure a : EStateM ε σ α) :=
  fun _ => rfl

theorem commutes_throw (e : ε) : Commutes f (throw e : EStateM ε σ α) :=
  fun _ => rfl

theorem commutes_bind {x : EStateM ε σ α} {g : α → EStateM ε σ β}
    (hx : Commutes f x) (hg : ∀ a, Commutes f (g a)) : Commutes f (x >>= g) := by
  intro s
  rw [estate_bind_apply, estate_bind_apply, hx s]
  cases x s with
  | ok a s' => exact hg a s'
  | error e s' => rfl

/-- A program that commutes with `f` returns from `f s` exactly when it
returns from `s`, and then in the image of its state from `s`. -/
theorem commutes_eq_ok {x : EStateM ε σ α} (hx : Commutes f x) {s t : σ} {a : α} :
    x (f s) = .ok a t ↔ ∃ t₀, x s = .ok a t₀ ∧ t = f t₀ := by
  rw [hx s]
  cases x s with
  | ok b t₀ => simp [eq_comm]
  | error e t₀ => simp

theorem commutes_forM (g : α → EStateM ε σ PUnit) :
    ∀ xs : List α, (∀ a ∈ xs, Commutes f (g a)) → Commutes f (xs.forM g)
  | [], _ => commutes_pure _
  | a :: rest, h => by
      show Commutes f (g a >>= fun _ => rest.forM g)
      apply commutes_bind (h a List.mem_cons_self)
      intro _
      exact commutes_forM g rest fun b hb => h b (List.mem_cons_of_mem a hb)

end Commutes

/-! ## Compositional properties -/

/-- A property of programs that holds of `pure` and `throw` and is closed
under `>>=`. -/
structure Compositional (P : ∀ α : Type u, EStateM ε σ α → Prop) : Prop where
  pure : ∀ {α : Type u} (a : α), P α (pure a)
  throw : ∀ {α : Type u} (e : ε), P α (throw e)
  bind : ∀ {α β : Type u} {x : EStateM ε σ α} {g : α → EStateM ε σ β},
    P α x → (∀ a, P β (g a)) → P β (x >>= g)

theorem Compositional.forM {P : ∀ α : Type u, EStateM ε σ α → Prop} (hP : Compositional P)
    (g : α → EStateM ε σ PUnit) : ∀ xs : List α, (∀ a ∈ xs, P PUnit (g a)) → P PUnit (xs.forM g)
  | [], _ => hP.pure PUnit.unit
  | a :: rest, h => by
      show P PUnit (g a >>= fun _ => rest.forM g)
      exact hP.bind (h a List.mem_cons_self) fun _ =>
        hP.forM g rest fun b hb => h b (List.mem_cons_of_mem a hb)

theorem compositional_guarantees (R : σ → σ → Prop) [Std.Refl R] [IsTrans σ R] :
    Compositional (ε := ε) fun _ x => Guarantees R x where
  pure := guarantees_pure
  throw := guarantees_throw
  bind := guarantees_bind

theorem compositional_commutes (f : σ → σ) : Compositional (ε := ε) fun _ x => Commutes f x where
  pure := commutes_pure
  throw := commutes_throw
  bind := commutes_bind

/-! ## Pre- and postconditions of returning runs -/

/-- Every run of `x` from a state satisfying `P` that returns `a` in state `t`
satisfies `Q a t`. -/
def Triple (P : σ → Prop) (x : EStateM ε σ α) (Q : α → σ → Prop) : Prop :=
  ∀ s a t, P s → x s = .ok a t → Q a t

section Triple

variable {P : σ → Prop}

theorem triple_pure (Q : α → σ → Prop) (a : α) : Triple (Q a) (pure a : EStateM ε σ α) Q := by
  intro s b t hs hrun
  cases hrun
  exact hs

theorem triple_bind {x : EStateM ε σ α} {g : α → EStateM ε σ β} {Q : α → σ → Prop}
    {S : β → σ → Prop} (hx : Triple P x Q) (hg : ∀ a, Triple (Q a) (g a) S) :
    Triple P (x >>= g) S := by
  intro s b t hs hrun
  obtain ⟨a, s', hfirst, hrest⟩ := bind_eq_ok.mp hrun
  exact hg a s' b t (hx s a s' hs hfirst) hrest

/-- Only the last program of a bind decides a postcondition that holds from
every state. -/
theorem triple_bind_of_right {x : EStateM ε σ α} {g : α → EStateM ε σ β} {S : β → σ → Prop}
    (hg : ∀ a, Triple (fun _ => True) (g a) S) : Triple P (x >>= g) S :=
  triple_bind (Q := fun _ _ => True) (fun _ _ _ _ _ => trivial) hg

/-- The loop rule: an invariant kept by every iteration is kept by the loop. -/
theorem triple_forM (I : σ → Prop) (g : α → EStateM ε σ PUnit) :
    ∀ xs : List α, (∀ a ∈ xs, Triple I (g a) fun _ => I) → Triple I (xs.forM g) fun _ => I
  | [], _ => triple_pure (fun _ => I) PUnit.unit
  | a :: rest, h => by
      show Triple I (g a >>= fun _ => rest.forM g) fun _ => I
      exact triple_bind (h a List.mem_cons_self) fun _ =>
        triple_forM I g rest fun b hb => h b (List.mem_cons_of_mem a hb)

end Triple

end UnitedBitcoin.Library
