import Mathlib.Logic.Basic
/-!
# Calls over a store

A call reads and writes a store and either returns or aborts. An abort
keeps what was written before it, unless the call is `transactional`.
What a proof needs of a call that returned is read off it by inversion:
each rule here takes one operation apart, and `simp` with the rules takes
apart a whole body.
-/

namespace Effect

variable {ε σ α β : Type}

/-- Go on only if `p` holds. -/
def ensure (p : Prop) [Decidable p] (e : ε) : EStateM ε σ Unit :=
  if p then pure () else throw e

/-- The value of an option, or the abort `e` where there is none. -/
def okOr (o : Option α) (e : ε) : EStateM ε σ α :=
  match o with
  | some a => pure a
  | none => throw e

/-- The value of a fallible computation that does not touch the store. -/
def ofResult (x : Except ε α) : EStateM ε σ α :=
  match x with
  | .ok a => pure a
  | .error e => throw e

/-- Write the store. -/
def update (f : σ → σ) : EStateM ε σ Unit :=
  fun s => .ok () (f s)

/-- **All or nothing**: an abort puts the store back as it was found. -/
def transactional (m : EStateM ε σ α) : EStateM ε σ α := fun s =>
  match m s with
  | .ok a s' => .ok a s'
  | .error e _ => .error e s

/-- Run a call on each element in turn. -/
def each (f : α → EStateM ε σ Unit) : List α → EStateM ε σ Unit
  | [] => pure ()
  | a :: as => do
      f a
      each f as

/-! ## Inversion -/

variable {s s' : σ} {a b : α} {e : ε}

@[simp] theorem pure_ok : (pure a : EStateM ε σ α) s = .ok b s' ↔ a = b ∧ s = s' := by
  simp [pure, EStateM.pure]

@[simp] theorem throw_ok : (throw e : EStateM ε σ α) s = .ok b s' ↔ False := by
  refine iff_of_false (fun h => ?_) id
  change EStateM.Result.error e s = _ at h
  cases h

/-- What returned from a sequence returned from both of its parts. -/
@[simp] theorem bind_ok {m : EStateM ε σ α} {f : α → EStateM ε σ β} {b : β} :
    (m >>= f) s = .ok b s' ↔ ∃ a s₁, m s = .ok a s₁ ∧ f a s₁ = .ok b s' := by
  simp only [bind, EStateM.bind]
  cases h : m s with
  | ok a s₁ =>
      simp only [EStateM.Result.ok.injEq]
      exact ⟨fun h => ⟨a, s₁, ⟨rfl, rfl⟩, h⟩, by rintro ⟨_, _, ⟨rfl, rfl⟩, h⟩; exact h⟩
  | error e s₁ => simp

@[simp] theorem get_ok {t : σ} : (get : EStateM ε σ σ) s = .ok t s' ↔ s = t ∧ s = s' := by
  change EStateM.Result.ok s s = _ ↔ _
  simp

@[simp] theorem update_ok {f : σ → σ} {u : Unit} :
    (update f : EStateM ε σ Unit) s = .ok u s' ↔ f s = s' := by
  simp [update]

@[simp] theorem ensure_ok {p : Prop} [Decidable p] {u : Unit} :
    (ensure p e : EStateM ε σ Unit) s = .ok u s' ↔ p ∧ s = s' := by
  unfold ensure
  split <;> simp [*]

@[simp] theorem okOr_ok {o : Option α} :
    (okOr o e : EStateM ε σ α) s = .ok b s' ↔ o = some b ∧ s = s' := by
  cases o <;> simp [okOr]

@[simp] theorem ofResult_ok {x : Except ε α} :
    (ofResult x : EStateM ε σ α) s = .ok b s' ↔ x = .ok b ∧ s = s' := by
  cases x <;> simp [ofResult]

/-! In a sequence what comes first need not be named where it is one of
the operations above. -/

section Sequence

variable {f : α → EStateM ε σ β} {g : Unit → EStateM ε σ β} {k : σ → EStateM ε σ β} {b : β}

theorem get_bind : ((get : EStateM ε σ σ) >>= k) s = k s s := rfl

@[simp] theorem get_bind_ok :
    ((get : EStateM ε σ σ) >>= k) s = .ok b s' ↔ k s s = .ok b s' := Iff.rfl

@[simp] theorem update_bind_ok {h : σ → σ} :
    ((update h : EStateM ε σ Unit) >>= g) s = .ok b s' ↔ g () (h s) = .ok b s' := Iff.rfl

@[simp] theorem pure_bind_ok {a : α} :
    ((pure a : EStateM ε σ α) >>= f) s = .ok b s' ↔ f a s = .ok b s' := Iff.rfl

@[simp] theorem ensure_bind_ok {p : Prop} [Decidable p] :
    ((ensure p e : EStateM ε σ Unit) >>= g) s = .ok b s' ↔ p ∧ g () s = .ok b s' := by
  unfold ensure
  split
  · next hp => simp [hp]
  · next hp =>
      simp only [bind_ok, throw_ok, hp, false_and]
      simp

@[simp] theorem okOr_bind_ok {o : Option α} :
    ((okOr o e : EStateM ε σ α) >>= f) s = .ok b s' ↔ ∃ a, o = some a ∧ f a s = .ok b s' := by
  cases o with
  | none => simp [okOr]
  | some a => simp [okOr]

@[simp] theorem ofResult_bind_ok {x : Except ε α} :
    ((ofResult x : EStateM ε σ α) >>= f) s = .ok b s' ↔ ∃ a, x = .ok a ∧ f a s = .ok b s' := by
  cases x with
  | error e => simp [ofResult]
  | ok a => simp [ofResult]

end Sequence

@[simp] theorem transactional_ok {m : EStateM ε σ α} :
    transactional m s = .ok b s' ↔ m s = .ok b s' := by
  unfold transactional
  cases h : m s <;> simp

/-! ## Aborts

Where a call aborts, one of its parts did, in the store the parts before
it left. -/

section Abort

variable {m : EStateM ε σ α} {f : α → EStateM ε σ β} {g : Unit → EStateM ε σ β} {e' : ε}

/-- What follows a call that returned is run in what it left. -/
theorem bind_of_ok (h : m s = .ok a s') : (m >>= f) s = f a s' := by
  simp only [bind, EStateM.bind, h]

/-- What follows a call that aborted is not run. -/
theorem bind_of_error (h : m s = .error e s') : (m >>= f) s = .error e s' := by
  simp only [bind, EStateM.bind, h]

/-- **What aborted in a sequence** is its first part, or the second after
the first had returned. -/
theorem bind_error : (m >>= f) s = .error e s' ↔
    m s = .error e s' ∨ ∃ a s₁, m s = .ok a s₁ ∧ f a s₁ = .error e s' := by
  simp only [bind, EStateM.bind]
  cases h : m s with
  | ok a s₁ =>
      simp only [reduceCtorEq, EStateM.Result.ok.injEq, false_or]
      exact ⟨fun h => ⟨a, s₁, ⟨rfl, rfl⟩, h⟩, by rintro ⟨_, _, ⟨rfl, rfl⟩, h⟩; exact h⟩
  | error e' s₁ => simp

@[simp] theorem pure_error : (pure a : EStateM ε σ α) s = .error e s' ↔ False := by
  simp [pure, EStateM.pure]

@[simp] theorem throw_error : (throw e : EStateM ε σ α) s = .error e' s' ↔ e = e' ∧ s = s' := by
  change EStateM.Result.error e s = _ ↔ _
  simp

@[simp] theorem update_error {h : σ → σ} :
    (update h : EStateM ε σ Unit) s = .error e s' ↔ False := by
  simp [update]

/-- A check that holds is no step. -/
theorem ensure_of {p : Prop} [Decidable p] (hp : p) : (ensure p e : EStateM ε σ Unit) = pure () :=
  if_pos hp

@[simp] theorem ensure_error {p : Prop} [Decidable p] :
    (ensure p e : EStateM ε σ Unit) s = .error e' s' ↔ ¬ p ∧ e = e' ∧ s = s' := by
  by_cases hp : p <;> simp [ensure, hp]

theorem ensure_bind_error {p : Prop} [Decidable p] :
    ((ensure p e : EStateM ε σ Unit) >>= g) s = .error e' s' ↔
      ¬ p ∧ e = e' ∧ s = s' ∨ p ∧ g () s = .error e' s' := by
  by_cases hp : p
  · rw [ensure_of hp]
    simp [hp]
  · simp [bind_error, hp]

theorem okOr_bind_error {o : Option α} : ((okOr o e : EStateM ε σ α) >>= f) s = .error e' s' ↔
    o = none ∧ e = e' ∧ s = s' ∨ ∃ a, o = some a ∧ f a s = .error e' s' := by
  cases o with
  | none => simp [okOr, bind_error]
  | some a =>
      have hok : (okOr (some a) e : EStateM ε σ α) s = .ok a s := by simp
      simp [bind_of_ok hok]

end Abort

/-- What a transaction that aborts leaves. -/
theorem transactional_error {m : EStateM ε σ α} (h : transactional m s = .error e s') : s' = s := by
  unfold transactional at h
  cases hm : m s with
  | ok a t => simp [hm] at h
  | error e' t =>
      simp only [hm, EStateM.Result.error.injEq] at h
      exact h.2.symm

/-- A transaction that does not return leaves what it found. -/
theorem transactional_of_not_ok {m : EStateM ε σ α} (h : ∀ a s', m s ≠ .ok a s') :
    ∃ e, transactional m s = .error e s := by
  unfold transactional
  cases hm : m s with
  | ok a t => exact absurd hm (h a t)
  | error e t => exact ⟨e, rfl⟩

/-- One that aborts leaves what it found. -/
theorem transactional_of_error {m : EStateM ε σ α} (h : m s = .error e s') :
    transactional m s = .error e s := by
  simp only [transactional, h]

/-- **The loop rule.** What every pass preserves, the loop preserves. -/
theorem each_ok {f : α → EStateM ε σ Unit} {P : σ → σ → Prop} (hrefl : ∀ s, P s s)
    (htrans : ∀ s₁ s₂ s₃, P s₁ s₂ → P s₂ s₃ → P s₁ s₃) {as : List α}
    (hf : ∀ a ∈ as, ∀ s s' u, f a s = .ok u s' → P s s') {u : Unit} (h : each f as s = .ok u s') :
    P s s' := by
  induction as generalizing s with
  | nil =>
      simp only [each, pure_ok] at h
      exact h.2 ▸ hrefl s
  | cons a as ih =>
      simp only [each, bind_ok] at h
      obtain ⟨u₁, s₁, h₁, h₂⟩ := h
      exact htrans _ _ _ (hf a (by simp) _ _ _ h₁)
        (ih (fun a' ha' => hf a' (by simp [ha'])) h₂)

end Effect
