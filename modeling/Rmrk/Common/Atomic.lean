import Rmrk.Common.Effect
/-!
# All or nothing without a rollback

A call that is not `transactional` is all or nothing still if it aborts
before its first write only. So it is in two parts: what is run first
reads, and what is run from the first write on cannot abort.
-/

namespace Effect

variable {ε σ α β : Type}

/-- **An abort leaves the store as it was found.** -/
def Atomic (m : EStateM ε σ α) : Prop :=
  ∀ s e s', m s = .error e s' → s' = s

/-- **A call that only reads**: it leaves the store as it was found whether
it returns or aborts. -/
structure Reads (m : EStateM ε σ α) : Prop where
  ok : ∀ s a s', m s = .ok a s' → s' = s
  atomic : Atomic m

/-- **A call that cannot abort.** -/
def Completes (m : EStateM ε σ α) : Prop :=
  ∀ s e s', m s ≠ .error e s'

variable {m : EStateM ε σ α} {f : α → EStateM ε σ β} {e : ε}

namespace Completes

theorem atomic (h : Completes m) : Atomic m :=
  fun s e s' hm => absurd hm (h s e s')

theorem pure {a : α} : Completes (pure a : EStateM ε σ α) :=
  fun _ _ _ h => (pure_error.1 h).elim

theorem update {g : σ → σ} : Completes (update g : EStateM ε σ Unit) :=
  fun _ _ _ h => (update_error.1 h).elim

theorem bind (h : Completes m) (h' : ∀ a, Completes (f a)) : Completes (m >>= f) := by
  intro s e s' hm
  rcases bind_error.1 hm with hm | ⟨a, t, -, hf⟩
  · exact h s e s' hm
  · exact h' a t e s' hf

/-- A loop of passes that cannot abort. -/
theorem each {f : α → EStateM ε σ Unit} {as : List α} (h : ∀ a, Completes (f a)) :
    Completes (each f as) := by
  induction as with
  | nil => exact pure
  | cons a as ih => exact (h a).bind fun _ => ih

end Completes

namespace Reads

theorem get : Reads (get : EStateM ε σ σ) where
  ok _ _ _ h := (get_ok.1 h).2.symm
  atomic _ _ _ h := by cases h

theorem throw : Reads (throw e : EStateM ε σ α) where
  ok _ _ _ h := (throw_ok.1 h).elim
  atomic _ _ _ h := (throw_error.1 h).2.symm

theorem ensure {p : Prop} [Decidable p] : Reads (ensure p e : EStateM ε σ Unit) where
  ok _ _ _ h := (ensure_ok.1 h).2.symm
  atomic _ _ _ h := (ensure_error.1 h).2.2.symm

theorem okOr {o : Option α} : Reads (okOr o e : EStateM ε σ α) where
  ok _ _ _ h := (okOr_ok.1 h).2.symm
  atomic s e s' h := by
    cases o with
    | none => exact (throw_error.1 h).2.symm
    | some a => exact (pure_error.1 h).elim

theorem ofResult {x : Except ε α} : Reads (ofResult x : EStateM ε σ α) where
  ok _ _ _ h := (ofResult_ok.1 h).2.symm
  atomic s e s' h := by
    cases x with
    | error e => exact (throw_error.1 h).2.symm
    | ok a => exact (pure_error.1 h).elim

/-- **What comes before the first write** aborts, if it does, in the store
as it was found. -/
theorem bind (h : Reads m) (h' : ∀ a, Atomic (f a)) : Atomic (m >>= f) := by
  intro s e s' hm
  rcases bind_error.1 hm with hm | ⟨a, t, hm, hf⟩
  · exact h.atomic s e s' hm
  · obtain rfl := h.ok s a t hm
    exact h' a t e s' hf

end Reads

namespace Atomic

/-- **What comes after an all or nothing call** must not abort any more. -/
theorem bind (h : Atomic m) (h' : ∀ a, Completes (f a)) : Atomic (m >>= f) := by
  intro s e s' hm
  rcases bind_error.1 hm with hm | ⟨a, t, -, hf⟩
  · exact h s e s' hm
  · exact absurd hf (h' a t e s')

theorem ite {p : Prop} [Decidable p] {m' : EStateM ε σ α} (h : Atomic m) (h' : Atomic m') :
    Atomic (if p then m else m') := by
  split
  · exact h
  · exact h'

theorem transactional : Atomic (transactional m) :=
  fun _ _ _ h => transactional_error h

end Atomic

end Effect
