import Rmrk.Common.Effect
/-!
# Errors that do not occur

A call spares an error where it does not abort with it. Unlike a frame
this is a matter of the store the call is run in: what is run later is run
in what the calls before it have left, which may be known.
-/

namespace Effect

variable {ε σ α β : Type}

/-- **A call run in `s` does not abort with `e`.** -/
def Spares (e : ε) (m : EStateM ε σ α) (s : σ) : Prop := ∀ s', m s ≠ .error e s'

namespace Spares

variable {e e' : ε} {m : EStateM ε σ α} {f : α → EStateM ε σ β} {g : Unit → EStateM ε σ β} {s : σ}

/-- A value is no abort. -/
theorem pure {a : α} : Spares e (pure a : EStateM ε σ α) s := fun _ h => (pure_error.1 h).elim

/-- An abort with another error is none with `e`. -/
theorem throw (he : e' ≠ e) : Spares e (throw e' : EStateM ε σ α) s :=
  fun _ h => he (throw_error.1 h).1

theorem update {k : σ → σ} : Spares e (update k : EStateM ε σ Unit) s :=
  fun _ h => (update_error.1 h).elim

theorem ensure {p : Prop} [Decidable p] (he : e' ≠ e) :
    Spares e (ensure p e' : EStateM ε σ Unit) s :=
  fun _ h => he (ensure_error.1 h).2.1

/-- **The rule for a sequence**: the second part is run in what the first
has left. -/
theorem bind (h : Spares e m s) (h' : ∀ a t, m s = .ok a t → Spares e (f a) t) :
    Spares e (m >>= f) s := by
  intro s' hm
  rcases bind_error.1 hm with hm | ⟨a, t, hm, hf⟩
  · exact h s' hm
  · exact h' a t hm s' hf

/-! In a sequence what comes first is one of the operations. -/

theorem get_bind {k : σ → EStateM ε σ β} (h : Spares e (k s) s) : Spares e (get >>= k) s := h

theorem update_bind {k : σ → σ} (h : Spares e (g ()) (k s)) : Spares e (Effect.update k >>= g) s :=
  h

/-- What follows a check is run where its condition holds. -/
theorem ensure_bind {p : Prop} [Decidable p] (he : e' ≠ e) (h : p → Spares e (g ()) s) :
    Spares e (Effect.ensure p e' >>= g) s := by
  intro s' hm
  rcases ensure_bind_error.1 hm with ⟨-, heq, -⟩ | ⟨hp, hm⟩
  · exact he heq
  · exact h hp s' hm

/-- What follows a read is run on what is there. -/
theorem okOr_bind {o : Option α} (he : e' ≠ e) (h : ∀ a, o = some a → Spares e (f a) s) :
    Spares e (okOr o e' >>= f) s := by
  intro s' hm
  rcases okOr_bind_error.1 hm with ⟨-, heq, -⟩ | ⟨a, ha, hm⟩
  · exact he heq
  · exact h a ha s' hm

theorem ofResult_bind {x : Except ε α} (he : x ≠ .error e) (h : ∀ a, Spares e (f a) s) :
    Spares e (ofResult x >>= f) s := by
  cases x with
  | ok a => exact h a
  | error e' =>
      have hne : e' ≠ e := fun heq => he (congrArg Except.error heq)
      exact bind (throw hne) fun a t ht => (throw_ok.1 ht).elim

/-- **The rule for a choice.** -/
theorem ite {p : Prop} [Decidable p] {m' : EStateM ε σ α} (h : p → Spares e m s)
    (h' : ¬ p → Spares e m' s) : Spares e (if p then m else m') s := by
  split
  · next hp => exact h hp
  · next hp => exact h' hp

/-- Putting the store back does not change the error. -/
theorem transactional (h : Spares e m s) : Spares e (transactional m) s := by
  intro s' hm
  unfold Effect.transactional at hm
  cases hr : m s with
  | ok a t => simp [hr] at hm
  | error e' t =>
      simp only [hr, EStateM.Result.error.injEq] at hm
      exact h t (hm.1 ▸ hr)

/-- **The rule for a loop** over an invariant of its passes. -/
theorem each {f : α → EStateM ε σ Unit} {P : σ → Prop}
    (h : ∀ a s, P s → Spares e (f a) s ∧ ∀ u t, f a s = .ok u t → P t) {as : List α}
    (hs : P s) : Spares e (each f as) s := by
  induction as generalizing s with
  | nil => exact pure
  | cons a as ih => exact bind (h a s hs).1 fun u t ht => ih ((h a s hs).2 u t ht)

end Spares

end Effect
