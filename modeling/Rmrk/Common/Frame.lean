import Mathlib.Order.Defs.Unbundled
import Rmrk.Common.Effect
/-!
# Frames

What a call leaves as it was is a relation between the store it is run in
and the store it leaves: reflexive, since a call may write nothing, and
transitive, since calls are run one after the other. A call is within such
a relation if each of its operations is, and so its frame is read off its
body without naming a single store in between.
-/

namespace Effect

variable {ε σ α β : Type}

/-- **A call is within `R`**: wherever it returns, `R` relates the store
it found to the store it leaves. -/
def Within (R : σ → σ → Prop) (m : EStateM ε σ α) : Prop :=
  ∀ s a s', m s = .ok a s' → R s s'

/-- **What `π` reads of the store is as it was.** -/
def Same (π : σ → β) (s s' : σ) : Prop := π s' = π s

instance {π : σ → β} : Std.Refl (Same π) := ⟨fun _ => rfl⟩

instance {π : σ → β} : IsTrans σ (Same π) := ⟨fun _ _ _ h h' => Eq.trans h' h⟩

namespace Within

variable {R : σ → σ → Prop} {e : ε} {m : EStateM ε σ α} {f : α → EStateM ε σ β}

theorem throw : Within R (throw e : EStateM ε σ α) :=
  fun _ _ _ h => (throw_ok.1 h).elim

/-- **All or nothing changes nothing here**: a call that returns has kept
what it wrote. -/
theorem transactional (h : Within R m) : Within R (transactional m) :=
  fun s a s' hm => h s a s' (transactional_ok.1 hm)

/-- A smaller relation is a finer frame. -/
theorem mono {R' : σ → σ → Prop} (hR : ∀ s s', R s s' → R' s s') (h : Within R m) : Within R' m :=
  fun s a s' hm => hR s s' (h s a s' hm)

theorem update {g : σ → σ} (h : ∀ s, R s (g s)) : Within R (update g : EStateM ε σ Unit) :=
  fun s _ _ hm => update_ok.1 hm ▸ h s

theorem ite {p : Prop} [Decidable p] {m' : EStateM ε σ α} (h : Within R m) (h' : Within R m') :
    Within R (if p then m else m') := by
  split
  · exact h
  · exact h'

section Refl

variable [Std.Refl R]

theorem pure {a : α} : Within R (pure a : EStateM ε σ α) :=
  fun s _ _ h => (pure_ok.1 h).2 ▸ refl s

theorem get : Within R (get : EStateM ε σ σ) :=
  fun s _ _ h => (get_ok.1 h).2 ▸ refl s

theorem ensure {p : Prop} [Decidable p] : Within R (ensure p e : EStateM ε σ Unit) :=
  fun s _ _ h => (ensure_ok.1 h).2 ▸ refl s

theorem okOr {o : Option α} : Within R (okOr o e : EStateM ε σ α) :=
  fun s _ _ h => (okOr_ok.1 h).2 ▸ refl s

theorem ofResult {x : Except ε α} : Within R (ofResult x : EStateM ε σ α) :=
  fun s _ _ h => (ofResult_ok.1 h).2 ▸ refl s

end Refl

/-- **The rule for a sequence.** -/
theorem bind [IsTrans σ R] (h : Within R m) (h' : ∀ a, Within R (f a)) : Within R (m >>= f) := by
  intro s b s' hm
  obtain ⟨a, t, hm, hf⟩ := bind_ok.1 hm
  exact IsTrans.trans s t s' (h s a t hm) (h' a t b s' hf)

/-- **The rule for a loop.** -/
theorem each [Std.Refl R] [IsTrans σ R] {f : α → EStateM ε σ Unit} {as : List α}
    (h : ∀ a, Within R (f a)) : Within R (each f as) := by
  intro s u s' hm
  exact each_ok refl IsTrans.trans (fun a _ s s' u => h a s u s') hm

end Within

end Effect
