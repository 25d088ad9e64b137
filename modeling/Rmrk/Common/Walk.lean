import Rmrk.Common.Pointer
/-!
# Tail recursion

A function that at each argument either returns or calls itself on one
other argument, with nothing to bound the recursion. `run` makes at most a
given number of calls; on a type with finitely many elements as many calls
as there are elements are enough, so there `run` decides whether the
recursion ever returns.
-/

namespace Walk

open Relation

variable {α β : Type*} {step : α → β ⊕ α} {x y : α} {b b' : β}

/-- At most `n` calls, from the call on `x`. -/
def run (step : α → β ⊕ α) : ℕ → α → Option β
  | 0, _ => none
  | n + 1, x =>
    match step x with
    | .inl b => some b
    | .inr y => run step n y

/-- **The recursion returns `b` from `x`.** -/
inductive Returns (step : α → β ⊕ α) : α → β → Prop
  | here {x : α} {b : β} : step x = .inl b → Returns step x b
  | call {x y : α} {b : β} : step x = .inr y → Returns step y b → Returns step x b

/-- The argument a call calls itself on. -/
def next (step : α → β ⊕ α) (x : α) : Option α := (step x).getRight?

theorem next_eq_some_iff : next step x = some y ↔ step x = .inr y := by
  simp [next, Sum.getRight?_eq_some_iff]

/-- What `run` returns, the recursion returns. -/
theorem returns_of_run {n : ℕ} (h : run step n x = some b) : Returns step x b := by
  induction n generalizing x with
  | zero => simp [run] at h
  | succ n ih =>
      simp only [run] at h
      split at h
      · next b' hb => exact .here (Option.some.inj h ▸ hb)
      · next y hy => exact .call hy (ih h)

/-- **What a run does not come to has no part in it.** -/
theorem run_congr {step' : α → β ⊕ α}
    (h : ∀ z, Pointer.Reaches (next step) x z → step' z = step z) (n : ℕ) :
    run step' n x = run step n x := by
  induction n generalizing x with
  | zero => rfl
  | succ n ih =>
      rw [run, run, h x .refl]
      cases hx : step x with
      | inl b => rfl
      | inr y => exact ih fun z hz => h z (.head (next_eq_some_iff.2 hx) hz)

/-- The recursion returns one value. -/
theorem Returns.unique (h : Returns step x b) (h' : Returns step x b') : b = b' := by
  induction h with
  | here hx =>
      cases h' with
      | here hx' => exact Sum.inl.inj (hx.symm.trans hx')
      | call hx' => simp [hx] at hx'
  | call hx _ ih =>
      cases h' with
      | here hx' => simp [hx] at hx'
      | call hx' h'' =>
          have := Sum.inr.inj (hx.symm.trans hx')
          exact ih (this ▸ h'')

/-- A recursion that returns never comes back to where it started. -/
theorem Returns.not_transGen (h : Returns step x b) :
    ¬ TransGen (Pointer.Points (next step)) x x := by
  induction h with
  | @here x b hx =>
      intro hc
      obtain ⟨y, hy, -⟩ := TransGen.head'_iff.1 hc
      simp [Pointer.Points, next_eq_some_iff, hx] at hy
  | @call x y b hx _ ih =>
      intro hc
      obtain ⟨z, hz, hzx⟩ := TransGen.head'_iff.1 hc
      have hyz : y = z := Sum.inr.inj (hx.symm.trans (next_eq_some_iff.1 hz))
      subst hyz
      exact ih (TransGen.tail' hzx (next_eq_some_iff.2 hx))

/-- **Enough calls**: as many as there are arguments to be met. -/
theorem Returns.run_card [DecidableEq α] (h : Returns step x b) :
    ∀ S : Finset α, (∀ y, Pointer.Reaches (next step) x y → y ∈ S) →
      run step S.card x = some b := by
  induction h with
  | @here x b hx =>
      intro S hS
      obtain ⟨n, hn⟩ := Nat.exists_eq_succ_of_ne_zero
        (Finset.card_ne_zero_of_mem (hS x .refl))
      rw [hn, run, hx]
  | @call x y b hx hy ih =>
      intro S hS
      have hxy : Pointer.Points (next step) x y := next_eq_some_iff.2 hx
      have hxS := hS x .refl
      have hsub : ∀ z, Pointer.Reaches (next step) y z → z ∈ S.erase x := by
        intro z hz
        refine Finset.mem_erase.2 ⟨?_, hS z (.head hxy hz)⟩
        rintro rfl
        exact (Returns.call hx hy).not_transGen (TransGen.head' hxy hz)
      rw [← Finset.card_erase_add_one hxS, run, hx]
      exact ih _ hsub

/-- **On a finite type `run` decides the recursion**: given as many calls
as there are arguments, it returns what the recursion returns. -/
theorem run_card_iff [Fintype α] {n : ℕ} (hn : n = Fintype.card α) :
    run step n x = some b ↔ Returns step x b := by
  classical
  refine ⟨returns_of_run, fun h => ?_⟩
  rw [hn, ← Finset.card_univ]
  exact h.run_card _ fun y _ => Finset.mem_univ y

/-- Where the calls form no cycle, every call returns. -/
theorem exists_returns [Finite α] (h : Pointer.Acyclic (next step)) (x : α) :
    ∃ b, Returns step x b := by
  induction x using h.wellFounded.induction with
  | _ x ih =>
      cases hx : step x with
      | inl b => exact ⟨b, .here hx⟩
      | inr y =>
          obtain ⟨b, hb⟩ := ih y (next_eq_some_iff.2 hx)
          exact ⟨b, .call hx hb⟩

end Walk
