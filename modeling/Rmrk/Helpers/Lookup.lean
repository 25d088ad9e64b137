import Mathlib.Data.Fintype.Prod
import Rmrk.Helpers.Codec
import Rmrk.Model.State
/-!
# What the two recursions return

`lookup_root_owner` climbs the parents of an NFT to the first account
that is no NFT's; `is_x_descendent_of_y` climbs them looking for `y`. Both
return on every NFT where no NFT is above itself, and a descendant check
that answers has answered right.
-/

namespace Rmrk

open Relation Pointer

variable {W : Type} [Config W] {s s' : State W} {x y p : NftKey} {a b : AccountId}

/-! ## The keys are finite in number -/

instance fintypeUInt32 : Fintype UInt32 :=
  Fintype.ofEquiv (Fin UInt32.size)
    ⟨UInt32.ofFin, UInt32.toFin, fun _ => rfl, fun _ => rfl⟩

theorem card_uInt32 : Fintype.card UInt32 = UInt32.size := by
  rw [Fintype.ofEquiv_card, Fintype.card_fin]

theorem keyCount_eq : keyCount = Fintype.card NftKey := by
  rw [Fintype.card_prod, card_uInt32]; rfl

/-! ## Parents -/

/-- **The parent of an NFT is the NFT whose account owns it.** -/
theorem State.parent_eq_some_iff : s.parent x = some p ↔ s.owner x = some (nftToAccountId p) := by
  simp [State.parent, Option.bind_eq_some_iff, decodeNftAccountId_eq_some_iff]

theorem State.parent_of_owner (h : s.owner x = some a) : s.parent x = decodeNftAccountId a := by
  simp [State.parent, h]

/-- A write of one owner is a write of one parent. -/
theorem State.parent_update {o : Option AccountId}
    (h : s'.owner = Function.update s.owner x o) :
    s'.parent = Function.update s.parent x (o.bind decodeNftAccountId) := by
  funext y
  by_cases hy : y = x
  · subst hy; simp [State.parent, h]
  · simp [State.parent, h, hy]

theorem State.parent_congr (h : s'.owner = s.owner) : s'.parent = s.parent := by
  funext y; simp [State.parent, h]

/-! ## `lookup_root_owner` -/

/-- The arguments `lookup_root_owner` calls itself on are the parents. -/
theorem next_lookupStep : Walk.next (lookupStep s) = s.parent := by
  funext y
  unfold Walk.next lookupStep State.parent
  cases s.owner y with
  | none => rfl
  | some owner => cases h : decodeNftAccountId owner <;> simp [h]

/-- **The root owner of an NFT**: what `lookup_root_owner` returns on it. -/
def RootOwner (s : State W) (x : NftKey) (a : AccountId) : Prop :=
  ∃ r, Walk.Returns (lookupStep s) x (.ok (a, r))

@[simp] theorem lookupRootOwner_ok {r : AccountId × NftKey} :
    lookupRootOwner x s = .ok r s' ↔ Walk.Returns (lookupStep s) x (.ok r) ∧ s = s' := by
  rw [← Walk.run_card_iff keyCount_eq]
  simp only [lookupRootOwner, Effect.bind_ok, Effect.get_ok]
  constructor
  · rintro ⟨_, _, ⟨rfl, rfl⟩, h⟩
    cases hrun : Walk.run (lookupStep s) keyCount x with
    | none => simp [hrun] at h
    | some o => cases o <;> simp_all
  · rintro ⟨h, rfl⟩
    exact ⟨s, s, ⟨rfl, rfl⟩, by simp [h]⟩

@[simp] theorem lookupRootOwner_bind_ok {β : Type} {f : AccountId × NftKey → M W β} {b : β} :
    (lookupRootOwner x >>= f) s = .ok b s' ↔
      ∃ a r, Walk.Returns (lookupStep s) x (.ok (a, r)) ∧ f (a, r) s = .ok b s' := by
  rw [Effect.bind_ok]
  simp only [lookupRootOwner_ok]
  constructor
  · rintro ⟨⟨a, r⟩, _, ⟨h, rfl⟩, hf⟩
    exact ⟨a, r, h, hf⟩
  · rintro ⟨a, r, h, hf⟩
    exact ⟨(a, r), s, ⟨h, rfl⟩, hf⟩

theorem RootOwner.unique (h : RootOwner s x a) (h' : RootOwner s x b) : a = b := by
  obtain ⟨r, h⟩ := h
  obtain ⟨r', h'⟩ := h'
  exact congrArg Prod.fst (Except.ok.inj (h.unique h'))

/-- An NFT owned by an account that is no NFT's is owned by it at the
root. -/
theorem rootOwner_of_owner (h : s.owner x = some a) (ha : decodeNftAccountId a = none) :
    RootOwner s x b ↔ b = a := by
  have hstep : lookupStep s x = .inl (.ok (a, x)) := by simp [lookupStep, h, ha]
  constructor
  · rintro ⟨r, hr⟩
    exact congrArg Prod.fst (Except.ok.inj (hr.unique (.here hstep)))
  · rintro rfl
    exact ⟨x, .here hstep⟩

/-- An NFT has the root owner of its parent. -/
theorem rootOwner_of_parent (h : s.parent x = some p) : RootOwner s x a ↔ RootOwner s p a := by
  have hstep : lookupStep s x = .inr p :=
    Walk.next_eq_some_iff.1 (by rw [next_lookupStep, h])
  refine exists_congr fun r => ⟨fun hr => ?_, .call hstep⟩
  cases hr with
  | here hx => simp [hstep] at hx
  | call hx hr => exact (Sum.inr.inj (hstep.symm.trans hx)) ▸ hr

/-- **An NFT has the root owner of every NFT above it.** -/
theorem rootOwner_of_reaches (h : Reaches s.parent x y) : RootOwner s x a ↔ RootOwner s y a := by
  induction h with
  | refl => rfl
  | tail _ hyz ih => exact ih.trans (rootOwner_of_parent hyz)

theorem RootOwner.owner_isSome (h : RootOwner s x a) : (s.owner x).isSome = true := by
  obtain ⟨r, h⟩ := h
  cases hx : s.owner x with
  | some a => rfl
  | none =>
      have := h.unique (.here (by simp only [lookupStep, hx]; rfl))
      simp at this

theorem error_of_lookup {e : Core.Error} (h : Walk.Returns (lookupStep s) x (.error e)) :
    e = .noAvailableNftId := by
  generalize hr : (.error e : Except Core.Error (AccountId × NftKey)) = r at h
  induction h with
  | @here x r hx =>
      subst hr
      unfold lookupStep at hx
      split at hx
      · exact (Except.error.inj (Sum.inl.inj hx)).symm
      · split at hx <;> simp at hx
  | call _ _ ih => exact ih hr

/-- An NFT with a root owner is not above itself. -/
theorem RootOwner.not_transGen (h : RootOwner s x a) : ¬ TransGen (Points s.parent) x x := by
  obtain ⟨r, h⟩ := h
  exact next_lookupStep (s := s) ▸ h.not_transGen

/-- A lookup fails on an NFT without an owner, and else it may not
return. -/
theorem lookupRootOwner_error {e : Abort} (h : lookupRootOwner x s = .error e s') :
    e = Core.Error.noAvailableNftId ∨ e = .diverge := by
  rw [lookupRootOwner, Effect.get_bind] at h
  cases hrun : Walk.run (lookupStep s) keyCount x with
  | none =>
      simp only [hrun, Effect.throw_error] at h
      exact .inr h.1.symm
  | some r =>
      cases r with
      | ok r => simp [hrun] at h
      | error e' =>
          simp only [hrun, Effect.throw_error] at h
          rw [← h.1, error_of_lookup (Walk.returns_of_run hrun)]
          exact .inl rfl

/-- The root owner depends on the owners alone. -/
theorem rootOwner_congr (h : s'.owner = s.owner) : RootOwner s' x a ↔ RootOwner s x a := by
  have : lookupStep s' = lookupStep s := by funext y; simp only [lookupStep, h]
  simp only [RootOwner, this]

/-- **A write of the owner of `x` is not seen from where `x` is not met on
the way up.** -/
theorem run_lookupStep_update {o : Option AccountId}
    (h : s'.owner = Function.update s.owner x o) (hy : ¬ Reaches s.parent y x) (n : ℕ) :
    Walk.run (lookupStep s') n y = Walk.run (lookupStep s) n y := by
  refine Walk.run_congr (fun z hz => ?_) n
  rw [next_lookupStep] at hz
  have hzx : z ≠ x := by
    rintro rfl
    exact hy hz
  simp only [lookupStep, h, Function.update_of_ne hzx]

theorem rootOwner_update {o : Option AccountId} (h : s'.owner = Function.update s.owner x o)
    (hy : ¬ Reaches s.parent y x) : RootOwner s' y a ↔ RootOwner s y a := by
  simp only [RootOwner, ← Walk.run_card_iff keyCount_eq, run_lookupStep_update h hy]

/-! ## `is_x_descendent_of_y` -/

theorem isXDescendentOfY_ok {d : Bool} :
    isXDescendentOfY x y s = .ok d s' ↔ Walk.Returns (descendentStep s y) x d ∧ s = s' := by
  rw [← Walk.run_card_iff keyCount_eq]
  simp only [isXDescendentOfY, Effect.bind_ok, Effect.get_ok]
  constructor
  · rintro ⟨_, _, ⟨rfl, rfl⟩, h⟩
    cases hrun : Walk.run (descendentStep s y) keyCount x with
    | none => simp [hrun] at h
    | some o => simp_all
  · rintro ⟨h, rfl⟩
    exact ⟨s, s, ⟨rfl, rfl⟩, by simp [h]⟩

theorem descendentStep_eq : descendentStep s y x =
    match s.parent x with
    | none => .inl false
    | some z => if z = y then .inl true else .inr z := by
  unfold descendentStep State.parent
  cases s.owner x with
  | none => rfl
  | some owner => cases h : decodeNftAccountId owner <;> simp [h]

/-- **A descendant check that answers no is right.** -/
theorem not_transGen_of_descendent (h : Walk.Returns (descendentStep s y) x false) :
    ¬ TransGen (Points s.parent) x y := by
  generalize hd : false = d at h
  induction h with
  | @here x d hx =>
      subst hd
      rw [descendentStep_eq] at hx
      intro hc
      obtain ⟨z, hz, -⟩ := TransGen.head'_iff.1 hc
      rw [Points] at hz
      simp only [hz] at hx
      split at hx <;> simp at hx
  | @call x z d hx _ ih =>
      rw [descendentStep_eq] at hx
      intro hc
      obtain ⟨z', hz', hzy⟩ := TransGen.head'_iff.1 hc
      rw [Points] at hz'
      simp only [hz'] at hx
      split at hx
      · simp at hx
      · next hne =>
          obtain rfl := Sum.inr.inj hx
          rcases reflTransGen_iff_eq_or_transGen.1 hzy with h | h
          · exact hne h.symm
          · exact ih hd h

/-- **And one that answers yes.** -/
theorem transGen_of_descendent (h : Walk.Returns (descendentStep s y) x true) :
    TransGen (Points s.parent) x y := by
  generalize hd : true = d at h
  induction h with
  | @here x d hx =>
      subst hd
      rw [descendentStep_eq] at hx
      split at hx
      · simp at hx
      · next z hz =>
          split at hx
          · next hzy => exact .single (hzy ▸ hz)
          · simp at hx
  | @call x z d hx _ ih =>
      rw [descendentStep_eq] at hx
      split at hx
      · simp at hx
      · next z' hz =>
          split at hx
          · simp at hx
          · obtain rfl := Sum.inr.inj hx
            exact .head hz (ih hd)

/-- The calls of a descendant check go up. -/
theorem next_descendentStep {z w : NftKey} (h : Walk.next (descendentStep s y) z = some w) :
    s.parent z = some w := by
  rw [Walk.next_eq_some_iff, descendentStep_eq] at h
  split at h
  · simp at h
  · next hz => split at h <;> simp_all

/-! ## Termination -/

/-- **Where no NFT is above itself both recursions return.** -/
theorem recursions_return (h : Acyclic s.parent) :
    (∀ x, ∃ r, Walk.Returns (lookupStep s) x r) ∧
      ∀ x y, ∃ d, Walk.Returns (descendentStep s y) x d :=
  ⟨Walk.exists_returns (next_lookupStep (s := s) ▸ h),
    fun x _ => Walk.exists_returns (h.anti fun _ _ => next_descendentStep) x⟩

end Rmrk
