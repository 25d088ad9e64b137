import Rmrk.Properties.Composition
/-!
# Title

How an account has come to own an NFT at the root: the NFT, or one that it
is in, was put with the account, or into an NFT that was the account's,
and has been the account's since. The step that put it there is a mint, a
send, an acceptance or a sale. This holds in every run, also where it is
no run of the grove.
-/

namespace Rmrk

open Relation Pointer

variable {W : Type} [Config W] {s s' : State W} {act : Act W} {h : List (State W × Act W)}
variable {x y : NftKey} {a b : AccountId}

/-- **A step puts `y` with `a`**: it moves an NFT that `y` is in, or `y`
itself, to the account or into an NFT that the account owns at the root. -/
def PutsWith (s s' : State W) (y : NftKey) (a : AccountId) (act : Act W) : Prop :=
  ∃ x t, act.move s = .put x t ∧ Reaches s'.parent y x ∧
    (t = .ground a ∨ ∃ p, t = .under p ∧ RootOwner s p a)

/-- Who owns an NFT at the root that has been written is who owns its new
owner, who has not been written. -/
theorem RootOwner.of_put (howner : s'.owner = Function.update s.owner x (some b))
    (hx : RootOwner s' x a) :
    placeOf b = .ground a ∨ ∃ p, placeOf b = .under p ∧ RootOwner s p a := by
  have hb : s'.owner x = some b := by simp [howner]
  cases hd : decodeNftAccountId b with
  | none => exact .inl (placeOf_eq_ground.2 ⟨((rootOwner_of_owner hb hd).1 hx).symm, hd⟩)
  | some p =>
      have hp : s'.parent x = some p := (State.parent_of_owner hb).trans hd
      refine .inr ⟨p, placeOf_eq_under.2 hd, ?_⟩
      -- there is no way back from the parent of what has a root owner
      have hback : ¬ Reaches s.parent p x := by
        intro hpx
        refine hx.not_transGen (TransGen.head' (b := p) hp ?_)
        rw [State.parent_update howner]
        exact reaches_update_self.2 hpx
      exact (rootOwner_update howner hback).1 ((rootOwner_of_parent hp).1 hx)

/-- A write of one owner is felt below it only. -/
theorem reaches_of_gained {c : Option AccountId} (howner : s'.owner = Function.update s.owner x c)
    (hroot : RootOwner s' y a) (hnew : ¬ RootOwner s y a) :
    Reaches s'.parent y x ∧ RootOwner s' x a := by
  have hyx : Reaches s'.parent y x := by
    rw [State.parent_update howner, reaches_update_self]
    by_contra hyx
    exact hnew ((rootOwner_update howner hyx).1 hroot)
  exact ⟨hyx, (rootOwner_of_reaches hyx).1 hroot⟩

theorem PutsWith.of_owner (howner : s'.owner = Function.update s.owner x (some b))
    (hmove : act.move s = .put x (placeOf b)) (hroot : RootOwner s' y a)
    (hnew : ¬ RootOwner s y a) : PutsWith s s' y a act := by
  obtain ⟨hyx, hx⟩ := reaches_of_gained howner hroot hnew
  exact ⟨x, _, hmove, hyx, hx.of_put howner⟩

/-- **One step**: nobody comes to own an NFT at the root that has not been
put with him. -/
theorem putsWith_of_gained (hstep : Step s act s') (hroot : RootOwner s' y a)
    (hnew : ¬ RootOwner s y a) : PutsWith s s' y a act := by
  have hkept : s'.owner = s.owner → PutsWith s s' y a act := fun ho =>
    absurd ((rootOwner_congr ho).1 hroot) hnew
  cases hstep.outcome with
  | silent _ h => exact hkept h.owner
  | noted _ h => exact hkept h.owner
  | @mintNft o owner c _ _ _ _ _ n _ _ _ h =>
      obtain rfl : s.nextNftId c = n := h.next
      exact .of_owner h.owner rfl hroot hnew
  | @mintNftDirectlyToNft o p c _ _ _ _ _ n _ _ _ _ _ h =>
      obtain rfl : s.nextNftId c = n := h.next
      exact .of_owner h.owner (by rw [placeOf_nftToAccountId]; rfl) hroot hnew
  | send h => exact .of_owner h.owner (by rw [← h.target.account]; rfl) hroot hnew
  | acceptNft h => exact .of_owner h.owner (by rw [← h.target.account]; rfl) hroot hnew
  | burnNft _ _ howner =>
      have hx := (reaches_of_gained howner hroot hnew).2.owner_isSome
      simp [howner] at hx
  | rejectNft _ _ _ howner => exact hkept howner
  | unequip h => exact hkept h.owner
  | equip h => exact hkept h.owner
  | list _ _ _ h => exact hkept h.owner
  | unlist _ h => exact hkept h.owner
  | buy _ _ _ h => exact .of_owner h.owner rfl hroot hnew
  | acceptOffer hoffer h => exact .of_owner h.owner (by simp only [Act.move, hoffer]) hroot hnew

/-- **Title.** Who owns an NFT at the root owns it by a step of the run that
put it with him, and has owned it since. -/
theorem title (hr : IsRun h s) (hroot : RootOwner s y a) :
    ∃ newer s₁ act s₂ older, h = newer ++ (s₁, act) :: older ∧ Step s₁ act s₂ ∧
      PutsWith s₁ s₂ y a act ∧ ∀ e ∈ newer, RootOwner e.1 y a := by
  have hnone : ∀ s : State W, Genesis s → ¬ RootOwner s y a := by
    rintro s ⟨w, hw, -, rfl⟩ hroot
    have howner : (genesis w).owner y = none := hw y
    have := hroot.owner_isSome
    simp [howner] at this
  obtain ⟨newer, s₁, act, s₂, older, hh, hnewer, hnot, -, hstep, hgained⟩ := hr.since hnone hroot
  exact ⟨newer, s₁, act, s₂, older, hh, hstep, putsWith_of_gained hstep hgained hnot, hnewer⟩

namespace Mock

/-- What is sold with a child in it is sold whole: the child is Bob's at the
root by the same sale. -/
theorem title_soldWhole : ∃ newer s₁ act s₂ older,
    history soldWhole = newer ++ (s₁, act) :: older ∧ Step s₁ act s₂ ∧
      PutsWith s₁ s₂ (0, 1) bob act ∧ ∀ e ∈ newer, RootOwner e.1 (0, 1) bob := by
  have hparent : (replay soldWhole).parent (0, 1) = some (0, 0) := by decide +kernel
  have howner : (replay soldWhole).owner (0, 0) = some bob := by decide +kernel
  exact title (isRun_replay (by decide +kernel))
    ((rootOwner_of_parent hparent).2 ((rootOwner_of_owner howner (by decide +kernel)).2 rfl))

end Mock

end Rmrk
