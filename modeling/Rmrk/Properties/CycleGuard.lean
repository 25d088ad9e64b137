import Rmrk.Helpers.Moves
import Rmrk.Mock.Replay
/-!
# The guard against cycles

`send` and `accept_nft` refuse a target NFT that is the NFT sent, and one
below it, which they find by climbing from the target. Where no NFT is
above itself the climb finds what there is to find, and the two refuse
exactly the targets that would make an NFT its own ancestor.
-/

namespace Rmrk

open Relation Pointer Effect

variable {W : Type} [Config W] {s s' : State W} {x t : NftKey} {o : AccountId}

/-- The refusal of a target. -/
abbrev refused : Abort := Core.Error.cannotSendToDescendentOrSelf

/-- `m` fails with `e`. -/
def FailsWith {α : Type} (m : M W α) (s : State W) (e : Abort) : Prop := ∃ s', m s = .error e s'

/-- **What `nft_send` has checked before it looks for a cycle.** -/
structure Sendable (s : State W) (o : AccountId) (x t : NftKey) : Prop where
  root : RootOwner s x o
  nfts : ∃ nft, s.nfts x = some nft ∧ nft.transferable = true ∧ nft.equipped = false
  target : (s.nfts t).isSome = true

/-- What `nft_accept` has checked by then. -/
structure Acceptable (s : State W) (o : AccountId) (x t : NftKey) : Prop where
  root : RootOwner s x o
  nfts : (s.nfts x).isSome = true
  target : (s.nfts t).isSome = true

/-! ## The climb -/

/-- **A descendant check answers, and right.** -/
theorem isXDescendentOfY_exact (hs : Acyclic s.parent) (a b : NftKey) :
    ∃ d, isXDescendentOfY a b s = .ok d s ∧ (d = true ↔ TransGen (Points s.parent) a b) := by
  obtain ⟨d, hd⟩ := (recursions_return hs).2 a b
  refine ⟨d, isXDescendentOfY_ok.2 ⟨hd, rfl⟩, ?_⟩
  cases d with
  | true => exact iff_of_true rfl (transGen_of_descendent hd)
  | false => exact iff_of_false (by simp) (not_transGen_of_descendent hd)

/-- A lookup that fails does not refuse a target. -/
theorem lookupRootOwner_not_refused : lookupRootOwner x s ≠ .error refused s' := by
  intro h
  rcases lookupRootOwner_error h with h | h <;> simp at h

/-! ## The guard -/

namespace Core

/-- **What is refused is the NFT sent, and all below it.** -/
theorem checkTarget_refuses (hs : Acyclic s.parent) (ht : (s.nfts t).isSome = true) :
    FailsWith (checkTarget x t) s refused ↔ Reaches s.parent t x := by
  obtain ⟨d, hd, hiff⟩ := isXDescendentOfY_exact hs t x
  rw [Reaches, reflTransGen_iff_eq_or_transGen, ← hiff]
  simp only [FailsWith, checkTarget, get_bind, ensure_bind_error, ht, not_true, false_and,
    false_or, true_and, bind_of_ok hd]
  by_cases hx : x = t
  · simp [hx]
  · cases d with
    | true => simp [hx]
    | false =>
        -- the lookup left to do can fail, but not with that
        simp only [hx, bind_error, lookupRootOwner_not_refused, pure_error, false_and, and_false,
          exists_false, or_false, not_true, not_false_iff, ne_eq, Bool.false_eq_true]

omit [Config W] in
theorem recordSend_not_error {nft : NftInfo} {b : Bool} {e : Abort} :
    recordSend x nft b s ≠ .error e s' := by
  unfold recordSend
  split <;> simp

omit [Config W] in
theorem relinkChild_not_error {old new : AccountId} {e : Abort} :
    relinkChild x old new s ≠ .error e s' := by
  unfold relinkChild
  cases decodeNftAccountId old <;> cases decodeNftAccountId new <;>
    simp [removeChild, addChild, bind_error]

/-- What is left of `nft_send` once its target has been checked does not
fail. -/
theorem nftSend_refuses (h : Sendable s o x t) :
    FailsWith (nftSend o x (.collectionAndNftTuple t.1 t.2)) s refused ↔
      FailsWith (checkTarget x t) s refused := by
  obtain ⟨root, hroot⟩ := h.root
  obtain ⟨owner, howner⟩ := Option.isSome_iff_exists.1 h.root.owner_isSome
  obtain ⟨nft, hnft, htr, heq⟩ := h.nfts
  have hlookup : lookupRootOwner x s = .ok (o, root) s := lookupRootOwner_ok.2 ⟨hroot, rfl⟩
  refine exists_congr fun s' => ?_
  simp only [nftSend, get_bind, howner, hnft, okOr, pure_bind, bind_of_ok hlookup, ensure_of,
    checkIsTransferable, htr, checkIsNotEquipped, heq, sendTarget, bind_assoc]
  simp only [bind_error, recordSend_not_error, relinkChild_not_error, pure_error, exists_false,
    and_false, or_false]

/-- Nor is it refused once it has been. -/
theorem nftAccept_refuses (h : Acceptable s o x t) :
    FailsWith (nftAccept o x (.collectionAndNftTuple t.1 t.2)) s refused ↔
      FailsWith (checkTarget x t) s refused := by
  obtain ⟨root, hroot⟩ := h.root
  obtain ⟨nft, hnft⟩ := Option.isSome_iff_exists.1 h.nfts
  have hlookup : lookupRootOwner x s = .ok (o, root) s := lookupRootOwner_ok.2 ⟨hroot, rfl⟩
  refine exists_congr fun s' => ?_
  simp only [nftAccept, get_bind, hnft, okOr, pure_bind, bind_of_ok hlookup, ensure_of,
    acceptTarget, bind_assoc]
  rw [bind_error]
  refine or_iff_left ?_
  rintro ⟨b, s₁, -, h⟩
  -- a target of somebody else's is turned down for another reason
  simp only [bind_error, ensure_error, update_error, pure_error, and_false, exists_false,
    or_false] at h
  exact absurd h.2.1 (by simp)

end Core

/-! ## The property -/

/-- **The cycle guard is exact.** Where no NFT is above itself, `b` is met
on the way up from `a` exactly if the descendant check says so; and once
the checks before it have passed, `nft_send` and `nft_accept` refuse a
target exactly if with it for a parent some NFT would be above itself. -/
theorem cycleGuard_exact (hs : Acyclic s.parent) :
    (∀ a b, ∃ d, isXDescendentOfY a b s = .ok d s ∧ (d = true ↔ TransGen (Points s.parent) a b)) ∧
      (∀ o x t, Sendable s o x t →
        (FailsWith (Core.nftSend o x (.collectionAndNftTuple t.1 t.2)) s refused ↔
          ¬ Acyclic (Function.update s.parent x (some t)))) ∧
      ∀ o x t, Acceptable s o x t →
        (FailsWith (Core.nftAccept o x (.collectionAndNftTuple t.1 t.2)) s refused ↔
          ¬ Acyclic (Function.update s.parent x (some t))) := by
  have hcycle : ∀ x t, ¬ Acyclic (Function.update s.parent x (some t)) ↔ Reaches s.parent t x := by
    intro x t
    rw [acyclic_update_iff hs]
    simp
  refine ⟨isXDescendentOfY_exact hs, fun o x t h => ?_, fun o x t h => ?_⟩
  · rw [hcycle, Core.nftSend_refuses h, Core.checkTarget_refuses hs h.target]
  · rw [hcycle, Core.nftAccept_refuses h, Core.checkTarget_refuses hs h.target]

namespace Mock

/-- Three NFTs of Alice's, each in the one before it. -/
def nestedTwice : List Extrinsic :=
  [(alice, mintInto (0, 1)), (alice, mintInto (0, 0)), (alice, mintTo alice),
    (alice, newCollection)]

/-- **Two levels up**: the outermost of them is not sent into the
innermost. -/
theorem refused_nestedTwice : FailsWith (Core.nftSend alice (0, 0) (.collectionAndNftTuple 0 2))
    (replay nestedTwice) refused := by
  have hs : Acyclic (replay nestedTwice).parent := acyclic_of_older (by decide +kernel)
  have hroot : RootOwner (replay nestedTwice) (0, 0) alice :=
    (rootOwner_of_owner (a := alice) (by decide +kernel) (by decide +kernel)).2 rfl
  refine ((cycleGuard_exact hs).2.1 alice (0, 0) (0, 2) ⟨hroot, ?_, by decide +kernel⟩).2 ?_
  · exact ⟨_, rfl, by decide +kernel, by decide +kernel⟩
  · intro h
    have hup : (replay nestedTwice).parent (0, 2) = some (0, 1) := by decide +kernel
    have hup' : (replay nestedTwice).parent (0, 1) = some (0, 0) := by decide +kernel
    refine h (0, 0) (.tail (.tail (.single (b := (0, 2)) ?_) (c := (0, 1)) ?_) ?_)
    · exact Function.update_self ..
    · rwa [Points, Function.update_of_ne (by decide)]
    · rwa [Points, Function.update_of_ne (by decide)]

end Mock

end Rmrk
