import Rmrk.Helpers.Issued
import Rmrk.Mock.Replay
/-!
# NFTs owned by NFTs form a forest

An NFT can be owned by an NFT, and that by another. `send` and
`accept_nft` refuse a target NFT that is the NFT sent or below it, so
that following owners always comes to an end. They refuse it only where
the call names the target as an NFT: an account is taken as it is given,
also where it is the virtual account of such an NFT, and `mint_nft` and
the market take accounts only. A run keeps the forest exactly if none of
its calls names such an account.
-/

namespace Rmrk

open Relation Pointer Effect

variable {W : Type} [Config W] {s s' : State W} {act : Act W} {h : List (State W × Act W)}
variable {x p : NftKey} {a : AccountId}

/-! ## The property -/

/-- A call does not recurse without end. -/
def Terminates {α : Type} (m : M W α) (s : State W) : Prop := ∀ s', m s ≠ .error .diverge s'

/-- **The forest**: no NFT is above itself, and the recursions that climb
it return. -/
structure Forest (s : State W) : Prop where
  acyclic : Acyclic s.parent
  lookup : ∀ x, Terminates (lookupRootOwner x) s
  descendent : ∀ x y, Terminates (isXDescendentOfY x y) s

theorem lookupRootOwner_terminates {r : Except Core.Error (AccountId × NftKey)}
    (h : Walk.Returns (lookupStep s) x r) : Terminates (lookupRootOwner x) s := by
  intro s' hd
  rw [← Walk.run_card_iff keyCount_eq] at h
  rw [lookupRootOwner, get_bind, h] at hd
  cases r with
  | ok r => cases hd
  | error e => cases hd

theorem isXDescendentOfY_terminates {y : NftKey} {d : Bool}
    (h : Walk.Returns (descendentStep s y) x d) : Terminates (isXDescendentOfY x y) s := by
  intro s' hd
  rw [← Walk.run_card_iff keyCount_eq] at h
  rw [isXDescendentOfY, get_bind, h] at hd
  cases hd

/-- Termination is all in the acyclicity. -/
theorem forest_iff : Forest s ↔ Acyclic s.parent := by
  refine ⟨Forest.acyclic, fun hs => ⟨hs, fun x => ?_, fun x y => ?_⟩⟩
  · obtain ⟨r, hr⟩ := (recursions_return hs).1 x
    exact lookupRootOwner_terminates hr
  · obtain ⟨d, hd⟩ := (recursions_return hs).2 x y
    exact isXDescendentOfY_terminates hd

/-! ## The condition -/

/-- `a` is not the virtual account of `x` or of an NFT below it. -/
def NotBelow (s : State W) (a : AccountId) (x : NftKey) : Prop :=
  ∀ p, decodeNftAccountId a = some p → ¬ Reaches s.parent p x

/-- **The account a call names as the new owner of an NFT is not that of
the NFT or of one below it.** -/
def NamesNoDescendent (s : State W) : Act W → Prop
  | .signed o (.mintNft owner c ..) => NotBelow s (owner.getD o) (c, s.nextNftId c)
  | .signed _ (.send x (.accountId a)) => NotBelow s a x
  | .signed _ (.acceptNft x (.accountId a)) => NotBelow s a x
  | .signed o (.buy x _) => NotBelow s o x
  | .signed _ (.acceptOffer x offerer) =>
      ∀ offer, s.offers (x, offerer) = some offer → NotBelow s offer.maker x
  | _ => True

/-! ## One step -/

/-- **A write of an owner keeps the forest exactly if the owner is not
below.** -/
theorem acyclic_of_owner (hs : Acyclic s.parent)
    (h : s'.owner = Function.update s.owner x (some a)) :
    Acyclic s'.parent ↔ NotBelow s a x := by
  rw [State.parent_update h, acyclic_update_iff hs]
  rfl

/-- An NFT named as an NFT has been checked. -/
theorem Target.notBelow {cid : CollectionId} {nid : NftId}
    (h : Target s x (.collectionAndNftTuple cid nid) a) : NotBelow s a x := by
  obtain ⟨rfl, -, hne⟩ := h
  intro p hp
  rw [decodeNftAccountId_nftToAccountId, Option.some.injEq] at hp
  exact hp ▸ hne

/-- Nothing an NFT with a root owner is below is absent. -/
theorem RootOwner.notBelow (hp : RootOwner s p a) (hx : Absent x s) :
    NotBelow s (nftToAccountId p) x := by
  intro q hq hqx
  rw [decodeNftAccountId_nftToAccountId, Option.some.injEq] at hq
  subst hq
  have := ((rootOwner_of_reaches hqx).1 hp).owner_isSome
  simp [hx.owner] at this

theorem namesNoDescendent_of_still (h : act.still = true) : NamesNoDescendent s act := by
  cases act with
  | between => trivial
  | signed o c => cases c <;> trivial

/-- **One step keeps the forest exactly if it meets the condition.** -/
theorem acyclic_step (hs : Sound s) (hf : Acyclic s.parent) (hstep : Step s act s') :
    Acyclic s'.parent ↔ NamesNoDescendent s act := by
  have hkeep : s'.owner = s.owner → (Acyclic s'.parent ↔ True) := by
    intro ho
    rw [State.parent_congr ho]; simp [hf]
  cases hstep.outcome with
  | silent hstill h => simp [hkeep h.owner, namesNoDescendent_of_still hstill]
  | noted hstill h => simp [hkeep h.owner, namesNoDescendent_of_still hstill]
  | @mintNft o owner c _ _ _ _ _ n _ _ _ h =>
      obtain rfl : s.nextNftId c = n := h.next
      exact acyclic_of_owner hf h.owner
  | mintNftDirectlyToNft _ _ hroot h =>
      rw [acyclic_of_owner hf h.owner]
      simp [NamesNoDescendent, hroot.notBelow (h.absent hs)]
  | @send o x newOwner old new nft nft' h =>
      rw [acyclic_of_owner hf h.owner]
      cases newOwner with
      | accountId id => rw [show new = id from h.target]; rfl
      | collectionAndNftTuple cid nid => simp [NamesNoDescendent, h.target.notBelow]
  | @acceptNft o x newOwner new nft h =>
      rw [acyclic_of_owner hf h.owner]
      cases newOwner with
      | accountId id => rw [show new = id from h.target]; rfl
      | collectionAndNftTuple cid nid => simp [NamesNoDescendent, h.target.notBelow]
  | burnNft _ _ howner =>
      rw [State.parent_update howner, acyclic_update_iff hf]
      simp [NamesNoDescendent]
  | rejectNft _ _ _ howner => simp [hkeep howner, NamesNoDescendent]
  | unequip h => simp [hkeep h.owner, NamesNoDescendent]
  | equip h => simp [hkeep h.owner, NamesNoDescendent]
  | list _ _ _ h => simp [hkeep h.owner, NamesNoDescendent]
  | unlist _ h => simp [hkeep h.owner, NamesNoDescendent]
  | buy _ _ _ h => exact acyclic_of_owner hf h.owner
  | acceptOffer hoffer h =>
      rw [acyclic_of_owner hf h.owner]
      simp [NamesNoDescendent, hoffer]

/-! ## Every run -/

theorem acyclic_genesis (h : Genesis s) : Acyclic s.parent := by
  obtain ⟨w, hw, -, rfl⟩ := h
  intro x hx
  obtain ⟨p, hp, -⟩ := TransGen.head'_iff.1 hx
  have : (genesis w).owner x = none := hw x
  simp [Points, State.parent, this] at hp

/-- **The forest of a run.** Its states are all forests exactly if no call
of it names as the new owner of an NFT the virtual account of that NFT or
of one below it. -/
theorem forest_throughout_iff (hr : IsRun h s) :
    Run.Throughout Forest h s ↔ ∀ e ∈ h, NamesNoDescendent e.1 e.2 := by
  refine Run.throughout_iff (fun _ h0 => forest_iff.2 (acyclic_genesis h0)) ?_ hr
  intro s act s' hreach hf hstep
  rw [forest_iff]
  exact acyclic_step (Reachable.sound hreach) hf.acyclic hstep

/-! ## Runs with and without a cycle -/

namespace Mock

/-- Alice sends an NFT to the virtual account of its own child. -/
def sentToChild : List Extrinsic :=
  [(alice, .send (0, 0) (.accountId (nftToAccountId (0, 1)))),
    (alice, mintInto (0, 0)), (alice, mintTo alice), (alice, newCollection)]

/-- **A reachable cycle**: the NFT and its child own each other. -/
theorem not_forest_of_reachable : ¬ ∀ s : State Storage, Reachable s → Forest s := by
  intro hall
  have hf := hall (replay sentToChild) (reachable_replay (by decide +kernel))
  have hup : (replay sentToChild).parent (0, 0) = some (0, 1) := by decide +kernel
  have hdown : (replay sentToChild).parent (0, 1) = some (0, 0) := by decide +kernel
  exact hf.acyclic (0, 0) (.tail (.single hup) hdown)

/-- Alice sends the same NFT to Bob. -/
def sentToBob : List Extrinsic :=
  [(alice, .send (0, 0) (.accountId bob)),
    (alice, mintInto (0, 0)), (alice, mintTo alice), (alice, newCollection)]

theorem forest_sentToBob : Run.Throughout Forest (history sentToBob) (replay sentToBob) := by
  refine (forest_throughout_iff (isRun_replay (by decide +kernel))).2 ?_
  simp only [sentToBob, history, List.forall_mem_cons, List.not_mem_nil, false_imp_iff,
    implies_true, and_true]
  have hbob : decodeNftAccountId bob = none := by decide +kernel
  have halice : decodeNftAccountId alice = none := by decide +kernel
  refine ⟨?_, trivial, ?_, trivial⟩
  · intro p hp; simp [hbob] at hp
  · intro p hp; simp [halice] at hp

end Mock

end Rmrk
