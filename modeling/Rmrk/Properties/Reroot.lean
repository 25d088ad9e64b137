import Rmrk.Helpers.Moves
import Rmrk.Mock.Replay
/-!
# A send moves one subtree

`send` writes one owner. What is looked up from the NFT sent, and from all
below it, ends somewhere else from then on; every other lookup ends where
it did. The children index loses the NFT under its old parent and gains it
under the new one, which may be the same.
-/

namespace Rmrk

open Relation Pointer Effect

variable {W : Type} [Config W] {s s' : State W} {x y p : NftKey} {o a : AccountId} {u : Unit}
variable {t : AccountIdOrCollectionNftTuple}

/-! ## The property -/

/-- What a call answers, whatever it writes. -/
def answer {α : Type} (m : M W α) (s : State W) : Except Abort α :=
  match m s with
  | .ok r _ => .ok r
  | .error e _ => .error e

/-- **The root owner a call names**: the account, or that of the NFT. -/
def NamedRoot (s : State W) (a : AccountId) : AccountIdOrCollectionNftTuple → Prop
  | .accountId id => a = id
  | .collectionAndNftTuple cid nid => ∃ r, answer (lookupRootOwner (cid, nid)) s = .ok (a, r)

/-- The parent a call names. -/
def AccountIdOrCollectionNftTuple.parent : AccountIdOrCollectionNftTuple → Option NftKey
  | .accountId _ => none
  | .collectionAndNftTuple cid nid => some (cid, nid)

/-- **The subtree of `x`, and no other, has been put under `t`.** -/
structure Rerooted (x : NftKey) (t : AccountIdOrCollectionNftTuple) (s s' : State W) : Prop where
  acyclic : Acyclic s'.parent
  below : ∀ y, Reaches s.parent y x →
    ∃ a r, answer (lookupRootOwner y) s' = .ok (a, r) ∧ NamedRoot s a t
  elsewhere : ∀ y, ¬ Reaches s.parent y x →
    answer (lookupRootOwner y) s' = answer (lookupRootOwner y) s
  owner : ∀ y, y ≠ x → s'.owner y = s.owner y
  children : ∀ p y, y ∈ s'.children p ↔
    y = x ∧ t.parent = some p ∨ y ∈ s.children p ∧ ¬ (y = x ∧ s.parent x = some p)

/-! ## Lookups -/

theorem answer_lookupRootOwner {r : AccountId × NftKey} :
    answer (lookupRootOwner x) s = .ok r ↔ lookupRootOwner x s = .ok r s := by
  unfold answer
  cases h : lookupRootOwner x s with
  | ok r' s' =>
      obtain rfl := (lookupRootOwner_ok.1 h).2
      simp
  | error e s' => simp

/-- The answer is all in the climb. -/
theorem answer_congr
    (h : Walk.run (lookupStep s') keyCount y = Walk.run (lookupStep s) keyCount y) :
    answer (lookupRootOwner y) s' = answer (lookupRootOwner y) s := by
  unfold answer
  simp only [lookupRootOwner, get_bind, h]
  cases Walk.run (lookupStep s) keyCount y with
  | none => rfl
  | some r => cases r <;> rfl

theorem exists_answer_iff : (∃ r, answer (lookupRootOwner x) s = .ok (a, r)) ↔ RootOwner s x a := by
  simp [RootOwner, answer_lookupRootOwner]

/-! ## What is sent to an NFT -/

/-- An NFT something is sent to has a root owner. -/
theorem Core.send_target {cid : CollectionId} {nid : NftId}
    (h : send o x (.collectionAndNftTuple cid nid) s = .ok u s') :
    ∃ b, RootOwner s (cid, nid) b := by
  simp only [send, transactional_ok, nftSend, checkIsTransferable, checkIsNotEquipped, bind_assoc,
    get_bind_ok, okOr_bind_ok, lookupRootOwner_bind_ok, ensure_bind_ok, sendTarget] at h
  obtain ⟨old, -, r, root, -, -, nft, -, -, -, h⟩ := h
  rw [bind_ok] at h
  obtain ⟨b, _, htarget, -⟩ := h
  exact ⟨b, (checkTarget_ok htarget).2.2.2⟩

/-- The parent an NFT is sent to is the one the call names, where it names
no virtual account. -/
theorem Target.parent (h : Target s x t a)
    (ht : ∀ id, t = .accountId id → decodeNftAccountId id = none) :
    decodeNftAccountId a = t.parent := by
  cases t with
  | accountId id =>
      obtain rfl : a = id := h
      exact ht a rfl
  | collectionAndNftTuple cid nid =>
      obtain ⟨rfl, -, -⟩ := h
      exact decodeNftAccountId_nftToAccountId

/-- **A send re-roots one subtree.** -/
theorem send_reroots (hs : Acyclic s.parent)
    (ht : ∀ id, t = .accountId id → decodeNftAccountId id = none)
    (h : Core.send o x t s = .ok u s') : Rerooted x t s s' := by
  obtain ⟨old, new, nft, nft', hsent, -⟩ := Core.send_ok h
  have hparent : s'.parent = Function.update s.parent x t.parent := by
    rw [State.parent_update hsent.owner, Option.bind_some, hsent.target.parent ht]
  -- an NFT sent to is not below the NFT sent
  have hclear : ∀ p, t.parent = some p → ¬ Reaches s.parent p x := by
    intro p hp
    cases t with
    | accountId id => simp [AccountIdOrCollectionNftTuple.parent] at hp
    | collectionAndNftTuple cid nid =>
        obtain rfl := Option.some.inj hp
        exact hsent.target.2.2
  -- and so it has the root owner it had
  have hroot : ∃ a, RootOwner s' x a ∧ NamedRoot s a t := by
    cases t with
    | accountId id =>
        obtain rfl : new = id := hsent.target
        exact ⟨new, (rootOwner_of_owner (by simp [hsent.owner]) (ht new rfl)).2 rfl, rfl⟩
    | collectionAndNftTuple cid nid =>
        obtain ⟨b, hb⟩ := Core.send_target h
        have hp : s'.parent x = some (cid, nid) := by rw [hparent, Function.update_self]; rfl
        refine ⟨b, (rootOwner_of_parent hp).2 ?_, exists_answer_iff.2 hb⟩
        exact (rootOwner_update hsent.owner (hclear _ rfl)).2 hb
  refine ⟨?_, fun y hy => ?_, fun y hy => ?_, fun y hy => ?_, fun p y => ?_⟩
  · rw [hparent, acyclic_update_iff hs]
    exact hclear
  · obtain ⟨a, ha, hnamed⟩ := hroot
    have hy' : Reaches s'.parent y x := by
      rw [hparent]
      exact reaches_update_self.2 hy
    obtain ⟨r, hr⟩ := exists_answer_iff.2 ((rootOwner_of_reaches hy').2 ha)
    exact ⟨a, r, hr, hnamed⟩
  · exact answer_congr (run_lookupStep_update hsent.owner hy keyCount)
  · rw [hsent.owner, Function.update_of_ne hy]
  · rw [hsent.mem_children, hsent.target.parent ht, State.parent_of_owner hsent.owner_eq]

namespace Mock

/-- Alice has an NFT with a child, and one with none. -/
def twoRoots : List Extrinsic :=
  [(alice, mintInto (0, 1)), (alice, mintTo alice), (alice, mintTo alice), (alice, newCollection)]

/-- **The child goes along**: once its parent has been sent to Bob, it is
Bob's at the root. -/
theorem rerooted_toBob : Rerooted (0, 1) (.accountId bob) (replay twoRoots)
    (apply (alice, .send (0, 1) (.accountId bob)) (replay twoRoots)) := by
  have hstep : Step (replay twoRoots) (.signed alice (.send (0, 1) (.accountId bob)))
      (apply (alice, .send (0, 1) (.accountId bob)) (replay twoRoots)) :=
    step_apply (e := (alice, .send (0, 1) (.accountId bob))) (by decide +kernel)
  refine send_reroots (acyclic_of_older (by decide +kernel)) (fun id hid => ?_) hstep
  obtain rfl : bob = id := by simpa using hid
  decide +kernel

end Mock

end Rmrk
