import Rmrk.Helpers.Issued
import Rmrk.Mock.Replay
/-!
# Two ways to mint into an NFT

`mint_nft_directly_to_nft` is to be `mint_nft` and `send` in one. A send
enters the NFT into the index, under its new parent; the direct mint does
not, and the index of the parent is where the two ways always part.
-/

namespace Rmrk

open Effect

variable {W : Type} [Config W] {s s₁ s₂ : State W} {p : NftKey} {o : AccountId}
variable {c : CollectionId} {rr : Option AccountId} {r : Option Permill} {md : BoundedString}
variable {res : Option (List ResourceTypes)}

/-- **What the two ways are to agree on.** -/
structure SameMint (s₁ s₂ : State W) : Prop where
  owner : s₁.owner = s₂.owner
  nfts : s₁.nfts = s₂.nfts
  children : s₁.children = s₂.children
  nextNftId : s₁.nextNftId = s₂.nextNftId
  resources : s₁.resources = s₂.resources
  nftsCount : ∀ c, (s₁.collections c).map CollectionInfo.nftsCount =
    (s₂.collections c).map CollectionInfo.nftsCount

/-- What has been minted directly is in the index under no NFT. -/
theorem unlisted_of_directMint {tr : Bool} (hr : Reachable s)
    (h : dispatch o (.mintNftDirectlyToNft p c rr r md tr res) s = .ok () s₁) (q : NftKey) :
    (c, s.nextNftId c) ∉ s₁.children q := by
  obtain ⟨n, nft, -, -, -, hminted⟩ := Core.mintNftDirectlyToNft_ok h
  rw [hminted.children]
  exact (hr.sound.absent (c, s.nextNftId c) (UInt32.le_refl _)).unlisted q

/-- What has been sent to an NFT is in the index under it. -/
theorem listed_of_send {x : NftKey} {t : State W}
    (h : dispatch o (.send x (.collectionAndNftTuple p.1 p.2)) t = .ok () s₂) :
    x ∈ s₂.children p := by
  obtain ⟨old, new, nft, nft', hsent, -⟩ := Core.send_ok h
  have hnew : new = nftToAccountId p := hsent.target.1
  rw [hsent.mem_children]
  exact .inl ⟨rfl, decodeNftAccountId_eq_some_iff.2 hnew⟩

/-- **The two ways never agree.** -/
theorem not_sameMint (hr : Reachable s)
    (h₁ : dispatch o (.mintNftDirectlyToNft p c rr r md true res) s = .ok () s₁) :
    ∀ t, dispatch o (.mintNft none c rr r md true res) s = .ok () t →
      dispatch o (.send (c, s.nextNftId c) (.collectionAndNftTuple p.1 p.2)) t = .ok () s₂ →
        ¬ SameMint s₁ s₂ := by
  intro t _ h₃ hsame
  have hlisted := listed_of_send h₃
  rw [← hsame.children] at hlisted
  exact unlisted_of_directMint hr h₁ p hlisted

namespace Mock

/-- Alice has an NFT to mint into. -/
def target : List Extrinsic := [(alice, mintTo alice), (alice, newCollection)]

/-- A mint to its signer. -/
def mintOwn : Call Storage := .mintNft none 0 none none [] true none

/-- Alice mints into her NFT directly. -/
def inOne : List Extrinsic := (alice, mintInto (0, 0)) :: target

/-- Alice mints, and sends what she has minted. -/
def inTwo : List Extrinsic :=
  [(alice, .send (0, 1) (.collectionAndNftTuple 0 0)), (alice, mintOwn)] ++ target

theorem reachable_target : Reachable (replay target) := reachable_replay (by decide +kernel)

theorem step_inOne : Step (replay target) (.signed alice (mintInto (0, 0))) (replay inOne) :=
  step_apply (e := (alice, mintInto (0, 0))) (by decide +kernel)

theorem step_mintOwn : Step (replay target) (.signed alice mintOwn) (replay inTwo.tail) :=
  step_apply (e := (alice, mintOwn)) (by decide +kernel)

/-- What Alice sends is what she has minted: the next NFT there was. -/
theorem step_inTwo : Step (replay inTwo.tail) (.signed alice
    (.send (0, (replay target).nextNftId 0) (.collectionAndNftTuple 0 0))) (replay inTwo) := by
  have hnext : (replay target).nextNftId 0 = 1 := by decide +kernel
  rw [hnext]
  exact step_apply (e := (alice, .send (0, 1) (.collectionAndNftTuple 0 0))) (by decide +kernel)

/-- **A child that is not listed.** -/
theorem not_sameMint_of_run : ¬ ∀ (s s₁ t s₂ : State Storage) (o : AccountId) (p : NftKey)
    (c : CollectionId) (rr : Option AccountId) (r : Option Permill) (md : BoundedString)
    (res : Option (List ResourceTypes)), Reachable s → (s.nfts p).isSome = true →
      dispatch o (.mintNftDirectlyToNft p c rr r md true res) s = .ok () s₁ →
      dispatch o (.mintNft none c rr r md true res) s = .ok () t →
      dispatch o (.send (c, s.nextNftId c) (.collectionAndNftTuple p.1 p.2)) t = .ok () s₂ →
        SameMint s₁ s₂ := by
  intro hall
  have hsame := hall _ _ _ _ alice (0, 0) 0 none none [] none reachable_target (by decide +kernel)
    step_inOne step_mintOwn step_inTwo
  have hchildren := congrFun hsame.children (0, 0)
  rw [show (replay inOne).children (0, 0) = ∅ by decide +kernel,
    show (replay inTwo).children (0, 0) = {(0, 1)} by decide +kernel] at hchildren
  exact absurd hchildren (by decide)

theorem not_sameMint_inOne : ¬ SameMint (replay inOne) (replay inTwo) :=
  not_sameMint reachable_target step_inOne (replay inTwo.tail) step_mintOwn step_inTwo

end Mock

end Rmrk
