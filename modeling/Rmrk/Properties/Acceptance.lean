import Rmrk.Properties.Approval
/-!
# What an acceptance confirms

`accept_nft` is told the new owner again, and transfers the NFT to it a
second time. It does not ask whether the NFT is waiting, nor whether the
owner it is told is the one the NFT was sent to; `nft_reject` asks the
first. Where both are so it takes the flag off, and nothing else.
-/

namespace Rmrk

open Effect

variable {W : Type} [Config W] [Deposits W] {s s' : State W} {x : NftKey} {o : AccountId}
variable {newOwner : AccountIdOrCollectionNftTuple}

/-- **An acceptance confirms**: the NFT was waiting, the call names the
owner it has, and its flag is all that has changed. -/
structure Confirms (x : NftKey) (newOwner : AccountIdOrCollectionNftTuple) (s s' : State W) :
    Prop where
  waiting : Marks s x True
  direct : s.owner x = some newOwner.account
  ours : s' = { s with
    ext := s'.ext
    nfts := s.nfts.mutate x fun nft => { nft with pending := false } }
  owner : s'.owner = s.owner
  free : Currency.free s'.ext = Currency.free s.ext
  reserved : Currency.reserved s'.ext = Currency.reserved s.ext

omit [Deposits W] in
/-- A transfer to the owner an item has leaves all owners as they were. -/
theorem owner_of_direct {l : NftKey → Bool} {w : W} {a : AccountId} (hx : s.owner x = some a)
    (hw : Uniques.doTransfer l s.ext x a = .ok w) : Uniques.owner w = s.owner := by
  rw [Uniques.owner_doTransfer hw, ← hx]
  exact Function.update_eq_self x s.owner

/-- **An acceptance confirms if and only if the NFT was waiting and the
call names its direct owner.** -/
theorem confirms_iff (h : dispatch o (.acceptNft x newOwner) s = .ok () s') :
    Confirms x newOwner s s' ↔ Marks s x True ∧ s.owner x = some newOwner.account := by
  constructor
  · exact fun hc => ⟨hc.waiting, hc.direct⟩
  · rintro ⟨hwaiting, hdirect⟩
    obtain ⟨new, nft, w, -, hnft, htarget, -, hw, rfl⟩ := Core.acceptNft_writes h
    rw [← htarget.account] at hw
    refine ⟨hwaiting, hdirect, ?_, owner_of_direct hdirect hw, Config.free_doTransfer hw,
      Deposits.reserved_doTransfer hw⟩
    simp only [StorageMap.mutate, StorageMap.insert, hnft, Option.map]

namespace Mock

/-- Alice has an NFT that waits for nobody, and accepts it for Bob. -/
def acceptsForBob : Extrinsic := (alice, .acceptNft (0, 0) (.accountId bob))

/-- **Not a confirmation**: the NFT is Bob's now. -/
theorem not_confirms_of_run : ¬ ∀ (s : State Storage) (o : AccountId) (x : NftKey)
    (newOwner : AccountIdOrCollectionNftTuple) (s' : State Storage), Reachable s →
      dispatch o (.acceptNft x newOwner) s = .ok () s' → Confirms x newOwner s s' := by
  intro hall
  have hr : Reachable (replay [(alice, mintTo alice), (alice, newCollection)]) :=
    reachable_replay (by decide +kernel)
  have hstep : Step (replay [(alice, mintTo alice), (alice, newCollection)])
      (.signed acceptsForBob.1 acceptsForBob.2) _ := step_apply (by decide +kernel)
  have h := hall _ _ _ _ _ hr hstep
  exact absurd h.direct (by decide +kernel)

/-- Alice has sent an NFT of hers to Bob's, and Bob accepts it. -/
def waitingForBob : List Extrinsic :=
  [(alice, .send (0, 1) (.collectionAndNftTuple 0 0)), (alice, mintTo alice),
    (alice, mintTo bob), (alice, newCollection)]

def bobAccepts : Extrinsic := (bob, .acceptNft (0, 1) (.collectionAndNftTuple 0 0))

theorem confirms_bobAccepts : Confirms (0, 1) (.collectionAndNftTuple 0 0) (replay waitingForBob)
    (replay (bobAccepts :: waitingForBob)) := by
  have hstep : Step (replay waitingForBob) (.signed bobAccepts.1 bobAccepts.2)
      (replay (bobAccepts :: waitingForBob)) := step_apply (by decide +kernel)
  have hpending : ((replay waitingForBob).nfts (0, 1)).map NftInfo.pending = some true := by
    decide +kernel
  obtain ⟨nft, hnft, hset⟩ := Option.map_eq_some_iff.1 hpending
  exact (confirms_iff hstep).2 ⟨⟨nft, hnft, iff_of_true hset trivial⟩, by decide +kernel⟩

end Mock

end Rmrk
