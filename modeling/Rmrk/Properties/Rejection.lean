import Rmrk.Properties.Burns
/-!
# What a rejection takes away

`reject_nft` burns the NFT with all the children index reaches from it, and
does not call `pallet_uniques`, as `burn_nft` does: what was rejected keeps
its owner there. Where the index is a forest it is refused for nothing but
the depth of what the sender has put under the NFT, on which no mint and
no send has a bound.
-/

namespace Rmrk

open Effect Relation Rmrk.Core

variable {W : Type} [Config W] {s s' : State W} {x : NftKey} {o : AccountId} {nft : NftInfo}

/-- **The owner can be rid of an NFT**: its rejection returns, and neither
ledger has it any more. -/
def Dismissible (s : State W) (o : AccountId) (x : NftKey) : Prop :=
  ∃ s', rejectNft o x s = .ok () s' ∧ s'.nfts x = none ∧ s'.owner x = none

/-- **What a rejection does**: the record goes, and the owner stays. -/
theorem reject_keeps_owner (h : rejectNft o x s = .ok () s') :
    s'.nfts x = none ∧ s'.owner x = s.owner x ∧ (s.owner x).isSome = true := by
  obtain ⟨hroot, -, hdestroyed, howner⟩ := rejectNft_ok h
  exact ⟨hdestroyed.nfts_below x .refl, congrFun howner x, hroot.owner_isSome⟩

/-- **No rejection leaves the NFT in neither ledger**, in any state and
whoever signs it. -/
theorem not_dismissible (s : State W) (o : AccountId) (x : NftKey) : ¬ Dismissible s o x := by
  rintro ⟨s', h, -, hgone⟩
  obtain ⟨-, howner, hsome⟩ := reject_keeps_owner h
  rw [← howner, hgone] at hsome
  cases hsome

/-! ## When it returns -/

/-- The entry of the NFT itself is out of the index before the burn. -/
theorem nftReject_eq (hroot : RootOwner s x o) (hnft : s.nfts x = some nft)
    (hpending : nft.pending = true) (k : UInt32) : ∃ t : State W,
      t.collections = s.collections ∧ (∀ a, t.children a ⊆ s.children a) ∧
      (∀ a b, b ≠ x → (Lists t a b ↔ Lists s a b)) ∧
      nftReject o x k s = nftBurn k.toNat x t := by
  obtain ⟨r, hr⟩ := hroot
  have hlookup : lookupRootOwner x s = .ok (o, r) s := lookupRootOwner_ok.2 ⟨hr, rfl⟩
  rw [nftReject, bind_of_ok hlookup]
  simp only [get_bind, hnft, okOr, hpending, ensure_of, pure_bind]
  cases hparent : s.parent x with
  | none => exact ⟨s, rfl, fun _ => Finset.Subset.refl _, fun _ _ _ => Iff.rfl, rfl⟩
  | some q =>
      refine ⟨{ s with children := Function.update s.children q ((s.children q).erase x) },
        rfl, fun a => ?_, fun a b hb => ?_, rfl⟩
      · by_cases ha : a = q
        · subst ha; simp [Finset.erase_subset]
        · simp [ha]
      · by_cases ha : a = q
        · subst ha; simp [Lists, hb]
        · simp [Lists, ha]

/-- **A rejection returns exactly if the tree under the NFT is no deeper
than `MaxRecursions`**, where the index reaches a tree from it. -/
theorem reject_returns_iff (htree : TreeAt (Lists s) x) (hh : Housed s x)
    (hroot : RootOwner s x o) (hnft : s.nfts x = some nft) (hpending : nft.pending = true) :
    (∃ s', rejectNft o x s = .ok () s') ↔
      Shallow (Lists s) (Config.maxRecursions W).toNat x := by
  obtain ⟨t, hcols, hsub, hsame, hrun⟩ := nftReject_eq hroot hnft hpending (Config.maxRecursions W)
  have hwhole : ∀ a b, Below s x a → (Lists t a b ↔ Lists s a b) := by
    intro a b ha
    by_cases hb : b = x
    · subst hb
      have hnone := htree.root a ha
      exact iff_of_false (fun h => hnone (hsub a h)) hnone
    · exact hsame a b hb
  have hsettles := nftBurn_settles (Config.maxRecursions W).toNat x t
    (htree.anti fun a _ hb => hsub a hb) (hh.anti hsub hcols)
  rw [Shallow.congr hwhole] at hsettles
  simp only [rejectNft, transactional_ok, hrun]
  refine ⟨fun ⟨s', hok⟩ => ?_, hsettles.ok⟩
  by_contra hdeep
  obtain ⟨s'', herror⟩ := hsettles.error hdeep
  rw [hok] at herror
  cases herror

/-- In a forest of the NFTs there are, that is its height. -/
theorem Filed.reject_returns_iff (hs : Filed s) (hroot : RootOwner s x o)
    (hnft : s.nfts x = some nft) (hpending : nft.pending = true) :
    (∃ s', rejectNft o x s = .ok () s') ↔
      height (Lists s) x ≤ (Config.maxRecursions W).toNat := by
  have hlive : (s.nfts x).isSome = true := by simp [hnft]
  rw [Rmrk.reject_returns_iff (hs.treeAt x) (hs.housed hlive) hroot hnft hpending,
    height_le_iff hs.acyclic]

namespace Mock

/-- Under the NFT she has minted to Bob, Alice nests ten more, each in the
one before. -/
def chained : List Extrinsic :=
  (List.range 10).reverse.map (fun n =>
      (alice, .send (0, .ofNat (n + 1)) (.collectionAndNftTuple 0 (.ofNat n)))) ++
    List.replicate 10 (alice, mintTo alice) ++ [(alice, mintTo bob), (alice, newCollection)]

/-- Bob is rid of none of them; of nine he would be. -/
example : allReturn chained = true ∧
    returns (bob, .rejectNft (0, 0)) (replay chained) = false ∧
      returns (bob, .rejectNft (0, 0)) (replay chained.tail) = true := by decide +kernel

/-- **Bob is not rid of what he rejects**: the record has gone, and he owns
the item still. -/
theorem not_dismissible_of_reachable : ¬ ∀ (s : State Storage) (o : AccountId) (x : NftKey)
    (nft : NftInfo), Reachable s → s.nfts x = some nft → nft.pending = true →
      RootOwner s x o → Dismissible s o x := by
  intro hall
  have howner : (replay [(alice, mintTo bob), (alice, newCollection)]).owner (0, 0) =
      some bob := by decide +kernel
  obtain ⟨nft, hnft, hpending⟩ : ∃ nft,
      (replay [(alice, mintTo bob), (alice, newCollection)]).nfts (0, 0) = some nft ∧
        nft.pending = true := ⟨_, rfl, by decide +kernel⟩
  obtain ⟨s', h, -, hgone⟩ := hall _ bob (0, 0) nft (reachable_replay (by decide +kernel)) hnft
    hpending ((rootOwner_of_owner howner (by decide +kernel)).2 rfl)
  have hkept := (reject_keeps_owner h).2.1
  rw [hgone, howner] at hkept
  cases hkept

end Mock

end Rmrk
