import Rmrk.Helpers.Notes
/-!
# The calls that move NFTs

The effect of each dispatchable of `rmrk-core` that mints, transfers or
destroys.
-/

namespace Rmrk

namespace Core

open Effect Pointer Relation

variable {W : Type} [Config W] {s s' t : State W} {x y p : NftKey} {o a : AccountId} {u : Unit}
variable {newOwner : AccountIdOrCollectionNftTuple}

/-! ## Minting -/

/-- A counter that is not at its end goes up by one. -/
theorem checkedAdd_eq_some {n m : UInt32} :
    checkedAdd n 1 = some m ↔ n.toNat + 1 < UInt32.size ∧ n + 1 = m := by
  simp [checkedAdd]

omit [Config W] in
/-- **What both mints check**: there is an identifier left, the collection
is there, and the identifier is below its maximum. -/
theorem claimNftId_checks {c : CollectionId} {n : NftId} {col : CollectionInfo}
    (h : claimNftId c s = .ok (n, col) s') :
    (s.nextNftId c = n ∧ n.toNat + 1 < UInt32.size ∧
      s' = { s with nextNftId := Function.update s.nextNftId c (n + 1) }) ∧
      s.collections c = some col ∧ ∀ m, col.max = some m → n < m := by
  simp only [claimNftId, getNextNftId, bind_assoc, get_bind_ok, okOr_bind_ok, update_bind_ok,
    pure_bind_ok, checkedAdd_eq_some] at h
  obtain ⟨_, ⟨hroom, rfl⟩, col', hcol, h⟩ := h
  cases hmax : col'.max with
  | none =>
      simp only [hmax, pure_ok, Prod.mk.injEq] at h
      obtain ⟨⟨rfl, rfl⟩, rfl⟩ := h
      exact ⟨⟨rfl, hroom, rfl⟩, hcol, by simp [hmax]⟩
  | some max =>
      simp only [hmax, ensure_bind_ok, pure_ok, Prod.mk.injEq] at h
      obtain ⟨hlt, ⟨rfl, rfl⟩, rfl⟩ := h
      refine ⟨⟨rfl, hroom, rfl⟩, hcol, fun m hm => ?_⟩
      rw [hmax, Option.some.injEq] at hm
      exact hm ▸ hlt

omit [Config W] in
/-- The identifier is the next one, and the next one moves on. -/
theorem claimNftId_ok {c : CollectionId} {n : NftId} {col : CollectionInfo}
    (h : claimNftId c s = .ok (n, col) s') :
    s.nextNftId c = n ∧ n.toNat + 1 < UInt32.size ∧
      s' = { s with nextNftId := Function.update s.nextNftId c (n + 1) } :=
  (claimNftId_checks h).1

omit [Config W] in
/-- **What both mints record**: the NFT, and one more in the count. -/
theorem recordNft_counts {col : CollectionInfo} {nft : NftInfo}
    (h : recordNft x col nft s = .ok u s') :
    col.nftsCount.toNat + 1 < UInt32.size ∧ ∃ current, s.collections x.1 = some current ∧
      s' = { s with
        nfts := s.nfts.insert x nft
        collections :=
          s.collections.insert x.1 { current with nftsCount := col.nftsCount + 1 } } := by
  simp only [recordNft, get_bind_ok, okOr_bind_ok, update_bind_ok, update_ok,
    checkedAdd_eq_some] at h
  obtain ⟨_, ⟨hroom, rfl⟩, current, hcurrent, rfl⟩ := h
  exact ⟨hroom, current, hcurrent, rfl⟩

omit [Config W] in
/-- A mint puts the record in. What it makes of the count is for the register.
-/
theorem recordNft_ok {col : CollectionInfo} {nft : NftInfo}
    (h : recordNft x col nft s = .ok u s') :
    ∃ collections, s' = { s with nfts := s.nfts.insert x nft, collections } := by
  obtain ⟨-, _, -, hs'⟩ := recordNft_counts h
  exact ⟨_, hs'⟩

/-- The resources of a mint are notes on what is minted. -/
theorem addResources_ok {l : Option (List ResourceTypes)}
    (h : addResources o x l s = .ok u s') : Noted x s s' := by
  refine each_ok (fun _ => Noted.refl) (fun _ _ _ => Noted.trans) ?_ h
  intro res _ s₁ s₂ _ h
  simp only [bind_ok, pure_ok] at h
  obtain ⟨r, _, h, -, rfl⟩ := h
  exact noted_of_added (resourceAdd_ok h).2

/-- **What the two mints have in common**: the identifier, the record, the
item in `pallet_uniques` and the resources. -/
theorem minted_of_parts {c : CollectionId} {n : NftId} {col : CollectionInfo} {nft : NftInfo}
    {l : Option (List ResourceTypes)} {s₁ s₂ : State W} {w : W} {v : Unit}
    (hid : claimNftId c s = .ok (n, col) s₁) (hrec : recordNft (c, n) col nft s₁ = .ok v s₂)
    (hequipped : nft.equipped = false) (hw : Uniques.doMint s₂.ext (c, n) a = .ok w)
    (h : addResources o (c, n) l { s₂ with ext := w } = .ok u s') :
    Minted (c, n) a nft s s' := by
  obtain ⟨hnext, hroom, hs₁⟩ := claimNftId_ok hid
  obtain ⟨cols, hs₂⟩ := recordNft_ok hrec
  subst hs₁ hs₂
  refine Minted.noted ?_ (addResources_ok h)
  exact {
    lock := rfl, listedNfts := rfl, equippings := rfl, fits := fun _ => id
    next := hnext, room := hroom, nextNftId := rfl, equipped := hequipped
    owner := Uniques.owner_doMint hw
    nfts := rfl, children := rfl, blockNumber := le_rfl
    notes := fun _ _ => .of_eq rfl }

/-- The parts of `mint_nft`, with the record it makes. -/
theorem mintNft_parts {owner : Option AccountId} {c : CollectionId} {rr : Option AccountId}
    {r : Option Permill} {md : BoundedString} {tr : Bool} {res : Option (List ResourceTypes)}
    (h : mintNft o owner c rr r md tr res s = .ok u s') :
    ∃ n col s₁ s₂ w, claimNftId c s = .ok (n, col) s₁ ∧
      recordNft (c, n) col
        { owner := .accountId (owner.getD o), royalty := royaltyInfo rr r o, metadata := md
          equipped := false, pending := decide (owner.getD o ≠ o), transferable := tr }
        s₁ = .ok () s₂ ∧
      Uniques.doMint s₂.ext (c, n) (owner.getD o) = .ok w ∧
      addResources o (c, n) res { s₂ with ext := w } = .ok u s' := by
  simp only [mintNft, transactional_ok, checkCollectionOwner, bind_assoc, get_bind_ok,
    okOr_bind_ok, ensure_bind_ok] at h
  obtain ⟨_, -, -, h⟩ := h
  simp only [nftMint, bind_assoc] at h
  rw [bind_ok] at h
  obtain ⟨⟨n, col⟩, s₁, hid, h⟩ := h
  rw [bind_ok] at h
  obtain ⟨_, s₂, hrec, h⟩ := h
  simp only [pure_bind_ok, external_bind_ok] at h
  obtain ⟨w, hw, h⟩ := h
  exact ⟨n, col, s₁, s₂, w, hid, hrec, hw, h⟩

/-- **What a mint does**: it takes the next number, puts the record in and
gives the item to the owner. -/
theorem mintNft_ok {owner : Option AccountId} {c : CollectionId} {rr : Option AccountId}
    {r : Option Permill} {md : BoundedString} {tr : Bool} {res : Option (List ResourceTypes)}
    (h : mintNft o owner c rr r md tr res s = .ok u s') :
    ∃ n nft, nft.owner = .accountId (owner.getD o) ∧ nft.transferable = tr ∧
      Minted (c, n) (owner.getD o) nft s s' := by
  obtain ⟨n, col, s₁, s₂, w, hid, hrec, hw, h⟩ := mintNft_parts h
  exact ⟨n, _, rfl, rfl, minted_of_parts hid hrec rfl hw h⟩

/-- The parts of `mint_nft_directly_to_nft`. The target is looked up once
the identifier has been claimed. -/
theorem mintNftDirectlyToNft_parts {c : CollectionId} {rr : Option AccountId}
    {r : Option Permill} {md : BoundedString} {tr : Bool} {res : Option (List ResourceTypes)}
    (h : mintNftDirectlyToNft o p c rr r md tr res s = .ok u s') :
    ∃ n col s₁ s₂ b w, claimNftId c s = .ok (n, col) s₁ ∧ RootOwner s p b ∧
      recordNft (c, n) col
        { owner := .collectionAndNftTuple p.1 p.2, royalty := royaltyInfo rr r b, metadata := md
          equipped := false, pending := decide (b ≠ o), transferable := tr } s₁ = .ok () s₂ ∧
      Uniques.doMint s₂.ext (c, n) (nftToAccountId p) = .ok w ∧
      addResources o (c, n) res { s₂ with ext := w } = .ok u s' := by
  simp only [mintNftDirectlyToNft, transactional_ok, checkCollectionOwner, bind_assoc,
    get_bind_ok, okOr_bind_ok, ensure_bind_ok] at h
  obtain ⟨_, -, -, h⟩ := h
  simp only [nftMintDirectlyToNft, bind_assoc] at h
  rw [bind_ok] at h
  obtain ⟨⟨n, col⟩, s₁, hid, h⟩ := h
  simp only [lookupRootOwner_bind_ok] at h
  obtain ⟨b, root, hroot, h⟩ := h
  rw [bind_ok] at h
  obtain ⟨_, s₂, hrec, h⟩ := h
  simp only [pure_bind_ok, external_bind_ok] at h
  obtain ⟨w, hw, h⟩ := h
  have howner : s₁.owner = s.owner := by rw [(claimNftId_ok hid).2.2]; rfl
  exact ⟨n, col, s₁, s₂, b, w, hid, (rootOwner_congr howner).1 ⟨root, hroot⟩, hrec, hw, h⟩

/-- **A mint into an NFT** asks for a root owner, and gives the item to the
account of the NFT. -/
theorem mintNftDirectlyToNft_ok {c : CollectionId} {rr : Option AccountId}
    {r : Option Permill} {md : BoundedString} {tr : Bool} {res : Option (List ResourceTypes)}
    (h : mintNftDirectlyToNft o p c rr r md tr res s = .ok u s') :
    ∃ n nft, nft.owner = .collectionAndNftTuple p.1 p.2 ∧ nft.transferable = tr ∧
      (∃ b, RootOwner s p b) ∧ Minted (c, n) (nftToAccountId p) nft s s' := by
  obtain ⟨n, col, s₁, s₂, b, w, hid, hroot, hrec, hw, h⟩ := mintNftDirectlyToNft_parts h
  exact ⟨n, _, rfl, rfl, ⟨b, hroot⟩, minted_of_parts hid hrec rfl hw h⟩

/-! ## Sending and accepting -/

/-- An NFT that is sent or accepted into is there, has a root owner and is not
below what comes. -/
theorem checkTarget_ok (h : checkTarget x p s = .ok a s') :
    s = s' ∧ (s.nfts p).isSome = true ∧ ¬ Reaches s.parent p x ∧ RootOwner s p a := by
  simp only [checkTarget, get_bind_ok, ensure_bind_ok] at h
  obtain ⟨hp, hne, h⟩ := h
  rw [bind_ok] at h
  obtain ⟨below, _, hbelow, h⟩ := h
  obtain ⟨hd, rfl⟩ := isXDescendentOfY_ok.1 hbelow
  simp only [ensure_bind_ok, lookupRootOwner_bind_ok, pure_ok] at h
  obtain ⟨rfl, b, root, hroot, rfl, rfl⟩ := h
  refine ⟨rfl, hp, fun hpx => ?_, root, hroot⟩
  -- the target is `x`, or below it: one check for each
  rcases reflTransGen_iff_eq_or_transGen.1 hpx with h | h
  · exact hne h
  · exact not_transGen_of_descendent hd h

/-- Where a send goes, and whether it waits to be accepted. -/
theorem sendTarget_ok {b : Bool} (h : sendTarget x o newOwner s = .ok (a, b) s') :
    s = s' ∧ Target s x newOwner a ∧ (b = true ↔ ApprovalRequired s o newOwner) := by
  cases newOwner with
  | accountId id =>
      simp only [sendTarget, pure_ok, Prod.mk.injEq] at h
      obtain ⟨⟨rfl, rfl⟩, rfl⟩ := h
      exact ⟨rfl, rfl, by simp [ApprovalRequired]⟩
  | collectionAndNftTuple cid nid =>
      simp only [sendTarget, bind_ok, pure_ok, Prod.mk.injEq] at h
      obtain ⟨r, _, hp, ⟨rfl, rfl⟩, rfl⟩ := h
      obtain ⟨rfl, hp, hne, hr⟩ := checkTarget_ok hp
      refine ⟨rfl, ⟨rfl, hp, hne⟩, ?_⟩
      simp only [ApprovalRequired, ne_eq, decide_eq_true_eq]
      exact not_congr ⟨fun h => h ▸ hr, hr.unique⟩

/-- Where an acceptance goes, which is never one that would have to wait. -/
theorem acceptTarget_ok (h : acceptTarget x o newOwner s = .ok a s') :
    s = s' ∧ Target s x newOwner a ∧ ¬ ApprovalRequired s o newOwner := by
  cases newOwner with
  | accountId id =>
      simp only [acceptTarget, pure_ok] at h
      exact ⟨h.2, h.1.symm, fun h => h⟩
  | collectionAndNftTuple cid nid =>
      simp only [acceptTarget] at h
      rw [bind_ok] at h
      obtain ⟨r, _, hp, h⟩ := h
      simp only [ensure_bind_ok, pure_ok] at h
      obtain ⟨rfl, rfl, rfl⟩ := h
      obtain ⟨rfl, hp, hne, hr⟩ := checkTarget_ok hp
      exact ⟨rfl, ⟨rfl, hp, hne⟩, not_not.2 hr⟩

omit [Config W] in
/-- The entry follows the NFT. -/
theorem relinkChild_ok {old new : AccountId} (h : relinkChild x old new s = .ok u s') :
    ∃ children, s' = { s with children } ∧ ∀ a b, b ∈ children a ↔
      b = x ∧ decodeNftAccountId new = some a ∨
        b ∈ s.children a ∧ ¬ (b = x ∧ decodeNftAccountId old = some a) := by
  have hdel : ∀ p a b, b ∈ Function.update s.children p ((s.children p).erase x) a ↔
      b ∈ s.children a ∧ ¬ (b = x ∧ p = a) := by
    intro p a b
    by_cases ha : a = p
    · subst ha; simp [and_comm]
    · simp [ha, Ne.symm ha]
  have hadd : ∀ (m : NftKey → Finset NftKey) p a b,
      b ∈ Function.update m p (insert x (m p)) a ↔ b = x ∧ p = a ∨ b ∈ m a := by
    intro m p a b
    by_cases ha : a = p
    · subst ha; simp
    · simp [ha, Ne.symm ha]
  unfold relinkChild at h
  cases hold : decodeNftAccountId old <;> cases hnew : decodeNftAccountId new <;>
    simp only [hold, hnew, removeChild, addChild, update_bind_ok, pure_ok,
      update_ok, true_and] at h <;> subst h
  · exact ⟨_, rfl, fun a b => by simp⟩
  · exact ⟨_, rfl, fun a b => by simpa using hadd s.children _ a b⟩
  · exact ⟨_, rfl, fun a b => by simpa using hdel _ a b⟩
  · refine ⟨_, rfl, fun a b => ?_⟩
    rw [hadd, hdel]
    simp

omit [Config W] in
/-- Nothing in the index can fail. -/
theorem relinkChild_returns (x : NftKey) (old new : AccountId) (s : State W) :
    ∃ s', relinkChild x old new s = .ok () s' := by
  unfold relinkChild
  cases decodeNftAccountId old <;> cases decodeNftAccountId new <;> exact ⟨_, rfl⟩

omit [Config W] in
theorem recordSend_ok {nft : NftInfo} {b : Bool} (h : recordSend x nft b s = .ok u s') :
    s' = { s with nfts :=
      if b then s.nfts.mutate x fun nft => { nft with pending := true }
      else s.nfts.insert x nft } := by
  unfold recordSend at h
  cases b <;> simp only [if_true, Bool.false_eq_true, if_false, update_ok] at h ⊢ <;> exact h.symm

/-- **What `send` does.** -/
theorem send_ok (h : send o x newOwner s = .ok u s') :
    ∃ old new nft nft', Sent o x newOwner old new nft nft' s s' ∧ s.lock x = false ∧
      SameListings s s' ∧
      ∃ w, Uniques.doTransfer s.lock s.ext x new = .ok w ∧ s'.ext = w := by
  simp only [send, transactional_ok, nftSend, checkIsTransferable, checkIsNotEquipped, bind_assoc,
    get_bind_ok, okOr_bind_ok, lookupRootOwner_bind_ok, ensure_bind_ok] at h
  obtain ⟨old, hold, r, root, hroot, rfl, nft, hnft, htr, heq, h⟩ := h
  rw [bind_ok] at h
  obtain ⟨⟨new, ap⟩, _, htarget, h⟩ := h
  obtain ⟨rfl, htarget, hap⟩ := sendTarget_ok htarget
  rw [bind_ok] at h
  obtain ⟨_, s₁, hrec, h⟩ := h
  have hs₁ := recordSend_ok hrec
  rw [bind_ok] at h
  obtain ⟨_, s₂, hlink, h⟩ := h
  obtain ⟨children, hs₂, hch⟩ := relinkChild_ok hlink
  simp only [pure_bind_ok, get_bind_ok, external_ok] at h
  obtain ⟨w, hw, rfl⟩ := h
  subst hs₁ hs₂
  refine ⟨old, new, nft,
    if ap then { nft with pending := true } else { nft with owner := newOwner }, ?_,
    Uniques.unlocked_doTransfer hw, ⟨rfl, rfl⟩, w, hw, rfl⟩
  exact {
    root := ⟨root, hroot⟩, target := htarget, owner_eq := hold, nfts_eq := hnft
    transferable := htr, equipped := heq
    approved := fun h => by rw [if_neg (mt hap.1 h)]
    unapproved := fun h => by rw [if_pos (hap.2 h)]
    owner := Uniques.owner_doTransfer hw
    nfts := by
      -- the copy the new owner is written to is stored, or dropped
      cases ap
      · rfl
      · funext z
        simp only [StorageMap.mutate_apply, StorageMap.insert_apply, hnft, if_true, Option.map]
    mem_children := hch
    nextNftId := rfl, equippings := rfl, fits := fun _ => id, blockNumber := le_rfl
    notes := fun _ => .of_eq rfl }

/-- What `accept_nft` checks, and all that it writes. -/
theorem acceptNft_writes (h : acceptNft o x newOwner s = .ok u s') :
    ∃ new nft w, RootOwner s x o ∧ s.nfts x = some nft ∧ Target s x newOwner new ∧
      ¬ ApprovalRequired s o newOwner ∧ Uniques.doTransfer s.lock s.ext x new = .ok w ∧
      s' = { s with ext := w, nfts := s.nfts.insert x { nft with pending := false } } := by
  simp only [acceptNft, transactional_ok, nftAccept, bind_assoc, get_bind_ok, okOr_bind_ok,
    lookupRootOwner_bind_ok, ensure_bind_ok] at h
  obtain ⟨r, root, hroot, rfl, nft, hnft, h⟩ := h
  rw [bind_ok] at h
  obtain ⟨new, _, htarget, h⟩ := h
  obtain ⟨rfl, htarget, hap⟩ := acceptTarget_ok htarget
  simp only [update_bind_ok, pure_bind_ok, get_bind_ok, external_ok] at h
  obtain ⟨w, hw, rfl⟩ := h
  refine ⟨new, nft, w, ⟨root, hroot⟩, hnft, htarget, hap, hw, ?_⟩
  simp only [StorageMap.mutate, StorageMap.insert, hnft, Option.map]

/-- **What `accept_nft` does.** -/
theorem acceptNft_ok (h : acceptNft o x newOwner s = .ok u s') :
    ∃ new nft, Accepted o x newOwner new nft s s' := by
  obtain ⟨new, nft, w, hroot, hnft, htarget, hap, hw, rfl⟩ := acceptNft_writes h
  refine ⟨new, nft, ?_⟩
  exact {
    root := hroot, target := htarget, approved := hap, nfts_eq := hnft
    unlocked := Uniques.unlocked_doTransfer hw
    owner := Uniques.owner_doTransfer hw
    nfts := rfl, children := rfl, nextNftId := rfl, lock := rfl, listedNfts := rfl
    equippings := rfl, fits := fun _ => id, blockNumber := le_rfl
    notes := fun _ => .of_eq rfl }

/-! ## Burning and rejecting -/

omit [Config W] in
/-- An entry that leads to `x` is not needed to get on from `x`. -/
theorem below_unlink {q : Option NftKey}
    (ht : ∀ a b, b ∈ t.children a ↔ b ∈ s.children a ∧ ¬ (b = x ∧ q = some a)) :
    Below t x y ↔ Below s x y := by
  refine ⟨Below.mono fun a b hb => ((ht a b).1 hb).1, fun h => ?_⟩
  induction h with
  | refl => exact .refl
  | @tail b c _ hbc ih =>
      by_cases hc : c = x
      · rw [hc]
      · exact ih.tail ((ht b c).2 ⟨hbc, fun h => hc h.1⟩)

omit [Config W] in
/-- What `nft_burn` leaves, where the entry of `x` under `q` went before
it. -/
theorem destroyed_of_burned {q : Option NftKey} (children : NftKey → Finset NftKey) {s₁ : State W}
    {w : W} (ht : t = { s with children })
    (hch : ∀ a b, b ∈ children a ↔ b ∈ s.children a ∧ ¬ (b = x ∧ q = some a))
    (h : Burned {y | Below t x y} t s₁) (hs' : s' = { s₁ with ext := w }) :
    Destroyed x q s s' := by
  have hbelow : ∀ y, y ∈ {y | Below t x y} ↔ Below s x y := fun y =>
    below_unlink (q := q) (by rw [ht]; exact hch)
  have hrec : t.recorded = s.recorded := by rw [ht]; rfl
  subst hs'
  exact {
    lock := (congrArg State.lock h.unburned).trans (by rw [ht]; rfl)
    listedNfts := (congrArg State.listedNfts h.unburned).trans (by rw [ht]; rfl)
    equippings := (congrArg State.equippings h.unburned).trans (by rw [ht]; rfl)
    fits := by
      intro k hk
      have : s₁.equippableSlots = s.equippableSlots :=
        (congrArg State.equippableSlots h.unburned).trans (by rw [ht]; rfl)
      simpa only [this] using hk
    nfts_below := fun y hy => h.nfts_mem y ((hbelow y).2 hy)
    nfts_else := fun y hy => (h.nfts_notMem y (mt (hbelow y).1 hy)).trans (by rw [ht])
    mem_children := by
      intro a b
      rw [h.mem_children a b (Set.notMem_empty a), hbelow, hbelow, hrec, ht, hch]
      tauto
    nextNftId := (congrArg State.nextNftId h.unburned).trans (by rw [ht]; rfl)
    blockNumber := ((congrArg State.blockNumber h.unburned).trans (by rw [ht]; rfl)).ge
    resources_below := fun y hy => h.resources_mem y ((hbelow y).2 hy)
    notes := fun z hz => {
      resources := fun r => (h.resources_notMem z (mt (hbelow z).1 hz) r).trans (by rw [ht])
      priorities := fun r =>
        congrFun ((congrArg State.priorities h.unburned).trans (by rw [ht]; rfl)) (z, r)
      properties := fun k => congrFun
        ((congrArg State.properties h.unburned).trans (by rw [ht]; rfl)) (z.1, some z.2, k) }
    priorities := (congrArg State.priorities h.unburned).trans (by rw [ht]; rfl)
    properties := (congrArg State.properties h.unburned).trans (by rw [ht]; rfl) }

/-- **What `burn_nft` does**: the ledger of `pallet_uniques` loses the one
item. -/
theorem burnNft_ok {k : UInt32} (h : burnNft o x k s = .ok u s') :
    RootOwner s x o ∧ Destroyed x none s s' ∧ s'.owner = Function.update s.owner x none := by
  simp only [burnNft, transactional_ok, lookupRootOwner_bind_ok, ensure_bind_ok] at h
  obtain ⟨r, root, hroot, rfl, h⟩ := h
  rw [bind_ok] at h
  obtain ⟨_, s₁, hburn, h⟩ := h
  obtain ⟨w, hw, rfl⟩ := external_ok.1 h
  have hB := nftBurn_ok hburn
  refine ⟨⟨root, hroot⟩, destroyed_of_burned s.children rfl (by simp) hB rfl, ?_⟩
  exact (Uniques.owner_doBurn hw).trans (by rw [hB.ext]; rfl)

/-- **What `reject_nft` does**: the ledger of `pallet_uniques` keeps every
item. -/
theorem rejectNft_ok (h : rejectNft o x s = .ok u s') :
    RootOwner s x o ∧ (∃ nft, s.nfts x = some nft ∧ nft.pending = true) ∧
      Destroyed x (s.parent x) s s' ∧ s'.owner = s.owner := by
  simp only [rejectNft, transactional_ok, nftReject, get_bind_ok, okOr_bind_ok,
    lookupRootOwner_bind_ok, ensure_bind_ok] at h
  obtain ⟨r, root, hroot, nft, hnft, hpending, rfl, h⟩ := h
  refine ⟨⟨root, hroot⟩, ⟨nft, hnft, hpending⟩, ?_⟩
  have howner : ∀ s₁ : State W, s₁.ext = s.ext → s₁.owner = s.owner := by
    intro s₁ h
    funext z; simp only [State.owner, h]
  cases hparent : s.parent x with
  | none =>
      rw [hparent] at h
      have hB := nftBurn_ok h
      exact ⟨destroyed_of_burned s.children rfl (by simp) hB rfl, howner _ hB.ext⟩
  | some q =>
      simp only [hparent, removeChild, update_bind_ok] at h
      have hB := nftBurn_ok h
      refine ⟨destroyed_of_burned _ rfl (fun a b => ?_) hB rfl, howner _ hB.ext⟩
      by_cases ha : a = q
      · subst ha; simp [and_comm]
      · simp [ha, Ne.symm ha]

end Core

end Rmrk
