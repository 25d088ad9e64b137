import Rmrk.Helpers.Trades
/-!
# What a step does

The outcome of every step, by its label. A proof about all steps is a case
analysis of the outcome: most extrinsics move nothing, and share a case.
-/

namespace Rmrk

open Effect

variable {W : Type} [Config W] {s s' : State W} {act : Act W}

/-- The extrinsics that move nothing. -/
def Call.still : Call W → Bool
  | .mintNft .. | .mintNftDirectlyToNft .. | .burnNft .. | .send .. | .acceptNft ..
  | .rejectNft .. | .equip .. | .buy .. | .list .. | .unlist .. | .acceptOffer .. => false
  | _ => true

/-- The steps that move nothing. -/
def Act.still : Act W → Bool
  | .signed _ call => call.still
  | .between .. => true

/-- The extrinsics that write a resource of `x` without a look at its
lock. -/
def Call.unguarded (x : NftKey) : Call W → Prop
  | .acceptResource y _ | .removeResource y _ | .acceptResourceRemoval y _ => y = x
  | _ => False

/-- **What a step does**, by its label. -/
inductive Outcome (s s' : State W) : Act W → Prop
  | silent {act : Act W} (hstill : act.still = true) (h : Silent s s') : Outcome s s' act
  | noted {o : AccountId} {c : Call W} {x : NftKey} (hstill : (Act.signed o c).still = true)
      (h : Noted x s s')
      (hby : RootOwner s x o ∨ ∃ col, s.collections x.1 = some col ∧ col.issuer = o)
      (hlock : s.lock x = false ∨ c.unguarded x) : Outcome s s' (.signed o c)
  | mintNft {o : AccountId} {owner : Option AccountId} {c : CollectionId}
      {rr : Option AccountId} {r : Option Permill} {md : BoundedString} {tr : Bool}
      {res : Option (List ResourceTypes)} {n : NftId} {nft : NftInfo}
      (howner : nft.owner = .accountId (owner.getD o)) (htr : nft.transferable = tr)
      (h : Minted (c, n) (owner.getD o) nft s s') :
      Outcome s s' (.signed o (.mintNft owner c rr r md tr res))
  | mintNftDirectlyToNft {o : AccountId} {p : NftKey} {c : CollectionId}
      {rr : Option AccountId} {r : Option Permill} {md : BoundedString} {tr : Bool}
      {res : Option (List ResourceTypes)} {n : NftId} {nft : NftInfo} {b : AccountId}
      (howner : nft.owner = .collectionAndNftTuple p.1 p.2) (htr : nft.transferable = tr)
      (hroot : RootOwner s p b) (h : Minted (c, n) (nftToAccountId p) nft s s') :
      Outcome s s' (.signed o (.mintNftDirectlyToNft p c rr r md tr res))
  | send {o : AccountId} {x : NftKey} {newOwner : AccountIdOrCollectionNftTuple}
      {old new : AccountId} {nft nft' : NftInfo} (h : Sent o x newOwner old new nft nft' s s')
      (hlock : s.lock x = false) (hlist : SameListings s s') :
      Outcome s s' (.signed o (.send x newOwner))
  | acceptNft {o : AccountId} {x : NftKey} {newOwner : AccountIdOrCollectionNftTuple}
      {new : AccountId} {nft : NftInfo} (h : Accepted o x newOwner new nft s s') :
      Outcome s s' (.signed o (.acceptNft x newOwner))
  | burnNft {o : AccountId} {x : NftKey} {k : UInt32} (hroot : RootOwner s x o)
      (h : Destroyed x none s s') (howner : s'.owner = Function.update s.owner x none) :
      Outcome s s' (.signed o (.burnNft x k))
  | rejectNft {o : AccountId} {x : NftKey} {nft : NftInfo} (hroot : RootOwner s x o)
      (hnft : s.nfts x = some nft) (h : Destroyed x (s.parent x) s s')
      (howner : s'.owner = s.owner) : Outcome s s' (.signed o (.rejectNft x))
  | unequip {o : AccountId} {item equipper : NftKey} {r : ResourceId} {b : BaseId} {sl : SlotId}
      (h : Wired item (equipper, b, sl) none s s')
      (hfilled : (s.equippings (equipper, b, sl)).isSome = true) :
      Outcome s s' (.signed o (.equip item equipper r b sl))
  | equip {o : AccountId} {item equipper : NftKey} {r : ResourceId} {b : BaseId} {sl : SlotId}
      {nft : NftInfo} (h : Wired item (equipper, b, sl) (some r) s s')
      (hempty : s.equippings (equipper, b, sl) = none) (hnft : s.nfts item = some nft)
      (hequipped : nft.equipped = false)
      (howner : nft.owner = .collectionAndNftTuple equipper.1 equipper.2)
      (hfits : (s.equippableSlots (item, r, b, sl)).isSome = true) :
      Outcome s s' (.signed o (.equip item equipper r b sl))
  | list {o : AccountId} {x : NftKey} {v : Balance} {e : Option BlockNumber} {nft : NftInfo}
      (howner : s.owner x = some o) (hparent : s.parent x = none) (hnft : s.nfts x = some nft)
      (h : Posted x true (some { listedBy := o, amount := v, expires := e }) s s') :
      Outcome s s' (.signed o (.list x v e))
  | unlist {o : AccountId} {x : NftKey} (howner : s.owner x = some o)
      (h : Posted x false none s s') : Outcome s s' (.signed o (.unlist x))
  | buy {o old : AccountId} {x : NftKey} {v : Option Balance} {info : ListInfo}
      {nft nft' : NftInfo} (hinfo : s.listedNfts x = some info) (hby : info.listedBy = old)
      (hexp : Market.expired s info.expires = false)
      (h : Sent old x (.accountId o) old o nft nft' s s')
      (hlock : s'.lock = Function.update s.lock x false)
      (hlisted : s'.listedNfts = s.listedNfts.remove x)
      (hold : Currency.free s'.ext old = Currency.free s.ext old + info.amount)
      (hnew : Currency.free s'.ext o + info.amount = Currency.free s.ext o) :
      Outcome s s' (.signed o (.buy x v))
  | acceptOffer {o offerer : AccountId} {x : NftKey} {offer : Offer} {nft nft' : NftInfo}
      (hoffer : s.offers (x, offerer) = some offer)
      (h : Sent o x (.accountId offer.maker) o offer.maker nft nft' s s')
      (hne : offer.maker ≠ o) (hlock : s'.lock = Function.update s.lock x false)
      (hlisted : s'.listedNfts = s.listedNfts) :
      Outcome s s' (.signed o (.acceptOffer x offerer))

/-- **Every step has its outcome.** -/
theorem Step.outcome (h : Step s act s') : Outcome s s' act := by
  cases act with
  | between n w =>
      obtain ⟨hn, hw, rfl⟩ := h
      refine .silent rfl ⟨?_, fun _ => .of_eq rfl⟩
      exact {
        owner := Config.owner_elsewhere hw, nfts := rfl, children := rfl, nextNftId := rfl
        lock := rfl, listedNfts := rfl, equippings := rfl, fits := fun _ => id
        blockNumber := hn }
  | signed o c =>
      change dispatch o c s = .ok () s' at h
      cases c with
      | mintNft =>
          obtain ⟨n, nft, howner, htr, h⟩ := Core.mintNft_ok h
          exact .mintNft howner htr h
      | mintNftDirectlyToNft =>
          obtain ⟨n, nft, howner, htr, ⟨b, hroot⟩, h⟩ := Core.mintNftDirectlyToNft_ok h
          exact .mintNftDirectlyToNft howner htr hroot h
      | createCollection => exact .silent rfl (Core.createCollection_ok h)
      | burnNft =>
          obtain ⟨hroot, h, howner⟩ := Core.burnNft_ok h
          exact .burnNft hroot h howner
      | destroyCollection => exact .silent rfl (Core.destroyCollection_ok h)
      | send =>
          obtain ⟨old, new, nft, nft', h, hlock, hlist, -⟩ := Core.send_ok h
          exact .send h hlock hlist
      | acceptNft =>
          obtain ⟨new, nft, h⟩ := Core.acceptNft_ok h
          exact .acceptNft h
      | rejectNft =>
          obtain ⟨hroot, ⟨nft, hnft, -⟩, h, howner⟩ := Core.rejectNft_ok h
          exact .rejectNft hroot hnft h howner
      | changeCollectionIssuer => exact .silent rfl (Core.changeCollectionIssuer_ok h)
      | setProperty c n k v =>
          obtain ⟨hq, hon, hnotes⟩ := Core.setProperty_ok h
          cases n with
          | none => exact .silent rfl ⟨hq, fun z => hnotes z (.inl (by simp))⟩
          | some m =>
              obtain ⟨hlock, hroot⟩ := hon m rfl
              refine .noted (x := (c, m)) rfl ⟨hq, fun z hz => hnotes z ?_⟩ (.inl hroot)
                (.inl hlock)
              by_contra hne
              simp only [Option.some.injEq, ne_eq, not_or, not_not] at hne
              exact hz (Prod.ext hne.2 hne.1)
      | lockCollection => exact .silent rfl (Core.lockCollection_ok h)
      | addBasicResource =>
          have h := Core.addResource_ok h
          exact .noted rfl (Core.noted_of_added h) (.inr h.issuer) (.inl h.unlocked)
      | addComposableResource =>
          have h := Core.addResource_ok h
          exact .noted rfl (Core.noted_of_added h) (.inr h.issuer) (.inl h.unlocked)
      | addSlotResource =>
          have h := Core.addResource_ok h
          exact .noted rfl (Core.noted_of_added h) (.inr h.issuer) (.inl h.unlocked)
      | acceptResource =>
          obtain ⟨hroot, -, h⟩ := Core.acceptResource_ok h
          exact .noted rfl h (.inl hroot) (.inr rfl)
      | removeResource =>
          obtain ⟨hby, -, h⟩ := Core.removeResource_ok h
          exact .noted rfl h (.inr hby) (.inr rfl)
      | acceptResourceRemoval =>
          obtain ⟨hroot, -, h⟩ := Core.acceptResourceRemoval_ok h
          exact .noted rfl h (.inl hroot) (.inr rfl)
      | setPriority =>
          obtain ⟨hroot, hlock, h⟩ := Core.setPriority_ok h
          exact .noted rfl h (.inl hroot) (.inl hlock)
      | changeBaseIssuer => exact .silent rfl (Equip.changeBaseIssuer_ok h)
      | equip =>
          rcases Equip.equip_ok h with ⟨h, hfilled, -⟩ | ⟨h, hempty, hchecked⟩
          · exact .unequip h hfilled
          · obtain ⟨nft, hnft, hequipped, howner⟩ := hchecked.record
            exact .equip h hempty hnft hequipped howner hchecked.slot
      | equippable => exact .silent rfl (Equip.equippable_ok h)
      | themeAdd => exact .silent rfl (Equip.themeAdd_ok h)
      | createBase => exact .silent rfl (Equip.createBase_ok h)
      | buy =>
          obtain ⟨old, info, nft, nft', hinfo, hby, hexp, h, hlock, hlisted, -, hold, hnew⟩ :=
            Market.buy_ok h
          exact .buy hinfo hby hexp h hlock hlisted hold hnew
      | list =>
          obtain ⟨howner, hparent, ⟨nft, hnft, -⟩, h⟩ := Market.list_ok h
          exact .list howner hparent hnft h
      | unlist =>
          obtain ⟨-, howner, h⟩ := Market.unlist_ok h
          exact .unlist howner h
      | makeOffer => exact .silent rfl (Market.makeOffer_ok h)
      | withdrawOffer => exact .silent rfl (Market.withdrawOffer_ok h)
      | acceptOffer =>
          obtain ⟨offer, nft, nft', hoffer, -, h, hne, hlock, hlisted⟩ := Market.acceptOffer_ok h
          exact .acceptOffer hoffer h hne hlock hlisted

/-- No step takes a block back. -/
theorem Outcome.blockNumber_le (h : Outcome s s' act) : s.blockNumber ≤ s'.blockNumber := by
  cases h with
  | silent _ h => exact h.blockNumber
  | noted _ h => exact h.blockNumber
  | mintNft _ _ h => exact h.blockNumber
  | mintNftDirectlyToNft _ _ _ h => exact h.blockNumber
  | send h => exact h.blockNumber
  | acceptNft h => exact h.blockNumber
  | burnNft _ h => exact h.blockNumber
  | rejectNft _ _ h => exact h.blockNumber
  | unequip h => exact h.blockNumber
  | equip h => exact h.blockNumber
  | list _ _ _ h => exact h.blockNumber
  | unlist _ h => exact h.blockNumber
  | buy _ _ _ h => exact h.blockNumber
  | acceptOffer _ h => exact h.blockNumber

end Rmrk
