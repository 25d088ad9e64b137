import Rmrk.Helpers.Moves
/-!
# Slots, listings and sales

The effect of `equip`, which fills and empties slots, and of the
dispatchables of `rmrk-market` that list, unlist and sell.
-/

namespace Rmrk

open Effect Pointer

variable {W : Type} [Config W] {s s' t : State W} {x y p : NftKey} {o a : AccountId} {u : Unit}

/-! ## `equip` -/

namespace Equip

variable {item equipper : NftKey} {r : ResourceId} {b : BaseId} {sl : SlotId} {e : Bool}

/-- The state with the slot `k` and the flag of `item` written. -/
def wired (s : State W) (item : NftKey) (k : NftKey × BaseId × SlotId) (r : Option ResourceId) :
    State W :=
  { s with
    equippings := Function.update s.equippings k r
    nfts := s.nfts.mutate item fun nft => { nft with equipped := r.isSome } }

theorem wired_spec {k : NftKey × BaseId × SlotId} {r : Option ResourceId}
    (hlock : s.lock item = false) : Wired item k r s (wired s item k r) where
  lock := rfl
  listedNfts := rfl
  unlocked := hlock
  equippings := rfl
  nfts := rfl
  equippableSlots := rfl
  owner := rfl
  children := rfl
  nextNftId := rfl
  blockNumber := le_rfl
  notes _ := .of_eq rfl

omit [Config W] in
theorem unequip_ok (h : unequip item equipper b sl s = .ok e s') :
    e = false ∧ s' = wired s item (equipper, b, sl) none := by
  simp only [unequip, setEquipped, update_bind_ok, pure_ok] at h
  exact ⟨h.1.symm, h.2.symm⟩

/-- **What is checked before a slot is filled**: the record of the item,
the two indexes and the part. -/
structure Checked (s : State W) (item equipper : NftKey) (r : ResourceId) (b : BaseId)
    (sl : SlotId) : Prop where
  record : ∃ nft, s.nfts item = some nft ∧ nft.equipped = false ∧
    nft.owner = .collectionAndNftTuple equipper.1 equipper.2
  base : (s.equippableBases (equipper, b)).isSome = true
  slot : (s.equippableSlots (item, r, b, sl)).isSome = true
  part : ∃ p, s.parts (b, sl) = some (.slotPart p) ∧ isEquippable p.equippable item.1 = true

omit [Config W] in
theorem fillSlot_ok {a a' : AccountId}
    (h : fillSlot o item equipper r b sl a a' s = .ok e s') :
    a = o ∧ a' = o ∧ Checked s item equipper r b sl ∧ e = true ∧
      s' = wired s item (equipper, b, sl) (some r) := by
  simp only [fillSlot, get_bind_ok, okOr_bind_ok, ensure_bind_ok] at h
  obtain ⟨-, nft, hnft, heq, rfl, rfl, howner, hbase, hslot, part, hpart, h⟩ := h
  cases part with
  | fixedPart p => simp at h
  | slotPart p =>
      simp only [setEquipped, ensure_bind_ok, update_bind_ok, pure_ok] at h
      obtain ⟨hon, rfl, rfl⟩ := h
      exact ⟨rfl, rfl, ⟨⟨nft, hnft, heq, howner⟩, hbase, hslot, p, hpart, hon⟩, rfl, rfl⟩

/-- **What `do_equip` writes**: it empties a filled slot, whatever item
filled it, or fills an empty one with a child of the equipper. -/
theorem doEquip_writes (h : doEquip o item equipper r b sl s = .ok e s') :
    s.lock item = false ∧
      (e = false ∧ s' = wired s item (equipper, b, sl) none ∧
          (s.equippings (equipper, b, sl)).isSome = true ∧
          (s.nfts item = none ∨ RootOwner s item o ∨ RootOwner s equipper o) ∨
        e = true ∧ s' = wired s item (equipper, b, sl) (some r) ∧
          s.equippings (equipper, b, sl) = none ∧
          Checked s item equipper r b sl ∧ RootOwner s item o ∧ RootOwner s equipper o) := by
  simp only [doEquip, get_bind_ok, ensure_bind_ok] at h
  obtain ⟨hitem, hequipper, h⟩ := h
  refine ⟨hitem, ?_⟩
  split at h
  · -- the item is not there: nobody is asked whose slot it is
    next hgone =>
      obtain ⟨he, h⟩ := unequip_ok h
      exact .inl ⟨he, h, hgone.2, .inl (by simpa using hgone.1)⟩
  · simp only [lookupRootOwner_bind_ok] at h
    obtain ⟨a, root, hroot, a', root', hroot', h⟩ := h
    split at h
    · next hmine =>
        obtain ⟨he, h⟩ := unequip_ok h
        refine .inl ⟨he, h, hmine.1, .inr ?_⟩
        rcases hmine.2 with rfl | rfl
        · exact .inl ⟨root, hroot⟩
        · exact .inr ⟨root', hroot'⟩
    · next hmine =>
        -- the signer owns both, so a slot that is filled would have been emptied above
        obtain ⟨rfl, rfl, hchecked, he, h⟩ := fillSlot_ok h
        have hempty : s.equippings (equipper, b, sl) = none := by
          simpa using hmine
        exact .inr ⟨he, h, hempty, hchecked, ⟨root, hroot⟩, root', hroot'⟩

/-- What that is to the rest of the state. -/
theorem doEquip_ok (h : doEquip o item equipper r b sl s = .ok e s') :
    e = false ∧ Wired item (equipper, b, sl) none s s' ∧
        (s.equippings (equipper, b, sl)).isSome = true ∧
        (s.nfts item = none ∨ RootOwner s item o ∨ RootOwner s equipper o) ∨
      Wired item (equipper, b, sl) (some r) s s' ∧ s.equippings (equipper, b, sl) = none ∧
        Checked s item equipper r b sl ∧ RootOwner s item o ∧ RootOwner s equipper o := by
  obtain ⟨hlock, ⟨he, rfl, hfilled, hby⟩ | ⟨-, rfl, hempty, hchecked⟩⟩ := doEquip_writes h
  · exact .inl ⟨he, wired_spec hlock, hfilled, hby⟩
  · exact .inr ⟨wired_spec hlock, hempty, hchecked⟩

theorem equip_ok (h : equip o item equipper r b sl s = .ok u s') :
    Wired item (equipper, b, sl) none s s' ∧ (s.equippings (equipper, b, sl)).isSome = true ∧
        (s.nfts item = none ∨ RootOwner s item o ∨ RootOwner s equipper o) ∨
      Wired item (equipper, b, sl) (some r) s s' ∧ s.equippings (equipper, b, sl) = none ∧
        Checked s item equipper r b sl := by
  rw [equip, bind_ok] at h
  obtain ⟨e, _, h, h'⟩ := h
  obtain ⟨-, rfl⟩ := pure_ok.1 h'
  rcases doEquip_ok h with ⟨-, h⟩ | ⟨h, hempty, hchecked, -⟩
  · exact .inl h
  · exact .inr ⟨h, hempty, hchecked⟩

end Equip

/-! ## `rmrk-market` -/

namespace Market

variable {v : Balance} {e : Option BlockNumber}

/-- What `list` checks, and all that it writes. -/
theorem list_writes (h : list o x v e s = .ok u s') :
    s.owner x = some o ∧ s.parent x = none ∧
      (∃ nft, s.nfts x = some nft ∧ nft.transferable = true) ∧ s' = { s with
        lock := Function.update s.lock x true
        listedNfts := s.listedNfts.insert x { listedBy := o, amount := v, expires := e } } := by
  simp only [list, transactional_ok, Core.checkIsTransferable, Core.setLock, get_bind_ok,
    okOr_bind_ok, ensure_bind_ok, update_bind_ok] at h
  obtain ⟨owner, howner, hparent, rfl, nft, hnft, htr, h⟩ := h
  refine ⟨howner, by simpa [isNftOwnedByNft] using hparent, ⟨nft, hnft, htr⟩, ?_⟩
  split at h
  · simp only [update_bind_ok, update_ok, StorageMap.insert, StorageMap.remove,
      Function.update_idem] at h
    exact h.symm
  · simp only [update_ok] at h
    exact h.symm

theorem list_ok (h : list o x v e s = .ok u s') :
    s.owner x = some o ∧ s.parent x = none ∧
      (∃ nft, s.nfts x = some nft ∧ nft.transferable = true) ∧
      Posted x true (some { listedBy := o, amount := v, expires := e }) s s' := by
  obtain ⟨howner, hparent, hnft, rfl⟩ := list_writes h
  refine ⟨howner, hparent, hnft, ?_⟩
  exact {
    equippings := rfl, fits := fun _ => id, lock := rfl, listedNfts := rfl, owner := rfl
    nfts := rfl, children := rfl, nextNftId := rfl, blockNumber := le_rfl
    notes := fun _ => .of_eq rfl }

theorem unlist_ok (h : unlist o x s = .ok u s') :
    (s.listedNfts x).isSome = true ∧ s.owner x = some o ∧ Posted x false none s s' := by
  simp only [unlist, transactional_ok, Core.setLock, get_bind_ok, okOr_bind_ok, ensure_bind_ok,
    update_bind_ok, update_ok] at h
  obtain ⟨hlisted, owner, howner, rfl, rfl⟩ := h
  refine ⟨hlisted, howner, ?_⟩
  exact {
    equippings := rfl, fits := fun _ => id, lock := rfl, listedNfts := rfl, owner := rfl
    nfts := rfl, children := rfl, nextNftId := rfl, blockNumber := le_rfl
    notes := fun _ => .of_eq rfl }

omit [Config W] in
theorem listPrice_offer {buyer owner : AccountId} {price : Balance}
    (h : listPrice buyer owner x true s = .ok price s') :
    s = s' ∧ ∃ offer, s.offers (x, buyer) = some offer ∧ price = offer.amount := by
  simp only [listPrice, get_bind_ok, if_true, okOr_bind_ok, pure_ok] at h
  obtain ⟨offer, hoffer, rfl, rfl⟩ := h
  exact ⟨rfl, offer, hoffer, rfl⟩

omit [Config W] in
theorem listPrice_listing {buyer owner : AccountId} {price : Balance}
    (h : listPrice buyer owner x false s = .ok price s') :
    s' = { s with listedNfts := s.listedNfts.remove x } ∧
      ∃ info, s.listedNfts x = some info ∧ info.listedBy = owner ∧
        expired s info.expires = false ∧ price = info.amount := by
  simp only [listPrice, get_bind_ok, Bool.false_eq_true, if_false, okOr_bind_ok, update_bind_ok,
    ensure_bind_ok, pure_ok] at h
  obtain ⟨info, hinfo, hby, hexp, rfl, rfl⟩ := h
  exact ⟨rfl, info, hinfo, hby, hexp, rfl⟩

/-- `do_buy` charges, unlocks, pays and sends. -/
theorem doBuy_ok {buyer : AccountId} {amount : Option Balance} {isOffer : Bool}
    (h : doBuy buyer x amount isOffer s = .ok u s') :
    ∃ owner price t w, s.owner x = some owner ∧ buyer ≠ owner ∧
      listPrice buyer owner x isOffer s = .ok price t ∧ (∀ v, amount = some v → price = v) ∧
      Currency.transfer t.ext buyer owner price .keepAlive = .ok w ∧
      Core.send owner x (.accountId buyer)
        { t with lock := Function.update t.lock x false, ext := w } = .ok u s' := by
  simp only [doBuy, get_bind_ok, okOr_bind_ok, ensure_bind_ok] at h
  obtain ⟨owner, howner, hne, h⟩ := h
  rw [bind_ok] at h
  obtain ⟨price, t, hprice, h⟩ := h
  cases amount with
  | none =>
      simp only [Core.setLock, update_bind_ok, external_bind_ok] at h
      obtain ⟨w, hw, h⟩ := h
      exact ⟨owner, price, t, w, howner, hne, hprice, by simp, hw, h⟩
  | some v =>
      simp only [Core.setLock, ensure_bind_ok, update_bind_ok, external_bind_ok] at h
      obtain ⟨rfl, w, hw, h⟩ := h
      exact ⟨owner, price, t, w, howner, hne, hprice, by simp, hw, h⟩

/-- What `do_buy` leaves of the state it sends in, where that differs from
`s` in locks, listings, offers and balances only. -/
theorem sold {owner buyer : AccountId} (h : Core.send owner x (.accountId buyer) t = .ok u s')
    (hx : s.owner x = some owner) (howner : t.owner = s.owner) (hnfts : t.nfts = s.nfts)
    (hchildren : t.children = s.children) (hnext : t.nextNftId = s.nextNftId)
    (hblock : t.blockNumber = s.blockNumber) (hslots : SameSlots s t)
    (hnotes : ∀ z, SameNotes z s t) :
    ∃ nft nft', Sent owner x (.accountId buyer) owner buyer nft nft' s s' ∧
      s'.lock = t.lock ∧ s'.listedNfts = t.listedNfts ∧
      Currency.free s'.ext = Currency.free t.ext := by
  obtain ⟨old, new, nft, nft', hsent, -, hlist, w, htransfer, hext⟩ := Core.send_ok h
  obtain rfl : new = buyer := hsent.target
  have hsent := hsent.before howner hnfts hchildren hnext hblock hslots hnotes
  obtain rfl : old = owner := Option.some.inj (hsent.owner_eq.symm.trans hx)
  exact ⟨nft, nft', hsent, hlist.lock, hlist.listedNfts,
    hext ▸ Config.free_doTransfer htransfer⟩

/-- **What `buy` does**: the listing is taken, the lister paid. -/
theorem buy_ok {amount : Option Balance} (h : buy o x amount s = .ok u s') :
    ∃ old info nft nft', s.listedNfts x = some info ∧ info.listedBy = old ∧
      expired s info.expires = false ∧ Sent old x (.accountId o) old o nft nft' s s' ∧
      s'.lock = Function.update s.lock x false ∧ s'.listedNfts = s.listedNfts.remove x ∧ o ≠ old ∧
      Currency.free s'.ext old = Currency.free s.ext old + info.amount ∧
      Currency.free s'.ext o + info.amount = Currency.free s.ext o := by
  rw [buy, transactional_ok] at h
  obtain ⟨old, price, t, w, hold, hne, hprice, -, hpay, hsend⟩ := doBuy_ok h
  obtain ⟨rfl, info, hinfo, hby, hexp, rfl⟩ := listPrice_listing hprice
  obtain ⟨nft, nft', hsent, hlock, hlisted, hfree⟩ := sold (s := s) hsend hold
    (Config.owner_transfer hpay) rfl rfl rfl rfl ⟨rfl, fun _ => id⟩ fun _ => .of_eq rfl
  obtain ⟨hbuyer, hseller, -⟩ := Currency.free_transfer hpay hne
  refine ⟨old, info, nft, nft', hinfo, hby, hexp, hsent, hlock, hlisted, hne, ?_, ?_⟩
  · rw [hfree]; exact hseller
  · rw [hfree]; exact hbuyer

/-- The parts of `accept_offer`: the amount is released, the maker buys, and
the offer goes. -/
theorem acceptOffer_parts {offerer : AccountId} (h : acceptOffer o x offerer s = .ok u s') :
    ∃ offer t, s.owner x = some o ∧ s.offers (x, offerer) = some offer ∧
      expired s offer.expires = false ∧
      doBuy offer.maker x none true
        { s with ext := Currency.unreserve s.ext offer.maker offer.amount } = .ok () t ∧
      s' = { t with offers := t.offers.remove (x, offerer) } := by
  simp only [acceptOffer, transactional_ok, get_bind_ok, okOr_bind_ok, ensure_bind_ok,
    external_bind_ok, Except.ok.injEq, exists_eq_left'] at h
  obtain ⟨owner, howner, rfl, offer, hoffer, hexp, h⟩ := h
  rw [bind_ok] at h
  obtain ⟨_, t, hbuy, h⟩ := h
  rw [update_ok] at h
  exact ⟨offer, t, howner, hoffer, hexp, hbuy, h.symm⟩

/-- Releasing funds is nothing to the owners. -/
theorem owner_unreserve {v : Balance} :
    State.owner { s with ext := Currency.unreserve s.ext a v } = s.owner :=
  Config.owner_unreserve

/-- **What `accept_offer` does**: the lock goes and the listing stays. -/
theorem acceptOffer_ok {offerer : AccountId} (h : acceptOffer o x offerer s = .ok u s') :
    ∃ offer nft nft', s.offers (x, offerer) = some offer ∧ expired s offer.expires = false ∧
      Sent o x (.accountId offer.maker) o offer.maker nft nft' s s' ∧ offer.maker ≠ o ∧
      s'.lock = Function.update s.lock x false ∧ s'.listedNfts = s.listedNfts := by
  obtain ⟨offer, s₁, howner, hoffer, hexp, hbuy, rfl⟩ := acceptOffer_parts h
  obtain ⟨old, price, t, w, hold, hne, hprice, -, hpay, hsend⟩ := doBuy_ok hbuy
  obtain ⟨rfl, -⟩ := listPrice_offer hprice
  rw [owner_unreserve] at hold
  obtain rfl : old = o := Option.some.inj (hold.symm.trans howner)
  obtain ⟨nft, nft', hsent, hlock, hlisted, -⟩ := sold (s := s) hsend howner
    ((Config.owner_transfer hpay).trans owner_unreserve) rfl rfl rfl rfl ⟨rfl, fun _ => id⟩
    fun _ => .of_eq rfl
  refine ⟨offer, nft, nft', hoffer, hexp, ?_, hne, hlock, hlisted⟩
  exact { hsent with notes := fun z => (hsent.notes z).trans (.of_eq rfl) }

end Market

end Rmrk
