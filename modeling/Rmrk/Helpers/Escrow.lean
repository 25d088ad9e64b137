import Rmrk.Helpers.Books
import Rmrk.Helpers.Trades
/-!
# What the market holds in escrow

An offer reserves its amount, and three calls put offers in or take them
out. No other step does, and what the others reserve and release is what
they hold themselves.
-/

namespace Rmrk

open Effect

variable {W : Type} {s s' t : State W} {x : NftKey} {o a : AccountId} {c : CollectionId} {u : Unit}

/-! ## What is held by others -/

section HeldOnly

variable {held reserved : W → AccountId → ℕ} {w w' w'' : W}

/-- What is held is kept by doing nothing. -/
theorem HeldOnly.refl : HeldOnly held reserved w w := fun _ _ => rfl

/-- What is held stays within what is reserved. -/
theorem HeldOnly.le (h : HeldOnly held reserved w w') (hle : ∀ a, held w a ≤ reserved w a)
    (a : AccountId) : held w' a ≤ reserved w' a := by
  have := h hle a
  have := hle a
  omega

/-- And by keeping it twice. -/
theorem HeldOnly.trans (h : HeldOnly held reserved w w') (h' : HeldOnly held reserved w' w'') :
    HeldOnly held reserved w w'' := by
  intro hle a
  have := h hle a
  have := h' (h.le hle) a
  omega

/-- Where neither has changed. -/
theorem HeldOnly.of_eq (hh : held w' = held w) (hr : reserved w' = reserved w) :
    HeldOnly held reserved w w' := fun _ a => by rw [hh, hr]

end HeldOnly

variable [Config W] [Deposits W]

/-- **No offer has changed, nor what is reserved for the offers.** -/
structure SameEscrow (s s' : State W) : Prop where
  offers : s'.offers = s.offers
  held : HeldOnly Deposits.held Currency.reserved s.ext s'.ext

instance sameEscrowRefl : Std.Refl (SameEscrow (W := W)) := ⟨fun _ => ⟨rfl, .refl⟩⟩

instance sameEscrowTrans : IsTrans (State W) SameEscrow where
  trans _ _ _ h h' := ⟨h'.offers.trans h.offers, h.held.trans h'.held⟩

/-- A step that leaves the books alone leaves the reserves with them. -/
theorem SameBooks.escrow (h : SameBooks s s') : SameEscrow s s' :=
  ⟨h.offers, by rw [h.ext]; exact .refl⟩

/-- A write of our own storage. -/
theorem SameEscrow.of_eq (h : (s'.offers, s'.ext) = (s.offers, s.ext)) : SameEscrow s s' := by
  simp only [Prod.mk.injEq] at h
  exact ⟨h.1, by rw [h.2]; exact .refl⟩

namespace Core

/-! ## `rmrk-core` -/

/-- Resources cost nothing here. -/
theorem addResources_escrow (o : AccountId) (x : NftKey) (l : Option (List ResourceTypes)) :
    Within SameEscrow (addResources o x l : M W Unit) :=
  addResources_books.mono fun _ _ => SameBooks.escrow

/-- A mint takes its deposit from the collection's owner, which the books of
the offers do not see. -/
theorem mintNft_escrow {owner rr : Option AccountId} {r : Option Permill} {md : BoundedString}
    {tr : Bool} {l : Option (List ResourceTypes)} :
    Within SameEscrow (mintNft o owner c rr r md tr l : M W Unit) :=
  within_mintNft (fun _ _ => .of_eq rfl) (fun _ _ => .of_eq rfl) (fun _ _ => .of_eq rfl)
    (fun _ _ _ _ hw => ⟨rfl, Deposits.heldOnly_doMint hw⟩) addResources_escrow

theorem mintNftDirectlyToNft_escrow {p : NftKey} {rr : Option AccountId} {r : Option Permill}
    {md : BoundedString} {tr : Bool} {l : Option (List ResourceTypes)} :
    Within SameEscrow (mintNftDirectlyToNft o p c rr r md tr l : M W Unit) :=
  within_mintNftDirectlyToNft (fun _ _ => .of_eq rfl) (fun _ _ => .of_eq rfl)
    (fun _ _ => .of_eq rfl) (fun _ _ _ _ hw => ⟨rfl, Deposits.heldOnly_doMint hw⟩)
    addResources_escrow

/-- A new class takes one too. -/
theorem createCollection_escrow {md sy : BoundedString} {max : Option UInt32} :
    Within SameEscrow (createCollection o md max sy : M W Unit) :=
  within_createCollection (fun _ _ => .of_eq rfl) (fun _ _ => .of_eq rfl)
    fun _ _ _ hw => ⟨rfl, Deposits.heldOnly_doCreateCollection hw⟩

/-- An item that is burned gives its deposit back. -/
theorem burnNft_escrow {k : UInt32} : Within SameEscrow (burnNft o x k : M W Unit) :=
  within_burnNft (fun _ _ => .of_eq rfl) (fun _ _ => .of_eq rfl) (fun _ _ => .of_eq rfl)
    (fun _ _ => .of_eq rfl) fun _ _ hw => ⟨rfl, Deposits.heldOnly_doBurn hw⟩

/-- So does a class that goes. -/
theorem destroyCollection_escrow : Within SameEscrow (destroyCollection o c : M W Unit) :=
  within_destroyCollection (fun _ _ => .of_eq rfl)
    fun _ _ _ hw => ⟨rfl, Deposits.heldOnly_doDestroyCollection hw⟩

/-- A transfer takes no deposit and gives none back. -/
theorem transfer_escrow (s : State W) (l : NftKey → Bool) (a : AccountId) (w : W)
    (hw : Uniques.doTransfer l s.ext x a = .ok w) : SameEscrow s { s with ext := w } :=
  ⟨rfl, .of_eq (Deposits.held_doTransfer hw) (Deposits.reserved_doTransfer hw)⟩

/-- **A send touches no offer.** -/
theorem send_escrow {newOwner : AccountIdOrCollectionNftTuple} :
    Within SameEscrow (send o x newOwner : M W Unit) :=
  within_send (fun _ _ => .of_eq rfl) transfer_escrow fun _ _ => .of_eq rfl

/-- Nor does an acceptance. -/
theorem acceptNft_escrow {newOwner : AccountIdOrCollectionNftTuple} :
    Within SameEscrow (acceptNft o x newOwner : M W Unit) :=
  within_acceptNft (fun _ _ => .of_eq rfl) transfer_escrow

/-- Nor does a rejection. -/
theorem rejectNft_escrow : Within SameEscrow (rejectNft o x : M W Unit) :=
  within_rejectNft (fun _ _ => .of_eq rfl) (fun _ _ => .of_eq rfl) (fun _ _ => .of_eq rfl)
    fun _ _ => .of_eq rfl

/-- The deposit of a class changes hands with it. -/
theorem changeCollectionIssuer_escrow {source : Config.Source W} :
    Within SameEscrow (changeCollectionIssuer o c source : M W Unit) :=
  within_changeCollectionIssuer (fun _ _ => .of_eq rfl)
    fun _ _ _ _ hw => ⟨rfl, Deposits.heldOnly_transferOwnership hw⟩

theorem lockCollection_escrow : Within SameEscrow (lockCollection o c : M W Unit) :=
  within_lockCollection fun _ _ => .of_eq rfl

end Core

/-! ## `rmrk-market` -/

namespace Market

/-- A buy pays out of what is free. -/
theorem doBuy_escrow {buyer : AccountId} {amount : Option Balance} {isOffer : Bool} :
    Within SameEscrow (doBuy buyer x amount isOffer : M W Unit) := by
  refine within_doBuy (fun _ _ => ⟨rfl, .refl⟩) (fun _ _ => ⟨rfl, .refl⟩) (fun _ _ _ _ hw => ?_)
    fun _ => Core.send_escrow
  exact ⟨rfl, .of_eq (Deposits.held_transfer hw) (Currency.reserved_transfer hw)⟩

omit [Deposits W] in
/-- **What `make_offer` checks, and does**: there is an item and no offer of
the signer on it, and then there is the offer and its amount is reserved. -/
theorem makeOffer_reserves {v : Balance} {e : Option BlockNumber}
    (h : makeOffer o x v e s = .ok u s') :
    (s.owner x).isSome = true ∧ s.offers (x, o) = none ∧
      ∃ w, Currency.reserve s.ext o v = .ok w ∧ s' = { s with
        ext := w
        offers := s.offers.insert (x, o) { maker := o, amount := v, expires := e } } := by
  simp only [makeOffer, transactional_ok, get_bind_ok, okOr_bind_ok, ensure_bind_ok,
    external_bind_ok, update_ok] at h
  obtain ⟨-, owner, howner, -, hnone, w, hw, rfl⟩ := h
  exact ⟨by simp [howner], by simpa [hasActiveOffer] using hnone, w, hw, rfl⟩

omit [Deposits W] in
/-- **When `withdraw_offer` returns**, and what it does: the maker of the
offer, who signs, has its amount released. -/
theorem withdrawOffer_iff : withdrawOffer o x s = .ok u s' ↔
    ∃ offer owner, s.offers (x, o) = some offer ∧ s.owner x = some owner ∧
      (o = owner ∨ o = offer.maker) ∧ s' = { s with
        ext := Currency.unreserve s.ext offer.maker offer.amount
        offers := s.offers.remove (x, o) } := by
  simp only [withdrawOffer, transactional_ok, get_bind_ok, okOr_bind_ok, ensure_bind_ok,
    external_bind_ok, update_ok, Except.ok.injEq, exists_eq_left', eq_comm (a := s')]
  constructor
  · rintro ⟨offer, hoffer, owner, howner, hby, h⟩
    exact ⟨offer, owner, hoffer, howner, hby, h⟩
  · rintro ⟨offer, owner, hoffer, howner, hby, h⟩
    exact ⟨offer, hoffer, owner, howner, hby, h⟩

end Market

/-! ## Every step -/

/-- **What a step does to the offers**, by its label. -/
inductive Escrowed (s s' : State W) : Act W → Prop
  | same {act : Act W} (h : SameEscrow s s') : Escrowed s s' act
  | made {o : AccountId} {x : NftKey} {v : Balance} {e : Option BlockNumber} {w : W}
      (howner : (s.owner x).isSome = true) (hnone : s.offers (x, o) = none)
      (hw : Currency.reserve s.ext o v = .ok w)
      (h : s' = { s with
        ext := w
        offers := s.offers.insert (x, o) { maker := o, amount := v, expires := e } }) :
      Escrowed s s' (.signed o (.makeOffer x v e))
  | withdrawn {o : AccountId} {x : NftKey} {offer : Offer} (hoffer : s.offers (x, o) = some offer)
      (h : s' = { s with
        ext := Currency.unreserve s.ext offer.maker offer.amount
        offers := s.offers.remove (x, o) }) : Escrowed s s' (.signed o (.withdrawOffer x))
  | accepted {o offerer : AccountId} {x : NftKey} {offer : Offer} {t : State W}
      (hoffer : s.offers (x, offerer) = some offer)
      (hsold : SameEscrow { s with ext := Currency.unreserve s.ext offer.maker offer.amount } t)
      (h : s' = { t with offers := t.offers.remove (x, offerer) }) :
      Escrowed s s' (.signed o (.acceptOffer x offerer))

/-- **Every step has its effect on the offers.** -/
theorem Step.escrowed {act : Act W} (hstep : Step s act s') : Escrowed s s' act := by
  cases act with
  | between n w =>
      obtain ⟨-, hw, rfl⟩ := hstep
      exact .same ⟨rfl, Deposits.heldOnly_elsewhere hw⟩
  | signed o call =>
      have h : dispatch o call s = .ok () s' := hstep
      by_cases hbooked : call.booked = false
      · exact .same (dispatch_books hbooked _ _ _ h).escrow
      · cases call with
        | mintNft => exact .same (Core.mintNft_escrow _ _ _ h)
        | mintNftDirectlyToNft => exact .same (Core.mintNftDirectlyToNft_escrow _ _ _ h)
        | createCollection => exact .same (Core.createCollection_escrow _ _ _ h)
        | burnNft => exact .same (Core.burnNft_escrow _ _ _ h)
        | destroyCollection => exact .same (Core.destroyCollection_escrow _ _ _ h)
        | send => exact .same (Core.send_escrow _ _ _ h)
        | acceptNft => exact .same (Core.acceptNft_escrow _ _ _ h)
        | rejectNft => exact .same (Core.rejectNft_escrow _ _ _ h)
        | changeCollectionIssuer => exact .same (Core.changeCollectionIssuer_escrow _ _ _ h)
        | lockCollection => exact .same (Core.lockCollection_escrow _ _ _ h)
        | buy => exact .same (Market.doBuy_escrow.transactional _ _ _ h)
        | makeOffer =>
            obtain ⟨howner, hnone, w, hw, h⟩ := Market.makeOffer_reserves h
            exact .made howner hnone hw h
        | withdrawOffer =>
            obtain ⟨offer, -, hoffer, -, -, h⟩ := Market.withdrawOffer_iff.1 h
            exact .withdrawn hoffer h
        | acceptOffer =>
            obtain ⟨offer, t, -, hoffer, -, hbuy, h⟩ := Market.acceptOffer_parts h
            exact .accepted hoffer (Market.doBuy_escrow _ _ _ hbuy) h
        | _ => exact absurd rfl hbooked

end Rmrk
