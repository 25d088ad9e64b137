import Rmrk.Properties.Settlement
import Rmrk.Properties.Slots
/-!
# What is admitted and what is delivered

An offer is admitted if its amount can be reserved, and a listing if the
NFT is the lister's and may be transferred. The sale asks for more: the
buyer's account has to outlive the payment, and an equipped NFT is not
sent. What a sale asks for is one condition on the payment and one on the
record, and the rest is what was admitted.
-/

namespace Rmrk

open Effect

variable {W : Type} [Config W] {s s' t : State W} {x : NftKey} {o a b : AccountId} {nft : NftInfo}
variable {v price : Balance} {amount : Option Balance} {isOffer : Bool} {e : Option BlockNumber}

/-! ## When a sale goes through -/

/-- **An ordinary account may send what is its own** where that is not
locked, exactly if it is not equipped. -/
theorem Core.send_returns_iff [Payments W] (howner : s.owner x = some a)
    (hord : decodeNftAccountId a = none) (hnft : s.nfts x = some nft)
    (htr : nft.transferable = true) (hlock : s.lock x = false) :
    (∃ s', Core.send a x (.accountId b) s = .ok () s') ↔ nft.equipped = false := by
  constructor
  · rintro ⟨s', h⟩
    obtain ⟨old, new, nft', nft'', hsent, -⟩ := Core.send_ok h
    obtain rfl : nft = nft' := Option.some.inj (hnft.symm.trans hsent.nfts_eq)
    exact hsent.equipped
  · intro heq
    obtain ⟨r, hr⟩ := (rootOwner_of_owner howner hord).2 rfl
    obtain ⟨t, hlink⟩ := Core.relinkChild_returns x a b
      { s with nfts := s.nfts.insert x { nft with owner := .accountId b } }
    obtain ⟨children, rfl, -⟩ := Core.relinkChild_ok hlink
    obtain ⟨w, hw⟩ := Transfers.doTransfer_ok (l := s.lock) (w := s.ext) (x := x) (a := b) hlock
      (by rw [← State.owner, howner]; rfl)
    simp only [Core.send, transactional_ok, Core.nftSend, Core.checkIsTransferable,
      Core.checkIsNotEquipped, bind_assoc, get_bind_ok, okOr_bind_ok, lookupRootOwner_bind_ok,
      ensure_bind_ok]
    refine ⟨{ s with
        nfts := s.nfts.insert x { nft with owner := .accountId b }, children, ext := w },
      a, howner, a, r, hr, rfl, nft, hnft, htr, heq, ?_⟩
    change (Core.relinkChild x a b >>= fun _ => get >>= fun s =>
      external fun w => Uniques.doTransfer s.lock w x b) _ = _
    rw [bind_of_ok hlink, get_bind, external_ok]
    exact ⟨w, hw, rfl⟩

/-- **What the payment asks for**: the payer has the price free and is left
with the existential deposit, free or reserved, and the payee comes to as
much. -/
def Payable [Payments W] (s : State W) (b a : AccountId) (price : Balance) : Prop :=
  price = 0 ∨ price ≤ Currency.free s.ext b ∧
    price + Payments.existentialDeposit W ≤ s.balance b ∧
      Payments.existentialDeposit W ≤ s.balance a + price

/-- What `do_buy` does once it knows the price. -/
theorem pay_returns_iff [Payments W] (howner : s.owner x = some a)
    (hord : decodeNftAccountId a = none) (hne : b ≠ a) (hnft : s.nfts x = some nft)
    (htr : nft.transferable = true) :
    (∃ s', (do
        Core.setLock x false
        external fun w => Currency.transfer w b a price .keepAlive
        Core.send a x (.accountId b) : M W Unit) s = .ok () s') ↔
      Payable s b a price ∧ nft.equipped = false := by
  simp only [Core.setLock, update_bind_ok, external_bind_ok]
  have hsend : ∀ w, Currency.transfer s.ext b a price .keepAlive = .ok w →
      ((∃ s', Core.send a x (.accountId b)
        { s with lock := Function.update s.lock x false, ext := w } = .ok () s') ↔
          nft.equipped = false) := by
    intro w hw
    refine Core.send_returns_iff ?_ hord hnft htr (Function.update_self ..)
    rw [← howner]
    exact congrFun (Config.owner_transfer hw) x
  constructor
  · rintro ⟨s', w, hw, h⟩
    exact ⟨(Payments.transfer_iff hne).1 ⟨w, hw⟩, (hsend w hw).1 ⟨s', h⟩⟩
  · rintro ⟨hpay, heq⟩
    obtain ⟨w, hw⟩ := (Payments.transfer_iff hne).2 hpay
    obtain ⟨s', h⟩ := (hsend w hw).2 heq
    exact ⟨s', w, hw, h⟩

/-- **`do_buy` goes through exactly if the payment does and the NFT is not
equipped**, where there is a price and it is the one expected. -/
theorem doBuy_returns_iff [Payments W] (howner : s.owner x = some a)
    (hord : decodeNftAccountId a = none) (hne : b ≠ a) (hnft : s.nfts x = some nft)
    (htr : nft.transferable = true) (hprice : Market.listPrice b a x isOffer s = .ok price t)
    (hamount : ∀ v, amount = some v → v = price) :
    (∃ s', Market.doBuy b x amount isOffer s = .ok () s') ↔
      Payable s b a price ∧ nft.equipped = false := by
  obtain ⟨l, rfl⟩ : ∃ l, t = { s with listedNfts := l } := by
    cases isOffer with
    | true => exact ⟨_, (Market.listPrice_offer hprice).1.symm⟩
    | false => exact ⟨_, (Market.listPrice_listing hprice).1⟩
  have hrun : Market.doBuy b x amount isOffer s = (do
      Core.setLock x false
      external fun w => Currency.transfer w b a price .keepAlive
      Core.send a x (.accountId b) : M W Unit) { s with listedNfts := l } := by
    rw [Market.doBuy, get_bind, howner]
    simp only [okOr, pure_bind, ensure_of hne]
    rw [bind_of_ok hprice]
    cases amount with
    | none => rfl
    | some v => rw [hamount v rfl]; simp only [ensure_of, pure_bind]
  rw [hrun]
  exact pay_returns_iff (s := { s with listedNfts := l }) howner hord hne hnft htr

/-! ## Offers -/

section Offers

variable [Deposits W] [Payments W] {offer : Offer}

/-- What is released for the payment is there to be paid. -/
theorem payable_unreserve (hs : Solvent s) (hoffer : s.offers (x, b) = some offer) :
    Payable { s with ext := Currency.unreserve s.ext b offer.amount } b a offer.amount ↔
      offer.amount = 0 ∨ offer.amount + Payments.existentialDeposit W ≤ s.balance b ∧
        Payments.existentialDeposit W ≤ s.balance a + offer.amount := by
  have hmaker := hs.maker x b offer hoffer
  have hreleased := (hs.releasesAll hoffer).1
  rw [hmaker] at hreleased
  have hfree : offer.amount ≤ Currency.free (Currency.unreserve s.ext b offer.amount) b := by
    rw [hreleased]
    exact Nat.le_add_left _ _
  rw [Payable, balance_unreserve, balance_unreserve]
  simp only [hfree, true_and]

/-- **An admitted offer can be settled exactly if its maker outlives the
payment**, and its amount keeps the seller's account alive. -/
theorem acceptOffer_returns_iff (hr : Reachable s) (hoffer : s.offers (x, b) = some offer)
    (hin : InTime s offer.expires) (hnft : s.nfts x = some nft) (htr : nft.transferable = true)
    (heq : nft.equipped = false) (howner : s.owner x = some a)
    (hord : decodeNftAccountId a = none) (hne : b ≠ a) :
    (∃ s', dispatch a (.acceptOffer x b) s = .ok () s') ↔
      offer.amount = 0 ∨ offer.amount + Payments.existentialDeposit W ≤ s.balance b ∧
        Payments.existentialDeposit W ≤ s.balance a + offer.amount := by
  have hs : Solvent s := Reachable.solvent hr
  have hmaker : offer.maker = b := hs.maker x b offer hoffer
  -- the offer is stored still while its maker buys
  have hprice : Market.listPrice b a x true
      { s with ext := Currency.unreserve s.ext b offer.amount } =
        .ok offer.amount { s with ext := Currency.unreserve s.ext b offer.amount } := by
    rw [Market.listPrice, get_bind, if_pos rfl, hoffer]
    rfl
  have hamount : ∀ v, (none : Option Balance) = some v → v = offer.amount := fun _ h => by cases h
  have hbuy := doBuy_returns_iff ((congrFun Market.owner_unreserve x).trans howner) hord hne hnft
    htr hprice hamount
  rw [← payable_unreserve hs hoffer, ← and_iff_left (a := Payable _ _ _ _) heq, ← hbuy]
  constructor
  · rintro ⟨s', h⟩
    obtain ⟨offer', t, -, hoffer', -, hbought, -⟩ := Market.acceptOffer_parts h
    obtain rfl : offer = offer' := Option.some.inj (hoffer.symm.trans hoffer')
    exact ⟨t, hmaker ▸ hbought⟩
  · rintro ⟨t, h⟩
    refine ⟨{ t with offers := t.offers.remove (x, b) }, ?_⟩
    change Market.acceptOffer a x b s = _
    simp only [Market.acceptOffer, transactional_ok, get_bind_ok, okOr_bind_ok, ensure_bind_ok,
      external_bind_ok, Except.ok.injEq, exists_eq_left']
    refine ⟨a, howner, rfl, offer, hoffer, inTime_iff.2 hin, ?_⟩
    rw [hmaker, bind_of_ok h]
    rfl

end Offers

/-! ## Listings -/

/-- Who has the price free and the existential deposit besides can pay. -/
theorem payable_of_free [Payments W]
    (hfree : price + Payments.existentialDeposit W ≤ Currency.free s.ext b) :
    Payable s b a price ↔
      price = 0 ∨ Payments.existentialDeposit W ≤ s.balance a + price := by
  have hprice : price ≤ Currency.free s.ext b := le_trans (Nat.le_add_right _ _) hfree
  have htotal : price + Payments.existentialDeposit W ≤ s.balance b :=
    le_trans hfree (Nat.le_add_right _ _)
  simp only [Payable, hprice, htotal, true_and]

omit [Config W] in
/-- The price of a listing that has not expired. -/
theorem listPrice_of_listed
    (hlisted : s.listedNfts x = some { listedBy := a, amount := price, expires := e })
    (hin : InTime s e) : Market.listPrice b a x false s =
      .ok price { s with listedNfts := s.listedNfts.remove x } := by
  simp only [Market.listPrice, get_bind_ok, Bool.false_eq_true, if_false, okOr_bind_ok,
    update_bind_ok, ensure_bind_ok, pure_ok]
  exact ⟨_, hlisted, rfl, inTime_iff.2 hin, rfl, trivial⟩

/-- **What has been listed is delivered exactly if it is not equipped**, to
whoever has the price and more, and if the price keeps the seller's account
alive. -/
theorem buy_returns_iff [Payments W] (hlist : dispatch a (.list x price e) s = .ok () s')
    (hin : InTime s e) (hnft : s.nfts x = some nft) (hne : b ≠ a)
    (hfree : price + Payments.existentialDeposit W ≤ Currency.free s'.ext b)
    (hamount : ∀ v, amount = some v → v = price) :
    (∃ s'', dispatch b (.buy x amount) s' = .ok () s'') ↔
      nft.equipped = false ∧
        (price = 0 ∨ Payments.existentialDeposit W ≤ s.balance a + price) := by
  obtain ⟨howner, hparent, ⟨nft', hnft', htr⟩, hs'⟩ := Market.list_writes hlist
  obtain rfl : nft = nft' := Option.some.inj (hnft.symm.trans hnft')
  have hord : decodeNftAccountId a = none := (State.parent_of_owner howner).symm.trans hparent
  have howner' : s'.owner x = some a := by rw [hs']; exact howner
  have hin' : InTime s' e := by rw [hs']; exact hin
  have hlisted : s'.listedNfts x = some { listedBy := a, amount := price, expires := e } := by
    rw [hs']
    exact StorageMap.insert_self
  have hbalance : s'.balance a = s.balance a := by rw [hs']; rfl
  have hbuy := doBuy_returns_iff howner' hord hne (by rw [hs']; exact hnft) htr
    (listPrice_of_listed hlisted hin') hamount
  rw [payable_of_free hfree, hbalance, and_comm] at hbuy
  change (∃ s'', transactional (Market.doBuy b x amount false) s' = .ok () s'') ↔ _
  simp only [transactional_ok]
  exact hbuy

namespace Mock

/-- Bob offers all he has for one of Alice's NFTs. -/
def offeredAll : List Extrinsic :=
  [(bob, .makeOffer (0, 0) 1000 none), (alice, mintTo alice), (alice, newCollection)]

/-- **An offer nobody can accept**: its maker would be left with nothing. -/
theorem not_accepted_of_reachable : ¬ ∀ (s : State Storage) (x : NftKey) (a b : AccountId)
    (offer : Offer) (nft : NftInfo), Reachable s → s.offers (x, b) = some offer →
      InTime s offer.expires → s.nfts x = some nft → nft.transferable = true →
      nft.equipped = false → s.owner x = some a → decodeNftAccountId a = none → b ≠ a →
        ∃ s', dispatch a (.acceptOffer x b) s = .ok () s' := by
  intro hall
  obtain ⟨nft, hnft, htr, heq⟩ : ∃ nft, (replay offeredAll).nfts (0, 0) = some nft ∧
    nft.transferable = true ∧ nft.equipped = false := ⟨_, rfl, by decide +kernel, by decide +kernel⟩
  obtain ⟨s', h⟩ := hall (replay offeredAll) (0, 0) alice bob ⟨bob, 1000, none⟩ nft
    (reachable_replay (by decide +kernel)) (by decide +kernel) (by simp [InTime]) hnft htr heq
    (by decide +kernel) (by decide +kernel) (by decide +kernel)
  have hrefused : returns (alice, .acceptOffer (0, 0) bob) (replay offeredAll) = false := by
    decide +kernel
  simp [returns, h] at hrefused

/-- Of half of it he can pay. -/
def offeredHalf : List Extrinsic :=
  [(bob, .makeOffer (0, 0) 500 none), (alice, mintTo alice), (alice, newCollection)]

theorem accepted_offeredHalf :
    ∃ s', dispatch alice (.acceptOffer (0, 0) bob) (replay offeredHalf) = .ok () s' := by
  obtain ⟨nft, hnft, htr, heq⟩ : ∃ nft, (replay offeredHalf).nfts (0, 0) = some nft ∧
    nft.transferable = true ∧ nft.equipped = false := ⟨_, rfl, by decide +kernel, by decide +kernel⟩
  have hoffer : (replay offeredHalf).offers ((0, 0), bob) = some ⟨bob, 500, none⟩ := by
    decide +kernel
  refine (acceptOffer_returns_iff (reachable_replay (by decide +kernel)) hoffer (by simp [InTime])
    hnft htr heq (by decide +kernel) (by decide +kernel) (by decide +kernel)).2 (.inr ⟨?_, ?_⟩)
  · decide +kernel
  · decide +kernel

/-- Bob lists what Alice has accepted for him, equipped as it is. -/
def listedAway : List Extrinsic := (bob, .list (0, 1) 100 none) :: equippedAway

/-- **A listing nobody can buy**: what is equipped is not sent. -/
theorem not_bought_of_reachable : ¬ ∀ (s s' : State Storage) (x : NftKey) (a b : AccountId)
    (price : Balance) (e : Option BlockNumber), Reachable s →
      dispatch a (.list x price e) s = .ok () s' → InTime s e → b ≠ a →
      price + Payments.existentialDeposit Storage ≤ Currency.free s'.ext b →
        ∃ s'', dispatch b (.buy x none) s' = .ok () s'' := by
  intro hall
  have hlist : Step (replay equippedAway) (.signed bob (.list (0, 1) 100 none))
      (replay listedAway) :=
    step_apply (e := (bob, .list (0, 1) 100 none)) (by decide +kernel)
  obtain ⟨s', h⟩ := hall _ _ (0, 1) bob charlie 100 none (reachable_replay (by decide +kernel))
    hlist (by simp [InTime]) (by decide +kernel) (by decide +kernel)
  have hrefused : returns (charlie, .buy (0, 1) none) (replay listedAway) = false := by
    decide +kernel
  simp [returns, h] at hrefused

/-- Bob buys what Alice has listed. -/
theorem bought_listed : ∃ s'', dispatch bob (.buy (0, 0) none)
    (replay [(alice, .list (0, 0) 100 none), (alice, mintTo alice), (alice, newCollection)]) =
      .ok () s'' := by
  have hlist : Step (replay [(alice, mintTo alice), (alice, newCollection)])
      (.signed alice (.list (0, 0) 100 none))
      (replay [(alice, .list (0, 0) 100 none), (alice, mintTo alice), (alice, newCollection)]) :=
    step_apply (e := (alice, .list (0, 0) 100 none)) (by decide +kernel)
  obtain ⟨nft, hnft, heq⟩ : ∃ nft,
      (replay [(alice, mintTo alice), (alice, newCollection)]).nfts (0, 0) = some nft ∧
        nft.equipped = false := ⟨_, rfl, by decide +kernel⟩
  refine (buy_returns_iff hlist (by simp [InTime]) hnft (by decide +kernel) (by decide +kernel)
    (by simp)).2 ⟨heq, .inr ?_⟩
  decide +kernel

end Mock

end Rmrk
